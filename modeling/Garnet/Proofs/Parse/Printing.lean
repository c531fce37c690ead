import Garnet.Proofs.Parse.Names
import Garnet.Proofs.Parse.Scope
import Garnet.Proofs.Tree.Printer

/-! # The printed tree of an accepted text

All names in the tree of an accepted text come from tokens, so there are no spaces and no brackets
in them. Hence the tree can be told from its printed form, unless there are numbers with a fraction.
-/

namespace Garnet

open Parse

/-- Neither spaces nor brackets are characters of names. -/
theorem Token.Wordlike.unbroken {text : String} (h : Wordlike text) : Unbroken text := by
  intro c hc
  by_contra hend
  rw [Bool.not_eq_false, endsPart, Bool.or_eq_true, beq_iff_eq, beq_iff_eq] at hend
  have hchar := h c hc
  rcases hend with rfl | rfl
  · revert hchar
    decide
  · revert hchar
    decide

/-! ### Accepted texts -/

/-- Whether a child of a node is a part that can be told from its printed form, or a number under
a node that says so. -/
def Child.fits (kind : Node.Kind) : Child → Bool
  | .float _ => kind = .float
  | .foreign _ => false
  | _ => true

theorem Child.fits_of_isPart {child : Child} (h : child.isPart = true) (kind : Node.Kind) :
    child.fits kind = true := by
  cases child with
  | absent | node inner => rfl
  | _ => cases h

namespace Node.Kind.Admitted

variable {kind : Node.Kind} {children : List Child}

theorem mem_known (h : kind.Admitted children) : kind ∈ known := by
  cases h <;> decide

theorem fits (h : kind.Admitted children) : ∀ child ∈ children, child.fits kind = true := by
  have hterm {child : Child} (hchild : child.isTerm = true) : child.fits kind = true :=
    Child.fits_of_isPart (Child.isPart_of_isOptional (Child.isOptional_of_isTerm hchild)) kind
  have hoptional {child : Child} (hchild : child.isOptional = true) : child.fits kind = true :=
    Child.fits_of_isPart (Child.isPart_of_isOptional hchild) kind
  have hname (name : String) : (Child.sym name).fits kind = true := rfl
  have hnode (node : Node) : (Child.node node).fits kind = true := rfl
  cases h with
  | str | int | sym | localRef | ivarRef | param => simp [Child.fits]
  | float => simp [Child.fits]
  | trueRef | falseRef | selfRef | nilRef => simp
  | localAssign name value hvalue | ivarAssign name value hvalue => simp [hname, hterm hvalue]
  | constAssign space name value hspace hvalue => simp [hname, hoptional hspace, hterm hvalue]
  | const space name hspace => simp [hname, hoptional hspace]
  | begin children hchildren => exact fun child hchild => hterm (hchildren child hchild)
  | send receiver name args hreceiver hargs =>
    exact List.forall_mem_cons.2 ⟨hoptional hreceiver,
      List.forall_mem_cons.2 ⟨hname name, fun arg harg => hterm (hargs arg harg)⟩⟩
  | params children hchildren =>
    intro child hchild
    obtain ⟨parts, pos, rfl⟩ := Child.eq_node_of_isOf (hchildren child hchild)
    rfl
  | classDef steps place superclass body hsuper hbody =>
    simp [hnode, hoptional hsuper, hoptional hbody]
  | methodDef name params place body hbody => simp [hname, hnode, hoptional hbody]
  | singletonDef parts params pos place name body hbody =>
    simp [hname, hnode, hoptional hbody]

end Node.Kind.Admitted

theorem Child.wellShaped_of_mem {children : List Child}
    (h : Child.allWellShaped children = true) {child : Child} (hchild : child ∈ children) :
    child.wellShaped = true := by
  induction children with
  | nil => exact absurd hchild List.not_mem_nil
  | cons first rest ih =>
    obtain ⟨hfirst, hrest⟩ := Bool.and_eq_true_iff.1 h
    rcases List.mem_cons.1 hchild with rfl | hmem
    · exact hfirst
    · exact ih hrest hmem

/-- A tree that is well shaped and well spelled, and has no numbers with a fraction. -/
structure Node.Plain (node : Node) : Prop where
  wellShaped : node.wellShaped = true
  wellSpelled : node.WellSpelled
  whole : ∀ entry ∈ node.preorder, entry.1 ≠ .float

theorem Node.Plain.child {kind : Node.Kind} {children : List Child} {pos : Pos} {inner : Node}
    (h : (Node.mk kind children pos).Plain) (hchild : .node inner ∈ children) : inner.Plain := by
  obtain ⟨-, hshapes⟩ := Bool.and_eq_true_iff.1 h.wellShaped
  have hsub := Child.preorder_subset_visitAll hchild
  exact ⟨Child.wellShaped_of_mem hshapes hchild, h.wellSpelled.child hchild,
    fun entry hentry => h.whole entry (List.mem_cons_of_mem _ (hsub hentry))⟩

theorem Node.Plain.legible {node : Node} (h : node.Plain) : node.Legible := by
  have hall : ∀ node : Node, (node.Plain → node.Legible) ∧ _ :=
    Node.induction fun kind children pos below hplain => ?_
  · exact (hall node).1 h
  obtain ⟨hadmits, -⟩ := Bool.and_eq_true_iff.1 hplain.wellShaped
  have hadmitted := Node.Kind.admitted_of_admits hadmits
  refine ⟨hadmitted.mem_known, Child.allLegible_iff.2 fun child hchild => ?_⟩
  cases child with
  | absent | str | int => trivial
  | node inner => exact (below _ hchild).1 (hplain.child hchild)
  | sym name => exact (hplain.wellSpelled.sym hchild).unbroken
  | float value =>
    have hkind : kind = .float := of_decide_eq_true (hadmitted.fits _ hchild)
    exact absurd hkind (hplain.whole _ List.mem_cons_self)
  | foreign text => cases hadmitted.fits _ hchild

theorem plain_of_parse {source : String} {locals : List String} {node : Node}
    (h : parse source locals = .ok (some node))
    (hwhole : ∀ entry ∈ node.preorder, entry.1 ≠ .float) : node.Plain := by
  obtain ⟨after, hextends⟩ := extends_of_parse h
  exact ⟨hextends.wellShaped, wellSpelled_of_parse h node rfl, hwhole⟩

/-- Trees are printed alike exactly if they are the same but for places. -/
theorem Node.text_eq_iff {node other : Node} (h : node.Legible) (h' : other.Legible) :
    node.text = other.text ↔ node.erase = other.erase := by
  constructor
  · intro htext
    exact (Node.print_inj h h' (String.ofList_injective htext)).1
  · intro hsame
    have herased := congrArg Node.text hsame
    rwa [Node.erase, Node.text_mapPos, Node.erase, Node.text_mapPos] at herased

/-- Two accepted texts without numbers with a fraction have trees with the same printed form exactly
if the trees are the same but for places. -/
theorem textOf_eq_iff {source other : String} {locals known : List String}
    {tree found : Option Node} (h : parse source locals = .ok tree)
    (h' : parse other known = .ok found)
    (hfloat : ∀ node ∈ tree, ∀ entry ∈ node.preorder, entry.1 ≠ .float)
    (hfloat' : ∀ node ∈ found, ∀ entry ∈ node.preorder, entry.1 ≠ .float) :
    Node.textOf tree = Node.textOf found ↔ tree.map Node.erase = found.map Node.erase := by
  have hnil (node : Node) : Node.textOf none ≠ Node.textOf (some node) := by
    intro hsame
    have hchars : "nil".toList = node.chars := by
      rw [← String.toList_ofList (l := node.chars)]
      exact congrArg String.toList hsame
    cases node
    cases hchars
  cases tree with
  | none =>
    cases found with
    | none => exact iff_of_true rfl rfl
    | some node => exact iff_of_false (hnil node) (by simp)
  | some node =>
    cases found with
    | none => exact iff_of_false (hnil node).symm (by simp)
    | some twin =>
      have hlegible := (plain_of_parse h (hfloat node rfl)).legible
      have htwin := (plain_of_parse h' (hfloat' twin rfl)).legible
      rw [Node.textOf, Node.textOf, Node.text_eq_iff hlegible htwin]
      simp

/-- An assignment and a call, on two lines and on one. -/
theorem textOf_eq_iff_respelled :
    ∃ tree found, parse "x = 1 + 2\nputs(x, :y?)" [] = .ok tree ∧
      parse "x=1+2; puts x, :y?" [] = .ok found ∧
      Node.textOf tree = "(begin (lvasgn :x (send (int 1) :+ (int 2))) " ++
        "(send nil :puts (lvar :x) (sym :y?)))" ∧
      tree.map Node.erase = found.map Node.erase := by
  let view (tree : Option Node) : String × Bool :=
    (Node.textOf tree, decide (∀ node ∈ tree, ∀ entry ∈ node.preorder, entry.1 ≠ .float))
  have hfirst : (parse "x = 1 + 2\nputs(x, :y?)" []).toOption.map view =
      some ("(begin (lvasgn :x (send (int 1) :+ (int 2))) " ++
        "(send nil :puts (lvar :x) (sym :y?)))", true) := by
    decide +kernel
  have hsecond : (parse "x=1+2; puts x, :y?" []).toOption.map view =
      some ("(begin (lvasgn :x (send (int 1) :+ (int 2))) " ++
        "(send nil :puts (lvar :x) (sym :y?)))", true) := by
    decide +kernel
  obtain ⟨tree, hparse, htree⟩ := exists_of_parse_map hfirst
  obtain ⟨found, hparse', hfound⟩ := exists_of_parse_map hsecond
  obtain ⟨htext, hwhole⟩ := Prod.mk.inj htree
  obtain ⟨htext', hwhole'⟩ := Prod.mk.inj hfound
  have hiff := textOf_eq_iff hparse hparse' (of_decide_eq_true hwhole) (of_decide_eq_true hwhole')
  exact ⟨tree, found, hparse, hparse', htext, hiff.1 (htext.trans htext'.symm)⟩

end Garnet
