import Garnet.Proofs.Text.Quoted
import Garnet.Proofs.Tree.Places

/-! # Printed trees are unambiguous

The first character of a part of a printed tree tells what sort of part it is, and the part itself
tells where it ends: a node has brackets, a text has quotes, and everything else ends at the next
space or closing bracket. So a tree can be read off its printed form, apart from places, if no name
in it has a space or a closing bracket, and if there are no parts that look like others: a number
with a fraction may look like one without, and of a value that the language has no use for only the
printed form is known.
-/

namespace Garnet

/-! ### Where parts end -/

/-- Whether a character ends a part that has no end mark of its own. -/
def endsPart (c : Char) : Bool :=
  c == ' ' || c == ')'

/-- No character of a text ends a part. -/
def Unbroken (text : String) : Prop :=
  ∀ c ∈ text.toList, endsPart c = false

instance (text : String) : Decidable (Unbroken text) :=
  List.decidableBAll _ text.toList

/-- A text begins with a character that ends the part in front of it. -/
def BeginsWithEnd (text : List Char) : Prop :=
  ∃ c ∈ text.head?, endsPart c = true

theorem Unbroken.append_inj {text other : String} (h : Unbroken text) (h' : Unbroken other)
    {rest more : List Char} (hrest : BeginsWithEnd rest) (hmore : BeginsWithEnd more)
    (heq : text.toList ++ rest = other.toList ++ more) : text = other ∧ rest = more := by
  -- The longer text would have the end of the shorter one in it.
  have hinside {text between rest : List Char} (hrest : BeginsWithEnd (between ++ rest))
      (htext : ∀ c ∈ text ++ between, endsPart c = false) : between = [] := by
    cases between with
    | nil => rfl
    | cons d between =>
      obtain ⟨c, hc, hend⟩ := hrest
      cases hc
      rw [htext d (List.mem_append_right _ List.mem_cons_self)] at hend
      cases hend
  rcases List.append_eq_append_iff.1 heq with ⟨between, hother, rfl⟩ | ⟨between, htext, rfl⟩
  · have hnil := hinside hrest fun c hc => h' c (hother ▸ hc)
    rw [hnil, List.append_nil] at hother
    exact ⟨(String.toList_inj.1 hother).symm, by rw [hnil, List.nil_append]⟩
  · have hnil := hinside hmore fun c hc => h c (htext ▸ hc)
    rw [hnil, List.append_nil] at htext
    exact ⟨String.toList_inj.1 htext, by rw [hnil, List.nil_append]⟩

/-! ### Integers and kinds -/

/-- Whether a character can stand in a printed integer. -/
def isNumeral (c : Char) : Bool :=
  c == '-' || c.isDigit

theorem isDigit_of_mem_repr {n : Nat} {c : Char} (h : c ∈ n.repr.toList) : c.isDigit = true := by
  rw [Nat.toList_repr] at h
  exact Nat.isDigit_of_mem_toDigits (by decide) (by decide) h

theorem eq_of_repr_eq {m n : Nat} (h : m.repr = n.repr) : m = n := by
  have hread := congrArg (fun text => Nat.ofDigitChars 10 text.toList 0) h
  simpa [Nat.toList_repr, Nat.ofDigitChars_ten_toDigits] using hread

theorem toList_toString_negSucc (n : Nat) :
    (toString (Int.negSucc n)).toList = '-' :: (n + 1).repr.toList :=
  String.toList_append

theorem isNumeral_of_mem_toString {value : Int} {c : Char} (h : c ∈ (toString value).toList) :
    isNumeral c = true := by
  unfold isNumeral
  cases value with
  | ofNat n => simp [isDigit_of_mem_repr h]
  | negSucc n =>
    rw [toList_toString_negSucc, List.mem_cons] at h
    rcases h with rfl | h
    · rfl
    · simp [isDigit_of_mem_repr h]

theorem eq_of_toString_eq {value other : Int} (h : toString value = toString other) :
    value = other := by
  have hsign (m n : Nat) (h : toString (Int.ofNat m) = toString (Int.negSucc n)) : False := by
    have hlist : m.repr.toList = '-' :: (n + 1).repr.toList := by
      rw [← toList_toString_negSucc, ← h]
      rfl
    have hdigit := isDigit_of_mem_repr (hlist ▸ List.mem_cons_self)
    cases hdigit
  cases value with
  | ofNat m =>
    cases other with
    | ofNat n => exact congrArg Int.ofNat (eq_of_repr_eq h)
    | negSucc n => exact (hsign m n h).elim
  | negSucc m =>
    cases other with
    | ofNat n => exact (hsign n m h.symm).elim
    | negSucc n =>
      have hlist := congrArg String.toList h
      rw [toList_toString_negSucc, toList_toString_negSucc] at hlist
      have hsucc := eq_of_repr_eq (String.toList_inj.1 (List.cons.inj hlist).2)
      exact congrArg Int.negSucc (Nat.succ.inj hsucc)

theorem toList_toString_ne_nil (value : Int) : (toString value).toList ≠ [] := by
  cases value with
  | ofNat n =>
    have hdigits := Nat.toList_repr (n := n)
    exact fun hnil => Nat.toDigits_ne_nil (hdigits.symm.trans hnil)
  | negSucc n =>
    rw [toList_toString_negSucc]
    exact List.cons_ne_nil _ _

theorem unbroken_toString (value : Int) : Unbroken (toString value) := by
  intro c hc
  have hnumeral := isNumeral_of_mem_toString hc
  by_contra hend
  rw [Bool.not_eq_false, endsPart, Bool.or_eq_true, beq_iff_eq, beq_iff_eq] at hend
  rcases hend with rfl | rfl <;> cases hnumeral

namespace Node.Kind

theorem ofName_name : ∀ kind ∈ known, ofName kind.name = kind := by
  decide +kernel

theorem unbroken_name : ∀ kind ∈ known, Unbroken kind.name := by
  decide +kernel

end Node.Kind

/-! ### Trees -/

mutual

/-- Whether all parts of a tree can be told from their printed forms. -/
def Node.Legible : Node → Prop
  | .mk kind children _ => kind ∈ Node.Kind.known ∧ Child.AllLegible children

def Child.Legible : Child → Prop
  | .absent | .str _ | .int _ => True
  | .node inner => inner.Legible
  | .sym name => Unbroken name
  | .float _ | .foreign _ => False

def Child.AllLegible : List Child → Prop
  | [] => True
  | child :: rest => child.Legible ∧ Child.AllLegible rest

end

theorem Child.allLegible_iff {children : List Child} :
    Child.AllLegible children ↔ ∀ child ∈ children, child.Legible := by
  induction children with
  | nil => simp [AllLegible]
  | cons first rest ih => simp [AllLegible, ih]

/-- What the first character of a part tells. All numerals tell the same. -/
def partMark (c : Char) : Char :=
  if isNumeral c then '0' else c

/-- What the first character of a part tells, by its constructor. -/
def Child.mark : Child → Char
  | .absent => 'n'
  | .node _ => '('
  | .sym _ => ':'
  | .str _ => '"'
  | .int _ | .float _ | .foreign _ => '0'

theorem Child.map_partMark_head?_print {child : Child} (h : child.Legible) (rest : List Char) :
    (child.print rest).head?.map partMark = some child.mark := by
  match child with
  | .absent | .node (.mk _ _ _) | .sym _ => rfl
  | .str text =>
    rw [Child.print, Text.toList_quote]
    rfl
  | .int value =>
    rw [Child.print]
    cases hlist : (toString value).toList with
    | nil => exact absurd hlist (toList_toString_ne_nil value)
    | cons c digits =>
      have hnumeral : isNumeral c = true :=
        isNumeral_of_mem_toString (hlist ▸ List.mem_cons_self)
      rw [List.cons_append, List.head?_cons, Option.map_some, partMark, if_pos hnumeral, mark]
  | .float _ | .foreign _ => exact h.elim

/-- What follows the name of a kind begins with the end of it. -/
theorem Child.beginsWithEnd_printAll (children : List Child) (rest : List Char) :
    BeginsWithEnd (Child.printAll children (')' :: rest)) := by
  cases children with
  | nil => exact ⟨')', rfl, rfl⟩
  | cons child more => exact ⟨' ', rfl, rfl⟩

mutual

/-- A node and what follows it are determined by the two together. -/
theorem Node.print_inj {node other : Node} (h : node.Legible) (h' : other.Legible)
    {rest more : List Char} (heq : node.print rest = other.print more) :
    node.erase = other.erase ∧ rest = more := by
  match node, other with
  | .mk kind children pos, .mk otherKind others place =>
    obtain ⟨hkind, hchildren⟩ := h
    obtain ⟨hkind', hothers⟩ := h'
    have hhead := (List.cons.inj heq).2
    obtain ⟨hname, hparts⟩ := (Node.Kind.unbroken_name kind hkind).append_inj
      (Node.Kind.unbroken_name otherKind hkind') (Child.beginsWithEnd_printAll children rest)
      (Child.beginsWithEnd_printAll others more) hhead
    have hsame : kind = otherKind := by
      rw [← Node.Kind.ofName_name kind hkind, ← Node.Kind.ofName_name otherKind hkind', hname]
    obtain ⟨herase, hrest⟩ := Child.printAll_inj hchildren hothers hparts
    exact ⟨congrArg₂ (fun kind children => Node.mk kind children .unknown) hsame herase, hrest⟩

theorem Child.print_inj {child other : Child} (h : child.Legible) (h' : other.Legible)
    {rest more : List Char} (hrest : BeginsWithEnd rest) (hmore : BeginsWithEnd more)
    (heq : child.print rest = other.print more) : child.erase = other.erase ∧ rest = more := by
  have hmark : child.mark = other.mark := by
    have hfirst := Child.map_partMark_head?_print h rest
    rw [heq, Child.map_partMark_head?_print h' more] at hfirst
    exact (Option.some.inj hfirst).symm
  cases child with
  | absent =>
    cases other with
    | absent => exact ⟨rfl, List.append_cancel_left heq⟩
    | _ => exact absurd hmark (by simp [Child.mark])
  | node inner =>
    cases other with
    | node found =>
      obtain ⟨herase, hbehind⟩ := Node.print_inj h h' heq
      exact ⟨congrArg Child.node herase, hbehind⟩
    | _ => exact absurd hmark (by simp [Child.mark])
  | sym name =>
    cases other with
    | sym found =>
      obtain ⟨hname, hbehind⟩ := Unbroken.append_inj h h' hrest hmore (List.cons.inj heq).2
      exact ⟨congrArg Child.sym hname, hbehind⟩
    | _ => exact absurd hmark (by simp [Child.mark])
  | str text =>
    cases other with
    | str found =>
      rw [Child.print, Child.print] at heq
      obtain ⟨htext, hbehind⟩ := Text.quote_append_inj heq
      exact ⟨congrArg Child.str htext, hbehind⟩
    | _ => exact absurd hmark (by simp [Child.mark])
  | int value =>
    cases other with
    | int found =>
      rw [Child.print, Child.print] at heq
      obtain ⟨hvalue, hbehind⟩ :=
        (unbroken_toString value).append_inj (unbroken_toString found) hrest hmore heq
      exact ⟨congrArg Child.int (eq_of_toString_eq hvalue), hbehind⟩
    | float | foreign => exact h'.elim
    | _ => exact absurd hmark (by simp [Child.mark])
  | float | foreign => exact h.elim

theorem Child.printAll_inj {children others : List Child} (h : Child.AllLegible children)
    (h' : Child.AllLegible others) {rest more : List Char}
    (heq : Child.printAll children (')' :: rest) = Child.printAll others (')' :: more)) :
    Child.eraseAll children = Child.eraseAll others ∧ rest = more := by
  match children, others with
  | [], [] => exact ⟨rfl, (List.cons.inj heq).2⟩
  | [], _ :: _ => cases heq
  | _ :: _, [] => cases heq
  | child :: further, other :: beyond =>
    obtain ⟨hfirst, hbehind⟩ := Child.print_inj h.1 h'.1 (Child.beginsWithEnd_printAll further rest)
      (Child.beginsWithEnd_printAll beyond more) (List.cons.inj heq).2
    obtain ⟨hothers, hrest⟩ := Child.printAll_inj h.2 h'.2 hbehind
    exact ⟨congrArg₂ List.cons hfirst hothers, hrest⟩

end

end Garnet
