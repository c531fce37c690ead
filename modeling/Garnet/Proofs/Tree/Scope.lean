import Garnet.Proofs.Tree.Shape

/-! # Scopes of trees

A tree is evaluated from left to right in one frame, except for the bodies of classes and methods,
which have frames of their own. The names that a tree assigns are therefore known to what comes
after it in the same frame, and to nothing else.
-/

namespace Garnet

mutual

/-- The names that the local assignments of a tree bind in the frame that it is evaluated in, in the
order of evaluation. What is assigned in the body of a class or of a method is left out. -/
def Node.assigned : Node → List String
  | .mk kind children _ =>
    match kind, children with
    | .localAssign, .sym name :: rest => Child.allAssigned rest ++ [name]
    | .classDef, path :: superclass :: _ => path.assigned ++ superclass.assigned
    | .methodDef, _ => []
    | .singletonDef, _ => []
    | _, children => Child.allAssigned children

/-- The names that the nodes below a child assign. -/
def Child.assigned : Child → List String
  | .node inner => inner.assigned
  | _ => []

/-- The names that the nodes below a list of children assign. -/
def Child.allAssigned : List Child → List String
  | [] => []
  | child :: rest => child.assigned ++ Child.allAssigned rest

end

/-- The names of the parameters among a list of children. -/
def Child.paramNames (params : List Child) : List String :=
  params.filterMap fun
    | .node param => param.symbolAt? 0
    | _ => none

mutual

/-- Every local variable that a tree reads is known where it is read, if the given names are known
in front of the tree. The body of a class begins without known names, and the body of a method with
the names of its parameters. -/
def Node.Scoped : Node → List String → Prop
  | .mk kind children _, names =>
    match kind, children with
    | .localRef, .sym name :: _ => name ∈ names
    | .classDef, path :: superclass :: body :: _ =>
      path.Scoped names ∧ superclass.Scoped (path.assigned ++ names) ∧ body.Scoped []
    | .methodDef, _ :: .node (.mk _ params _) :: body :: _ => body.Scoped (Child.paramNames params)
    | .singletonDef, _ :: _ :: .node (.mk _ params _) :: body :: _ =>
      body.Scoped (Child.paramNames params)
    | _, children => Child.AllScoped children names

/-- The local variables below a child are known where they are read. -/
def Child.Scoped : Child → List String → Prop
  | .node inner, names => inner.Scoped names
  | _, _ => True

/-- The local variables below a list of children are known where they are read, from left to
right. -/
def Child.AllScoped : List Child → List String → Prop
  | [], _ => True
  | child :: rest, names => child.Scoped names ∧ Child.AllScoped rest (child.assigned ++ names)

end

/-- Whether the scope of a node is that of its children, read from left to right. -/
def Node.Kind.isPlain (kind : Node.Kind) : Bool :=
  kind ∉ [.localAssign, .localRef, .classDef, .methodDef, .singletonDef]

theorem Node.assigned_of_isPlain {kind : Node.Kind} (h : kind.isPlain = true)
    (children : List Child) (pos : Pos) :
    (Node.mk kind children pos).assigned = Child.allAssigned children := by
  cases kind <;> first | rfl | exact absurd h (by decide)

theorem Node.scoped_of_isPlain {kind : Node.Kind} (h : kind.isPlain = true)
    (children : List Child) (pos : Pos) (names : List String) :
    (Node.mk kind children pos).Scoped names ↔ Child.AllScoped children names := by
  cases kind <;> first | rfl | exact absurd h (by decide)

theorem append_subset_append {front names more : List String} (hsub : names ⊆ more) :
    front ++ names ⊆ front ++ more :=
  List.append_subset.2
    ⟨List.subset_append_left _ _, List.subset_append_of_subset_right _ hsub⟩

mutual

/-- More names may be known than a tree needs. -/
theorem Node.Scoped.mono {node : Node} {names more : List String} (h : node.Scoped names)
    (hsub : names ⊆ more) : node.Scoped more := by
  match node with
  | .mk kind children pos =>
    unfold Node.Scoped at h ⊢
    split at h
    · exact hsub h
    · obtain ⟨hpath, hsuper, hbody⟩ := h
      exact ⟨hpath.mono hsub, hsuper.mono (append_subset_append hsub), hbody⟩
    · exact h
    · exact h
    · exact h.mono hsub

theorem Child.Scoped.mono {child : Child} {names more : List String} (h : child.Scoped names)
    (hsub : names ⊆ more) : child.Scoped more := by
  match child with
  | .node inner => exact Node.Scoped.mono h hsub
  | .absent | .sym _ | .str _ | .int _ | .float _ | .foreign _ => trivial

theorem Child.AllScoped.mono {children : List Child} {names more : List String}
    (h : Child.AllScoped children names) (hsub : names ⊆ more) :
    Child.AllScoped children more := by
  match children with
  | [] => trivial
  | child :: rest =>
    obtain ⟨hchild, hrest⟩ := h
    exact ⟨hchild.mono hsub, hrest.mono (append_subset_append hsub)⟩

end

/-- Whether a child is no node. -/
def Child.isAtom : Child → Bool
  | .node _ => false
  | _ => true

/-- Whether a child is a literal or may stand where a part is optional. -/
def Child.isProper : Child → Bool
  | .node inner => inner.kind.isTerm
  | _ => true

/-- What a part of a program does to the names that are known: the part is well shaped, it reads no
name that is not known before it, and after it the names it assigns are known as well. -/
structure Child.Extends (child : Child) (before after : List String) : Prop where
  proper : child.isProper = true
  wellShaped : child.wellShaped = true
  known : child.Scoped before
  names (name : String) : name ∈ after ↔ name ∈ child.assigned ∨ name ∈ before

/-- What consecutive parts of a program do to the names that are known. -/
structure Child.AllExtend (children : List Child) (before after : List String) : Prop where
  proper : children.all (·.isProper) = true
  wellShaped : Child.allWellShaped children = true
  known : Child.AllScoped children before
  names (name : String) : name ∈ after ↔ name ∈ Child.allAssigned children ∨ name ∈ before

namespace Child

variable {child : Child} {children : List Child} {before mid after : List String}

theorem extends_atom (hchild : child.isAtom = true) (names : List String) :
    child.Extends names names := by
  cases child with
  | node inner => exact absurd hchild (by simp [isAtom])
  | _ => exact ⟨rfl, rfl, trivial, by simp [assigned]⟩

theorem AllExtend.nil (names : List String) : AllExtend [] names names :=
  ⟨rfl, rfl, trivial, by simp [allAssigned]⟩

theorem AllExtend.cons (hchild : child.Extends before mid) (hrest : AllExtend children mid after) :
    AllExtend (child :: children) before after := by
  refine ⟨?_, ?_, ⟨hchild.known, hrest.known.mono ?_⟩, ?_⟩
  · simp [hchild.proper, hrest.proper]
  · simp [allWellShaped, hchild.wellShaped, hrest.wellShaped]
  · intro name hname
    exact List.mem_append.2 ((hchild.names name).1 hname)
  · intro name
    rw [hrest.names, hchild.names, allAssigned, List.mem_append, or_assoc]
    exact or_left_comm

theorem AllExtend.singleton (hchild : child.Extends before after) :
    AllExtend [child] before after :=
  .cons hchild (.nil after)

/-- A node of a plain kind does to the known names what its children do. -/
theorem AllExtend.node (h : AllExtend children before after) (kind : Node.Kind)
    (hterm : kind.isTerm = true) (hplain : kind.isPlain = true)
    (hadmits : kind.admits children = true) (pos : Pos) :
    Extends (.node (.mk kind children pos)) before after := by
  refine ⟨hterm, ?_, ?_, ?_⟩
  · simp [Child.wellShaped, Node.wellShaped, hadmits, h.wellShaped]
  · exact (Node.scoped_of_isPlain hplain children pos before).2 h.known
  · intro name
    rw [h.names, Child.assigned, Node.assigned_of_isPlain hplain]

theorem Extends.localAssign {value : Node} (h : Extends (.node value) before after) (name : String)
    (pos : Pos) :
    Extends (.node (.mk .localAssign [.sym name, .node value] pos)) before (name :: after) := by
  refine ⟨rfl, ?_, ?_, ?_⟩
  · have hvalue : value.kind.isTerm = true := h.proper
    simpa [Child.wellShaped, Node.wellShaped, Node.Kind.admits, allWellShaped, isTerm, hvalue]
      using h.wellShaped
  · exact ⟨trivial, h.known, trivial⟩
  · intro other
    simp only [List.mem_cons, h.names, Child.assigned, Node.assigned, allAssigned,
      List.append_nil, List.mem_append, List.not_mem_nil, or_false]
    rw [or_comm, or_assoc, or_assoc, or_comm (a := other = name)]

theorem extends_localRef {name : String} (h : name ∈ before) (pos : Pos) :
    Extends (.node (.mk .localRef [.sym name] pos)) before before :=
  ⟨rfl, rfl, h, by simp [Child.assigned, Node.assigned, allAssigned]⟩

/-- The body of a class has a scope of its own. -/
theorem Extends.classDef {path superclass body : Child} {inside : List String}
    (hkind : path.isOf .const = true) (hpath : path.Extends before before)
    (hsuper : superclass.Extends before after) (hsuperPart : superclass.isOptional = true)
    (hbody : body.Extends [] inside) (hbodyPart : body.isOptional = true) (pos : Pos) :
    Extends (.node (.mk .classDef [path, superclass, body] pos)) before after := by
  refine ⟨rfl, ?_, ?_, ?_⟩
  · simp [Child.wellShaped, Node.wellShaped, Node.Kind.admits, allWellShaped, hkind, hsuperPart,
      hbodyPart, hpath.wellShaped, hsuper.wellShaped, hbody.wellShaped]
  · exact ⟨hpath.known, hsuper.known.mono (List.subset_append_right _ _), hbody.known⟩
  · intro name
    have hin : name ∈ path.assigned → name ∈ before := fun h => (hpath.names name).2 (.inl h)
    rw [hsuper.names, Child.assigned, Node.assigned, List.mem_append, or_assoc]
    exact ⟨.inr, fun h => h.elim (fun h => .inr (hin h)) id⟩

end Child

end Garnet
