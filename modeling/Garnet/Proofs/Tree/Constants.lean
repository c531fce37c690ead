import Garnet.Proofs.Tree.Shape

/-! # Constants in trees

The names of the constants that a tree mentions, at any depth and in any order of use. A class gets
its name from them, so what holds of these names holds of the names of classes.
-/

namespace Garnet

/-- The name that a node itself mentions as a constant, if it does. -/
def Node.Kind.ownConstant : Node.Kind → List Child → List String
  | .const, _ :: .sym name :: _ => [name]
  | _, _ => []

mutual

/-- The names of the constants in a tree, those of paths and definitions included. -/
def Node.constantNames : Node → List String
  | .mk kind children _ => kind.ownConstant children ++ Child.allConstantNames children

def Child.constantNames : Child → List String
  | .node inner => inner.constantNames
  | _ => []

def Child.allConstantNames : List Child → List String
  | [] => []
  | child :: rest => child.constantNames ++ Child.allConstantNames rest

end

/-- A name that can be a part of a qualified one: the parts are separated by colons. -/
def IsSegment (name : String) : Prop :=
  name ≠ "" ∧ ':' ∉ name.toList

/-- All constants that a child mentions have allowed names. -/
def Child.NamesOnly (allowed : String → Prop) (child : Child) : Prop :=
  ∀ name ∈ child.constantNames, allowed name

/-- All constants that a tree mentions have allowed names. -/
def Node.NamesOnly (allowed : String → Prop) (node : Node) : Prop :=
  ∀ name ∈ node.constantNames, allowed name

@[simp] theorem Child.namesOnly_node {allowed : String → Prop} {inner : Node} :
    (Child.node inner).NamesOnly allowed ↔ inner.NamesOnly allowed := Iff.rfl

@[simp] theorem Child.namesOnly_absent {allowed : String → Prop} :
    Child.absent.NamesOnly allowed :=
  fun _ hname => absurd hname List.not_mem_nil

@[simp] theorem Child.namesOnly_sym {allowed : String → Prop} (text : String) :
    (Child.sym text).NamesOnly allowed :=
  fun _ hname => absurd hname List.not_mem_nil

theorem Child.mem_allConstantNames {children : List Child} {name : String} :
    name ∈ Child.allConstantNames children ↔ ∃ child ∈ children, name ∈ child.constantNames := by
  induction children with
  | nil => simp [allConstantNames]
  | cons first rest ih => simp [allConstantNames, ih]

namespace Node.NamesOnly

variable {allowed : String → Prop} {kind : Node.Kind} {children : List Child} {pos : Pos}

theorem child (h : (Node.mk kind children pos).NamesOnly allowed) {child : Child}
    (hchild : child ∈ children) : child.NamesOnly allowed := by
  intro name hname
  have hall := Child.mem_allConstantNames.2 ⟨child, hchild, hname⟩
  exact h name (List.mem_append_right _ hall)

/-- The name of a constant stands after its namespace. -/
theorem const {space : Child} {name : String} {rest : List Child}
    (h : (Node.mk .const (space :: .sym name :: rest) pos).NamesOnly allowed) : allowed name :=
  h name (List.mem_append_left _ (List.mem_singleton_self name))

theorem ofParts (hown : ∀ name ∈ kind.ownConstant children, allowed name)
    (h : ∀ child ∈ children, child.NamesOnly allowed) :
    (Node.mk kind children pos).NamesOnly allowed := by
  intro name hname
  rcases List.mem_append.1 hname with hmem | hmem
  · exact hown name hmem
  · obtain ⟨child, hchild, hmem⟩ := Child.mem_allConstantNames.1 hmem
    exact h child hchild name hmem

end Node.NamesOnly

/-- Only a node of one kind mentions a constant itself. -/
theorem Node.NamesOnly.ofOther {allowed : String → Prop} {kind : Node.Kind} (hkind : kind ≠ .const)
    {children : List Child} (h : ∀ child ∈ children, child.NamesOnly allowed) (pos : Pos) :
    (Node.mk kind children pos).NamesOnly allowed := by
  refine .ofParts (fun name hname => ?_) h
  cases kind with
  | const => exact absurd rfl hkind
  | _ => cases hname

theorem Child.NamesOnly.ofNode? {allowed : String → Prop} {node : Option Node}
    (h : ∀ inner ∈ node, inner.NamesOnly allowed) : (Child.ofNode? node).NamesOnly allowed := by
  cases node with
  | none => exact Child.namesOnly_absent
  | some inner => exact h inner rfl

/-- Of names without a condition, every tree mentions allowed ones only. -/
theorem Node.namesOnly_true (node : Node) : node.NamesOnly fun _ => True :=
  fun _ _ => trivial

theorem Child.namesOnly_true (child : Child) : child.NamesOnly fun _ => True :=
  fun _ _ => trivial

end Garnet
