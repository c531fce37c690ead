import Garnet.Evaluation.Node

/-! # Shapes of trees

A kind of node admits some lists of children and no others. A tree is well shaped if this holds at
each of its nodes. An absent child stands only where a part is optional: the receiver of a message,
the namespace of a constant, the superclass and the body of a class, and the body of a method.
-/

namespace Garnet

/-! ### Induction over trees -/

/-- If a child is a node, the node has a property. -/
def Child.Satisfies (property : Node → Prop) : Child → Prop
  | .node inner => property inner
  | _ => True

theorem Child.Satisfies.mono {property weaker : Node → Prop} {child : Child}
    (h : child.Satisfies property) (himp : ∀ node, property node → weaker node) :
    child.Satisfies weaker := by
  cases child with
  | node inner => exact himp inner h
  | _ => trivial

mutual

/-- The hypothesis reaches two levels down, because a rule may look into the children of a child. -/
theorem Node.induction {property : Node → Prop}
    (step : ∀ kind children pos,
      (∀ child ∈ children, child.Satisfies fun inner =>
        property inner ∧ ∀ deeper ∈ inner.children, deeper.Satisfies property) →
      property (.mk kind children pos)) (node : Node) :
    property node ∧ ∀ child ∈ node.children, child.Satisfies property := by
  match node with
  | .mk kind children pos =>
    have hbelow := Child.induction step children
    refine ⟨step kind children pos hbelow, ?_⟩
    intro child hchild
    exact (hbelow child hchild).mono fun _ => And.left

theorem Child.induction {property : Node → Prop}
    (step : ∀ kind children pos,
      (∀ child ∈ children, child.Satisfies fun inner =>
        property inner ∧ ∀ deeper ∈ inner.children, deeper.Satisfies property) →
      property (.mk kind children pos)) (children : List Child) :
    ∀ child ∈ children, child.Satisfies fun inner =>
      property inner ∧ ∀ deeper ∈ inner.children, deeper.Satisfies property := by
  match children with
  | [] => exact fun _ hchild => absurd hchild List.not_mem_nil
  | .node inner :: rest =>
    intro child hchild
    rcases List.mem_cons.1 hchild with rfl | hchild
    · exact Node.induction step inner
    · exact Child.induction step rest child hchild
  | .absent :: rest | .sym _ :: rest | .str _ :: rest | .int _ :: rest | .float _ :: rest
  | .foreign _ :: rest =>
    intro child hchild
    rcases List.mem_cons.1 hchild with rfl | hchild
    · trivial
    · exact Child.induction step rest child hchild

end

/-! ### Lists of nodes -/

mutual

theorem Node.visit_eq_append (node : Node) (rest : List (Node.Kind × Pos)) :
    node.visit rest = node.visit [] ++ rest := by
  match node with
  | .mk kind children pos =>
    rw [Node.visit, Node.visit, Child.visitAll_eq_append children, List.cons_append]

theorem Child.visitAll_eq_append (children : List Child) (rest : List (Node.Kind × Pos)) :
    Child.visitAll children rest = Child.visitAll children [] ++ rest := by
  match children with
  | [] => rfl
  | child :: more =>
    rw [Child.visitAll, Child.visitAll, Child.visit_eq_append child (Child.visitAll more rest),
      Child.visit_eq_append child (Child.visitAll more []), Child.visitAll_eq_append more rest,
      List.append_assoc]

theorem Child.visit_eq_append (child : Child) (rest : List (Node.Kind × Pos)) :
    child.visit rest = child.visit [] ++ rest := by
  match child with
  | .node inner =>
    rw [Child.visit, Child.visit]
    exact Node.visit_eq_append inner rest
  | .absent | .sym _ | .str _ | .int _ | .float _ | .foreign _ => rfl

end

theorem Child.preorder_subset_visitAll {inner : Node} {children : List Child}
    (h : .node inner ∈ children) : inner.preorder ⊆ Child.visitAll children [] := by
  induction children with
  | nil => exact absurd h List.not_mem_nil
  | cons first rest ih =>
    rw [Child.visitAll, Child.visit_eq_append]
    rcases List.mem_cons.1 h with rfl | hrest
    · exact List.subset_append_left _ _
    · exact List.subset_append_of_subset_right _ (ih hrest)

/-! ### Shapes -/

/-- Whether a child is a node of a given kind. -/
def Child.isOf (kind : Node.Kind) : Child → Bool
  | .node inner => inner.kind = kind
  | _ => false

/-- Whether nodes of a kind stand for values: all but parameters, their lists, and what the language
does not know. -/
def Node.Kind.isTerm : Node.Kind → Bool
  | .param | .params | .other _ => false
  | _ => true

/-- Whether a child is a node that stands for a value. -/
def Child.isTerm : Child → Bool
  | .node inner => inner.kind.isTerm
  | _ => false

/-- Whether a child is absent or a node that stands for a value. -/
def Child.isOptional : Child → Bool
  | .absent => true
  | child => child.isTerm

/-- Whether a node of this kind may have these children. Of a child that is a node, only the kind is
looked at. -/
def Node.Kind.admits : Node.Kind → List Child → Bool
  | .str, [.str _] => true
  | .int, [.int _] => true
  | .float, [.float _] => true
  | .sym, [.sym _] => true
  | .trueRef, [] => true
  | .falseRef, [] => true
  | .selfRef, [] => true
  | .nilRef, [] => true
  | .localRef, [.sym _] => true
  | .ivarRef, [.sym _] => true
  | .localAssign, [.sym _, value] => value.isTerm
  | .ivarAssign, [.sym _, value] => value.isTerm
  | .constAssign, [space, .sym _, value] => space.isOptional && value.isTerm
  | .const, [space, .sym _] => space.isOptional
  | .begin, children => children.all (·.isTerm)
  | .send, receiver :: .sym _ :: args => receiver.isOptional && args.all (·.isTerm)
  | .param, [.sym _] => true
  | .params, children => children.all (·.isOf .param)
  | .classDef, [path, superclass, body] =>
    path.isOf .const && superclass.isOptional && body.isOptional
  | .methodDef, [.sym _, listed, body] => listed.isOf .params && body.isOptional
  | .singletonDef, [owner, .sym _, listed, body] =>
    owner.isOf .selfRef && listed.isOf .params && body.isOptional
  | _, _ => false

mutual

/-- Whether every node of a tree has children that its kind admits. -/
def Node.wellShaped : Node → Bool
  | .mk kind children _ => kind.admits children && Child.allWellShaped children

/-- Whether all nodes below a child are well shaped. -/
def Child.wellShaped : Child → Bool
  | .node inner => inner.wellShaped
  | _ => true

/-- Whether all nodes below a list of children are well shaped. -/
def Child.allWellShaped : List Child → Bool
  | [] => true
  | child :: rest => child.wellShaped && Child.allWellShaped rest

end

/-- The kinds of nodes that programs may have and that the evaluator has no rule for. -/
def Node.Kind.unsupported : List Node.Kind :=
  [.int, .float, .sym, .trueRef, .falseRef, .singletonDef, .constAssign]

theorem Child.allWellShaped_map_node {nodes : List Node} :
    Child.allWellShaped (nodes.map .node) = true ↔ ∀ node ∈ nodes, node.wellShaped = true := by
  induction nodes with
  | nil => simp [allWellShaped]
  | cons node rest ih => simp [allWellShaped, wellShaped, ih]

theorem Child.isOptional_of_isTerm {child : Child} (h : child.isTerm = true) :
    child.isOptional = true := by
  cases child with
  | absent => rfl
  | _ => exact h

theorem Child.isPart_of_isOptional {child : Child} (h : child.isOptional = true) :
    child.isPart = true := by
  cases child with
  | absent => rfl
  | node inner => rfl
  | _ => exact absurd h (by simp [isOptional, isTerm])

theorem Child.eq_node_of_isOf {kind : Node.Kind} {child : Child} (h : child.isOf kind = true) :
    ∃ children pos, child = .node (.mk kind children pos) := by
  match child with
  | .node (.mk other children pos) =>
    have hkind : other = kind := of_decide_eq_true h
    rw [hkind]
    exact ⟨children, pos, rfl⟩
  | .absent | .sym _ | .str _ | .int _ | .float _ | .foreign _ => exact absurd h (by simp [isOf])

/-! ### The children that a kind admits -/

namespace Node.Kind

/-- The lists of children that each kind admits. -/
inductive Admitted : Node.Kind → List Child → Prop
  | str (text : String) : Admitted .str [.str text]
  | int (value : Int) : Admitted .int [.int value]
  | float (value : Binary64) : Admitted .float [.float value]
  | sym (name : String) : Admitted .sym [.sym name]
  | trueRef : Admitted .trueRef []
  | falseRef : Admitted .falseRef []
  | selfRef : Admitted .selfRef []
  | nilRef : Admitted .nilRef []
  | localRef (name : String) : Admitted .localRef [.sym name]
  | ivarRef (name : String) : Admitted .ivarRef [.sym name]
  | localAssign (name : String) (value : Child) (hvalue : value.isTerm = true) :
    Admitted .localAssign [.sym name, value]
  | ivarAssign (name : String) (value : Child) (hvalue : value.isTerm = true) :
    Admitted .ivarAssign [.sym name, value]
  | constAssign (space : Child) (name : String) (value : Child) (hspace : space.isOptional = true)
    (hvalue : value.isTerm = true) : Admitted .constAssign [space, .sym name, value]
  | const (space : Child) (name : String) (hspace : space.isOptional = true) :
    Admitted .const [space, .sym name]
  | begin (children : List Child) (hchildren : ∀ child ∈ children, child.isTerm = true) :
    Admitted .begin children
  | send (receiver : Child) (name : String) (args : List Child)
    (hreceiver : receiver.isOptional = true) (hargs : ∀ arg ∈ args, arg.isTerm = true) :
    Admitted .send (receiver :: .sym name :: args)
  | param (name : String) : Admitted .param [.sym name]
  | params (children : List Child) (hchildren : ∀ child ∈ children, child.isOf .param = true) :
    Admitted .params children
  | classDef (steps : List Child) (place : Pos) (superclass body : Child)
    (hsuper : superclass.isOptional = true) (hbody : body.isOptional = true) :
    Admitted .classDef [.node (.mk .const steps place), superclass, body]
  | methodDef (name : String) (params : List Child) (place : Pos) (body : Child)
    (hbody : body.isOptional = true) :
    Admitted .methodDef [.sym name, .node (.mk .params params place), body]
  | singletonDef (children params : List Child) (pos place : Pos) (name : String) (body : Child)
    (hbody : body.isOptional = true) :
    Admitted .singletonDef
      [.node (.mk .selfRef children pos), .sym name, .node (.mk .params params place), body]

theorem admitted_of_admits {kind : Node.Kind} {children : List Child}
    (h : kind.admits children = true) : Admitted kind children := by
  unfold admits at h
  split at h
  next text => exact .str text
  next value => exact .int value
  next value => exact .float value
  next name => exact .sym name
  next => exact .trueRef
  next => exact .falseRef
  next => exact .selfRef
  next => exact .nilRef
  next name => exact .localRef name
  next name => exact .ivarRef name
  next name value => exact .localAssign name value h
  next name value => exact .ivarAssign name value h
  next space name value =>
    obtain ⟨hspace, hvalue⟩ := Bool.and_eq_true_iff.1 h
    exact .constAssign space name value hspace hvalue
  next space name => exact .const space name h
  next => exact .begin _ (List.all_eq_true.1 h)
  next receiver name args =>
    obtain ⟨hreceiver, hargs⟩ := Bool.and_eq_true_iff.1 h
    exact .send receiver name args hreceiver (List.all_eq_true.1 hargs)
  next name => exact .param name
  next => exact .params _ (List.all_eq_true.1 h)
  next path superclass body =>
    obtain ⟨hhead, hbody⟩ := Bool.and_eq_true_iff.1 h
    obtain ⟨hpath, hsuper⟩ := Bool.and_eq_true_iff.1 hhead
    obtain ⟨steps, place, rfl⟩ := Child.eq_node_of_isOf hpath
    exact .classDef steps place superclass body hsuper hbody
  next name listed body =>
    obtain ⟨hlisted, hbody⟩ := Bool.and_eq_true_iff.1 h
    obtain ⟨params, place, rfl⟩ := Child.eq_node_of_isOf hlisted
    exact .methodDef name params place body hbody
  next owner name listed body =>
    obtain ⟨hhead, hbody⟩ := Bool.and_eq_true_iff.1 h
    obtain ⟨howner, hlisted⟩ := Bool.and_eq_true_iff.1 hhead
    obtain ⟨children, pos, rfl⟩ := Child.eq_node_of_isOf howner
    obtain ⟨params, place, rfl⟩ := Child.eq_node_of_isOf hlisted
    exact .singletonDef children params pos place name body hbody
  next => cases h

end Node.Kind

end Garnet
