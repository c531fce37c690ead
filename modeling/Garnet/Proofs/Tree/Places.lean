import Garnet.Evaluation.Node
import Garnet.Parse.Grammar

/-! # Trees in other places

The nodes of a tree remember where they stand in a source text. Nothing but reports of faults looks
at these places, so a tree may be moved to other places, or to none at all.
-/

namespace Garnet

mutual

/-- The same node in other places. -/
def Node.mapPos (f : Pos → Pos) : Node → Node
  | .mk kind children pos => .mk kind (Child.mapPosAll f children) (f pos)

/-- The same child in another place. -/
def Child.mapPos (f : Pos → Pos) : Child → Child
  | .node inner => .node (inner.mapPos f)
  | .absent => .absent
  | .sym name => .sym name
  | .str text => .str text
  | .int value => .int value
  | .float value => .float value
  | .foreign text => .foreign text

/-- The same children in other places. -/
def Child.mapPosAll (f : Pos → Pos) : List Child → List Child
  | [] => []
  | child :: rest => child.mapPos f :: Child.mapPosAll f rest

end

/-- A node without its places. -/
def Node.erase (node : Node) : Node :=
  node.mapPos fun _ => .unknown

/-- A child without its places. -/
abbrev Child.erase (child : Child) : Child :=
  child.mapPos fun _ => .unknown

/-- Children without their places. -/
abbrev Child.eraseAll (children : List Child) : List Child :=
  Child.mapPosAll (fun _ => .unknown) children

variable (f g : Pos → Pos)

@[simp] theorem Node.kind_mapPos (node : Node) : (node.mapPos f).kind = node.kind := by
  cases node
  rfl

@[simp] theorem Node.pos_mapPos (node : Node) : (node.mapPos f).pos = f node.pos := by
  cases node
  rfl

theorem Child.mapPosAll_eq_map (children : List Child) :
    Child.mapPosAll f children = children.map (Child.mapPos f) := by
  induction children with
  | nil => rfl
  | cons child rest ih => rw [Child.mapPosAll, List.map_cons, ih]

theorem Child.mapPosAll_map_node (nodes : List Node) :
    Child.mapPosAll f (nodes.map .node) = (nodes.map (Node.mapPos f)).map .node := by
  rw [mapPosAll_eq_map, List.map_map, List.map_map]
  rfl

@[simp] theorem Child.mapPos_ofNode? (node : Option Node) :
    (Child.ofNode? node).mapPos f = Child.ofNode? (node.map (Node.mapPos f)) := by
  cases node <;> rfl

@[simp] theorem Child.isPart_mapPos (child : Child) :
    (child.mapPos f).isPart = child.isPart := by
  cases child <;> rfl

mutual

theorem Node.mapPos_mapPos (node : Node) : (node.mapPos f).mapPos g = node.mapPos (g ∘ f) := by
  match node with
  | .mk kind children pos =>
    rw [Node.mapPos, Node.mapPos, Node.mapPos, Child.mapPosAll_mapPosAll children]
    rfl

theorem Child.mapPos_mapPos (child : Child) : (child.mapPos f).mapPos g = child.mapPos (g ∘ f) := by
  match child with
  | .node inner => rw [Child.mapPos, Child.mapPos, Child.mapPos, Node.mapPos_mapPos inner]
  | .absent | .sym _ | .str _ | .int _ | .float _ | .foreign _ => rfl

theorem Child.mapPosAll_mapPosAll (children : List Child) :
    Child.mapPosAll g (Child.mapPosAll f children) = Child.mapPosAll (g ∘ f) children := by
  match children with
  | [] => rfl
  | child :: rest =>
    rw [Child.mapPosAll, Child.mapPosAll, Child.mapPosAll, Child.mapPos_mapPos child,
      Child.mapPosAll_mapPosAll rest]

end

mutual

theorem Node.mapPos_id (node : Node) : node.mapPos id = node := by
  match node with
  | .mk kind children pos =>
    rw [Node.mapPos, Child.mapPosAll_id children]
    rfl

theorem Child.mapPos_id (child : Child) : child.mapPos id = child := by
  match child with
  | .node inner => rw [Child.mapPos, Node.mapPos_id inner]
  | .absent | .sym _ | .str _ | .int _ | .float _ | .foreign _ => rfl

theorem Child.mapPosAll_id (children : List Child) : Child.mapPosAll id children = children := by
  match children with
  | [] => rfl
  | child :: rest => rw [Child.mapPosAll, Child.mapPos_id child, Child.mapPosAll_id rest]

end

/-- Moving a tree does not matter to what is left of it without places. -/
@[simp] theorem Node.erase_mapPos (node : Node) : (node.mapPos f).erase = node.erase :=
  Node.mapPos_mapPos f _ node

theorem Node.kind_erase (node : Node) : node.erase.kind = node.kind :=
  node.kind_mapPos _

/-- Nothing is left to erase. -/
theorem Node.erase_erase (node : Node) : node.erase.erase = node.erase :=
  node.erase_mapPos _

theorem Child.node?_erase (child : Child) :
    child.erase.node? = child.node?.map Node.erase := by
  cases child <;> rfl

theorem Node.map_erase_erase (body : Option Node) :
    (body.map Node.erase).map Node.erase = body.map Node.erase := by
  cases body with
  | none => rfl
  | some node => exact congrArg some node.erase_erase

mutual

/-- Places are not printed. -/
theorem Node.print_mapPos (node : Node) (rest : List Char) :
    (node.mapPos f).print rest = node.print rest := by
  match node with
  | .mk kind children pos =>
    rw [Node.mapPos, Node.print, Node.print, Child.printAll_mapPos children]

theorem Child.print_mapPos (child : Child) (rest : List Char) :
    (child.mapPos f).print rest = child.print rest := by
  match child with
  | .node inner => rw [Child.mapPos, Child.print, Child.print, Node.print_mapPos inner]
  | .absent | .sym _ | .str _ | .int _ | .float _ | .foreign _ => rfl

theorem Child.printAll_mapPos (children : List Child) (rest : List Char) :
    Child.printAll (Child.mapPosAll f children) rest = Child.printAll children rest := by
  match children with
  | [] => rfl
  | child :: more =>
    rw [Child.mapPosAll, Child.printAll, Child.printAll, Child.printAll_mapPos more,
      Child.print_mapPos child]

end

theorem Node.text_mapPos (node : Node) : (node.mapPos f).text = node.text := by
  rw [Node.text, Node.chars, Node.print_mapPos, Node.text, Node.chars]

theorem Node.symbolAt?_mapPos_zero (node : Node) :
    (node.mapPos f).symbolAt? 0 = node.symbolAt? 0 := by
  match node with
  | .mk kind [] pos => rfl
  | .mk kind (child :: rest) pos => cases child <;> rfl

/-! ### Nodes that the parser makes -/

namespace Parse

theorem mapPos_sendNode (pos : Pos) (receiver : Option Node) (name : String)
    (args : List (Option Node)) :
    (sendNode pos receiver name args).mapPos f =
      sendNode (f pos) (receiver.map (Node.mapPos f)) name
        (args.map (Option.map (Node.mapPos f))) := by
  rw [sendNode, Node.mapPos, Child.mapPosAll_eq_map, sendNode]
  simp [Child.mapPos, Function.comp_def]

theorem map_wrapBody (nodes : List Node) :
    (wrapBody nodes).map (Node.mapPos f) = wrapBody (nodes.map (Node.mapPos f)) := by
  match nodes with
  | [] => rfl
  | [statement] => rfl
  | first :: second :: rest =>
    have hchildren := Child.mapPosAll_map_node f (first :: second :: rest)
    rw [wrapBody, Option.map_some, Node.mapPos, hchildren]
    · simp [wrapBody]
    · simp

theorem declaredNames_map (params : List Node) :
    declaredNames (params.map (Node.mapPos f)) = declaredNames params := by
  have hsame : (fun param : Node => param.symbolAt? 0) ∘ Node.mapPos f =
      fun param => param.symbolAt? 0 :=
    funext (Node.symbolAt?_mapPos_zero f)
  rw [declaredNames, List.filterMap_map, hsame, declaredNames]

end Parse

end Garnet
