import Garnet.Number.Binary64
import Garnet.Source.Pos

/-! # Trees

A program is a tree of nodes. A node has a kind, children and a place. Its children are further
nodes, literals, or marks that an optional part is absent. Trees need not come from the parser, so
nothing here says which children a kind of node should have.
-/

namespace Garnet

namespace Node

/-- The kinds of nodes. The last constructor stands for kinds that the language does not know. -/
inductive Kind where
  | str | begin | localAssign | localRef | ivarAssign | ivarRef | selfRef | nilRef
  | classDef | methodDef | params | param | send | const
  | int | float | sym | trueRef | falseRef | singletonDef | constAssign
  | other (name : String)
deriving DecidableEq, Repr

namespace Kind

/-- The name of a kind, as trees are printed. -/
def name : Kind → String
  | str => "str"
  | begin => "begin"
  | localAssign => "lvasgn"
  | localRef => "lvar"
  | ivarAssign => "ivasgn"
  | ivarRef => "ivar"
  | selfRef => "self"
  | nilRef => "nil"
  | classDef => "class"
  | methodDef => "def"
  | params => "args"
  | param => "arg"
  | send => "send"
  | const => "const"
  | int => "int"
  | float => "float"
  | sym => "sym"
  | trueRef => "true"
  | falseRef => "false"
  | singletonDef => "defs"
  | constAssign => "casgn"
  | other name => name

/-- The kinds that the language knows. -/
def known : List Kind :=
  [str, begin, localAssign, localRef, ivarAssign, ivarRef, selfRef, nilRef, classDef, methodDef,
    params, param, send, const, int, float, sym, trueRef, falseRef, singletonDef, constAssign]

/-- The kind with a given name. -/
def ofName (name : String) : Kind :=
  (known.find? (·.name == name)).getD (.other name)

theorem name_ofName (name : String) : (ofName name).name = name := by
  unfold ofName
  cases h : known.find? (·.name == name) with
  | none => rfl
  | some kind => simpa using List.find?_some h

end Kind

end Node

mutual

/-- A node of a tree. -/
inductive Node where
  | mk (kind : Node.Kind) (children : List Child) (pos : Pos)

/-- A child of a node. -/
inductive Child where
  /-- An optional part that is not there. -/
  | absent
  | node (inner : Node)
  /-- A name. -/
  | sym (name : String)
  /-- A text. -/
  | str (text : String)
  | int (value : Int)
  | float (value : Binary64)
  /-- A value that the language has no use for, by its printed form. -/
  | foreign (text : String)

end

deriving instance Repr for Node, Child

instance : Inhabited Node := ⟨.mk .nilRef [] .unknown⟩

instance : Inhabited Child := ⟨.absent⟩

namespace Node

/-- What a node stands for. -/
def kind : Node → Kind
  | mk kind _ _ => kind

/-- The children of a node, in order. -/
def children : Node → List Child
  | mk _ children _ => children

/-- Where a node begins in its source text. -/
def pos : Node → Pos
  | mk _ _ pos => pos

/-- The child with a given number. -/
def childAt? (node : Node) (index : Int) : Option Child :=
  if index < 0 then none else node.children[index.toNat]?

/-- The child with a given number as a node: nothing if it is missing or a literal, and an absent
node if it is marked absent. -/
def nodeAt? (node : Node) (index : Int) : Option (Option Node) :=
  match node.childAt? index with
  | some (.node child) => some (some child)
  | some .absent => some none
  | _ => none

/-- The child with a given number as a name. -/
def symbolAt? (node : Node) (index : Int) : Option String :=
  match node.childAt? index with
  | some (.sym name) => some name
  | _ => none

/-- The child with a given number as a text. -/
def textAt? (node : Node) (index : Int) : Option String :=
  match node.childAt? index with
  | some (.str text) => some text
  | _ => none

end Node

/-- The child that stands for an optional node. -/
def Child.ofNode? : Option Node → Child
  | some inner => .node inner
  | none => .absent

mutual

/-- Put the kinds and places of a node and all nodes below it, parents first, in front of a list. -/
def Node.visit : Node → List (Node.Kind × Pos) → List (Node.Kind × Pos)
  | .mk kind children pos, rest => (kind, pos) :: Child.visitAll children rest

/-- Put the kinds and places of the nodes below a list of children in front of a list. -/
def Child.visitAll : List Child → List (Node.Kind × Pos) → List (Node.Kind × Pos)
  | [], rest => rest
  | child :: more, rest => child.visit (Child.visitAll more rest)

/-- Put the kinds and places of the nodes of a child in front of a list. -/
def Child.visit : Child → List (Node.Kind × Pos) → List (Node.Kind × Pos)
  | .node inner, rest => inner.visit rest
  | _, rest => rest

end

/-- The kinds and places of a node and all nodes below it, parents first. -/
def Node.preorder (node : Node) : List (Node.Kind × Pos) :=
  node.visit []

end Garnet
