import Garnet.Fault.Basic
import Garnet.Table

/-! # Objects, classes and methods

Every value is an object, and an object is known by a reference. Classes have two sides: a record
in the list of classes, and an object that stands for the class among the values. An object names
its class by the number of its record, so that the class of all classes can name itself.
-/

namespace Garnet

/-- A reference to an object. -/
structure Ref where
  index : Nat
deriving DecidableEq, Repr, Inhabited

/-- The number of a class, in the order of creation. -/
structure ClassId where
  index : Nat
deriving DecidableEq, Repr, Inhabited

/-- A value: its class, its instance variables, the text of a string, and for a class the number
of its record. -/
structure Object where
  cls : ClassId
  ivars : Table Ref := ∅
  payload : Option String := none
  record : Option ClassId := none
deriving Inhabited

namespace Native

/-- What a native method of the host does when it is called. -/
inductive Behaviour where
  /-- It yields no value, which counts as nil. -/
  | nothing
  /-- It yields the receiver. -/
  | receiver
  /-- It yields the last argument, or no value if there is none. -/
  | lastArgument
  /-- It fails with a text and with marks to recognise the failure by. -/
  | fail (text : String) (marks : List Fault.Mark)
  /-- It sends another message with the same arguments to the receiver. A failure of that is passed
  on, with a note in front of its text if one is given. -/
  | forward (message : String) (note : Option String)
deriving DecidableEq, Repr

end Native

/-- Methods that are not written in the language. -/
inductive Native where
  /-- Makes an instance of the receiving class and sends it `initialize`. -/
  | new
  /-- Does nothing: the default for new instances. -/
  | setUp
  /-- Writes its arguments, one to a line. -/
  | puts
  /-- A method that the host has put in. -/
  | host (behaviour : Native.Behaviour)
deriving DecidableEq, Repr

/-- What a call of a method runs. -/
inductive Method.Code where
  | native (native : Native)
  | interpreted (params : List String) (body : Option Node)

/-- An entry of a class's method table. -/
structure Method where
  name : String
  /-- The class that holds the entry. -/
  owner : ClassId
  code : Method.Code

instance : Inhabited Method := ⟨⟨"", default, .native .setUp⟩⟩

namespace Method

/-- The names that arguments are bound to. -/
def params (method : Method) : List String :=
  match method.code with
  | .native _ => []
  | .interpreted params _ => params

/-- The body of a method that is written in the language. -/
def body? (method : Method) : Option Node :=
  match method.code with
  | .native _ => none
  | .interpreted _ body => body

/-- How the two sorts of methods are called. -/
def sort (method : Method) : String :=
  match method.code with
  | .native _ => "native"
  | .interpreted .. => "interpreted"

end Method

/-- The record of a class. -/
structure ClassRecord where
  name : String
  /-- The class that methods are inherited from; only the root class has none. -/
  superclass : Option ClassId
  methods : Table Method := ∅
  constants : Table Ref := ∅
  /-- The object that stands for the class. -/
  face : Ref
deriving Inhabited

end Garnet
