import Garnet.Object.Basic

/-! # The world of objects

A world holds all objects and all class records. It begins with four classes, the nil object and
the main object, and only grows: objects and classes are never removed.
-/

namespace Garnet

/-- All objects and classes. -/
structure World where
  objects : Array Object
  classes : Array ClassRecord

namespace ClassId

/-- The class of all classes. -/
def classClass : ClassId := ⟨0⟩

/-- The root class, which also holds the toplevel constants. -/
def objectClass : ClassId := ⟨1⟩

/-- The class of strings. -/
def stringClass : ClassId := ⟨2⟩

/-- The class of nil. -/
def nilClass : ClassId := ⟨3⟩

end ClassId

namespace Ref

/-- The nil object. -/
def nil : Ref := ⟨4⟩

/-- The object that toplevel code runs in. -/
def main : Ref := ⟨5⟩

end Ref

namespace World

open ClassId

/-! ### The first world -/

/-- A native entry of a method table. -/
def nativeEntry (owner : ClassId) (name : String) (native : Native) : String × Method :=
  (name, { name, owner, code := .native native })

/-- The world before any program has run. -/
def initial : World where
  objects := #[
    { cls := classClass, record := some classClass },
    { cls := classClass, record := some objectClass },
    { cls := classClass, record := some stringClass },
    { cls := classClass, record := some nilClass },
    { cls := nilClass },
    { cls := objectClass }]
  classes := #[
    { name := "Class", superclass := some objectClass, face := ⟨0⟩
      methods := .ofList [nativeEntry classClass "new" .new] },
    { name := "Object", superclass := none, face := ⟨1⟩
      methods := .ofList [nativeEntry objectClass "initialize" .setUp,
        nativeEntry objectClass "puts" .puts]
      constants := .ofList [("Class", ⟨0⟩), ("Object", ⟨1⟩), ("String", ⟨2⟩), ("NilClass", ⟨3⟩)] },
    { name := "String", superclass := some objectClass, face := ⟨2⟩ },
    { name := "NilClass", superclass := some objectClass, face := ⟨3⟩ }]

/-! ### Looking things up -/

/-- The object behind a reference. -/
def object (world : World) (ref : Ref) : Object :=
  world.objects.getD ref.index default

/-- The record of a class. -/
def classRecord (world : World) (id : ClassId) : ClassRecord :=
  world.classes.getD id.index default

/-- The record with a given number, if there is one. -/
def classRecord? (world : World) (id : Int) : Option (ClassId × ClassRecord) :=
  if id < 0 then none
  else (world.classes[id.toNat]?).map fun record => (⟨id.toNat⟩, record)

/-- The class that an object stands for, if it stands for one. -/
def asClass? (world : World) (ref : Ref) : Option ClassId :=
  (world.object ref).record

/-- The class of an object. -/
def classOf (world : World) (ref : Ref) : ClassId :=
  (world.object ref).cls

/-- The name of the class of an object. -/
def className (world : World) (ref : Ref) : String :=
  (world.classRecord (world.classOf ref)).name

/-- The instance variable of an object, if it has been set. -/
def lookupIvar (world : World) (ref : Ref) (name : String) : Option Ref :=
  (world.object ref).ivars.get? name

/-- The instance variable of an object; one that has not been set is nil. -/
def getIvar (world : World) (ref : Ref) (name : String) : Ref :=
  (world.lookupIvar ref name).getD .nil

/-- The qualified name of a constant: constants of the root class have no qualifier. -/
def qualify (world : World) (owner : ClassId) (name : String) : String :=
  if owner = objectClass then name else (world.classRecord owner).name ++ "::" ++ name

/-- How a value is shown to the user. -/
def inspect (world : World) (ref : Ref) : String :=
  if ref = .nil then "nil"
  else if ref = .main then "main"
  else match world.asClass? ref with
    | some id => (world.classRecord id).name
    | none =>
      match (world.object ref).payload with
      | some text => Text.quote text
      | none => s!"#<{world.className ref}>"

/-- How an optional value is shown. -/
def inspect? (world : World) : Option Ref → String
  | some ref => world.inspect ref
  | none => "<unset>"

/-- What `puts` writes for a value. -/
def displayText (world : World) (ref : Ref) : String :=
  match (world.object ref).payload with
  | some text => text
  | none => if ref = .nil then "" else world.inspect ref

/-- The description of an object that did not understand a message. -/
def describe (world : World) (ref : Ref) : Fault.Receiver :=
  if ref = .nil then .nil
  else if ref = .main then .main
  else match world.asClass? ref with
    | some id => .classObject (world.classRecord id).name
    | none => .instanceOf (world.className ref)

/-! ### Inheritance -/

/-- A class and those it inherits from, nearest first, up to a given number of them. -/
def lineage (world : World) : Nat → ClassId → List ClassId
  | 0, _ => []
  | more + 1, id =>
    id :: match (world.classRecord id).superclass with
      | some parent => world.lineage more parent
      | none => []

/-- A class and all classes it inherits from, nearest first. No chain is longer than the number of
classes. -/
def ancestors (world : World) (id : ClassId) : List ClassId :=
  world.lineage world.classes.size id

/-- The method that a class declares itself. -/
def ownMethod? (world : World) (id : ClassId) (name : String) : Option Method :=
  (world.classRecord id).methods.get? name

/-- The method that a message resolves to, with the class that declares it: the nearest ancestor's
own one. -/
def findMethod (world : World) (id : ClassId) (name : String) : Option (Method × ClassId) :=
  (world.ancestors id).findSome? fun ancestor =>
    (world.ownMethod? ancestor name).map fun method => (method, ancestor)

/-! ### Growth -/

/-- Add an object. -/
def allocate (world : World) (object : Object) : Ref × World :=
  (⟨world.objects.size⟩, { world with objects := world.objects.push object })

/-- Add an instance of a class, without instance variables. -/
def newObject (world : World) (id : ClassId) : Ref × World :=
  world.allocate { cls := id }

/-- Add a string. -/
def newString (world : World) (text : String) : Ref × World :=
  world.allocate { cls := stringClass, payload := some text }

/-- Add a class with the object that stands for it. -/
def newClass (world : World) (name : String) (superclass : ClassId) : ClassId × World :=
  let id : ClassId := ⟨world.classes.size⟩
  let (face, world) := world.allocate { cls := classClass, record := some id }
  (id, { world with classes := world.classes.push { name, superclass := some superclass, face } })

/-- Change the record of a class. -/
def modifyClass (world : World) (id : ClassId) (f : ClassRecord → ClassRecord) : World :=
  { world with classes := world.classes.modify id.index f }

/-- Bind a constant of a class. -/
def setConstant (world : World) (id : ClassId) (name : String) (value : Ref) : World :=
  world.modifyClass id fun record => { record with constants := record.constants.insert name value }

/-- Put an entry into the method table of a class. -/
def setMethod (world : World) (id : ClassId) (name : String) (code : Method.Code) : World :=
  world.modifyClass id fun record =>
    { record with methods := record.methods.insert name { name, owner := id, code } }

/-- Set an instance variable of an object. -/
def setIvar (world : World) (ref : Ref) (name : String) (value : Ref) : World :=
  { world with
    objects := world.objects.modify ref.index fun object =>
      { object with ivars := object.ivars.insert name value } }

/-- Follow a path of constants, beginning in the root class. -/
def constantAt? (world : World) : List String → Option Ref
  | [] => none
  | first :: rest =>
    rest.foldl
      (fun found name => do
        let id ← world.asClass? (← found)
        (world.classRecord id).constants.get? name)
      ((world.classRecord objectClass).constants.get? first)

end World

instance : Inhabited World := ⟨World.initial⟩

end Garnet
