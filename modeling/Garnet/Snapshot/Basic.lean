import Garnet.Interpreter

/-! # Snapshots

A snapshot is a picture of an interpreter: its classes, the main object and its frames. Values are
recorded in the form in which they are shown, so a snapshot does not refer to the world it was
taken from.
-/

namespace Garnet

namespace Snapshot

/-- A method in a picture of a class. -/
structure MethodPart where
  name : String := ""
  sort : String := ""
  params : List String := []

/-- A class in a picture. -/
structure ClassPart where
  name : String := ""
  /-- The name of the superclass, empty for the root class. -/
  superclass : String := ""
  methods : List MethodPart := []
  constants : Table String := ∅

/-- An object in a picture. -/
structure ObjectPart where
  className : String := ""
  ivars : Table String := ∅

/-- A frame in a picture. -/
structure FramePart where
  label : String := ""
  self : String := ""
  locals : Table String := ∅
  result : String := ""

end Snapshot

/-- A picture of an interpreter. -/
structure Snapshot where
  classes : List Snapshot.ClassPart := []
  main : Snapshot.ObjectPart := {}
  /-- The frames, toplevel first. -/
  frames : List Snapshot.FramePart := []
  result : String := ""

instance : Inhabited Snapshot := ⟨{}⟩

namespace Snapshot

/-- The picture of a class. -/
def ofClass (world : World) (record : ClassRecord) : ClassPart where
  name := record.name
  superclass := match record.superclass with
    | some parent => (world.classRecord parent).name
    | none => ""
  methods := record.methods.entries.map fun (name, method) =>
    { name, sort := method.sort, params := method.params }
  constants := record.constants.map world.inspect

/-- The picture of an object. -/
def ofObject (world : World) (ref : Ref) : ObjectPart where
  className := world.className ref
  ivars := (world.object ref).ivars.map world.inspect

/-- The picture of a frame. -/
def ofFrame (world : World) (frame : Frame) : FramePart where
  label := frame.label
  self := world.inspect frame.self
  locals := frame.locals.map world.inspect
  result := world.inspect? frame.result

/-- The picture of an interpreter. -/
def ofInterpreter (interp : Interpreter) : Snapshot where
  classes := interp.world.classes.toList.map (ofClass interp.world)
  main := ofObject interp.world .main
  frames := interp.frames.map (ofFrame interp.world)
  result := interp.world.inspect? interp.current.result

end Snapshot

end Garnet
