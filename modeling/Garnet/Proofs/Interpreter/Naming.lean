import Garnet.Proofs.Interpreter.Reachable
import Garnet.Proofs.Object.Naming
import Garnet.Proofs.Parse.Constants
import Garnet.Snapshot.Basic

/-! # Names of classes after runs

A text mentions constants by names without colons. So whatever texts have run, the name of a class
leads to it and to no other class, and a picture of the interpreter says of each class which one it
inherits from, although it refers to classes by their names.
-/

namespace Garnet

namespace Snapshot

/-- The classes of a picture stand in the order in which they were made. -/
theorem classes_getElem? {interp : Interpreter} {index : Nat} {part : ClassPart}
    (h : (ofInterpreter interp).classes[index]? = some part) :
    interp.world.HasClass ⟨index⟩ ∧
      part = ofClass interp.world (interp.world.classRecord ⟨index⟩) := by
  obtain ⟨record, hrecord, rfl⟩ := Option.map_eq_some_iff.1 (List.getElem?_map ▸ h)
  rw [Array.getElem?_toList] at hrecord
  obtain ⟨hlt, -⟩ := Array.getElem?_eq_some_iff.1 hrecord
  refine ⟨hlt, ?_⟩
  rw [World.classRecord, Array.getD_eq_getD_getElem?, hrecord]
  rfl

/-- A picture shows the name of the superclass, and the root class has no name above it. -/
theorem superclass_ofClass_iff {world : World} (hgraph : world.Graph) (hnamed : world.Named)
    {id other : ClassId} (hid : world.HasClass id) (hother : world.HasClass other) :
    (ofClass world (world.classRecord id)).superclass = (world.classRecord other).name ↔
      (world.classRecord id).superclass = some other := by
  unfold ofClass
  cases hsuper : (world.classRecord id).superclass with
  | none =>
    constructor
    · intro hempty
      exact absurd hempty.symm (hnamed.name_ne_empty hother)
    · intro h
      cases h
  | some parent =>
    have hparent := (hgraph.superclass hid hsuper).1
    constructor
    · intro hname
      rw [hnamed.name_injective hgraph hparent hother hname]
    · intro heq
      cases heq
      rfl

end Snapshot

namespace Interpreter

open World

theorem runAll_sound (limit : Int) (sink : Sink) (history : List String) :
    ((new limit sink).runAll history).Sound namingInvariant := by
  have hstep (history : List String) {interp : Interpreter} (h : interp.Sound namingInvariant) :
      (interp.runAll history).Sound namingInvariant := by
    induction history generalizing interp with
    | nil => exact h
    | cons source rest ih => exact ih (h.run fun _ hparse => namesOnly_of_parse hparse)
  exact hstep history (sound_new limit sink
    ⟨graph_initial, named_initial, allBodies_initial _⟩)

/-- Constants are classes, the name of a class leads to this class and to no other one, and in a
picture the name of a superclass tells which class it is. -/
structure WellNamed (interp : Interpreter) : Prop where
  constant (id : ClassId) (name : String) (value : Ref) :
    (interp.world.classRecord id).constants.get? name = some value →
      ∃ other, interp.world.HasClass other ∧ interp.world.asClass? value = some other
  path (id : ClassId) : interp.world.HasClass id →
    interp.world.constantAt? (pathOf (interp.world.classRecord id).name) =
        some (interp.world.classRecord id).face ∧
      interp.world.asClass? (interp.world.classRecord id).face = some id
  unique (id other : ClassId) : interp.world.HasClass id → interp.world.HasClass other →
    (interp.world.classRecord id).name = (interp.world.classRecord other).name → id = other
  superclass (i j : Nat) (first second : Snapshot.ClassPart) :
    (Snapshot.ofInterpreter interp).classes[i]? = some first →
    (Snapshot.ofInterpreter interp).classes[j]? = some second →
      (first.superclass = second.name ↔
        (interp.world.classRecord ⟨i⟩).superclass = some ⟨j⟩)

theorem runAll_wellNamed (limit : Int) (sink : Sink) (history : List String) :
    ((new limit sink).runAll history).WellNamed := by
  obtain ⟨hgraph, hnamed, -⟩ := (runAll_sound limit sink history).world
  refine ⟨fun id name value hvalue => ?_, fun id hid => ?_, fun id other hid hother hname => ?_,
    fun i j first second hfirst hsecond => ?_⟩
  · obtain ⟨other, hother⟩ := hnamed.constant id name value hvalue
    exact ⟨other, hgraph.asClass? value other hother, hother⟩
  · exact ⟨hnamed.constantAt?_pathOf hid, (hgraph.stands id hid).1⟩
  · exact hnamed.name_injective hgraph hid hother hname
  · obtain ⟨hi, rfl⟩ := Snapshot.classes_getElem? hfirst
    obtain ⟨hj, rfl⟩ := Snapshot.classes_getElem? hsecond
    exact Snapshot.superclass_ofClass_iff hgraph hnamed hi hj

/-- A class inside of another one. -/
theorem runAll_wellNamed_nested :
    let world := ((new 0 default).runAll ["class A\nend", "class A::B < A\nend"]).world
    (world.classRecord ⟨5⟩).name = "A::B" ∧
      world.constantAt? ["A", "B"] = some (world.classRecord ⟨5⟩).face := by
  intro world
  have hid : world.HasClass ⟨5⟩ := by decide +kernel
  have hname : (world.classRecord ⟨5⟩).name = "A::B" := by decide +kernel
  have hpath : pathOf "A::B" = ["A", "B"] := by decide
  have hfound := ((runAll_wellNamed 0 default _).path ⟨5⟩ hid).1
  rw [hname, hpath] at hfound
  exact ⟨hname, hfound⟩

end Interpreter

end Garnet
