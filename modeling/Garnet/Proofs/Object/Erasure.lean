import Garnet.Object.World
import Garnet.Proofs.Table
import Garnet.Proofs.Tree.Places

/-! # Worlds without places

The bodies of methods remember where they were written. Two worlds that differ in nothing else have
the same classes, objects and methods, and show the same texts to the user; every change does the
same to both.
-/

namespace Garnet

/-- The code of a method without its places. -/
def Method.Code.erase : Method.Code → Method.Code
  | .native code => .native code
  | .interpreted params body => .interpreted params (body.map Node.erase)

/-- A method without the places in its body. -/
def Method.erase (method : Method) : Method :=
  { method with code := method.code.erase }

/-- A class without the places in its methods. -/
def ClassRecord.erase (record : ClassRecord) : ClassRecord :=
  { record with methods := record.methods.map Method.erase }

/-- A world without the places in its methods. -/
def World.erase (world : World) : World :=
  { world with classes := world.classes.map ClassRecord.erase }

namespace World

/-- Changing an entry of an array and then all of them, or the other way around. -/
theorem map_modify {α β : Type} {f : α → α} {g : α → β} {f' : β → β} (h : ∀ x, g (f x) = f' (g x))
    (entries : Array α) (index : Nat) :
    (entries.modify index f).map g = (entries.map g).modify index f' := by
  apply Array.ext
  · simp
  · intro i hi hi'
    simp only [Array.getElem_map, Array.getElem_modify]
    split
    next => exact h _
    next => rfl

variable (world : World)

/-! ### Looking things up -/

theorem classRecord_erase (id : ClassId) :
    world.erase.classRecord id = (world.classRecord id).erase := by
  rw [classRecord, classRecord, Array.getD_eq_getD_getElem?, Array.getD_eq_getD_getElem?, erase,
    Array.getElem?_map]
  cases world.classes[id.index]? with
  | none => rfl
  | some record => rfl

theorem ownMethod?_erase (id : ClassId) (name : String) :
    world.erase.ownMethod? id name = (world.ownMethod? id name).map Method.erase := by
  rw [ownMethod?, classRecord_erase]
  exact Table.get?_map _ _ _

theorem lineage_erase (more : Nat) (id : ClassId) :
    world.erase.lineage more id = world.lineage more id := by
  induction more generalizing id with
  | zero => rfl
  | succ more ih =>
    have hparent : (world.erase.classRecord id).superclass = (world.classRecord id).superclass := by
      rw [classRecord_erase]
      rfl
    rw [lineage, lineage, hparent]
    cases (world.classRecord id).superclass with
    | none => rfl
    | some parent => simp only [ih]

theorem findMethod_erase (id : ClassId) (name : String) :
    world.erase.findMethod id name =
      (world.findMethod id name).map fun found => (found.1.erase, found.2) := by
  have hsize : world.erase.classes.size = world.classes.size := Array.size_map
  rw [findMethod, ancestors, hsize, lineage_erase, findMethod, ancestors, List.map_findSome?]
  simp only [ownMethod?_erase, Option.map_map, Function.comp_def]

/-! ### Changes -/

theorem erase_newClass (name : String) (superclass : ClassId) :
    (world.newClass name superclass).2.erase = (world.erase.newClass name superclass).2 := by
  simp only [newClass, allocate, erase, Array.map_push, Array.size_map]
  rfl

theorem fst_newClass_erase (name : String) (superclass : ClassId) :
    (world.erase.newClass name superclass).1 = (world.newClass name superclass).1 := by
  simp [newClass, allocate, erase]

theorem erase_modifyClass {change change' : ClassRecord → ClassRecord}
    (h : ∀ record, (change record).erase = change' record.erase) (id : ClassId) :
    (world.modifyClass id change).erase = world.erase.modifyClass id change' := by
  simp only [modifyClass, erase]
  rw [map_modify h]

theorem erase_setConstant (id : ClassId) (name : String) (value : Ref) :
    (world.setConstant id name value).erase = world.erase.setConstant id name value := by
  refine world.erase_modifyClass (fun record => ?_) id
  rfl

theorem erase_setMethod (id : ClassId) (name : String) (code : Method.Code) :
    (world.setMethod id name code).erase = world.erase.setMethod id name code.erase := by
  refine world.erase_modifyClass (fun record => ?_) id
  simp only [ClassRecord.erase, Table.map_insert]
  rfl

/-! ### Two worlds that differ in places only -/

variable {world} {world' : World} (h : world.erase = world'.erase)

include h

theorem objects_eq : world.objects = world'.objects := by
  have hobjects : world.erase.objects = world'.erase.objects := congrArg objects h
  exact hobjects

theorem classRecord_eq (id : ClassId) :
    (world.classRecord id).name = (world'.classRecord id).name ∧
      (world.classRecord id).superclass = (world'.classRecord id).superclass ∧
      (world.classRecord id).constants = (world'.classRecord id).constants ∧
      (world.classRecord id).face = (world'.classRecord id).face := by
  have hrecord : (world.classRecord id).erase = (world'.classRecord id).erase := by
    rw [← classRecord_erase, h, classRecord_erase]
  simp only [ClassRecord.erase, ClassRecord.mk.injEq] at hrecord
  exact ⟨hrecord.1, hrecord.2.1, hrecord.2.2.2.1, hrecord.2.2.2.2⟩

theorem object_eq (ref : Ref) : world.object ref = world'.object ref := by
  rw [object, object, objects_eq h]

theorem asClass?_eq (ref : Ref) : world.asClass? ref = world'.asClass? ref := by
  rw [asClass?, asClass?, object_eq h]

theorem classOf_eq (ref : Ref) : world.classOf ref = world'.classOf ref := by
  rw [classOf, classOf, object_eq h]

theorem className_eq (ref : Ref) : world.className ref = world'.className ref := by
  rw [className, className, classOf_eq h, (classRecord_eq h _).1]

theorem qualify_eq (owner : ClassId) (name : String) :
    world.qualify owner name = world'.qualify owner name := by
  rw [qualify, qualify, (classRecord_eq h owner).1]

theorem inspect_eq (ref : Ref) : world.inspect ref = world'.inspect ref := by
  rw [inspect, inspect, asClass?_eq h, object_eq h, className_eq h]
  simp only [(classRecord_eq h _).1]

theorem displayText_eq (ref : Ref) : world.displayText ref = world'.displayText ref := by
  rw [displayText, displayText, object_eq h, inspect_eq h]

theorem describe_eq (ref : Ref) : world.describe ref = world'.describe ref := by
  rw [describe, describe, asClass?_eq h, className_eq h]
  simp only [(classRecord_eq h _).1]

/-- A message resolves to the same method in both worlds, or to none. -/
theorem findMethod_cases (id : ClassId) (name : String) :
    (world.findMethod id name = none ∧ world'.findMethod id name = none) ∨
      ∃ method method' owner, world.findMethod id name = some (method, owner) ∧
        world'.findMethod id name = some (method', owner) ∧
        method.code.erase = method'.code.erase := by
  have hfound : (world.findMethod id name).map (fun found => (found.1.erase, found.2)) =
      (world'.findMethod id name).map fun found => (found.1.erase, found.2) := by
    rw [← findMethod_erase, h, findMethod_erase]
  cases hfirst : world.findMethod id name with
  | none =>
    rw [hfirst, Option.map_none, eq_comm, Option.map_eq_none_iff] at hfound
    exact .inl ⟨rfl, hfound⟩
  | some found =>
    rw [hfirst, Option.map_some, eq_comm, Option.map_eq_some_iff] at hfound
    obtain ⟨⟨method', owner⟩, hsecond, hsame⟩ := hfound
    obtain ⟨hmethod, rfl⟩ := Prod.mk.inj hsame
    exact .inr ⟨found.1, method', found.2, rfl, hsecond, (congrArg Method.code hmethod).symm⟩

end World

/-- The code of two methods that differ in places only. -/
theorem Method.Code.erase_cases {code code' : Method.Code} (h : code.erase = code'.erase) :
    (∃ native, code = .native native ∧ code' = .native native) ∨
      ∃ params body body', code = .interpreted params body ∧ code' = .interpreted params body' ∧
        body.map Node.erase = body'.map Node.erase := by
  match code, code' with
  | .native code, .native code' =>
    cases h
    exact .inl ⟨code, rfl, rfl⟩
  | .interpreted params body, .interpreted params' body' =>
    obtain ⟨rfl, hbody⟩ := Method.Code.interpreted.inj h
    exact .inr ⟨params, body, body', rfl, rfl, hbody⟩

end Garnet
