import Garnet.Proofs.Object.World
import Garnet.Proofs.Tree.Constants

/-! # Elementary changes of a world

An evaluation changes a world in five ways only: it adds a string, an instance of a class or a
class, and it sets an instance variable or a method. Each of these finds what it refers to in the
world. An invariant of worlds is therefore proved by going through these five changes. The first one
is that references and numbers of classes are never out of range.
-/

namespace Garnet.World

variable {world : World}

/-- The world has an object with this reference. -/
def HasObject (world : World) (ref : Ref) : Prop :=
  ref.index < world.objects.size

/-- The world has a class with this number. -/
def HasClass (world : World) (id : ClassId) : Prop :=
  id.index < world.classes.size

instance (world : World) (ref : Ref) : Decidable (world.HasObject ref) :=
  inferInstanceAs (Decidable (_ < _))

instance (world : World) (id : ClassId) : Decidable (world.HasClass id) :=
  inferInstanceAs (Decidable (_ < _))

/-- A reference that leads nowhere stands for an object without any content. -/
theorem object_of_not_hasObject {ref : Ref} (h : ¬ world.HasObject ref) :
    world.object ref = default := by
  rw [World.object, Array.getD_eq_getD_getElem?, Array.getElem?_eq_none (Nat.le_of_not_lt h)]
  rfl

/-- A number that no class has stands for a class without any content. -/
theorem classRecord_of_not_hasClass {id : ClassId} (h : ¬ world.HasClass id) :
    world.classRecord id = default := by
  rw [World.classRecord, Array.getD_eq_getD_getElem?, Array.getElem?_eq_none (Nat.le_of_not_lt h)]
  rfl

theorem hasObject_of_asClass? {ref : Ref} {id : ClassId} (h : world.asClass? ref = some id) :
    world.HasObject ref := by
  refine Decidable.byContradiction fun hout => ?_
  rw [asClass?, object_of_not_hasObject hout] at h
  cases h

theorem hasObject_of_lookupIvar {ref : Ref} {name : String}
    (h : (world.lookupIvar ref name).isSome = true) : world.HasObject ref := by
  refine Decidable.byContradiction fun hout => ?_
  rw [lookupIvar, object_of_not_hasObject hout] at h
  cases h

theorem hasClass_of_constant {id : ClassId} {name : String} {value : Ref}
    (h : (world.classRecord id).constants.get? name = some value) : world.HasClass id := by
  refine Decidable.byContradiction fun hout => ?_
  rw [classRecord_of_not_hasClass hout] at h
  cases h

theorem hasClass_of_ownMethod? {id : ClassId} {name : String}
    (h : (world.ownMethod? id name).isSome = true) : world.HasClass id := by
  refine Decidable.byContradiction fun hout => ?_
  rw [ownMethod?, classRecord_of_not_hasClass hout] at h
  cases h

/-- A world with a new class, bound to a constant of its namespace. -/
def defineClass (world : World) (owner : ClassId) (name : String) (parent : ClassId) : World :=
  let (id, grown) := world.newClass (world.qualify owner name) parent
  grown.setConstant owner name (grown.classRecord id).face

/-! ### What a change leaves -/

theorem object_allocate (world : World) (object : Object) (ref : Ref) :
    (world.allocate object).2.object ref =
      if ref.index = world.objects.size then object else world.object ref := by
  simp only [World.object, allocate, Array.getD_eq_getD_getElem?, Array.getElem?_push]
  split <;> rfl

theorem object_setIvar (world : World) (ref other : Ref) (name : String) (value : Ref) :
    (world.setIvar ref name value).object other =
      if other = ref ∧ world.HasObject ref then
        { world.object other with ivars := (world.object other).ivars.insert name value }
      else world.object other := by
  obtain ⟨i⟩ := ref
  obtain ⟨j⟩ := other
  simp only [World.object, setIvar, Array.getD_eq_getD_getElem?, Array.getElem?_modify, HasObject,
    Ref.mk.injEq]
  by_cases hij : i = j
  · subst hij
    by_cases hi : i < world.objects.size
    · simp [hi]
    · simp [hi]
  · simp [hij, Ne.symm hij]

theorem object_defineClass (world : World) (owner : ClassId) (name : String) (parent : ClassId)
    (ref : Ref) :
    (world.defineClass owner name parent).object ref =
      if ref.index = world.objects.size then
        { cls := .classClass, record := some ⟨world.classes.size⟩ }
      else world.object ref :=
  world.object_allocate { cls := .classClass, record := some ⟨world.classes.size⟩ } ref

/-- The new class is represented by the new object. -/
theorem defineClass_eq (world : World) (owner : ClassId) (name : String) (parent : ClassId) :
    world.defineClass owner name parent =
      (world.newClass (world.qualify owner name) parent).2.setConstant owner name
        ⟨world.objects.size⟩ := by
  have hface : ((world.newClass (world.qualify owner name) parent).2.classRecord
      (world.newClass (world.qualify owner name) parent).1).face = ⟨world.objects.size⟩ := by
    rw [classRecord_newClass]
    exact congrArg ClassRecord.face (if_pos rfl)
  unfold defineClass
  dsimp only
  rw [hface]

theorem classRecord_defineClass {owner : ClassId} (howner : world.HasClass owner) (name : String)
    (parent id : ClassId) :
    (world.defineClass owner name parent).classRecord id =
      if id.index = world.classes.size then
        { name := world.qualify owner name, superclass := some parent
          face := ⟨world.objects.size⟩ }
      else if id = owner then
        { world.classRecord id with
          constants := (world.classRecord id).constants.insert name ⟨world.objects.size⟩ }
      else world.classRecord id := by
  have hsize : owner.index < (world.newClass (world.qualify owner name) parent).2.classes.size := by
    simp only [newClass, Array.size_push]
    exact Nat.lt_succ_of_lt howner
  rw [defineClass_eq, setConstant, classRecord_modifyClass, classRecord_newClass]
  by_cases hid : id = owner
  · subst hid
    have hne : id.index ≠ world.classes.size := Nat.ne_of_lt howner
    simp [hsize, hne]
  · simp [hid]

/-- Of an object that was there before, only the instance variables can differ. -/
theorem object_setIvar_eq (world : World) (ref other : Ref) (name : String) (value : Ref) :
    ∃ ivars, (world.setIvar ref name value).object other = { world.object other with ivars } := by
  rw [object_setIvar]
  split
  next => exact ⟨_, rfl⟩
  next => exact ⟨_, rfl⟩

/-- Of a class that was there before, only the constants can differ. -/
theorem classRecord_defineClass_eq {owner : ClassId} (howner : world.HasClass owner) (name : String)
    (parent : ClassId) {id : ClassId} (hid : world.HasClass id) :
    ∃ constants, (world.defineClass owner name parent).classRecord id =
      { world.classRecord id with constants } := by
  rw [classRecord_defineClass howner, if_neg (Nat.ne_of_lt hid)]
  split
  next => exact ⟨_, rfl⟩
  next => exact ⟨_, rfl⟩

/-- Of a class, only the methods can differ. -/
theorem classRecord_setMethod_eq (world : World) (id other : ClassId) (name : String)
    (code : Method.Code) :
    ∃ methods, (world.setMethod id name code).classRecord other =
      { world.classRecord other with methods } := by
  rw [setMethod, classRecord_modifyClass]
  split
  next => exact ⟨_, rfl⟩
  next => exact ⟨_, rfl⟩

theorem superclass_setMethod (world : World) (id other : ClassId) (name : String)
    (code : Method.Code) :
    ((world.setMethod id name code).classRecord other).superclass =
      (world.classRecord other).superclass := by
  obtain ⟨methods, heq⟩ := world.classRecord_setMethod_eq id other name code
  rw [heq]

@[simp] theorem size_objects_allocate (world : World) (object : Object) :
    (world.allocate object).2.objects.size = world.objects.size + 1 :=
  Array.size_push ..

@[simp] theorem size_objects_setIvar (world : World) (ref : Ref) (name : String) (value : Ref) :
    (world.setIvar ref name value).objects.size = world.objects.size :=
  Array.size_modify ..

@[simp] theorem size_objects_defineClass (world : World) (owner : ClassId) (name : String)
    (parent : ClassId) :
    (world.defineClass owner name parent).objects.size = world.objects.size + 1 :=
  Array.size_push ..

@[simp] theorem size_classes_defineClass (world : World) (owner : ClassId) (name : String)
    (parent : ClassId) :
    (world.defineClass owner name parent).classes.size = world.classes.size + 1 := by
  simp [defineClass, setConstant, modifyClass, newClass, allocate]

@[simp] theorem size_classes_setMethod (world : World) (id : ClassId) (name : String)
    (code : Method.Code) : (world.setMethod id name code).classes.size = world.classes.size :=
  Array.size_modify ..

theorem hasClass_setMethod {id other : ClassId} {name : String} {code : Method.Code} :
    (world.setMethod id name code).HasClass other ↔ world.HasClass other := by
  simp [HasClass]

/-! ### Changes -/

/-- One step of an evaluation, as far as the world is concerned. Classes are defined, and constants
are mentioned in bodies of methods, under allowed names only. -/
inductive Change (allowed : String → Prop) (world : World) : World → Prop
  | newString (text : String) : Change allowed world (world.newString text).2
  | newObject {id : ClassId} (hid : world.HasClass id) : Change allowed world (world.newObject id).2
  | setIvar {ref value : Ref} (href : world.HasObject ref) (hvalue : world.HasObject value)
    (name : String) : Change allowed world (world.setIvar ref name value)
  | defineClass {owner parent : ClassId} {name : String} (howner : world.HasClass owner)
    (hparent : world.HasClass parent) (hname : allowed name)
    (hfresh : (world.classRecord owner).constants.get? name = none) :
    Change allowed world (world.defineClass owner name parent)
  | setMethod {id : ClassId} {body : Option Node} (hid : world.HasClass id)
    (hbody : ∀ node ∈ body, node.NamesOnly allowed) (name : String) (params : List String) :
    Change allowed world (world.setMethod id name (.interpreted params body))

/-- The second world has at least as many objects and classes as the first. -/
structure Extends (first second : World) : Prop where
  objects : first.objects.size ≤ second.objects.size
  classes : first.classes.size ≤ second.classes.size

namespace Extends

variable {first second third : World}

theorem refl (world : World) : world.Extends world :=
  ⟨Nat.le_refl _, Nat.le_refl _⟩

theorem trans (h : first.Extends second) (h' : second.Extends third) : first.Extends third :=
  ⟨Nat.le_trans h.objects h'.objects, Nat.le_trans h.classes h'.classes⟩

theorem hasObject (h : first.Extends second) {ref : Ref} (href : first.HasObject ref) :
    second.HasObject ref :=
  Nat.lt_of_lt_of_le href h.objects

theorem hasClass (h : first.Extends second) {id : ClassId} (hid : first.HasClass id) :
    second.HasClass id :=
  Nat.lt_of_lt_of_le hid h.classes

end Extends

theorem Change.extends {allowed : String → Prop} {after : World} (h : Change allowed world after) :
    world.Extends after := by
  cases h with
  | newString text => exact ⟨by simp [World.newString], Nat.le_refl _⟩
  | newObject hid => exact ⟨by simp [World.newObject], Nat.le_refl _⟩
  | setIvar href hvalue name => exact ⟨by simp, Nat.le_refl _⟩
  | defineClass howner hparent hname hfresh => exact ⟨by simp, by simp⟩
  | setMethod hid hbody name params => exact ⟨Nat.le_refl _, by simp⟩

/-! ### Nothing is out of range -/

/-- Everything that a world refers to is there: the classes of objects, the values of instance
variables and constants, the classes that objects stand for and the objects that stand for classes.
The first four classes, nil and the main object are always there. -/
structure Closed (world : World) : Prop where
  classes : 4 ≤ world.classes.size
  objects : 6 ≤ world.objects.size
  classOf (ref : Ref) : world.HasObject ref → world.HasClass (world.classOf ref)
  asClass? (ref : Ref) (id : ClassId) : world.asClass? ref = some id → world.HasClass id
  face (id : ClassId) : world.HasClass id → world.HasObject (world.classRecord id).face
  ivar (ref : Ref) (name : String) (value : Ref) :
    world.lookupIvar ref name = some value → world.HasObject value
  constant (id : ClassId) (name : String) (value : Ref) :
    (world.classRecord id).constants.get? name = some value → world.HasObject value

namespace Closed

theorem nil (h : world.Closed) : world.HasObject .nil :=
  Nat.lt_of_lt_of_le (by decide) h.objects

theorem main (h : world.Closed) : world.HasObject .main :=
  Nat.lt_of_lt_of_le (by decide) h.objects

theorem classClass (h : world.Closed) : world.HasClass .classClass :=
  Nat.lt_of_lt_of_le (by decide) h.classes

theorem objectClass (h : world.Closed) : world.HasClass .objectClass :=
  Nat.lt_of_lt_of_le (by decide) h.classes

theorem stringClass (h : world.Closed) : world.HasClass .stringClass :=
  Nat.lt_of_lt_of_le (by decide) h.classes

/-- An instance variable that has not been set is nil. -/
theorem getIvar (h : world.Closed) (ref : Ref) (name : String) :
    world.HasObject (world.getIvar ref name) := by
  unfold World.getIvar
  cases hvalue : world.lookupIvar ref name with
  | none => exact h.nil
  | some value => exact h.ivar ref name value hvalue

/-- A new object of a class of the world stands for no class, and its instance variables are not
set. -/
theorem allocate (h : world.Closed) {object : Object} (hcls : world.HasClass object.cls)
    (hrecord : object.record = none) (hivars : object.ivars = ∅) :
    (world.allocate object).2.Closed := by
  have hgrown : world.Extends (world.allocate object).2 := ⟨by simp, Nat.le_refl _⟩
  refine ⟨h.classes, Nat.le_trans h.objects hgrown.objects, ?_, ?_, ?_, ?_, ?_⟩
  · intro ref href
    rw [World.classOf, object_allocate]
    split
    next => exact hcls
    next hne =>
      have hsize : ref.index < world.objects.size + 1 := by simpa [HasObject] using href
      exact h.classOf ref (by unfold HasObject; omega)
  · intro ref id hid
    rw [World.asClass?, object_allocate] at hid
    split at hid
    next => simp [hrecord] at hid
    next => exact h.asClass? ref id hid
  · exact fun id hid => hgrown.hasObject (h.face id hid)
  · intro ref name value hvalue
    rw [lookupIvar, object_allocate] at hvalue
    split at hvalue
    next => simp [hivars] at hvalue
    next => exact hgrown.hasObject (h.ivar ref name value hvalue)
  · exact fun id name value hvalue => hgrown.hasObject (h.constant id name value hvalue)

theorem setIvar (h : world.Closed) {ref value : Ref} (hvalue : world.HasObject value)
    (name : String) : (world.setIvar ref name value).Closed := by
  have hgrown : world.Extends (world.setIvar ref name value) := ⟨by simp, Nat.le_refl _⟩
  have hobject (other : Ref) := world.object_setIvar_eq ref other name value
  refine ⟨h.classes, Nat.le_trans h.objects hgrown.objects, ?_, ?_, ?_, ?_, ?_⟩
  · intro other hother
    obtain ⟨ivars, heq⟩ := hobject other
    rw [World.classOf, heq]
    exact h.classOf other (by simpa [HasObject] using hother)
  · intro other id hid
    obtain ⟨ivars, heq⟩ := hobject other
    rw [World.asClass?, heq] at hid
    exact h.asClass? other id hid
  · exact fun id hid => hgrown.hasObject (h.face id hid)
  · intro other key found hfound
    rw [lookupIvar, object_setIvar] at hfound
    split at hfound
    next =>
      rw [Table.get?_insert] at hfound
      split at hfound
      next =>
        cases hfound
        exact hgrown.hasObject hvalue
      next => exact hgrown.hasObject (h.ivar other key found hfound)
    next => exact hgrown.hasObject (h.ivar other key found hfound)
  · exact fun id key found hfound => hgrown.hasObject (h.constant id key found hfound)

theorem defineClass (h : world.Closed) {owner : ClassId} (howner : world.HasClass owner)
    (name : String) (parent : ClassId) : (world.defineClass owner name parent).Closed := by
  have hgrown : world.Extends (world.defineClass owner name parent) := ⟨by simp, by simp⟩
  have hnew : (world.defineClass owner name parent).HasObject ⟨world.objects.size⟩ := by
    simp [HasObject]
  refine ⟨Nat.le_trans h.classes hgrown.classes, Nat.le_trans h.objects hgrown.objects, ?_, ?_, ?_,
    ?_, ?_⟩
  · intro ref href
    rw [World.classOf, object_defineClass]
    split
    next => exact hgrown.hasClass h.classClass
    next hne =>
      have hsize : ref.index < world.objects.size + 1 := by simpa [HasObject] using href
      exact hgrown.hasClass (h.classOf ref (by unfold HasObject; omega))
  · intro ref id hid
    rw [World.asClass?, object_defineClass] at hid
    split at hid
    next =>
      cases hid
      simp [HasClass]
    next => exact hgrown.hasClass (h.asClass? ref id hid)
  · intro id hid
    have hsize : id.index < world.classes.size + 1 := by simpa [HasClass] using hid
    by_cases hid : world.HasClass id
    · obtain ⟨constants, heq⟩ := classRecord_defineClass_eq howner name parent hid
      rw [heq]
      exact hgrown.hasObject (h.face id hid)
    · have hlast : id.index = world.classes.size := by
        unfold HasClass at hid
        omega
      rw [classRecord_defineClass howner, if_pos hlast]
      exact hnew
  · intro ref key value hvalue
    rw [lookupIvar, object_defineClass] at hvalue
    split at hvalue
    next => simp at hvalue
    next => exact hgrown.hasObject (h.ivar ref key value hvalue)
  · intro id key value hvalue
    rw [classRecord_defineClass howner] at hvalue
    split at hvalue
    next => simp at hvalue
    next =>
      split at hvalue
      next =>
        rw [Table.get?_insert] at hvalue
        split at hvalue
        next =>
          cases hvalue
          exact hnew
        next => exact hgrown.hasObject (h.constant id key value hvalue)
      next => exact hgrown.hasObject (h.constant id key value hvalue)

theorem setMethod (h : world.Closed) (id : ClassId) (name : String) (code : Method.Code) :
    (world.setMethod id name code).Closed := by
  have hgrown : world.Extends (world.setMethod id name code) := ⟨Nat.le_refl _, by simp⟩
  have hrecord (other : ClassId) := world.classRecord_setMethod_eq id other name code
  refine ⟨Nat.le_trans h.classes hgrown.classes, h.objects, ?_, ?_, ?_, h.ivar, ?_⟩
  · exact fun ref href => hgrown.hasClass (h.classOf ref href)
  · exact fun ref other hid => hgrown.hasClass (h.asClass? ref other hid)
  · intro other hother
    obtain ⟨methods, heq⟩ := hrecord other
    rw [heq]
    exact h.face other (by simpa [HasClass] using hother)
  · intro other key value hvalue
    obtain ⟨methods, heq⟩ := hrecord other
    rw [heq] at hvalue
    exact h.constant other key value hvalue

end Closed

/-! ### Invariants -/

/-- All bodies of methods mention constants with allowed names only. -/
def BodiesName (allowed : String → Prop) (world : World) : Prop :=
  world.AllBodies fun _ body => ∀ node ∈ body, node.NamesOnly allowed

theorem BodiesName.change {allowed : String → Prop} (h : world.BodiesName allowed) {after : World}
    (hchange : Change allowed world after) : after.BodiesName allowed := by
  cases hchange with
  | newString text => exact h.newString text
  | newObject hid => exact h.newObject _
  | setIvar href hvalue name => exact h.setIvar _ _ _
  | defineClass howner hparent hname hfresh => exact (h.newClass _ _).setConstant _ _ _
  | setMethod hid hbody name params => exact AllBodies.setMethod h hbody

/-- A property of worlds that every change keeps. Nothing is out of range in such a world, and all
constants have allowed names. -/
structure Invariant where
  /-- The names of constants that may be mentioned. -/
  allowed : String → Prop
  Holds : World → Prop
  closed {world : World} : Holds world → world.Closed
  bodies {world : World} : Holds world → world.BodiesName allowed
  change {world after : World} : Holds world → Change allowed world after → Holds after

end Garnet.World
