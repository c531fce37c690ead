import Garnet.Proofs.Object.Change
import Mathlib.Logic.Relation

/-! # What edits of a world keep

An edit is an elementary change of a world of any kind, also of one in which references lead
nowhere. Whatever edits are made, nothing that was defined is lost: classes and objects stay what
they are, and what was bound, declared or set stays so. Only the value of an instance variable and
the code of a method can be replaced.
-/

namespace Garnet.World

variable {world first second third : World}

/-- One elementary change. A class is only defined under a constant that is not bound yet. -/
inductive Edit (world : World) : World → Prop
  | newString (text : String) : Edit world (world.newString text).2
  | newObject (id : ClassId) : Edit world (world.newObject id).2
  | setIvar (ref : Ref) (name : String) (value : Ref) : Edit world (world.setIvar ref name value)
  | defineClass {owner : ClassId} {name : String}
    (hfresh : (world.classRecord owner).constants.get? name = none) (parent : ClassId) :
    Edit world (world.defineClass owner name parent)
  | setMethod (id : ClassId) (name : String) (params : List String) (body : Option Node) :
    Edit world (world.setMethod id name (.interpreted params body))

/-- The second world comes from the first by edits. -/
def Edits (first second : World) : Prop :=
  Relation.ReflTransGen Edit first second

/-- Nothing that is defined in the first world is lost in the second: classes keep their numbers,
names, superclasses and the objects that stand for them, constants stay bound to the same objects,
methods stay declared, objects keep their classes and texts, and instance variables stay set. -/
structure Keeps (first second : World) : Prop where
  grown : first.Extends second
  record (id : ClassId) : first.HasClass id →
    (second.classRecord id).name = (first.classRecord id).name ∧
      (second.classRecord id).superclass = (first.classRecord id).superclass ∧
      (second.classRecord id).face = (first.classRecord id).face
  constant (id : ClassId) (name : String) (value : Ref) :
    (first.classRecord id).constants.get? name = some value →
      (second.classRecord id).constants.get? name = some value
  method (id : ClassId) (name : String) :
    (first.ownMethod? id name).isSome = true → (second.ownMethod? id name).isSome = true
  object (ref : Ref) : first.HasObject ref →
    second.classOf ref = first.classOf ref ∧
      (second.object ref).payload = (first.object ref).payload ∧
      second.asClass? ref = first.asClass? ref
  ivar (ref : Ref) (name : String) :
    (first.lookupIvar ref name).isSome = true → (second.lookupIvar ref name).isSome = true

namespace Keeps

theorem refl (world : World) : world.Keeps world :=
  ⟨.refl world, fun _ _ => ⟨rfl, rfl, rfl⟩, fun _ _ _ h => h, fun _ _ h => h,
    fun _ _ => ⟨rfl, rfl, rfl⟩, fun _ _ h => h⟩

theorem trans (h : first.Keeps second) (h' : second.Keeps third) : first.Keeps third where
  grown := h.grown.trans h'.grown
  record id hid := by
    obtain ⟨hname, hsuper, hface⟩ := h.record id hid
    obtain ⟨hname', hsuper', hface'⟩ := h'.record id (h.grown.hasClass hid)
    exact ⟨hname'.trans hname, hsuper'.trans hsuper, hface'.trans hface⟩
  constant id name value hvalue := h'.constant id name value (h.constant id name value hvalue)
  method id name hmethod := h'.method id name (h.method id name hmethod)
  object ref href := by
    obtain ⟨hclass, hpayload, hrecord⟩ := h.object ref href
    obtain ⟨hclass', hpayload', hrecord'⟩ := h'.object ref (h.grown.hasObject href)
    exact ⟨hclass'.trans hclass, hpayload'.trans hpayload, hrecord'.trans hrecord⟩
  ivar ref name hset := h'.ivar ref name (h.ivar ref name hset)

/-- An object that began without any content stays a plain object of its class. -/
theorem plain (h : first.Keeps second) {ref : Ref} {id : ClassId} (href : first.HasObject ref)
    (hbare : first.object ref = { cls := id }) :
    second.HasObject ref ∧ second.classOf ref = id ∧ (second.object ref).payload = none ∧
      second.asClass? ref = none := by
  obtain ⟨hcls, hpayload, hrecord⟩ := h.object ref href
  refine ⟨h.grown.hasObject href, ?_, ?_, ?_⟩
  · rw [hcls, World.classOf, hbare]
  · rw [hpayload, hbare]
  · rw [hrecord, World.asClass?, hbare]

/-- A new object is another one than all that were there before. -/
theorem allocate (world : World) (object : Object) : world.Keeps (world.allocate object).2 := by
  have hold (ref : Ref) (href : world.HasObject ref) :
      (world.allocate object).2.object ref = world.object ref := by
    rw [object_allocate, if_neg (Nat.ne_of_lt href)]
  refine ⟨⟨by simp, Nat.le_refl _⟩, fun _ _ => ⟨rfl, rfl, rfl⟩, fun _ _ _ h => h, fun _ _ h => h,
    fun ref href => ?_, fun ref name hset => ?_⟩
  · rw [classOf, asClass?, hold ref href]
    exact ⟨rfl, rfl, rfl⟩
  · rw [lookupIvar, hold ref (hasObject_of_lookupIvar hset)]
    exact hset

theorem setIvar (world : World) (ref : Ref) (name : String) (value : Ref) :
    world.Keeps (world.setIvar ref name value) := by
  refine ⟨⟨by simp, Nat.le_refl _⟩, fun _ _ => ⟨rfl, rfl, rfl⟩, fun _ _ _ h => h, fun _ _ h => h,
    fun other _ => ?_, fun other key hset => ?_⟩
  · obtain ⟨ivars, heq⟩ := world.object_setIvar_eq ref other name value
    rw [classOf, asClass?, heq]
    exact ⟨rfl, rfl, rfl⟩
  · rw [lookupIvar, object_setIvar]
    split
    next =>
      rw [Table.get?_insert]
      split
      next => rfl
      next => exact hset
    next => exact hset

theorem newClass (world : World) (name : String) (superclass : ClassId) :
    world.Keeps (world.newClass name superclass).2 := by
  have hold (id : ClassId) (hid : world.HasClass id) :
      (world.newClass name superclass).2.classRecord id = world.classRecord id := by
    rw [classRecord_newClass, if_neg (Nat.ne_of_lt hid)]
  have hface := allocate world { cls := .classClass, record := some ⟨world.classes.size⟩ }
  refine ⟨⟨hface.grown.objects, by simp [World.newClass, World.allocate]⟩, fun id hid => ?_,
    fun id key value hvalue => ?_, fun id key hmethod => ?_, hface.object, hface.ivar⟩
  · rw [hold id hid]
    exact ⟨rfl, rfl, rfl⟩
  · rw [hold id (hasClass_of_constant hvalue)]
    exact hvalue
  · rw [ownMethod?_newClass, if_neg (Nat.ne_of_lt (hasClass_of_ownMethod? hmethod))]
    exact hmethod

/-- To bind a constant that was not bound changes nothing else. -/
theorem setConstant {owner : ClassId} {name : String}
    (hfresh : (world.classRecord owner).constants.get? name = none) (value : Ref) :
    world.Keeps (world.setConstant owner name value) := by
  have hrecord (id : ClassId) : ∃ constants,
      (world.setConstant owner name value).classRecord id =
        { world.classRecord id with constants } ∧
      ∀ key found, (world.classRecord id).constants.get? key = some found →
        constants.get? key = some found := by
    rw [World.setConstant, classRecord_modifyClass]
    split
    next heq =>
      refine ⟨_, rfl, fun key found hfound => ?_⟩
      rw [Table.get?_insert]
      split
      next hkey =>
        rw [heq.1, ← hkey, hfresh] at hfound
        cases hfound
      next => exact hfound
    next => exact ⟨_, rfl, fun _ _ hfound => hfound⟩
  refine ⟨⟨Nat.le_refl _, by simp [World.setConstant, modifyClass]⟩, fun id _ => ?_,
    fun id key found hfound => ?_, fun id key hmethod => ?_, fun _ _ => ⟨rfl, rfl, rfl⟩,
    fun _ _ h => h⟩
  · obtain ⟨constants, heq, -⟩ := hrecord id
    rw [heq]
    exact ⟨rfl, rfl, rfl⟩
  · obtain ⟨constants, heq, hkept⟩ := hrecord id
    rw [heq]
    exact hkept key found hfound
  · rw [ownMethod?_setConstant]
    exact hmethod

/-- A new class has no constants yet, so also there the constant is not bound. -/
theorem defineClass {owner : ClassId} {name : String}
    (hfresh : (world.classRecord owner).constants.get? name = none) (parent : ClassId) :
    world.Keeps (world.defineClass owner name parent) := by
  rw [defineClass_eq]
  refine (newClass world _ parent).trans (setConstant ?_ _)
  rw [classRecord_newClass]
  split
  next => rfl
  next => exact hfresh

theorem setMethod (world : World) (id : ClassId) (name : String) (code : Method.Code) :
    world.Keeps (world.setMethod id name code) := by
  refine ⟨⟨Nat.le_refl _, by simp⟩, fun other _ => ?_, fun other key value hvalue => ?_,
    fun other key hmethod => ?_, fun _ _ => ⟨rfl, rfl, rfl⟩, fun _ _ h => h⟩
  · obtain ⟨methods, heq⟩ := world.classRecord_setMethod_eq id other name code
    rw [heq]
    exact ⟨rfl, rfl, rfl⟩
  · obtain ⟨methods, heq⟩ := world.classRecord_setMethod_eq id other name code
    rw [heq]
    exact hvalue
  · rw [ownMethod?_setMethod]
    split
    next => rfl
    next => exact hmethod

end Keeps

theorem Edit.keeps (h : world.Edit second) : world.Keeps second := by
  cases h with
  | newString text => exact .allocate world _
  | newObject id => exact .allocate world _
  | setIvar ref name value => exact .setIvar world ref name value
  | defineClass hfresh parent => exact .defineClass hfresh parent
  | setMethod id name params body => exact .setMethod world id name _

/-- However many edits are made, nothing is lost. -/
theorem Edits.keeps (h : first.Edits second) : first.Keeps second := by
  induction h with
  | refl => exact .refl first
  | tail _ hedit ih => exact ih.trans hedit.keeps

end Garnet.World
