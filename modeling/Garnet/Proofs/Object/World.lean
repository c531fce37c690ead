import Garnet.Object.World
import Garnet.Proofs.Table

/-! # Method tables of a world

What a change of the world does to the methods that classes declare themselves. Only a definition
changes them, and it changes one entry of one class.
-/

namespace Garnet.World

theorem classRecord_modifyClass (world : World) (id other : ClassId)
    (f : ClassRecord → ClassRecord) :
    (world.modifyClass id f).classRecord other =
      if other = id ∧ id.index < world.classes.size then f (world.classRecord other)
      else world.classRecord other := by
  obtain ⟨i⟩ := id
  obtain ⟨j⟩ := other
  simp only [classRecord, modifyClass, Array.getD_eq_getD_getElem?, Array.getElem?_modify,
    ClassId.mk.injEq]
  by_cases hij : i = j
  · subst hij
    by_cases hi : i < world.classes.size
    · simp [hi]
    · simp [hi]
  · simp [hij, Ne.symm hij]

theorem classRecord_newClass (world : World) (name : String) (superclass id : ClassId) :
    (world.newClass name superclass).2.classRecord id =
      if id.index = world.classes.size then
        { name, superclass := some superclass, face := ⟨world.objects.size⟩ }
      else world.classRecord id := by
  simp only [classRecord, newClass, allocate, Array.getD_eq_getD_getElem?, Array.getElem?_push]
  split <;> rfl

theorem ownMethod?_setConstant (world : World) (id : ClassId) (name : String) (value : Ref)
    (other : ClassId) (message : String) :
    (world.setConstant id name value).ownMethod? other message =
      world.ownMethod? other message := by
  rw [ownMethod?, setConstant, classRecord_modifyClass]
  split <;> rfl

theorem ownMethod?_newClass (world : World) (name : String) (superclass id : ClassId)
    (message : String) :
    (world.newClass name superclass).2.ownMethod? id message =
      if id.index = world.classes.size then none else world.ownMethod? id message := by
  rw [ownMethod?, classRecord_newClass]
  split <;> rfl

theorem ownMethod?_setMethod (world : World) (id : ClassId) (name : String) (code : Method.Code)
    (other : ClassId) (message : String) :
    (world.setMethod id name code).ownMethod? other message =
      if other = id ∧ id.index < world.classes.size ∧ name = message then
        some { name, owner := id, code }
      else world.ownMethod? other message := by
  rw [ownMethod?, setMethod, classRecord_modifyClass]
  by_cases h : other = id ∧ id.index < world.classes.size
  · rw [if_pos h, Table.get?_insert]
    simp [h, ownMethod?]
  · rw [if_neg h]
    simp only [← and_assoc, h, false_and, if_false]
    rfl

/-- A message resolves to a method that one of the ancestors declares itself. -/
theorem ownMethod?_of_findMethod {world : World} {id owner : ClassId} {name : String}
    {method : Method} (h : world.findMethod id name = some (method, owner)) :
    world.ownMethod? owner name = some method := by
  obtain ⟨ancestor, -, hfound⟩ := List.exists_of_findSome?_eq_some h
  obtain ⟨found, hown, hpair⟩ := Option.map_eq_some_iff.1 hfound
  cases hpair
  exact hown

/-- Every method that is written in the language has parameters and a body of a given sort. -/
def AllBodies (sort : List String → Option Node → Prop) (world : World) : Prop :=
  ∀ id name method params body, world.ownMethod? id name = some method →
    method.code = .interpreted params body → sort params body

namespace AllBodies

variable {sort : List String → Option Node → Prop} {world : World}

theorem newString (h : world.AllBodies sort) (text : String) :
    (world.newString text).2.AllBodies sort := h

theorem newObject (h : world.AllBodies sort) (id : ClassId) :
    (world.newObject id).2.AllBodies sort := h

theorem setIvar (h : world.AllBodies sort) (ref : Ref) (name : String) (value : Ref) :
    (world.setIvar ref name value).AllBodies sort := h

theorem setConstant (h : world.AllBodies sort) (id : ClassId) (name : String) (value : Ref) :
    (world.setConstant id name value).AllBodies sort := by
  intro other message method params body hmethod
  rw [ownMethod?_setConstant] at hmethod
  exact h other message method params body hmethod

theorem newClass (h : world.AllBodies sort) (name : String) (superclass : ClassId) :
    (world.newClass name superclass).2.AllBodies sort := by
  intro other message method params body hmethod
  rw [ownMethod?_newClass] at hmethod
  split at hmethod
  next => exact absurd hmethod (by simp)
  next => exact h other message method params body hmethod

/-- A definition keeps the sort of the bodies if the new one is of that sort. -/
theorem setMethod (h : world.AllBodies sort) {id : ClassId} {name : String}
    {params : List String} {body : Option Node} (hbody : sort params body) :
    (world.setMethod id name (.interpreted params body)).AllBodies sort := by
  intro other message method otherParams otherBody hmethod hcode
  rw [ownMethod?_setMethod] at hmethod
  split at hmethod
  next =>
    cases hmethod
    cases hcode
    exact hbody
  next => exact h other message method otherParams otherBody hmethod hcode

end AllBodies

/-- The first world has no method that is written in the language. -/
theorem allBodies_initial (sort : List String → Option Node → Prop) : initial.AllBodies sort := by
  intro id name method params body hmethod hcode
  have hnative : ∃ native, method.code = .native native := by
    obtain ⟨index⟩ := id
    match index with
    | 0 =>
      have hmem := Table.mem_of_get?_ofList hmethod
      simp only [nativeEntry, List.mem_singleton, Prod.mk.injEq] at hmem
      exact ⟨_, by rw [hmem.2]⟩
    | 1 =>
      have hmem := Table.mem_of_get?_ofList hmethod
      simp only [nativeEntry, List.mem_cons, List.not_mem_nil, or_false, Prod.mk.injEq] at hmem
      rcases hmem with ⟨-, hmem⟩ | ⟨-, hmem⟩
      · exact ⟨_, by rw [hmem]⟩
      · exact ⟨_, by rw [hmem]⟩
    | 2 | 3 | _ + 4 =>
      have hnone : (none : Option Method) = some method := hmethod
      exact absurd hnone (by simp)
  obtain ⟨native, hnative⟩ := hnative
  rw [hnative] at hcode
  exact absurd hcode (by simp)

end Garnet.World
