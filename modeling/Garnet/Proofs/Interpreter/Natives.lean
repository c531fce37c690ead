import Garnet.Proofs.Interpreter.Origin

/-! # Built-in native methods

A native method runs in a frame whose label says in which class and under which name it was found.
As long as the host puts no methods in, there are three native methods, each in one place only, and
no program can add or move one. So the label of a frame says which native method runs in it.
-/

namespace Garnet

open Evaluation

/-- The label of the frames that a built-in method runs in. -/
def Native.home? : Native → Option String
  | .new => some "Class#new"
  | .setUp => some "Object#initialize"
  | .puts => some "Object#puts"
  | .host _ => none

namespace World

variable {world after : World}

/-- All native methods are built in, and found in their places only. -/
def BuiltIn (world : World) : Prop :=
  ∀ id name method native, world.ownMethod? id name = some method →
    method.code = .native native →
      native.home? = some ((world.classRecord id).name ++ "#" ++ name)

/-- The methods of the first world. -/
theorem ownMethod?_initial {id : ClassId} {name : String} {method : Method}
    (h : initial.ownMethod? id name = some method) :
    id = .classClass ∧ name = "new" ∧ method.code = .native .new ∨
      id = .objectClass ∧ name = "initialize" ∧ method.code = .native .setUp ∨
      id = .objectClass ∧ name = "puts" ∧ method.code = .native .puts := by
  -- Only the first two classes have methods.
  obtain ⟨_ | _ | _ | _ | index⟩ := id
  · have hmem := Table.mem_of_get?_ofList h
    simp only [nativeEntry, List.mem_singleton, Prod.mk.injEq] at hmem
    obtain ⟨rfl, rfl⟩ := hmem
    exact .inl ⟨rfl, rfl, rfl⟩
  · have hmem := Table.mem_of_get?_ofList h
    simp only [nativeEntry, List.mem_cons, List.not_mem_nil, or_false, Prod.mk.injEq] at hmem
    obtain ⟨rfl, rfl⟩ | ⟨rfl, rfl⟩ := hmem
    · exact .inr (.inl ⟨rfl, rfl, rfl⟩)
    · exact .inr (.inr ⟨rfl, rfl, rfl⟩)
  all_goals
    have hnone : (none : Option Method) = some method := h
    cases hnone

theorem builtIn_initial : initial.BuiltIn := by
  intro id name method native hmethod hcode
  obtain ⟨rfl, rfl, hnative⟩ | ⟨rfl, rfl, hnative⟩ | ⟨rfl, rfl, hnative⟩ :=
    ownMethod?_initial hmethod
  all_goals
    cases hnative.symm.trans hcode
    decide

/-- An edit adds no native method. -/
theorem Edit.ownMethod?_native (h : world.Edit after) {id : ClassId} {name : String}
    {method : Method} {native : Native} (hmethod : after.ownMethod? id name = some method)
    (hcode : method.code = .native native) : world.ownMethod? id name = some method := by
  cases h with
  | newString text => exact hmethod
  | newObject other => exact hmethod
  | setIvar ref key value => exact hmethod
  | defineClass hfresh parent =>
    rw [defineClass_eq, ownMethod?_setConstant, ownMethod?_newClass] at hmethod
    split at hmethod
    next => cases hmethod
    next => exact hmethod
  | setMethod other key params body =>
    rw [ownMethod?_setMethod] at hmethod
    split at hmethod
    next =>
      cases hmethod
      cases hcode
    next => exact hmethod

theorem BuiltIn.edit (h : world.BuiltIn) (hedit : world.Edit after) : after.BuiltIn := by
  intro id name method native hmethod hcode
  have hold := hedit.ownMethod?_native hmethod hcode
  have hid : world.HasClass id := hasClass_of_ownMethod? (by rw [hold]; rfl)
  rw [(hedit.keeps.record id hid).1]
  exact h id name method native hold hcode

theorem BuiltIn.edits (h : world.BuiltIn) (hedits : world.Edits after) : after.BuiltIn := by
  induction hedits with
  | refl => exact h
  | tail _ hedit ih => exact ih.edit hedit

end World

/-- What is done with a native method is done where it is built in. -/
def Activity.BuiltIn (interp : Interpreter) : Activity → Prop
  | .entry frame _ (.native found _) => found.home? = some frame.label
  | .task _ (.native found _) | .native _ _ found => found.home? = some interp.current.label
  | .lines _ _ | .refused _ _ => interp.current.label = "Object#puts"
  | _ => True

namespace Interpreter

variable {i m : Interpreter} {a b : Activity}

theorem Begins.builtIn (h : Begins i a m b) (hworld : i.world.BuiltIn) (ha : a.BuiltIn i) :
    b.BuiltIn m := by
  cases h with
  | answer hfound =>
    have hown := World.ownMethod?_of_findMethod hfound
    cases hcode : Method.code _ with
    | native native => exact hworld _ _ _ _ hown hcode
    | interpreted params body => trivial
  | @enter frame _ task hroom =>
    cases task with
    | native native args => exact ha
    | body body => trivial
  | native => exact ha
  | puts => exact (Option.some.inj ha).symm
  | written hwrite => exact ha
  | refused hwrite => exact ha
  | _ => trivial

theorem Reaches.builtIn (h : Reaches i a m b) (hworld : i.world.BuiltIn) (ha : a.BuiltIn i) :
    b.BuiltIn m := by
  induction h with
  | refl => exact ha
  | next hbegins _ ih =>
    refine ih ?_ (hbegins.builtIn hworld ha)
    rcases hbegins.stays_or_enters with hstays | ⟨-, frame, rfl⟩
    · exact hworld.edits hstays.edits
    · exact hworld

/-- Whatever texts have run, the native methods are the built-in ones. -/
theorem builtIn_runAll (limit : Int) (sink : Sink) (history : List String) :
    ((new limit sink).runAll history).world.BuiltIn := by
  suffices hstep : ∀ interp : Interpreter, interp.world.BuiltIn →
      (interp.runAll history).world.BuiltIn from hstep _ World.builtIn_initial
  induction history with
  | nil => exact fun _ h => h
  | cons source rest ih => exact fun interp h => ih _ (h.edits (run_edits interp source).1)

end Interpreter

end Garnet
