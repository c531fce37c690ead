import Garnet.Proofs.Evaluation.Congruence
import Garnet.Proofs.Interpreter.Basic
import Garnet.Proofs.Interpreter.Termination

/-! # Output of earlier runs

What has been written and noted before an evaluation begins has no influence on it: the evaluation
only adds to it. If the output is taken away between two runs, the second run is therefore the same,
and what is found afterwards is what it has written itself.
-/

namespace Garnet

namespace Evaluation

/-- A state with earlier output and earlier events in front of its own. -/
def State.following (state : State) (written : Array String) (log : Array Event) : State :=
  { state with
    sink := { state.sink with written := written ++ state.sink.written }
    log := log ++ state.log }

end Evaluation

open Evaluation

/-! ### Steps -/

namespace Eval

variable {α β : Type}

/-- A step that does the same whatever has been written and noted before. -/
def Adds (step : Eval α) : Prop :=
  ∀ context state written log, step context (state.following written log) =
    ((step context state).1, (step context state).2.following written log)

namespace Adds

theorem bind {step : Eval α} {next : α → Eval β} (hstep : step.Adds)
    (hnext : ∀ value, (next value).Adds) : (step >>= next).Adds := by
  intro context state written log
  rw [bind_apply, bind_apply, hstep]
  rcases step context state with ⟨error | value, left⟩
  · rfl
  · exact hnext value context left written log

theorem note (event : Event) : (Eval.note event).Adds := by
  intro context state written log
  simp [Eval.note, State.following]

/-- Whether a write is refused depends on the number of writes, not on what was written. -/
theorem write (text : String) : (Eval.write text).Adds := by
  intro context state written log
  unfold Eval.write Sink.write
  dsimp only [State.following]
  split
  next => rfl
  next => simp

theorem writeLines (site : Option Node) (lines : List String) :
    (Evaluation.writeLines site lines).Adds := by
  induction lines with
  | nil => exact fun _ _ _ _ => rfl
  | cons line rest ih =>
    apply bind (write _)
    intro refusal
    cases refusal with
    | some reason => exact fun _ _ _ _ => rfl
    | none => exact ih

theorem annotating {step : Eval α} (note : Option String) (h : step.Adds) :
    (Evaluation.annotating note step).Adds := by
  intro context state written log
  unfold Evaluation.annotating
  rw [h]
  rcases step context state with ⟨error | value, left⟩ <;> rfl

theorem within {step : Eval Ref} (h : step.Adds) (frame : Frame) :
    (Evaluation.within frame step).Adds := by
  intro context state written log
  have hentered : (state.following written log).entering frame (context.depth + 1) =
      (state.entering frame (context.depth + 1)).following written log := by
    simp [State.entering, State.following]
  have hleft (left : State) (below : Frame) :
      (left.following written log).leaving below frame.label context.depth =
        (left.leaving below frame.label context.depth).following written log := by
    simp [State.leaving, State.following]
  have hframe : (state.following written log).frame = state.frame := rfl
  rw [within_apply, within_apply, hentered, hframe, h]
  rcases step (context.entering state.frame) (state.entering frame (context.depth + 1)) with
    ⟨error | value, left⟩
  · exact congrArg (Prod.mk _) (hleft left state.frame)
  · exact congrArg (Prod.mk _) (hleft left { state.frame with result := some value })

end Adds

/-- To add to the output is a statement about single steps. -/
def adding : Congruence where
  Rel step _ := step.Adds
  pure _ := fun _ _ _ _ => rfl
  bind := .bind
  raise _ _ := fun _ _ _ _ => rfl
  leave _ := fun _ _ _ _ => rfl
  getWorld := fun _ _ _ _ => rfl
  getFrame h := .bind (fun _ _ _ _ => rfl) fun frame => h frame frame rfl
  setWorld _ := fun _ _ _ _ => rfl
  grow _ := fun _ _ _ _ => rfl
  assign _ _ := fun _ _ _ _ => rfl
  note {event} _ := .note event
  writeLines := .writeLines
  annotating note h := .annotating note h

end Eval

namespace Evaluation

theorem perform_adds (room : Nat) (frame : Frame) (site : Option Node) (task : Task) :
    (perform room frame site task).Adds := by
  induction room generalizing frame site task with
  | zero => exact fun _ _ _ _ => rfl
  | succ room ih =>
    have halike : ∀ frame site task, Eval.adding.Rel (perform room frame site task)
        (perform room frame site task) := ih
    exact Eval.Adds.within (Eval.adding.runTask halike site task) frame

theorem evalTree_adds (room : Nat) (tree : Option Node) : (evalTree room tree).Adds := by
  have halike : ∀ frame site task, Eval.adding.Rel (perform room frame site task)
      (perform room frame site task) := perform_adds room
  rw [evalTree_eq_runTask]
  exact Eval.adding.runTask halike none (.body tree)

end Evaluation

/-! ### Runs -/

theorem Sink.text_append (sink : Sink) (written : Array String) :
    Sink.text { sink with written := written ++ sink.written } =
      String.join written.toList ++ sink.text := by
  simp [Sink.text]

namespace Interpreter

variable {interp other : Interpreter}

/-- An interpreter with earlier output and earlier events in front of its own. -/
def following (interp : Interpreter) (written : Array String) (log : Array Event) : Interpreter :=
  { interp with
    sink := { interp.sink with written := written ++ interp.sink.written }
    log := log ++ interp.log }

theorem drain_following (interp : Interpreter) (written : Array String) (log : Array Event) :
    (interp.following written log).drain = interp.drain := rfl

theorem following_drain (interp : Interpreter) :
    interp.drain.following interp.sink.written interp.log = interp := by
  simp [following, drain, Sink.drain]

theorem run_following (interp : Interpreter) (written : Array String) (log : Array Event)
    (source : String) :
    (interp.following written log).run source =
      ((interp.run source).1, (interp.run source).2.following written log) := by
  rcases hparse : parse source interp.current.locals.names with error | tree
  · have hparse' : parse source (interp.following written log).current.locals.names =
        .error error := hparse
    rw [run, run, hparse, hparse']
  · rcases hrun : evalTree interp.room tree (interp.reading source).context interp.state with
      ⟨outcome, left⟩
    have hrun' : evalTree interp.room tree (interp.reading source).context
        (interp.state.following written log) = (outcome, left.following written log) := by
      rw [evalTree_adds, hrun]
    have hparse' : parse source (interp.following written log).current.locals.names = .ok tree :=
      hparse
    have hfollowing := run_of_parse hparse' hrun'
    rw [hfollowing, run_of_parse hparse hrun]
    rfl

/-- A run after the output was taken away: the same outcome, and the same interpreter but for the
output and the events of before. -/
theorem run_eq_following (interp : Interpreter) (source : String) :
    interp.run source = ((interp.drain.run source).1,
      (interp.drain.run source).2.following interp.sink.written interp.log) := by
  rw [← run_following, following_drain]

/-- Interpreters that differ in earlier output go on in the same way. -/
theorem drain_run (h : interp.drain = other.drain) (source : String) :
    (interp.drain.run source).2.drain = (other.run source).2.drain := by
  rw [run_eq_following other, drain_following, h]

/-- What is written after the output was taken away is what a run adds to it. -/
theorem text_run (interp : Interpreter) (source : String) :
    (interp.run source).2.sink.text =
      interp.sink.text ++ (interp.drain.run source).2.sink.text := by
  rw [run_eq_following]
  exact Sink.text_append _ _

end Interpreter

end Garnet
