import Garnet.Interpreter
import Garnet.Proofs.Evaluation.Logic

/-! # Interpreters as states of an evaluation

An interpreter hands its current frame to an evaluation and takes it back. The frames below are
only there as a context, so that no evaluation can reach them.
-/

namespace Garnet.Interpreter

theorem depth_eq_length (interp : Interpreter) :
    interp.depth =
      (interp.outer.map fun frame => Trace.Entry.mk frame.label frame.pos).length + 1 := by
  rw [depth, List.length_map]

/-- What an evaluation sees of the frames below the current one. -/
def context (interp : Interpreter) : Evaluation.Context where
  callers := interp.outer.map fun frame => ⟨frame.label, frame.pos⟩
  depth := interp.depth
  depth_eq := interp.depth_eq_length
  limit := interp.limit
  source := interp.source

/-- What an evaluation may change of an interpreter. -/
def state (interp : Interpreter) : Evaluation.State where
  world := interp.world
  frame := interp.current
  sink := interp.sink
  log := interp.log

/-- The interpreter after an evaluation. -/
def resume (interp : Interpreter) (state : Evaluation.State) : Interpreter :=
  { interp with
    world := state.world, current := state.frame, sink := state.sink, log := state.log }

theorem exec_eq {α : Type} (interp : Interpreter) (step : Eval α) :
    interp.exec step =
      ((step interp.context interp.state).1, interp.resume (step interp.context interp.state).2) :=
  rfl

theorem exec_bind {α β : Type} (interp : Interpreter) (step : Eval α) (next : α → Eval β) :
    interp.exec (step >>= next) =
      match interp.exec step with
      | (.ok value, left) => left.exec (next value)
      | (.error error, left) => (.error error, left) := by
  rw [exec_eq, exec_eq, Eval.bind_apply]
  rcases step interp.context interp.state with ⟨_ | value, left⟩ <;> rfl

theorem exec_annotating {α : Type} (interp : Interpreter) (note : Option String) (step : Eval α) :
    interp.exec (Evaluation.annotating note step) =
      ((interp.exec step).1.mapError (·.annotate note), (interp.exec step).2) := by
  rw [exec_eq, exec_eq]
  unfold Evaluation.annotating
  rcases step interp.context interp.state with ⟨_ | value, left⟩ <;> rfl

theorem room_of_exec {α : Type} {interp left : Interpreter} {step : Eval α}
    {outcome : Except RuntimeError α} (h : interp.exec step = (outcome, left)) :
    left.room = interp.room := by
  cases h
  rfl

/-- An interpreter with another text to cut code frames from. -/
def reading (interp : Interpreter) (source : String) : Interpreter :=
  { interp with source }

@[simp] theorem state_reading (interp : Interpreter) (source : String) :
    (interp.reading source).state = interp.state := rfl

@[simp] theorem room_reading (interp : Interpreter) (source : String) :
    (interp.reading source).room = interp.room := rfl

/-- A program that is accepted is evaluated in the current frame. -/
theorem run_of_parse {interp : Interpreter} {source : String} {tree : Option Node}
    {outcome : Except RuntimeError Ref} {left : Evaluation.State}
    (hparse : parse source interp.current.locals.names = .ok tree)
    (hrun : Evaluation.evalTree interp.room tree (interp.reading source).context interp.state =
      (outcome, left)) :
    interp.run source = (outcome.mapError .runtime, (interp.reading source).resume left) := by
  have hinterpret : (interp.reading source).interpret tree =
      (outcome, (interp.reading source).resume left) := by
    rw [interpret, exec_eq, room_reading, state_reading, hrun]
  unfold reading at hinterpret
  rw [run, hparse]
  dsimp only
  rw [hinterpret]
  cases outcome with
  | ok value => rfl
  | error error => rfl

/-- Run source texts one after the other, whether they fail or not. -/
def runAll (interp : Interpreter) (sources : List String) : Interpreter :=
  sources.foldl (fun interp source => (interp.run source).2) interp

end Garnet.Interpreter
