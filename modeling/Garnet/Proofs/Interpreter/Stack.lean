import Garnet.Proofs.Evaluation.Frames
import Garnet.Proofs.Interpreter.Basic

/-! # The stack of an interpreter

Whatever is evaluated leaves of the current frame everything but its result and the local variables
that are assigned, and the events that are noted in the meantime show that every frame that was
entered has been left again.
-/

namespace Garnet.Interpreter

/-- An interpreter after something ran in its current frame that may have assigned the given
names. -/
structure Keeps (names : List String) (before after : Interpreter) : Prop where
  depth : after.depth = before.depth
  outer : after.outer = before.outer
  current : before.current.Keeps names after.current
  events : ∃ events, after.log.toList = before.log.toList ++ events ∧
    Event.Balanced before.depth events

/-- Note an event. -/
def note (interp : Interpreter) (event : Event) : Interpreter :=
  { interp with log := interp.log.push event }

/-- Make a new frame current, and note it. -/
def enter (interp : Interpreter) (frame : Frame) : Interpreter :=
  (interp.push frame).note (.push frame.label (interp.push frame).depth)

theorem room_enter (interp : Interpreter) (frame : Frame) :
    (interp.enter frame).room = interp.room - 1 := rfl

theorem popped_eq {interp below : Interpreter} {popped : Frame}
    (h : interp.pop? = some (popped, below)) : popped = interp.current := by
  unfold pop? at h
  split at h
  next => cases h
  next =>
    cases h
    rfl

/-- A step in a frame of its own moves the stack up and down by one: there always is a frame to go
back to. -/
theorem exec_within (interp : Interpreter) (frame : Frame) (step : Eval Ref) :
    ∃ popped below, ((interp.enter frame).exec step).2.pop? = some (popped, below) ∧
      interp.exec (Evaluation.within frame step) =
        match ((interp.enter frame).exec step).1 with
        | .ok value => (.ok value, (below.setResult value).note (.pop frame.label below.depth))
        | .error error => (.error error, below.note (.pop frame.label below.depth)) := by
  rcases hrun : step (interp.enter frame).context (interp.enter frame).state with ⟨outcome, left⟩
  have hentered : step (interp.context.entering interp.state.frame)
      (interp.state.entering frame (interp.context.depth + 1)) = (outcome, left) := hrun
  -- The frame below is the one that was current, whatever the step did above it.
  refine ⟨left.frame, interp.resume { left with frame := interp.current }, ?_, ?_⟩
  · rw [exec_eq, hrun]
    rfl
  · rw [exec_eq, exec_eq, hrun, Evaluation.within_apply, hentered]
    cases outcome with
    | ok value => rfl
    | error error => rfl

theorem exec_keeps {α : Type} {step : Eval α} {names : List String} (h : step.Keeps names)
    (interp : Interpreter) : interp.Keeps names (interp.exec step).2 := by
  have hkept : Evaluation.Kept interp.depth names interp.state
      (step interp.context interp.state).2 := Eval.Ends.left_iff.mp (h interp.context interp.state)
  exact ⟨rfl, rfl, hkept.frame, hkept.events⟩

end Garnet.Interpreter
