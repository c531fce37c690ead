import Garnet.Evaluation.Node

/-! # Reasoning about steps of an evaluation

A statement about a step says what holds of the value and the state it ends with, and what holds of
the fault and the state if it fails. Both have to be said of the same run, because a failed step
keeps the changes it has made. The rules below follow the primitive steps; all other steps are
made of them.
-/

namespace Garnet

namespace Evaluation

theorem Context.depth_succ (context : Context) (caller : Frame) :
    context.depth + 1 =
      (Trace.Entry.mk caller.label caller.pos :: context.callers).length + 1 := by
  rw [context.depth_eq, List.length_cons]

/-- The context of a frame that is entered from the current one. -/
def Context.entering (context : Context) (caller : Frame) : Context :=
  { context with
    callers := ⟨caller.label, caller.pos⟩ :: context.callers
    depth := context.depth + 1
    depth_eq := context.depth_succ caller }

/-- The state in which a frame is entered. -/
def State.entering (state : State) (frame : Frame) (depth : Nat) : State :=
  { state with frame, log := state.log.push (.push frame.label depth) }

/-- The state after a frame was left to its caller. -/
def State.leaving (state : State) (caller : Frame) (label : String) (depth : Nat) : State :=
  { state with frame := caller, log := state.log.push (.pop label depth) }

/-- A frame is left in any case, and the caller has the value as its result. -/
theorem within_apply (frame : Frame) (step : Eval Ref) (context : Context) (state : State) :
    within frame step context state =
      match step (context.entering state.frame) (state.entering frame (context.depth + 1)) with
      | (.ok value, left) => (.ok value,
          left.leaving { state.frame with result := some value } frame.label context.depth)
      | (.error error, left) =>
        (.error error, left.leaving state.frame frame.label context.depth) := by
  rcases hrun : step (context.entering state.frame) (state.entering frame (context.depth + 1)) with
    ⟨outcome, left⟩
  have hrun' := hrun
  simp only [Context.entering, State.entering] at hrun'
  simp only [within, hrun']
  cases outcome <;> rfl

end Evaluation

open Evaluation

namespace Eval

variable {α β γ : Type}

theorem bind_assoc (step : Eval α) (next : α → Eval β) (last : β → Eval γ) :
    step >>= next >>= last = step >>= fun value => next value >>= last := by
  funext context state
  rw [bind_apply, bind_apply, bind_apply]
  rcases step context state with ⟨_ | value, left⟩ <;> rfl

theorem bind_pure (step : Eval α) : step >>= Pure.pure = step := by
  funext context state
  rw [bind_apply]
  rcases step context state with ⟨_ | value, left⟩ <;> rfl

/-- A run of `step` ends with a value and a state as `post` says, or with a fault and a state as
`failed` says. -/
def Ends (step : Eval α) (context : Context) (state : State) (post : α → State → Prop)
    (failed : RuntimeError → State → Prop) : Prop :=
  match step context state with
  | (.ok value, left) => post value left
  | (.error error, left) => failed error left

namespace Ends

variable {context : Context} {state : State} {failed : RuntimeError → State → Prop}

theorem pure {value : α} {post : α → State → Prop} (h : post value state) :
    Ends (Pure.pure value) context state post failed := h

theorem bind {step : Eval α} {next : α → Eval β} {mid : α → State → Prop}
    {post : β → State → Prop} (hstep : Ends step context state mid failed)
    (hnext : ∀ value left, mid value left → Ends (next value) context left post failed) :
    Ends (step >>= next) context state post failed := by
  unfold Ends at hstep ⊢
  rw [bind_apply]
  cases hrun : step context state with
  | mk outcome left =>
    rw [hrun] at hstep
    cases outcome with
    | ok value => exact hnext value left hstep
    | error error => exact hstep

theorem mono {step : Eval α} {post post' : α → State → Prop}
    {failed' : RuntimeError → State → Prop} (hstep : Ends step context state post failed)
    (hpost : ∀ value left, post value left → post' value left)
    (hfailed : ∀ error left, failed error left → failed' error left) :
    Ends step context state post' failed' := by
  unfold Ends at hstep ⊢
  split at hstep
  next value left _ => exact hpost value left hstep
  next error left _ => exact hfailed error left hstep

/-- What is said only of the state that is left does not depend on how the run ends. -/
theorem left_iff {step : Eval α} {left : State → Prop} :
    Ends step context state (fun _ => left) (fun _ => left) ↔ left (step context state).2 := by
  unfold Ends
  rcases step context state with ⟨_ | value, after⟩ <;> exact Iff.rfl

theorem raise {fault : Fault} {site : Option Node} {post : α → State → Prop}
    (h : failed (errorAt context state.frame fault site) state) :
    Ends (Evaluation.raise fault site) context state post failed := h

/-- Nothing runs after a fault. -/
theorem raise_bind {fault : Fault} {site : Option Node} {next : α → Eval β}
    {post : β → State → Prop} (h : failed (errorAt context state.frame fault site) state) :
    Ends (Evaluation.raise fault site >>= next) context state post failed := h

theorem leave {value : Ref} {post : Ref → State → Prop}
    (h : post value { state with frame := { state.frame with result := some value } }) :
    Ends (Eval.leave value) context state post failed := h

theorem getWorld {next : World → Eval β} {post : β → State → Prop}
    (h : Ends (next state.world) context state post failed) :
    Ends (Eval.getWorld >>= next) context state post failed := h

theorem getFrame {next : Frame → Eval β} {post : β → State → Prop}
    (h : Ends (next state.frame) context state post failed) :
    Ends (Eval.getFrame >>= next) context state post failed := h

theorem getContext {next : Context → Eval β} {post : β → State → Prop}
    (h : Ends (next context) context state post failed) :
    Ends (Eval.getContext >>= next) context state post failed := h

theorem setWorld {world : World} {next : Unit → Eval β} {post : β → State → Prop}
    (h : Ends (next ()) context { state with world } post failed) :
    Ends (Eval.setWorld world >>= next) context state post failed := h

theorem modifyFrame {f : Frame → Frame} {next : Unit → Eval β} {post : β → State → Prop}
    (h : Ends (next ()) context { state with frame := f state.frame } post failed) :
    Ends (Eval.modifyFrame f >>= next) context state post failed := h

theorem note {event : Event} {next : Unit → Eval β} {post : β → State → Prop}
    (h : Ends (next ()) context { state with log := state.log.push event } post failed) :
    Ends (Eval.note event >>= next) context state post failed := h

theorem grow {change : World → α × World} {next : α → Eval β} {post : β → State → Prop}
    (h : Ends (next (change state.world).1) context
      { state with world := (change state.world).2 } post failed) :
    Ends (Eval.grow change >>= next) context state post failed := h

theorem write {text : String} {next : Option Refusal → Eval β} {post : β → State → Prop}
    (h : Ends (next (state.sink.write text).1) context
      { state with sink := (state.sink.write text).2 } post failed) :
    Ends (Eval.write text >>= next) context state post failed := h

/-- A note in front of a fault changes neither the state nor what the fault is. -/
theorem annotating {note : Option String} {step : Eval α} {post : α → State → Prop}
    (hstep : Ends step context state post failed)
    (hfailed : ∀ error left, failed error left → failed (error.annotate note) left) :
    Ends (Evaluation.annotating note step) context state post failed := by
  unfold Ends Evaluation.annotating at *
  split at hstep
  next value left hrun =>
    rw [hrun]
    exact hstep
  next error left hrun =>
    rw [hrun]
    exact hfailed error left hstep

theorem within {frame : Frame} {step : Eval Ref} {post : Ref → State → Prop}
    (hstep : Ends step (context.entering state.frame) (state.entering frame (context.depth + 1))
      (fun value left => post value
        (left.leaving { state.frame with result := some value } frame.label context.depth))
      (fun error left => failed error (left.leaving state.frame frame.label context.depth))) :
    Ends (Evaluation.within frame step) context state post failed := by
  unfold Ends at hstep ⊢
  rw [within_apply]
  split at hstep
  next value left hrun =>
    rw [hrun]
    exact hstep
  next error left hrun =>
    rw [hrun]
    exact hstep

end Ends

end Eval

end Garnet
