import Garnet.Frame

/-! # Steps of an evaluation

A step runs in the current frame. Of the frames below it sees only what a trace shows: their labels
and the places they were entered from. It may change the world, the current frame, the sink and
the list of events, and it keeps these changes when it fails.
-/

namespace Garnet.Evaluation

/-- What stays fixed while a frame is current. -/
structure Context where
  /-- The frames below the current one, innermost first. -/
  callers : List Trace.Entry
  /-- The number of frames, with the current one. -/
  depth : Nat
  depth_eq : depth = callers.length + 1 := by simp
  /-- The largest number of frames. -/
  limit : Nat
  /-- The text that code frames are cut from. -/
  source : String

/-- What a step may change. -/
structure State where
  world : World
  frame : Frame
  sink : Sink
  log : Array Event

instance : Inhabited State := ⟨⟨default, default, default, #[]⟩⟩

end Evaluation

open Evaluation

/-- A step of an evaluation: a value or a fault, and the state that it leaves in both cases. -/
def Eval (α : Type) : Type :=
  Context → State → Except RuntimeError α × State

namespace Eval

variable {α β : Type}

/-- Do nothing. -/
protected def pure (value : α) : Eval α :=
  fun _ state => (.ok value, state)

/-- Go on with the value of a step; a fault ends the evaluation. -/
protected def bind (step : Eval α) (next : α → Eval β) : Eval β :=
  fun context state =>
    match step context state with
    | (.ok value, state) => next value context state
    | (.error error, state) => (.error error, state)

instance : Monad Eval where
  pure := Eval.pure
  bind := Eval.bind

theorem bind_apply (step : Eval α) (next : α → Eval β) (context : Context) (state : State) :
    (step >>= next) context state =
      match step context state with
      | (.ok value, state) => next value context state
      | (.error error, state) => (.error error, state) := rfl

instance : Inhabited (Eval α) :=
  ⟨fun _ state => (.error ⟨.stackTooDeep 0, none, .unknown, none, [], []⟩, state)⟩

/-- The world of objects. -/
def getWorld : Eval World :=
  fun _ state => (.ok state.world, state)

/-- The current frame. -/
def getFrame : Eval Frame :=
  fun _ state => (.ok state.frame, state)

/-- The context of the evaluation. -/
def getContext : Eval Context :=
  fun context state => (.ok context, state)

/-- Change the world of objects. -/
def setWorld (world : World) : Eval Unit :=
  fun _ state => (.ok (), { state with world })

/-- Change the current frame. -/
def modifyFrame (f : Frame → Frame) : Eval Unit :=
  fun _ state => (.ok (), { state with frame := f state.frame })

/-- Note an event. -/
def note (event : Event) : Eval Unit :=
  fun _ state => (.ok (), { state with log := state.log.push event })

/-- Grow the world and yield what was added. -/
def grow (change : World → α × World) : Eval α :=
  fun _ state => let (added, world) := change state.world; (.ok added, { state with world })

/-- Yield a value, which becomes the result of the current frame. -/
def leave (value : Ref) : Eval Ref :=
  fun _ state => (.ok value, { state with frame := { state.frame with result := some value } })

/-- Write to the sink. The answer is the reason of a refusal. -/
def write (text : String) : Eval (Option Refusal) :=
  fun _ state => let (refusal, sink) := state.sink.write text; (.ok refusal, { state with sink })

end Eval

namespace Evaluation

/-- The frames of a trace: the current one at the place of the fault, and each of the others at the
place where the frame above it was entered. -/
def traceFrom (pos : Pos) : List Trace.Entry → List Trace.Entry
  | [] => []
  | entry :: callers => ⟨entry.label, pos⟩ :: traceFrom entry.pos callers

/-- The fault that happens at a node, or outside of all nodes. -/
def errorAt (context : Context) (frame : Frame) (fault : Fault) (site : Option Node) :
    RuntimeError :=
  let pos := (site.map Node.pos).getD .unknown
  { fault
    nodeKind := site.map Node.kind
    pos
    codeFrame := codeFrame context.source pos
    trace := traceFrom pos (⟨frame.label, frame.pos⟩ :: context.callers)
    notes := [] }

/-- Abort the evaluation. -/
def raise {α : Type} (fault : Fault) (site : Option Node) : Eval α :=
  fun context state => (.error (errorAt context state.frame fault site), state)

/-- Run a step in a frame of its own, entered from a given place. The frame is left in any case;
the value of the step becomes the result of the frame below. -/
def within (frame : Frame) (step : Eval Ref) : Eval Ref :=
  fun context state =>
    let caller := state.frame
    let inner := { context with
      callers := ⟨caller.label, caller.pos⟩ :: context.callers
      depth := context.depth + 1
      depth_eq := by simp [context.depth_eq] }
    let entered := { state with frame, log := state.log.push (.push frame.label inner.depth) }
    let (outcome, left) := step inner entered
    let log := left.log.push (.pop frame.label context.depth)
    match outcome with
    | .ok value => (.ok value, { left with frame := { caller with result := some value }, log })
    | .error error => (.error error, { left with frame := caller, log })

end Evaluation

end Garnet
