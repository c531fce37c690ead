import Garnet.Evaluation.Node
import Garnet.Parse

/-! # The interpreter

An interpreter owns one world of objects and one stack of frames. Source texts run on it one after
the other; what one of them defines is there for the next, also if it fails.
-/

namespace Garnet

/-- A world of objects with a stack of frames, the sink for output and the events so far. -/
structure Interpreter where
  world : World
  /-- The innermost frame. -/
  current : Frame
  /-- The frames below, innermost first. -/
  outer : List Frame
  sink : Sink
  log : Array Event
  /-- The largest number of frames, the toplevel one included. -/
  limit : Nat
  /-- The text of the latest program that was accepted. -/
  source : String

/-- Why a source text has no value. -/
inductive Failure where
  | parse (error : ParseError)
  | runtime (error : RuntimeError)

/-- The full text of a failure. -/
def Failure.render : Failure → String
  | parse error => error.render
  | runtime error => error.render

namespace Interpreter

/-- The limit on the number of frames if none is asked for. -/
def defaultLimit : Nat := 512

/-- The limit that a setting asks for; anything but a positive number asks for the default. -/
def limitOf (setting : Int) : Nat :=
  if setting ≤ 0 then defaultLimit else setting.toNat

/-- An interpreter that has not run anything. -/
def new (limit : Int) (sink : Sink) : Interpreter where
  world := .initial
  current := .toplevel
  outer := []
  sink
  log := #[.bootstrapped World.initial.classes.size]
  limit := limitOf limit
  source := ""

instance : Inhabited Interpreter := ⟨new 0 default⟩

/-- The number of frames. -/
def depth (interp : Interpreter) : Nat :=
  interp.outer.length + 1

/-- The frames, toplevel first. -/
def frames (interp : Interpreter) : List Frame :=
  (interp.current :: interp.outer).reverse

/-- How many more frames can be entered. -/
def room (interp : Interpreter) : Nat :=
  interp.limit - interp.depth

/-- How a value is shown to the user. -/
def inspect (interp : Interpreter) (ref : Ref) : String :=
  interp.world.inspect ref

/-- Run a step of an evaluation in the current frame. -/
def exec {α : Type} (interp : Interpreter) (step : Eval α) :
    Except RuntimeError α × Interpreter :=
  let context : Evaluation.Context :=
    { callers := interp.outer.map fun frame => ⟨frame.label, frame.pos⟩
      depth := interp.depth
      depth_eq := by simp [depth]
      limit := interp.limit
      source := interp.source }
  let (outcome, state) := step context ⟨interp.world, interp.current, interp.sink, interp.log⟩
  (outcome, { interp with
    world := state.world, current := state.frame, sink := state.sink, log := state.log })

/-- Evaluate a tree in the current frame. -/
def interpret (interp : Interpreter) (tree : Option Node) :
    Except RuntimeError Ref × Interpreter :=
  interp.exec (Evaluation.evalTree interp.room tree)

/-- Send a message from outside of any program. -/
def send (interp : Interpreter) (receiver : Ref) (name : String) (args : List Ref) :
    Except RuntimeError Ref × Interpreter :=
  interp.exec (Evaluation.send (Evaluation.perform interp.room) none receiver name args)

/-- Run a source text. Local variables of earlier texts are visible in it. -/
def run (interp : Interpreter) (source : String) : Except Failure Ref × Interpreter :=
  match parse source interp.current.locals.names with
  | .error error => (.error (.parse error), interp)
  | .ok tree =>
    match { interp with source }.interpret tree with
    | (.ok value, interp) => (.ok value, interp)
    | (.error error, interp) => (.error (.runtime error), interp)

/-! ### Access from outside -/

/-- Make a new frame current. -/
def push (interp : Interpreter) (frame : Frame) : Interpreter :=
  { interp with current := frame, outer := interp.current :: interp.outer }

/-- Leave the current frame. The toplevel frame cannot be left. -/
def pop? (interp : Interpreter) : Option (Frame × Interpreter) :=
  match interp.outer with
  | [] => none
  | below :: outer => some (interp.current, { interp with current := below, outer })

/-- Record a value as the result of the current frame. -/
def setResult (interp : Interpreter) (value : Ref) : Interpreter :=
  { interp with current := { interp.current with result := some value } }

/-- Change the world of objects. -/
def mapWorld (interp : Interpreter) (change : World → World) : Interpreter :=
  { interp with world := change interp.world }

/-- Add an object and yield its reference. -/
def grow (interp : Interpreter) (change : World → Ref × World) : Ref × Interpreter :=
  let (ref, world) := change interp.world
  (ref, { interp with world })

/-- Forget the output and the events so far. -/
def drain (interp : Interpreter) : Interpreter :=
  { interp with sink := interp.sink.drain, log := #[] }

end Interpreter

end Garnet
