import Garnet.Fault.Basic
import Garnet.Object.World

/-! # Frames, events and the sink

A frame is one activation: the receiver, its local variables and the value of what was evaluated
last. While a program runs it writes to a sink, and what it does is noted as a list of events.
-/

namespace Garnet

/-- One activation of toplevel code, a class body or a method. -/
structure Frame where
  label : String
  self : Ref
  locals : Table Ref := ∅
  /-- The value of the most recent evaluation. A frame made by hand may not have one yet. -/
  result : Option Ref := some .nil
  /-- The place of the call that entered the frame. -/
  pos : Pos := .unknown

instance : Inhabited Frame := ⟨{ label := "", self := .nil }⟩

/-- The frame that toplevel code runs in. -/
def Frame.toplevel : Frame where
  label := "<main>"
  self := .main

/-- Why a sink refuses a write. The reason may be recognised by kinds of faults besides, and the
fault of another program may be behind it. -/
structure Refusal where
  text : String
  kinds : List Fault.Kind := []
  behind : Option Fault.Shown := none
deriving DecidableEq, Repr

namespace Refusal

/-- What a reason can be recognised by: it is one of the sink, and what else it says. -/
def marks (refusal : Refusal) : List Fault.Mark :=
  .sink :: refusal.kinds.map .kind ++ (refusal.behind.map (·.marks)).getD []

end Refusal

/-- The fault of the method whose write was refused. -/
def Fault.ofRefusal (refusal : Refusal) : Fault :=
  .ofHost ("puts: " ++ refusal.text) refusal.marks refusal.behind

/-- Where output goes. The sink may refuse any write, for a reason of its own; a refused write
leaves nothing behind. -/
structure Sink where
  /-- Why the write with a given number is refused, if it is. -/
  refusal : Nat → Option Refusal := fun _ => none
  /-- How many writes have been tried. -/
  attempts : Nat := 0
  /-- What has been written, one entry for each write. -/
  written : Array String := #[]

instance : Inhabited Sink := ⟨{}⟩

namespace Sink

/-- Try to write. The answer is the reason of a refusal. -/
def write (sink : Sink) (text : String) : Option Refusal × Sink :=
  match sink.refusal sink.attempts with
  | some refusal => (some refusal, { sink with attempts := sink.attempts + 1 })
  | none =>
    (none, { sink with attempts := sink.attempts + 1, written := sink.written.push text })

theorem fst_write (sink : Sink) (text : String) :
    (sink.write text).1 = sink.refusal sink.attempts := by
  unfold write
  split
  next h => exact h.symm
  next h => exact h.symm

theorem refusal_write (sink : Sink) (text : String) :
    (sink.write text).2.refusal = sink.refusal := by
  unfold write
  split
  next => rfl
  next => rfl

/-- Everything that has been written. -/
def text (sink : Sink) : String :=
  String.join sink.written.toList

/-- Forget what has been written, but not how often. -/
def drain (sink : Sink) : Sink :=
  { sink with written := #[] }

end Sink

/-- Something that happened while a program ran. -/
inductive Event where
  | bootstrapped (classes : Nat)
  | send (name : String) (receiver : String) (owner : String) (args : Nat)
  | push (label : String) (depth : Nat)
  | pop (label : String) (depth : Nat)
  | defineClass (name : String) (superclass : String)
  | reopenClass (name : String)
  | defineMethod (className : String) (name : String) (params : Nat)
deriving DecidableEq, Repr

/-- The wording of an event. -/
def Event.message : Event → String
  | bootstrapped classes => s!"bootstrapped {classes} classes"
  | send name receiver owner args => s!"send {name} to {receiver} ({owner}, {args} args)"
  | push label depth => s!"push {label} (depth {depth})"
  | pop label depth => s!"pop {label} (depth {depth})"
  | defineClass name superclass => s!"define class {name} < {superclass}"
  | reopenClass name => s!"reopen class {name}"
  | defineMethod className name params => s!"define {className}#{name}/{params}"

end Garnet
