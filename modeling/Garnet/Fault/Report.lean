import Garnet.Source.Pos
import Garnet.Tree.Basic

/-! # Reports of faults

A report shows the kind and the wording of a fault, the line of the source it happened in, and the
frames that were active, innermost first. Of a long trace only both ends are shown.
-/

namespace Garnet

namespace Fault

/-- The classes of faults that a caller can tell apart. -/
inductive Kind where
  | unsupportedConstruct
  | noMethod
  | unboundName
  | typeMismatch
  | stackTooDeep
  | hostFailure
deriving DecidableEq, Repr

/-- How a kind is called at the head of a report. A report of no kind has a general name. -/
def Kind.title : Option Kind → String
  | some unsupportedConstruct => "UnsupportedConstruct"
  | some noMethod => "NoMethodError"
  | some unboundName => "NameError"
  | some typeMismatch => "TypeError"
  | some stackTooDeep => "SystemStackError"
  | some hostFailure => "IOError"
  | none => "RuntimeError"

/-- What a failure can be recognised by: the kind of a fault, or that the sink for output refused
a write. -/
inductive Mark where
  | kind (kind : Kind)
  | sink
deriving DecidableEq, Repr

/-- Every mark, in the order in which they are listed. -/
def Mark.all : List Mark :=
  [.kind .unsupportedConstruct, .kind .noMethod, .kind .unboundName, .kind .typeMismatch,
    .kind .stackTooDeep, .kind .hostFailure, .sink]

end Fault

/-- A frame of a trace: what was running, and the place in it. -/
structure Trace.Entry where
  label : String
  pos : Pos
deriving DecidableEq, Repr

/-- A line of a report, with as much of the place as is known. -/
def Trace.Entry.render (entry : Trace.Entry) : String :=
  if 0 < entry.pos.line ∧ 0 < entry.pos.column then
    s!"\n  at {entry.label} ({entry.pos.line}:{entry.pos.column})"
  else if 0 < entry.pos.line then s!"\n  at {entry.label} (line {entry.pos.line})"
  else s!"\n  at {entry.label}"

/-- How many frames are shown at each end of a long trace. -/
def Trace.shownEnd : Nat := 8

/-- The frames of a trace, with the middle of a long one left out. -/
def Trace.render (trace : List Trace.Entry) : String :=
  let text (entries : List Trace.Entry) : String := String.join (entries.map (·.render))
  if trace.length ≤ 2 * shownEnd then text trace
  else
    let omitted := trace.length - 2 * shownEnd
    text (trace.take shownEnd) ++ s!"\n  ... {omitted} frames omitted ..." ++
      text (trace.drop (trace.length - shownEnd))

/-- What is shown of a fault. -/
structure Report where
  kind : Option Fault.Kind
  message : String
  codeFrame : Option String
  trace : List Trace.Entry
deriving DecidableEq, Repr

/-- The text of a report. -/
def Report.render (report : Report) : String :=
  let head := s!"{Fault.Kind.title report.kind}: {report.message}"
  let framed := match report.codeFrame with
    | some frame => s!"{head}\n{frame}"
    | none => head
  framed ++ Trace.render report.trace

/-- The kind that a report is recognised by. One without a kind counts as a failure of the host. -/
def Report.mark (report : Report) : Fault.Mark :=
  .kind (report.kind.getD .hostFailure)

/-- A fault as callers see it. -/
structure Fault.Shown where
  report : Report
  /-- The full text. -/
  text : String
  marks : List Fault.Mark
  /-- The kind of the node at which the fault happened. -/
  nodeKind : Option Node.Kind
  /-- The place of that node. -/
  pos : Pos
  /-- The name that the fault concerns. -/
  name? : Option String
  /-- The class that the fault concerns. -/
  className? : Option String
deriving DecidableEq, Repr

end Garnet
