import Garnet.Fault.Report
import Garnet.Source.CodeFrame
import Garnet.Tree.Printer

/-! # Faults of a running program

An evaluation is aborted by a fault. A fault is a cause with the names it concerns; its kind and
its wording are functions of the cause. What fails outside of the program may have a fault of
another program behind it. Then the evaluation is aborted all the same, but callers are shown that
other fault.
-/

namespace Garnet

namespace Fault

/-- The object that did not understand a message, as it is described to the user. -/
inductive Receiver where
  | nil
  | main
  | classObject (name : String)
  | instanceOf (className : String)
deriving DecidableEq, Repr

/-- The description of a receiver. -/
def Receiver.description : Receiver → String
  | nil => "nil"
  | main => "main:Object"
  | classObject name => s!"class {name}"
  | instanceOf className => s!"an instance of {className}"

end Fault

/-- Why an evaluation was aborted. -/
inductive Fault where
  /-- The evaluator has no rule for this kind of node. -/
  | unsupported (kind : Node.Kind)
  /-- The node does not have the children that its kind needs. -/
  | malformed (node : Node)
  | noMethod (name : String) (receiver : Fault.Receiver) (className : String)
  | unboundLocal (name : String)
  | unboundConstant (qualified : String) (namespaceName : String)
  /-- A path goes through a value that is not a class. -/
  | namespaceNotClass (value : String)
  /-- The constant that a class definition would reopen is not a class. -/
  | constantNotClass (qualified : String)
  | superclassNotClass (value : String)
  | superclassMismatch (qualified : String) (className : String)
  | stackTooDeep (limit : Nat)
  /-- A native method failed because of the type of a value. -/
  | hostMismatch (text : String)
  /-- A native method failed for another reason, which can be recognised by these marks. -/
  | host (text : String) (marks : List Fault.Mark)
  /-- A native method failed because of a fault of another program, which is passed on. -/
  | foreign (shown : Fault.Shown)

namespace Fault

/-- The kind of a fault. One that is passed on is a failure of the host to the evaluation that it
aborts, whatever callers are shown. -/
def kind : Fault → Kind
  | unsupported _ | malformed _ => .unsupportedConstruct
  | noMethod .. => .noMethod
  | unboundLocal _ | unboundConstant .. => .unboundName
  | namespaceNotClass _ | constantNotClass _ | superclassNotClass _ | superclassMismatch ..
  | hostMismatch _ => .typeMismatch
  | stackTooDeep _ => .stackTooDeep
  | host .. | foreign _ => .hostFailure

/-- The wording of a fault. -/
def message : Fault → String
  | unsupported kind => s!"unsupported syntax node '{kind.name}'"
  | malformed node => s!"malformed '{node.kind.name}' node: {node.text}"
  | noMethod name receiver _ => s!"undefined method '{name}' for {receiver.description}"
  | unboundLocal name => s!"undefined local variable '{name}'"
  | unboundConstant qualified _ => s!"uninitialized constant {qualified}"
  | namespaceNotClass value => s!"{value} is not a class"
  | constantNotClass qualified => s!"{qualified} is not a class"
  | superclassNotClass value => s!"superclass must be a Class ({value} given)"
  | superclassMismatch qualified _ => s!"superclass mismatch for class {qualified}"
  | stackTooDeep limit => s!"stack level too deep (limit {limit})"
  | hostMismatch text => text
  | host text _ => text
  | foreign shown => shown.report.message

/-- The name that a fault concerns. -/
def name? : Fault → Option String
  | noMethod name .. => some name
  | unboundLocal name => some name
  | unboundConstant qualified _ => some qualified
  | constantNotClass qualified => some qualified
  | superclassMismatch qualified _ => some qualified
  | foreign shown => shown.name?
  | _ => none

/-- The class that a fault concerns. -/
def className? : Fault → Option String
  | noMethod _ _ className => some className
  | unboundConstant _ namespaceName => some namespaceName
  | superclassMismatch _ className => some className
  | foreign shown => shown.className?
  | _ => none

/-- The fault of a native method that failed with a text and marks, and with the fault of another
program behind it if there is one. That is passed on, with the text and the marks of the failure. -/
def ofHost (text : String) (marks : List Mark) (behind : Option Shown) : Fault :=
  match behind with
  | some shown => .foreign { shown with text, marks }
  | none => if marks.contains (.kind .typeMismatch) then .hostMismatch text else .host text marks

/-- What a fault can be recognised by: its kind, and the marks of the failure behind it. One that is
passed on is recognised by its own marks only. -/
def marks (fault : Fault) : List Mark :=
  match fault with
  | host _ behind => .kind .hostFailure :: behind
  | foreign shown => shown.marks
  | _ => [.kind fault.kind]

end Fault

/-- A fault where it happened. -/
structure RuntimeError where
  fault : Fault
  /-- The kind of the node at which the fault happened. -/
  nodeKind : Option Node.Kind
  /-- The place of that node. -/
  pos : Pos
  codeFrame : Option String
  /-- The active frames, innermost first. -/
  trace : List Trace.Entry
  /-- What native methods that passed the fault on have put in front of its text. -/
  notes : List String

namespace RuntimeError

/-- The marks that a fault is recognised by, in their listed order. -/
def marks (error : RuntimeError) : List Fault.Mark :=
  Fault.Mark.all.filter (error.fault.marks.contains ·)

/-- What callers are shown of a fault, without the notes in front of it. -/
def exhibit (error : RuntimeError) : Fault.Shown :=
  match error.fault with
  | .foreign shown => { shown with marks := error.marks }
  | fault =>
    let report : Report :=
      { kind := some fault.kind
        message := fault.message
        codeFrame := error.codeFrame
        trace := error.trace }
    { report
      text := report.render
      marks := error.marks
      nodeKind := error.nodeKind
      pos := error.pos
      name? := fault.name?
      className? := fault.className? }

/-- The full text of a fault. -/
def render (error : RuntimeError) : String :=
  String.join error.notes ++ error.exhibit.text

/-- What callers are shown of a fault. -/
def shown (error : RuntimeError) : Fault.Shown :=
  { error.exhibit with text := error.render }

/-- Put a note in front of the text of a fault. -/
def annotate (error : RuntimeError) (note : Option String) : RuntimeError :=
  { error with notes := note.toList ++ error.notes }

end RuntimeError

end Garnet
