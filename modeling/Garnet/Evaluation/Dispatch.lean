import Garnet.Evaluation.Basic

/-! # Message sends

A message is resolved along the ancestors of the receiver's class and runs in a frame of its own.
What runs in frames above the current one is reached through a single function, which also decides
whether there is room for another frame.
-/

namespace Garnet.Evaluation

/-- What runs in a frame of its own. -/
inductive Task where
  /-- The body of a class or a method; an absent one does nothing. -/
  | body (body : Option Node)
  /-- A native method with its arguments. -/
  | native (native : Native) (args : List Ref)

/-- Run a task in a new frame, on behalf of a node. -/
abbrev Enter := Frame → Option Node → Task → Eval Ref

/-- The local variables of a call. Missing arguments are nil, surplus ones are dropped, and of two
parameters with one name the later counts. -/
def bindParams (params : List String) (args : List Ref) : Table Ref :=
  .ofList (params.zip (args ++ List.replicate (params.length - args.length) .nil))

/-- Send a message with evaluated arguments, on behalf of a node. -/
def send (enter : Enter) (site : Option Node) (receiver : Ref) (name : String) (args : List Ref) :
    Eval Ref := do
  let world ← Eval.getWorld
  match world.findMethod (world.classOf receiver) name with
  | none => raise (.noMethod name (world.describe receiver) (world.className receiver)) site
  | some (method, owner) =>
    let ownerName := (world.classRecord owner).name
    Eval.note (.send name (world.inspect receiver) ownerName args.length)
    let frame : Frame :=
      { label := ownerName ++ "#" ++ name
        self := receiver
        locals := bindParams method.params args
        pos := (site.map Node.pos).getD .unknown }
    match method.code with
    | .native native => enter frame site (.native native args)
    | .interpreted _ body => enter frame site (.body body)

/-- Write values, one to a line. A refused write fails and leaves the rest unwritten. -/
def writeLines (site : Option Node) : List String → Eval Unit
  | [] => pure ()
  | line :: rest => do
    match ← Eval.write (line ++ "\n") with
    | some refusal => raise (.ofRefusal refusal) site
    | none => writeLines site rest

/-- Pass a fault on with a note in front of its text. -/
def annotating {α : Type} (note : Option String) (step : Eval α) : Eval α :=
  fun context state =>
    match step context state with
    | (.error error, state) => (.error (error.annotate note), state)
    | outcome => outcome

/-- Run a native method. -/
def runNative (enter : Enter) (site : Option Node) (args : List Ref) : Native → Eval Ref
  | .new => do
    let world ← Eval.getWorld
    let self := (← Eval.getFrame).self
    match world.asClass? self with
    | none =>
      let text := "type mismatch: new called on non-class " ++ world.inspect self
      raise (.ofHost text [.kind .typeMismatch] none) site
    | some id =>
      let made ← Eval.grow (·.newObject id)
      let _ ← send enter none made "initialize" args
      pure made
  | .setUp => pure .nil
  | .puts => do
    let world ← Eval.getWorld
    writeLines site (if args.isEmpty then [""] else args.map world.displayText)
    pure .nil
  | .host .nothing => pure .nil
  | .host .receiver => return (← Eval.getFrame).self
  | .host .lastArgument => pure (args.getLast?.getD .nil)
  | .host (.fail text marks) => raise (.ofHost text marks none) site
  | .host (.forward message note) => do
    let self := (← Eval.getFrame).self
    annotating note (send enter none self message args)

end Garnet.Evaluation
