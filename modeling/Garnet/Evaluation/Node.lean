import Garnet.Evaluation.Dispatch

/-! # Evaluation of nodes

Each kind of node has a rule. A node whose children do not fit its rule is a fault, and so is a node
of a kind without a rule. The rules call each other on the children of a node only; everything that
runs in another frame goes through the function that enters it.
-/

namespace Garnet

/-- Whether a child is a node or stands for an absent one. -/
def Child.isPart : Child → Bool
  | .node _ | .absent => true
  | _ => false

/-- The node that a child holds. -/
def Child.node? : Child → Option Node
  | .node inner => some inner
  | _ => none

namespace Evaluation

/-- The class of a given name under a namespace: the existing one, if it fits the wanted
superclass, or a new one. -/
def openClass (node : Node) (owner : ClassId) (name : String) (superclass : Option ClassId) :
    Eval ClassId := do
  let world ← Eval.getWorld
  let qualified := world.qualify owner name
  match (world.classRecord owner).constants.get? name with
  | some existing =>
    match world.asClass? existing with
    | none => raise (.constantNotClass qualified) (some node)
    | some id =>
      let record := world.classRecord id
      if superclass.isSome ∧ record.superclass ≠ superclass then
        raise (.superclassMismatch qualified record.name) (some node)
      Eval.note (.reopenClass record.name)
      pure id
  | none =>
    let parent := superclass.getD .objectClass
    let id ← Eval.grow (·.newClass qualified parent)
    let world ← Eval.getWorld
    Eval.setWorld (world.setConstant owner name (world.classRecord id).face)
    Eval.note (.defineClass qualified (world.classRecord parent).name)
    pure id

/-- The class that a method definition writes into: the current receiver if that is a class, and
its class otherwise. -/
def definitionTarget (world : World) (self : Ref) : ClassId :=
  (world.asClass? self).getD (world.classOf self)

/-- The parameter names of a method definition. -/
def paramNames (node : Node) : List Child → Eval (List String)
  | [] => pure []
  | .node param :: rest => do
    if param.kind ≠ .param then raise (.malformed node) (some node)
    match param.symbolAt? 0 with
    | none => raise (.malformed param) (some param)
    | some name => return name :: (← paramNames node rest)
  | _ :: _ => raise (.malformed node) (some node)

/-- Put a method into the class that definitions go to. -/
def defineMethod (name : String) (params : List String) (body : Option Node) : Eval Ref := do
  let world ← Eval.getWorld
  let target := definitionTarget world (← Eval.getFrame).self
  Eval.setWorld (world.setMethod target name (.interpreted params body))
  Eval.note (.defineMethod (world.classRecord target).name name params.length)
  Eval.leave .nil

mutual

/-- Evaluate a node. Its value becomes the result of the current frame. -/
def evalNode (enter : Enter) : Node → Eval Ref
  | .mk kind children pos =>
    let node : Node := .mk kind children pos
    match kind with
    | .str =>
      match children with
      | .str text :: _ => do Eval.leave (← Eval.grow (·.newString text))
      | _ => raise (.malformed node) (some node)
    | .begin => evalSequence enter node children
    | .localAssign =>
      match children with
      | .sym name :: value :: _ => do
        let value ← evalPart enter node value
        Eval.modifyFrame fun frame => { frame with locals := frame.locals.insert name value }
        Eval.leave value
      | _ => raise (.malformed node) (some node)
    | .localRef =>
      match children with
      | .sym name :: _ => do
        match (← Eval.getFrame).locals.get? name with
        | some value => Eval.leave value
        | none => raise (.unboundLocal name) (some node)
      | _ => raise (.malformed node) (some node)
    | .ivarAssign =>
      match children with
      | .sym name :: value :: _ => do
        let value ← evalPart enter node value
        let self := (← Eval.getFrame).self
        Eval.setWorld ((← Eval.getWorld).setIvar self name value)
        Eval.leave value
      | _ => raise (.malformed node) (some node)
    | .ivarRef =>
      match children with
      | .sym name :: _ => do
        let self := (← Eval.getFrame).self
        Eval.leave ((← Eval.getWorld).getIvar self name)
      | _ => raise (.malformed node) (some node)
    | .selfRef => do Eval.leave (← Eval.getFrame).self
    | .nilRef => Eval.leave .nil
    | .classDef =>
      match children with
      | .node (.mk .const steps place) :: superclass :: body :: _ =>
        if superclass.isPart && body.isPart then do
          let (owner, name) ← evalConstPath enter (.mk .const steps place) steps
          let parent ← evalSuperclass enter superclass
          let id ← openClass node owner name parent
          let record := (← Eval.getWorld).classRecord id
          enter { label := "<class:" ++ record.name ++ ">", self := record.face, pos } (some node)
            (.body body.node?)
        else raise (.malformed node) (some node)
      | _ => raise (.malformed node) (some node)
    | .methodDef =>
      match children with
      | .sym name :: .node (.mk .params params _) :: body :: _ =>
        if body.isPart then do
          defineMethod name (← paramNames node params) body.node?
        else raise (.malformed node) (some node)
      | _ => raise (.malformed node) (some node)
    | .send =>
      match children with
      | receiver :: .sym name :: args =>
        if receiver.isPart then do
          let receiver ← evalReceiver enter receiver
          let args ← evalArgs enter node args
          send enter (some node) receiver name args
        else raise (.malformed node) (some node)
      | _ => raise (.malformed node) (some node)
    | .const => do
      let (owner, name) ← evalConstPath enter node children
      let world ← Eval.getWorld
      let record := world.classRecord owner
      match record.constants.get? name with
      | some value => Eval.leave value
      | none => raise (.unboundConstant (world.qualify owner name) record.name) (some node)
    | _ => raise (.unsupported kind) (some node)
termination_by structural node => node

/-- Evaluate a child that is a node; an absent one is nil. -/
def evalPart (enter : Enter) (owner : Node) : Child → Eval Ref
  | .node inner => evalNode enter inner
  | .absent => Eval.leave .nil
  | _ => raise (.malformed owner) (some owner)
termination_by structural child => child

/-- Evaluate children in order; the value is that of the last one, and nil if there are none. -/
def evalSequence (enter : Enter) (owner : Node) : List Child → Eval Ref
  | [] => Eval.leave .nil
  | [last] => evalPart enter owner last
  | child :: rest => do
    let _ ← evalPart enter owner child
    evalSequence enter owner rest
termination_by structural children => children

/-- Evaluate the arguments of a message, none of which may be absent. -/
def evalArgs (enter : Enter) (owner : Node) : List Child → Eval (List Ref)
  | [] => pure []
  | .node inner :: rest => do
    let value ← evalNode enter inner
    return value :: (← evalArgs enter owner rest)
  | _ :: _ => raise (.malformed owner) (some owner)
termination_by structural children => children

/-- The receiver of a message; an absent one is the current receiver. -/
def evalReceiver (enter : Enter) : Child → Eval Ref
  | .node inner => evalNode enter inner
  | _ => return (← Eval.getFrame).self
termination_by structural child => child

/-- The superclass of a class definition, if it names one. -/
def evalSuperclass (enter : Enter) : Child → Eval (Option ClassId)
  | .node inner => do
    let value ← evalNode enter inner
    let world ← Eval.getWorld
    match world.asClass? value with
    | some id => pure (some id)
    | none => raise (.superclassNotClass (world.inspect value)) (some inner)
  | _ => pure none
termination_by structural child => child

/-- The namespace and the name of a constant, from the children of its node. A path without
namespace begins in the root class. -/
def evalConstPath (enter : Enter) (owner : Node) : List Child → Eval (ClassId × String)
  | .absent :: .sym name :: _ => pure (.objectClass, name)
  | .node inner :: .sym name :: _ => do
    let value ← evalNode enter inner
    let world ← Eval.getWorld
    match world.asClass? value with
    | some id => pure (id, name)
    | none => raise (.namespaceNotClass (world.inspect value)) (some inner)
  | _ => raise (.malformed owner) (some owner)
termination_by structural children => children

end

/-- Run a task in the frame that was entered for it. -/
def runTask (enter : Enter) (site : Option Node) : Task → Eval Ref
  | .body none => Eval.leave .nil
  | .body (some body) => evalNode enter body
  | .native native args => do Eval.leave (← runNative enter site args native)

/-- Run a task in a new frame if there is room for that many more. -/
def perform : Nat → Enter
  | 0 => fun _ site _ => do
    let limit := (← Eval.getContext).limit
    raise (.stackTooDeep limit) site
  | room + 1 => fun frame site task => within frame (runTask (perform room) site task)

/-- Evaluate a tree with room for a number of further frames. An absent tree is nil. -/
def evalTree (room : Nat) : Option Node → Eval Ref
  | some node => evalNode (perform room) node
  | none => Eval.leave .nil

end Evaluation

end Garnet
