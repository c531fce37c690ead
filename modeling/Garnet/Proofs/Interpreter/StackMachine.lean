import Garnet.Proofs.Interpreter.Isolation
import Garnet.Proofs.Interpreter.Stack

/-! # The evaluator on one stack

An evaluation sees of the frames below the current one only what a trace shows, so it is no wonder
that it leaves them alone. Here the same rules are followed by a machine that has the whole stack in
its hands. It pushes a frame for what runs in one, it pops whatever frame is on top afterwards, and
it hands on no values but finds them in the result of the top frame. A machine that has to pop the
toplevel frame, or that misses a result, is stuck.

The machine is never stuck, and it does what the evaluator does. So every frame that it pops is one
that it has pushed, and the frames of before are all there afterwards.
-/

namespace Garnet

open Evaluation (Task bindParams)

/-- Why the machine cannot go on. -/
inductive Machine.Stuck where
  | toplevelPopped
  | resultMissing
  /-- More frames are entered one in the other than it was prepared for. -/
  | fuelSpent

/-- A program for the machine ends with a value or a fault, unless it gets stuck. -/
def Machine (α : Type) : Type :=
  Interpreter → Except Machine.Stuck (Except RuntimeError α × Interpreter)

namespace Machine

variable {α β : Type}

/-! ### Programs -/

/-- Do nothing. -/
protected def pure (value : α) : Machine α :=
  fun interp => .ok (.ok value, interp)

/-- Go on with the value of a program; a fault ends it. -/
protected def bind (program : Machine α) (next : α → Machine β) : Machine β :=
  fun interp =>
    match program interp with
    | .error stuck => .error stuck
    | .ok (.error error, interp) => .ok (.error error, interp)
    | .ok (.ok value, interp) => next value interp

instance : Monad Machine where
  pure := Machine.pure
  bind := Machine.bind

theorem bind_apply (program : Machine α) (next : α → Machine β) (interp : Interpreter) :
    (program >>= next) interp =
      match program interp with
      | .error stuck => .error stuck
      | .ok (.error error, interp) => .ok (.error error, interp)
      | .ok (.ok value, interp) => next value interp := rfl

theorem bind_pure (program : Machine α) : program >>= Pure.pure = program := by
  funext interp
  rw [bind_apply]
  rcases program interp with stuck | ⟨error | value, left⟩ <;> rfl

/-- Look at the machine. -/
def read (look : Interpreter → α) : Machine α :=
  fun interp => .ok (.ok (look interp), interp)

/-- Change the machine. -/
def change (f : Interpreter → Interpreter) : Machine Unit :=
  fun interp => .ok (.ok (), f interp)

/-- Abort with the fault that happens at a node. The trace is read off the stack. -/
def raise (fault : Fault) (site : Option Node) : Machine α :=
  fun interp => .ok (.error (Evaluation.errorAt interp.context interp.current fault site), interp)

/-- A step that needs no frame but the top one. -/
def onTop (step : Eval α) : Machine α :=
  fun interp => .ok (interp.exec step)

/-- Record a value as the result of the top frame. -/
def leave (value : Ref) : Machine Unit :=
  change (·.setResult value)

/-- The result of the top frame. -/
def result : Machine Ref :=
  fun interp =>
    match interp.current.result with
    | some value => .ok (.ok value, interp)
    | none => .error .resultMissing

/-- The world of objects. -/
def world : Machine World :=
  read (·.world)

/-- Exchange the world of objects. -/
def setWorld (world : World) : Machine Unit :=
  change fun interp => { interp with world }

/-- Assign a local variable of the top frame. -/
def assign (name : String) (value : Ref) : Machine Unit :=
  change fun interp => { interp with current :=
    { interp.current with locals := interp.current.locals.insert name value } }

/-- The receiver of the top frame. -/
def self : Machine Ref :=
  read (·.current.self)

/-- Run a program with a frame pushed. Whatever frame is on top afterwards is popped, and if there
is no fault, its result becomes that of the frame below. -/
def within (frame : Frame) (program : Machine Unit) : Machine Ref :=
  fun interp =>
    match program (interp.enter frame) with
    | .error stuck => .error stuck
    | .ok (outcome, above) =>
      match above.pop? with
      | none => .error .toplevelPopped
      | some (popped, below) =>
        let below := below.note (.pop popped.label below.depth)
        match outcome, popped.result with
        | .error error, _ => .ok (.error error, below)
        | .ok (), some value => .ok (.ok value, below.setResult value)
        | .ok (), none => .error .resultMissing

/-- Pass a fault on with a note in front of its text. -/
def annotating (note : Option String) (program : Machine α) : Machine α :=
  fun interp => (program interp).map fun (outcome, left) =>
    (outcome.mapError (·.annotate note), left)

/-! ### Rules -/

/-- Run a task in a new frame, on behalf of a node. -/
abbrev Enter := Frame → Option Node → Task → Machine Ref

/-- Send a message with evaluated arguments, on behalf of a node. -/
def send (enter : Enter) (site : Option Node) (receiver : Ref) (name : String) (args : List Ref) :
    Machine Ref := do
  let world ← world
  match world.findMethod (world.classOf receiver) name with
  | none => raise (.noMethod name (world.describe receiver) (world.className receiver)) site
  | some (method, owner) =>
    let ownerName := (world.classRecord owner).name
    change (·.note (.send name (world.inspect receiver) ownerName args.length))
    let frame : Frame :=
      { label := ownerName ++ "#" ++ name
        self := receiver
        locals := bindParams method.params args
        pos := (site.map Node.pos).getD .unknown }
    match method.code with
    | .native native => enter frame site (.native native args)
    | .interpreted _ body => enter frame site (.body body)

/-- Run a native method. -/
def runNative (enter : Enter) (site : Option Node) (args : List Ref) : Native → Machine Ref
  | .new => do
    let world ← world
    let self ← self
    match world.asClass? self with
    | none =>
      let text := "type mismatch: new called on non-class " ++ world.inspect self
      raise (.ofHost text [.kind .typeMismatch] none) site
    | some id =>
      let made ← onTop (Eval.grow (·.newObject id))
      let _ ← send enter none made "initialize" args
      pure made
  | .setUp => pure .nil
  | .puts => do
    let world ← world
    onTop (Evaluation.writeLines site
      (if args.isEmpty then [""] else args.map world.displayText))
    pure .nil
  | .host .nothing => pure .nil
  | .host .receiver => self
  | .host .lastArgument => pure (args.getLast?.getD .nil)
  | .host (.fail text marks) => raise (.ofHost text marks none) site
  | .host (.forward message note) => do
    let self ← self
    annotating note (send enter none self message args)

mutual

/-- Evaluate a node. Its value is left in the top frame. -/
def evalNode (enter : Enter) : Node → Machine Unit
  | .mk kind children pos =>
    let node : Node := .mk kind children pos
    match kind with
    | .str =>
      match children with
      | .str text :: _ => do leave (← onTop (Eval.grow (·.newString text)))
      | _ => raise (.malformed node) (some node)
    | .begin => evalSequence enter node children
    | .localAssign =>
      match children with
      | .sym name :: value :: _ => do
        evalPart enter node value
        let value ← result
        assign name value
        leave value
      | _ => raise (.malformed node) (some node)
    | .localRef =>
      match children with
      | .sym name :: _ => do
        match (← read (·.current)).locals.get? name with
        | some value => leave value
        | none => raise (.unboundLocal name) (some node)
      | _ => raise (.malformed node) (some node)
    | .ivarAssign =>
      match children with
      | .sym name :: value :: _ => do
        evalPart enter node value
        let value ← result
        let self ← self
        setWorld ((← world).setIvar self name value)
        leave value
      | _ => raise (.malformed node) (some node)
    | .ivarRef =>
      match children with
      | .sym name :: _ => do
        let self ← self
        leave ((← world).getIvar self name)
      | _ => raise (.malformed node) (some node)
    | .selfRef => do leave (← self)
    | .nilRef => leave .nil
    | .classDef =>
      match children with
      | .node (.mk .const steps place) :: superclass :: body :: _ =>
        if superclass.isPart && body.isPart then do
          let (owner, name) ← evalConstPath enter (.mk .const steps place) steps
          let parent ← evalSuperclass enter superclass
          let id ← onTop (Evaluation.openClass node owner name parent)
          let record := (← world).classRecord id
          let _ ← enter { label := "<class:" ++ record.name ++ ">", self := record.face, pos }
            (some node) (.body body.node?)
        else raise (.malformed node) (some node)
      | _ => raise (.malformed node) (some node)
    | .methodDef =>
      match children with
      | .sym name :: .node (.mk .params params _) :: body :: _ =>
        if body.isPart then do
          let found ← onTop (Evaluation.paramNames node params)
          let _ ← onTop (Evaluation.defineMethod name found body.node?)
        else raise (.malformed node) (some node)
      | _ => raise (.malformed node) (some node)
    | .send =>
      match children with
      | receiver :: .sym name :: args =>
        if receiver.isPart then do
          let receiver ← evalReceiver enter receiver
          let args ← evalArgs enter node args
          let _ ← send enter (some node) receiver name args
        else raise (.malformed node) (some node)
      | _ => raise (.malformed node) (some node)
    | .const => do
      let (owner, name) ← evalConstPath enter node children
      let world ← world
      let record := world.classRecord owner
      match record.constants.get? name with
      | some value => leave value
      | none => raise (.unboundConstant (world.qualify owner name) record.name) (some node)
    | _ => raise (.unsupported kind) (some node)
termination_by structural node => node

/-- Evaluate a child that is a node; an absent one is nil. -/
def evalPart (enter : Enter) (owner : Node) : Child → Machine Unit
  | .node inner => evalNode enter inner
  | .absent => leave .nil
  | _ => raise (.malformed owner) (some owner)
termination_by structural child => child

/-- Evaluate children in order; the value is that of the last one, and nil if there are none. -/
def evalSequence (enter : Enter) (owner : Node) : List Child → Machine Unit
  | [] => leave .nil
  | [last] => evalPart enter owner last
  | child :: rest => do
    evalPart enter owner child
    evalSequence enter owner rest
termination_by structural children => children

/-- Evaluate the arguments of a message, none of which may be absent. -/
def evalArgs (enter : Enter) (owner : Node) : List Child → Machine (List Ref)
  | [] => pure []
  | .node inner :: rest => do
    evalNode enter inner
    let value ← result
    return value :: (← evalArgs enter owner rest)
  | _ :: _ => raise (.malformed owner) (some owner)
termination_by structural children => children

/-- The receiver of a message; an absent one is the current receiver. -/
def evalReceiver (enter : Enter) : Child → Machine Ref
  | .node inner => do
    evalNode enter inner
    result
  | _ => self
termination_by structural child => child

/-- The superclass of a class definition, if it names one. -/
def evalSuperclass (enter : Enter) : Child → Machine (Option ClassId)
  | .node inner => do
    evalNode enter inner
    let value ← result
    let world ← world
    match world.asClass? value with
    | some id => pure (some id)
    | none => raise (.superclassNotClass (world.inspect value)) (some inner)
  | _ => pure none
termination_by structural child => child

/-- The namespace and the name of a constant, from the children of its node. A path without
namespace begins in the root class. -/
def evalConstPath (enter : Enter) (owner : Node) : List Child → Machine (ClassId × String)
  | .absent :: .sym name :: _ => pure (.objectClass, name)
  | .node inner :: .sym name :: _ => do
    evalNode enter inner
    let value ← result
    let world ← world
    match world.asClass? value with
    | some id => pure (id, name)
    | none => raise (.namespaceNotClass (world.inspect value)) (some inner)
  | _ => raise (.malformed owner) (some owner)
termination_by structural children => children

end

/-- Run a task in the frame that was entered for it. An absent body leaves what the frame has as its
result from the start. -/
def runTask (enter : Enter) (site : Option Node) : Task → Machine Unit
  | .body none => pure ()
  | .body (some body) => evalNode enter body
  | .native native args => do leave (← runNative enter site args native)

/-- Run a task in a new frame, unless the stack is as high as the limit. The fuel says how many
frames can be entered one in the other. -/
def perform : Nat → Enter
  | 0 => fun _ _ _ _ => .error .fuelSpent
  | fuel + 1 => fun frame site task => do
    let limit ← read (·.limit)
    if limit ≤ (← read (·.depth)) then raise (.stackTooDeep limit) site
    else within frame (runTask (perform fuel) site task)

/-- Evaluate a tree on top of the stack. An absent tree is nil. -/
def interpret (fuel : Nat) (tree : Option Node) : Machine Ref := do
  match tree with
  | none => leave .nil
  | some node => evalNode (perform fuel) node
  result

/-! ### What programs do -/

/-- The program does not get stuck, and does on the machine what a step does in the current frame.
Of the value it hands on what is seen of it. -/
def Does (seen : β → α) (program : Machine α) (step : Eval β) (interp : Interpreter) : Prop :=
  program interp = .ok ((interp.exec step).1.map seen, (interp.exec step).2)

/-- The program leaves the value of the step in the top frame, and hands nothing on. -/
abbrev Settles (program : Machine Unit) (step : Eval Ref) (interp : Interpreter) : Prop :=
  Does (fun _ => ()) program step interp

namespace Does

variable {γ δ : Type} {program : Machine α} {step : Eval β} {interp : Interpreter} {seen : β → α}
  {next : α → Machine γ} {next' : β → Eval δ} {seen' : δ → γ}

theorem iff_eq {program : Machine β} :
    Does id program step interp ↔ program interp = .ok (interp.exec step) := by
  unfold Does
  rcases interp.exec step with ⟨error | value, left⟩ <;> exact Iff.rfl

theorem bind_of_exec (h : Does seen program step interp)
    (hnext : ∀ value left, interp.exec step = (.ok value, left) →
      Does seen' (next (seen value)) (next' value) left) :
    Does seen' (program >>= next) (step >>= next') interp := by
  unfold Does at h ⊢
  rw [Interpreter.exec_bind, bind_apply, h]
  rcases hrun : interp.exec step with ⟨error | value, left⟩
  · rfl
  · exact hnext value left hrun

/-- No step gives or takes room for frames. -/
theorem bind (h : Does seen program step interp)
    (hnext : ∀ value left, left.room = interp.room →
      Does seen' (next (seen value)) (next' value) left) :
    Does seen' (program >>= next) (step >>= next') interp :=
  h.bind_of_exec fun value left hrun => hnext value left (Interpreter.room_of_exec hrun)

/-- The value of a step that leaves it is found again in the top frame. -/
theorem result_bind {program : Machine Unit} {step : Eval Ref} {next : Ref → Machine γ}
    {next' : Ref → Eval δ} (h : Settles program step interp) (hleaves : step.Leaves)
    (hnext : ∀ value left, left.room = interp.room → Does seen' (next value) (next' value) left) :
    Does seen' (program >>= fun _ => result >>= next) (step >>= next') interp := by
  refine h.bind_of_exec fun value left hrun => ?_
  have hresult : left.current.result = some value := Interpreter.result_of_exec hleaves hrun
  have hread : (result >>= next) left = next value left := by
    rw [bind_apply, result, hresult]
  unfold Does at hnext ⊢
  rw [hread]
  exact hnext value left (Interpreter.room_of_exec hrun)

theorem result {program : Machine Unit} {step : Eval Ref} (h : Settles program step interp)
    (hleaves : step.Leaves) : Does id (program >>= fun _ => Machine.result) step interp := by
  have hbound : Does id (program >>= fun _ => Machine.result >>= Pure.pure)
      (step >>= Pure.pure) interp := h.result_bind hleaves fun _ _ _ => rfl
  rwa [Machine.bind_pure, Eval.bind_pure] at hbound

theorem pure (value : β) : Does id (Pure.pure value) (Pure.pure value) interp := rfl

theorem raise (fault : Fault) (site : Option Node) :
    Does seen (Machine.raise fault site) (Evaluation.raise fault site) interp := rfl

theorem leave (value : Ref) : Settles (Machine.leave value) (Eval.leave value) interp := rfl

theorem onTop (step : Eval β) : Does id (Machine.onTop step) step interp :=
  iff_eq.2 rfl

theorem world : Does id Machine.world Eval.getWorld interp := rfl

theorem current : Does id (read (·.current)) Eval.getFrame interp := rfl

theorem self : Does Frame.self Machine.self Eval.getFrame interp := rfl

theorem of_self :
    Does id Machine.self (do return (← Eval.getFrame).self : Eval Ref) interp := rfl

theorem setWorld (world : World) :
    Does id (Machine.setWorld world) (Eval.setWorld world) interp := rfl

theorem assign (name : String) (value : Ref) :
    Does id (Machine.assign name value) (Eval.modifyFrame fun frame =>
      { frame with locals := frame.locals.insert name value }) interp := rfl

theorem note (event : Event) : Does id (change (·.note event)) (Eval.note event) interp := rfl

/-- What is handed on is dropped. -/
theorem settles {program : Machine Ref} {step : Eval Ref} (h : Does id program step interp) :
    Settles (program >>= fun _ => Pure.pure ()) step interp := by
  unfold Settles Does
  rw [bind_apply, iff_eq.1 h]
  rcases interp.exec step with ⟨error | value, left⟩ <;> rfl

theorem annotating {program : Machine β} (h : Does id program step interp) (note : Option String) :
    Does id (Machine.annotating note program) (Evaluation.annotating note step) interp := by
  rw [iff_eq, Machine.annotating, iff_eq.1 h, Interpreter.exec_annotating]
  rfl

/-- The frame that is popped is the one that was pushed, so there is one to go back to, and the
value has been left in it. -/
theorem within {program : Machine Unit} {step : Eval Ref} {frame : Frame} {names : List String}
    (h : Settles program step (interp.enter frame)) (hleaves : step.Leaves)
    (hkeeps : step.Keeps names) :
    Does id (Machine.within frame program) (Evaluation.within frame step) interp := by
  obtain ⟨popped, below, hpop, hexec⟩ := Interpreter.exec_within interp frame step
  have htop := Interpreter.popped_eq hpop
  have hlabel : popped.label = frame.label := by
    rw [htop]
    exact (Interpreter.exec_keeps hkeeps (interp.enter frame)).current.label
  unfold Settles Does at h
  rw [iff_eq, hexec, Machine.within, h]
  rcases hrun : (interp.enter frame).exec step with ⟨error | value, above⟩
  · rw [hrun] at hpop
    dsimp only [Except.map]
    rw [hpop]
    dsimp only
    rw [hlabel]
  · rw [hrun] at hpop htop
    have hresult : popped.result = some value := by
      rw [htop]
      exact Interpreter.result_of_exec hleaves hrun
    dsimp only [Except.map]
    rw [hpop]
    dsimp only
    rw [hlabel, hresult]
    rfl

end Does

/-! ### Messages -/

section Rules

variable {room : Nat} {enter : Enter} {enter' : Evaluation.Enter} {interp : Interpreter}

/-- What is entered with the given room does the same on the machine, in frames that have the result
of a frame in which nothing has happened. -/
def EntersAlike (room : Nat) (enter : Enter) (enter' : Evaluation.Enter) : Prop :=
  ∀ ⦃interp : Interpreter⦄, interp.room = room → ∀ frame site task,
    frame.result = some .nil → Does id (enter frame site task) (enter' frame site task) interp

section Messages

variable (henter : EntersAlike room enter enter') (hroom : interp.room = room)

include henter hroom

theorem send_does (site : Option Node) (receiver : Ref) (name : String) (args : List Ref) :
    Does id (send enter site receiver name args)
      (Evaluation.send enter' site receiver name args) interp := by
  refine Does.world.bind fun world left hleft => ?_
  dsimp only [id]
  cases world.findMethod (world.classOf receiver) name with
  | none => exact .raise _ _
  | some found =>
    obtain ⟨⟨label, holder, code⟩, owner⟩ := found
    refine (Does.note _).bind fun _ after hafter => ?_
    have hsame : after.room = room := hafter.trans (hleft.trans hroom)
    cases code with
    | native native => exact henter hsame _ _ _ rfl
    | interpreted params body => exact henter hsame _ _ _ rfl

theorem runNative_does (site : Option Node) (args : List Ref) (native : Native) :
    Does id (runNative enter site args native)
      (Evaluation.runNative enter' site args native) interp := by
  match native with
  | .new =>
    refine Does.world.bind fun world left hleft => Does.self.bind fun frame below hbelow => ?_
    dsimp only [id]
    cases world.asClass? frame.self with
    | none => exact .raise _ _
    | some id =>
      refine (Does.onTop _).bind fun made after hafter => ?_
      have hsame : after.room = room := hafter.trans (hbelow.trans (hleft.trans hroom))
      exact (send_does henter hsame _ _ _ _).bind fun _ _ _ => .pure made
  | .setUp => exact .pure _
  | .puts =>
    exact Does.world.bind fun world _ _ => (Does.onTop _).bind fun _ _ _ => .pure _
  | .host .nothing => exact .pure _
  | .host .receiver => exact .of_self
  | .host .lastArgument => exact .pure _
  | .host (.fail text marks) => exact .raise _ _
  | .host (.forward message note) =>
    refine Does.self.bind fun frame left hleft => ?_
    exact (send_does henter (hleft.trans hroom) _ _ _ _).annotating note

end Messages

/-! ### Nodes -/

/-- A node is evaluated on the machine as it is by the evaluator, with the same room. -/
def NodeSettles (room : Nat) (enter : Enter) (enter' : Evaluation.Enter) (node : Node) : Prop :=
  ∀ ⦃interp : Interpreter⦄, interp.room = room →
    Settles (evalNode enter node) (Evaluation.evalNode enter' node) interp

section Parts

variable {child : Child} {children : List Child}
  (hleaves : ∀ frame site task, (enter' frame site task).Leaves) (hroom : interp.room = room)

include hroom

theorem evalPart_settles (owner : Node) (ih : child.Satisfies (NodeSettles room enter enter')) :
    Settles (evalPart enter owner child) (Evaluation.evalPart enter' owner child) interp := by
  cases child with
  | node inner =>
    rw [evalPart, Evaluation.evalPart]
    exact ih hroom
  | absent => exact .leave .nil
  | _ => exact .raise _ _

theorem evalSequence_settles (owner : Node)
    (ih : ∀ child ∈ children, child.Satisfies (NodeSettles room enter enter')) :
    Settles (evalSequence enter owner children)
      (Evaluation.evalSequence enter' owner children) interp := by
  induction children generalizing interp with
  | nil => exact .leave .nil
  | cons first rest rec =>
    have hfirst := evalPart_settles hroom owner (ih first List.mem_cons_self)
    cases rest with
    | nil =>
      rw [evalSequence, Evaluation.evalSequence]
      exact hfirst
    | cons second more =>
      refine hfirst.bind fun _ left hleft => rec (hleft.trans hroom) fun child hchild => ?_
      exact ih child (List.mem_cons_of_mem _ hchild)

include hleaves

theorem evalArgs_does (owner : Node)
    (ih : ∀ child ∈ children, child.Satisfies (NodeSettles room enter enter')) :
    Does id (evalArgs enter owner children)
      (Evaluation.evalArgs enter' owner children) interp := by
  induction children generalizing interp with
  | nil => exact .pure []
  | cons first rest rec =>
    cases first with
    | node inner =>
      have hinner : NodeSettles room enter enter' inner := ih _ List.mem_cons_self
      have hvalue := Evaluation.evalNode_leaves hleaves inner
      rw [evalArgs, Evaluation.evalArgs]
      refine (hinner hroom).result_bind hvalue fun value left hleft => ?_
      refine (rec (hleft.trans hroom) fun child hchild => ?_).bind fun _ _ _ => .pure _
      exact ih child (List.mem_cons_of_mem _ hchild)
    | _ => exact .raise _ _

theorem evalReceiver_does (ih : child.Satisfies (NodeSettles room enter enter')) :
    Does id (evalReceiver enter child) (Evaluation.evalReceiver enter' child) interp := by
  cases child with
  | node inner =>
    rw [evalReceiver, Evaluation.evalReceiver]
    exact (ih hroom).result (Evaluation.evalNode_leaves hleaves inner)
  | _ => exact .of_self

theorem evalSuperclass_does (ih : child.Satisfies (NodeSettles room enter enter')) :
    Does id (evalSuperclass enter child) (Evaluation.evalSuperclass enter' child) interp := by
  cases child with
  | node inner =>
    have hvalue := Evaluation.evalNode_leaves hleaves inner
    rw [evalSuperclass, Evaluation.evalSuperclass]
    refine (ih hroom).result_bind hvalue fun value left hleft => ?_
    refine Does.world.bind fun world after hafter => ?_
    dsimp only [id]
    cases world.asClass? value with
    | none => exact .raise _ _
    | some id => exact .pure _
  | _ => exact .pure _

theorem evalConstPath_does (owner : Node)
    (ih : ∀ child ∈ children, child.Satisfies (NodeSettles room enter enter')) :
    Does id (evalConstPath enter owner children)
      (Evaluation.evalConstPath enter' owner children) interp := by
  cases children with
  | nil => exact .raise _ _
  | cons first names =>
    cases first with
    | absent =>
      cases names with
      | nil => exact .raise _ _
      | cons second rest =>
        cases second with
        | sym name => exact .pure _
        | _ => exact .raise _ _
    | node inner =>
      have hinner : NodeSettles room enter enter' inner := ih _ List.mem_cons_self
      have hvalue := Evaluation.evalNode_leaves hleaves inner
      cases names with
      | nil => exact .raise _ _
      | cons second rest =>
        cases second with
        | sym name =>
          rw [evalConstPath, Evaluation.evalConstPath]
          refine (hinner hroom).result_bind hvalue fun value left hleft => ?_
          refine Does.world.bind fun world after hafter => ?_
          dsimp only [id]
          cases world.asClass? value with
          | none => exact .raise _ _
          | some id => exact .pure _
        | _ => exact .raise _ _
    | _ => exact .raise _ _

end Parts

section Nodes

variable (henter : EntersAlike room enter enter')
  (hleaves : ∀ frame site task, (enter' frame site task).Leaves)

include henter hleaves

section Fitting

variable {superclass body receiver : Child} {rest : List Child}

/-- The rule looks into its first child, so the parts of that are needed. -/
theorem classDef_settles {steps : List Child}
    (hsteps : ∀ child ∈ steps, child.Satisfies (NodeSettles room enter enter'))
    (hsuper : superclass.Satisfies (NodeSettles room enter enter')) (place pos : Pos) :
    NodeSettles room enter enter'
      (.mk .classDef (.node (.mk .const steps place) :: superclass :: body :: rest) pos) := by
  intro interp hroom
  rw [evalNode, Evaluation.evalNode]
  by_cases hparts : (superclass.isPart && body.isPart) = true
  · rw [if_pos hparts, if_pos hparts]
    refine (evalConstPath_does hleaves hroom _ hsteps).bind fun path mid hmid => ?_
    obtain ⟨owner, name⟩ := path
    have hparent := evalSuperclass_does hleaves (hmid.trans hroom) hsuper
    refine hparent.bind fun parent found hfound => ?_
    refine (Does.onTop _).bind fun id opened hopened => ?_
    refine Does.world.bind fun world after hafter => ?_
    have hsame : after.room = room :=
      hafter.trans (hopened.trans (hfound.trans (hmid.trans hroom)))
    exact (henter hsame _ _ _ rfl).settles
  · rw [if_neg hparts, if_neg hparts]
    exact .raise _ _

omit henter hleaves in
theorem methodDef_settles (name : String) (params : List Child) (place pos : Pos) :
    NodeSettles room enter enter'
      (.mk .methodDef (.sym name :: .node (.mk .params params place) :: body :: rest) pos) := by
  intro interp hroom
  rw [evalNode, Evaluation.evalNode]
  by_cases hpart : body.isPart = true
  · rw [if_pos hpart, if_pos hpart]
    exact (Does.onTop _).bind fun found _ _ => (Does.onTop _).settles
  · rw [if_neg hpart, if_neg hpart]
    exact .raise _ _

theorem sendNode_settles (hreceiver : receiver.Satisfies (NodeSettles room enter enter'))
    (hargs : ∀ arg ∈ rest, arg.Satisfies (NodeSettles room enter enter')) (name : String)
    (pos : Pos) :
    NodeSettles room enter enter' (.mk .send (receiver :: .sym name :: rest) pos) := by
  intro interp hroom
  rw [evalNode, Evaluation.evalNode]
  by_cases hpart : receiver.isPart = true
  · rw [if_pos hpart, if_pos hpart]
    refine (evalReceiver_does hleaves hroom hreceiver).bind fun target mid hmid => ?_
    refine (evalArgs_does hleaves (hmid.trans hroom) _ hargs).bind fun values after hafter => ?_
    exact (send_does henter (hafter.trans (hmid.trans hroom)) _ _ _ _).settles
  · rw [if_neg hpart, if_neg hpart]
    exact .raise _ _

end Fitting

/-- One case for each kind of node. Children that do not fit the kind are a fault on both sides. -/
theorem evalNode_settles (node : Node) : NodeSettles room enter enter' node := by
  refine (Node.induction (fun kind children pos below => ?_) node).1
  have ih : ∀ child ∈ children, child.Satisfies (NodeSettles room enter enter') :=
    fun child hchild => (below child hchild).mono fun _ => And.left
  have hpart (owner : Node) (child : Child) : (Evaluation.evalPart enter' owner child).Leaves := by
    refine Evaluation.evalPart_leaves ?_ owner
    cases child with
    | node inner => exact Evaluation.evalNode_leaves hleaves inner
    | _ => trivial
  intro interp hroom
  match kind with
  | .str =>
    cases children with
    | nil => exact .raise _ _
    | cons first rest =>
      cases first with
      | str text => exact (Does.onTop _).bind fun made _ _ => .leave _
      | _ => exact .raise _ _
  | .begin =>
    rw [evalNode, Evaluation.evalNode]
    exact evalSequence_settles hroom _ ih
  | .localAssign =>
    cases children with
    | nil => exact .raise _ _
    | cons first rest =>
      cases first with
      | sym name =>
        cases rest with
        | nil => exact .raise _ _
        | cons value rest =>
          have hvalue := evalPart_settles hroom (.mk .localAssign (.sym name :: value :: rest) pos)
            (ih value (by simp))
          rw [evalNode, Evaluation.evalNode]
          refine hvalue.result_bind (hpart _ _) fun result left _ => ?_
          exact (Does.assign name result).bind fun _ _ _ => .leave _
      | _ => exact .raise _ _
  | .localRef =>
    cases children with
    | nil => exact .raise _ _
    | cons first rest =>
      cases first with
      | sym name =>
        rw [evalNode, Evaluation.evalNode]
        refine Does.current.bind fun frame _ _ => ?_
        dsimp only [id]
        cases frame.locals.get? name with
        | none => exact .raise _ _
        | some value => exact .leave _
      | _ => exact .raise _ _
  | .ivarAssign =>
    cases children with
    | nil => exact .raise _ _
    | cons first rest =>
      cases first with
      | sym name =>
        cases rest with
        | nil => exact .raise _ _
        | cons value rest =>
          have hvalue := evalPart_settles hroom (.mk .ivarAssign (.sym name :: value :: rest) pos)
            (ih value (by simp))
          rw [evalNode, Evaluation.evalNode]
          refine hvalue.result_bind (hpart _ _) fun result left _ => ?_
          refine Does.self.bind fun frame _ _ => Does.world.bind fun world _ _ => ?_
          exact (Does.setWorld _).bind fun _ _ _ => .leave _
      | _ => exact .raise _ _
  | .ivarRef =>
    cases children with
    | nil => exact .raise _ _
    | cons first rest =>
      cases first with
      | sym name =>
        exact Does.self.bind fun frame _ _ => Does.world.bind fun world _ _ => .leave _
      | _ => exact .raise _ _
  | .selfRef => exact Does.self.bind fun frame _ _ => .leave _
  | .nilRef => exact .leave _
  | .classDef =>
    cases children with
    | nil => exact .raise _ _
    | cons first rest =>
      cases first with
      | node inner =>
        obtain ⟨kind, steps, place⟩ := inner
        have hsteps := (below _ List.mem_cons_self).2
        cases kind with
        | const =>
          cases rest with
          | nil => exact .raise _ _
          | cons superclass rest =>
            have hsuper := ih superclass (by simp)
            cases rest with
            | nil => exact .raise _ _
            | cons body rest => exact classDef_settles henter hleaves hsteps hsuper place pos hroom
        | _ => exact .raise _ _
      | _ => exact .raise _ _
  | .methodDef =>
    cases children with
    | nil => exact .raise _ _
    | cons first rest =>
      cases first with
      | sym name =>
        cases rest with
        | nil => exact .raise _ _
        | cons second rest =>
          cases second with
          | node inner =>
            obtain ⟨kind, params, place⟩ := inner
            cases kind with
            | params =>
              cases rest with
              | nil => exact .raise _ _
              | cons body rest => exact methodDef_settles name params place pos hroom
            | _ => exact .raise _ _
          | _ => exact .raise _ _
      | _ => exact .raise _ _
  | .send =>
    cases children with
    | nil => exact .raise _ _
    | cons receiver rest =>
      have hreceiver := ih receiver List.mem_cons_self
      cases rest with
      | nil => exact .raise _ _
      | cons second args =>
        cases second with
        | sym name =>
          have hargs (arg : Child) (harg : arg ∈ args) := ih arg (by simp [harg])
          exact sendNode_settles henter hleaves hreceiver hargs name pos hroom
        | _ => exact .raise _ _
  | .const =>
    rw [evalNode, Evaluation.evalNode]
    refine (evalConstPath_does hleaves hroom _ ih).bind fun path _ _ => ?_
    obtain ⟨owner, name⟩ := path
    refine Does.world.bind fun world _ _ => ?_
    dsimp only [id]
    cases (world.classRecord owner).constants.get? name with
    | none => exact .raise _ _
    | some value => exact .leave _
  | .int | .float | .sym | .trueRef | .falseRef | .singletonDef | .constAssign | .param | .params
  | .other _ => exact .raise _ _

/-- In a frame in which nothing has happened yet. -/
theorem runTask_settles (hroom : interp.room = room) (hresult : interp.current.result = some .nil)
    (site : Option Node) (task : Task) :
    Settles (runTask enter site task) (Evaluation.runTask enter' site task) interp := by
  match task with
  | .body none =>
    have hkept : interp.setResult .nil = interp := by
      rw [Interpreter.setResult, ← hresult]
    have hleft : interp.exec (Eval.leave .nil) = (.ok .nil, interp.setResult .nil) := rfl
    rw [runTask, Evaluation.runTask]
    unfold Settles Does
    rw [hleft, hkept]
    rfl
  | .body (some code) => exact evalNode_settles henter hleaves code hroom
  | .native native args =>
    exact (runNative_does henter hroom site args native).bind fun value _ _ => .leave value

end Nodes

end Rules

theorem perform_succ_apply (fuel : Nat) (frame : Frame) (site : Option Node) (task : Task)
    (interp : Interpreter) :
    perform (fuel + 1) frame site task interp =
      if interp.limit ≤ interp.depth then raise (.stackTooDeep interp.limit) site interp
      else within frame (runTask (perform fuel) site task) interp := by
  change (if interp.limit ≤ interp.depth then raise (.stackTooDeep interp.limit) site
    else within frame (runTask (perform fuel) site task) : Machine Ref) interp = _
  split
  next => rfl
  next => rfl

/-- With more fuel than free frames, the limit is always reached first. -/
theorem perform_entersAlike {room fuel : Nat} (hfuel : room < fuel) :
    EntersAlike room (perform fuel) (Evaluation.perform room) := by
  obtain ⟨fuel, rfl⟩ := Nat.exists_eq_add_one_of_ne_zero (Nat.ne_of_gt (Nat.zero_lt_of_lt hfuel))
  -- A frame takes one of the free ones and one unit of fuel.
  induction room generalizing fuel with
  | zero =>
    intro interp hroom frame site task _
    unfold Interpreter.room at hroom
    rw [Does.iff_eq, perform_succ_apply, if_pos (by omega)]
    rfl
  | succ room ih =>
    intro interp hroom frame site task hframe
    obtain ⟨fuel, rfl⟩ : ∃ less, fuel = less + 1 := ⟨fuel - 1, by omega⟩
    have hentered : (interp.enter frame).room = room := by
      rw [Interpreter.room_enter, hroom, Nat.add_sub_cancel]
    obtain ⟨names, hkeeps⟩ := Evaluation.runTask_keeps (Evaluation.perform_keeps room) site task
    have hleaves := Evaluation.runTask_leaves (Evaluation.perform_leaves room) site task
    have htask := runTask_settles (ih fuel (by omega)) (Evaluation.perform_leaves room) hentered
      hframe site task
    unfold Interpreter.room at hroom
    rw [Does.iff_eq, perform_succ_apply, if_neg (by omega)]
    exact Does.iff_eq.1 (htask.within hleaves hkeeps)

end Machine

/-! ### Interpreters -/

namespace Interpreter

theorem interpret_machine (interp : Interpreter) {fuel : Nat} (hfuel : interp.room < fuel)
    (tree : Option Node) : Machine.interpret fuel tree interp = .ok (interp.interpret tree) := by
  cases tree with
  | none => rfl
  | some node =>
    have hleaves := Evaluation.evalTree_leaves interp.room (some node)
    have hnode : Machine.Settles (Machine.evalNode (Machine.perform fuel) node)
        (Evaluation.evalTree interp.room (some node)) interp :=
      Machine.evalNode_settles (Machine.perform_entersAlike hfuel)
        (Evaluation.perform_leaves interp.room) node rfl
    exact Machine.Does.iff_eq.1 (hnode.result hleaves)

theorem send_machine (interp : Interpreter) {fuel : Nat} (hfuel : interp.room < fuel)
    (receiver : Ref) (name : String) (args : List Ref) :
    Machine.send (Machine.perform fuel) none receiver name args interp =
      .ok (interp.send receiver name args) :=
  Machine.Does.iff_eq.1 (Machine.send_does (Machine.perform_entersAlike hfuel) rfl _ _ _ _)

/-- Whatever the tree, the message and the stack are, and whether it fails or not: the frames below
the current one stay as they are, the current one keeps all but the local variables that the tree
assigns, and the stack only moves above the current frame. In particular the toplevel frame is never
left, because every frame that is left was entered before. A machine that has the whole stack in its
hands does the same, and is never stuck. -/
theorem stack_kept (interp : Interpreter) :
    (∀ tree, interp.Keeps (Child.ofNode? tree).assigned (interp.interpret tree).2) ∧
    (∀ receiver name args, interp.Keeps [] (interp.send receiver name args).2) ∧
    (∀ frame step, ∃ popped below,
      ((interp.enter frame).exec step).2.pop? = some (popped, below) ∧
        interp.exec (Evaluation.within frame step) =
          match ((interp.enter frame).exec step).1 with
          | .ok value => (.ok value, (below.setResult value).note (.pop frame.label below.depth))
          | .error error => (.error error, below.note (.pop frame.label below.depth))) ∧
    ∀ fuel, interp.room < fuel →
      (∀ tree, Machine.interpret fuel tree interp = .ok (interp.interpret tree)) ∧
      ∀ receiver name args, Machine.send (Machine.perform fuel) none receiver name args interp =
        .ok (interp.send receiver name args) := by
  refine ⟨fun tree => ?_, fun receiver name args => ?_, exec_within interp, fun fuel hfuel => ?_⟩
  · exact exec_keeps (Evaluation.evalTree_keeps interp.room tree) interp
  · exact exec_keeps (Evaluation.send_keeps (Evaluation.perform_keeps interp.room) none receiver
      name args) interp
  · exact ⟨interp.interpret_machine hfuel, interp.send_machine hfuel⟩

end Interpreter

end Garnet
