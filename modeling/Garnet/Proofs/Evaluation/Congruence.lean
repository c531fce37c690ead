import Garnet.Proofs.Evaluation.Frames

/-! # Relations between steps

Some statements compare two evaluations of one tree: in states that differ, or with different ways
to enter a frame. What they have in common is written down once. A congruence is a relation between
steps with a rule for each primitive step; it then holds between the evaluations of any tree, if it
holds between the ways to enter a frame. A statement about single evaluations is a congruence that
ignores one side.
-/

namespace Garnet

/-- A frame without its result. -/
def Frame.unset (frame : Frame) : Frame :=
  { frame with result := none }

theorem Frame.unset_eq_iff {frame frame' : Frame} :
    frame.unset = frame'.unset ↔ frame.label = frame'.label ∧ frame.self = frame'.self ∧
      frame.locals = frame'.locals ∧ frame.pos = frame'.pos := by
  simp [unset]

open Evaluation

/-- A relation between steps that the rules of the evaluator respect. A frame may be read in two
states, so what follows has to be related for any two frames that differ in their results. Only
events that do not move the stack can be noted, and values are written as a whole. -/
structure Eval.Congruence where
  Rel {α : Type} : Eval α → Eval α → Prop
  pure {α : Type} (value : α) : Rel (Pure.pure value) (Pure.pure value)
  bind {α β : Type} {step step' : Eval α} {next next' : α → Eval β} :
    Rel step step' → (∀ value, Rel (next value) (next' value)) →
      Rel (step >>= next) (step' >>= next')
  raise {α : Type} (fault : Fault) (site : Option Node) :
    Rel (Evaluation.raise fault site : Eval α) (Evaluation.raise fault site)
  leave (value : Ref) : Rel (Eval.leave value) (Eval.leave value)
  getWorld : Rel Eval.getWorld Eval.getWorld
  getFrame {α : Type} {next next' : Frame → Eval α} :
    (∀ frame frame', frame.unset = frame'.unset → Rel (next frame) (next' frame')) →
      Rel (Eval.getFrame >>= next) (Eval.getFrame >>= next')
  setWorld (world : World) : Rel (Eval.setWorld world) (Eval.setWorld world)
  grow {α : Type} (change : World → α × World) : Rel (Eval.grow change) (Eval.grow change)
  assign (name : String) (value : Ref) :
    Rel (Eval.modifyFrame fun frame => { frame with locals := frame.locals.insert name value })
      (Eval.modifyFrame fun frame => { frame with locals := frame.locals.insert name value })
  note {event : Event} (h : event.isStill = true) : Rel (Eval.note event) (Eval.note event)
  writeLines (site : Option Node) (lines : List String) :
    Rel (Evaluation.writeLines site lines) (Evaluation.writeLines site lines)
  annotating {α : Type} {step step' : Eval α} (note : Option String) :
    Rel step step' → Rel (Evaluation.annotating note step) (Evaluation.annotating note step')

namespace Eval.Congruence

variable (C : Congruence) {enter enter' : Enter}

/-- A step behind a check that may fail. -/
theorem guard {α : Type} {check : Prop} [Decidable check] {step step' : Eval α}
    (h : C.Rel step step') (fault : Fault) (site : Option Node) :
    C.Rel (if check then Evaluation.raise fault site >>= fun _ : PUnit => step else step)
      (if check then Evaluation.raise fault site >>= fun _ : PUnit => step' else step') := by
  split
  next => exact C.bind (C.raise fault site) fun _ => h
  next => exact h

section Frames

variable (henter : ∀ frame site task, C.Rel (enter frame site task) (enter' frame site task))

include henter

theorem send (site : Option Node) (receiver : Ref) (name : String) (args : List Ref) :
    C.Rel (Evaluation.send enter site receiver name args)
      (Evaluation.send enter' site receiver name args) := by
  apply C.bind C.getWorld
  intro world
  split
  next => exact C.raise _ _
  next =>
    apply C.bind (C.note rfl)
    intro _
    split
    next => exact henter _ _ _
    next => exact henter _ _ _

theorem runNative (site : Option Node) (args : List Ref) (native : Native) :
    C.Rel (Evaluation.runNative enter site args native)
      (Evaluation.runNative enter' site args native) := by
  match native with
  | .new =>
    apply C.bind C.getWorld
    intro world
    apply C.getFrame
    intro frame frame' hframe
    obtain ⟨-, hself, -, -⟩ := Frame.unset_eq_iff.1 hframe
    dsimp only
    rw [hself]
    split
    next => exact C.raise _ _
    next =>
      apply C.bind (C.grow _)
      intro made
      exact C.bind (C.send henter _ _ _ _) fun _ => C.pure made
  | .setUp => exact C.pure _
  | .puts =>
    apply C.bind C.getWorld
    intro world
    exact C.bind (C.writeLines site _) fun _ => C.pure _
  | .host .nothing => exact C.pure _
  | .host .receiver =>
    apply C.getFrame
    intro frame frame' hframe
    rw [(Frame.unset_eq_iff.1 hframe).2.1]
    exact C.pure _
  | .host .lastArgument => exact C.pure _
  | .host (.fail text marks) => exact C.raise _ _
  | .host (.forward message note) =>
    apply C.getFrame
    intro frame frame' hframe
    rw [(Frame.unset_eq_iff.1 hframe).2.1]
    exact C.annotating note (C.send henter _ _ _ _)

end Frames

/-! ### Definitions -/

theorem paramNames (node : Node) (listed : List Child) :
    C.Rel (Evaluation.paramNames node listed) (Evaluation.paramNames node listed) := by
  induction listed with
  | nil => exact C.pure _
  | cons first rest ih =>
    cases first with
    | node param =>
      unfold Evaluation.paramNames
      refine C.guard ?_ _ _
      split
      next => exact C.raise _ _
      next => exact C.bind ih fun found => C.pure _
    | _ => exact C.raise _ _

theorem openClass (node : Node) (owner : ClassId) (name : String) (superclass : Option ClassId) :
    C.Rel (Evaluation.openClass node owner name superclass)
      (Evaluation.openClass node owner name superclass) := by
  apply C.bind C.getWorld
  intro world
  dsimp only
  split
  next =>
    split
    next => exact C.raise _ _
    next => exact C.guard (C.bind (C.note rfl) fun _ => C.pure _) _ _
  next =>
    apply C.bind (C.grow _)
    intro id
    apply C.bind C.getWorld
    intro world
    exact C.bind (C.setWorld _) fun _ => C.bind (C.note rfl) fun _ => C.pure _

theorem defineMethod (name : String) (params : List String) (body : Option Node) :
    C.Rel (Evaluation.defineMethod name params body)
      (Evaluation.defineMethod name params body) := by
  apply C.bind C.getWorld
  intro world
  apply C.getFrame
  intro frame frame' hframe
  rw [(Frame.unset_eq_iff.1 hframe).2.1]
  exact C.bind (C.setWorld _) fun _ => C.bind (C.note rfl) fun _ => C.leave _

/-! ### Nodes -/

/-- A node is evaluated alike with two ways to enter a frame. -/
def NodeRel (enter enter' : Enter) (node : Node) : Prop :=
  C.Rel (evalNode enter node) (evalNode enter' node)

section Parts

variable {child : Child} {children : List Child}

theorem evalPart (owner : Node) (ih : child.Satisfies (C.NodeRel enter enter')) :
    C.Rel (Evaluation.evalPart enter owner child) (Evaluation.evalPart enter' owner child) := by
  cases child with
  | node inner =>
    rw [Evaluation.evalPart, Evaluation.evalPart]
    exact ih
  | absent => exact C.leave .nil
  | _ => exact C.raise _ _

theorem evalSequence (owner : Node)
    (ih : ∀ child ∈ children, child.Satisfies (C.NodeRel enter enter')) :
    C.Rel (Evaluation.evalSequence enter owner children)
      (Evaluation.evalSequence enter' owner children) := by
  induction children with
  | nil => exact C.leave .nil
  | cons first rest rec =>
    have hfirst := C.evalPart owner (ih first List.mem_cons_self)
    have hrest := rec fun child hchild => ih child (List.mem_cons_of_mem _ hchild)
    cases rest with
    | nil =>
      rw [Evaluation.evalSequence, Evaluation.evalSequence]
      exact hfirst
    | cons second more => exact C.bind hfirst fun _ => hrest

theorem evalArgs (owner : Node)
    (ih : ∀ child ∈ children, child.Satisfies (C.NodeRel enter enter')) :
    C.Rel (Evaluation.evalArgs enter owner children)
      (Evaluation.evalArgs enter' owner children) := by
  induction children with
  | nil => exact C.pure []
  | cons first rest rec =>
    cases first with
    | node inner =>
      have hinner : C.NodeRel enter enter' inner := ih _ List.mem_cons_self
      have hrest := rec fun child hchild => ih child (List.mem_cons_of_mem _ hchild)
      rw [Evaluation.evalArgs, Evaluation.evalArgs]
      exact C.bind hinner fun value => C.bind hrest fun values => C.pure _
    | _ => exact C.raise _ _

theorem evalReceiver (ih : child.Satisfies (C.NodeRel enter enter')) :
    C.Rel (Evaluation.evalReceiver enter child) (Evaluation.evalReceiver enter' child) := by
  cases child with
  | node inner =>
    rw [Evaluation.evalReceiver, Evaluation.evalReceiver]
    exact ih
  | _ =>
    apply C.getFrame
    intro frame frame' hframe
    rw [(Frame.unset_eq_iff.1 hframe).2.1]
    exact C.pure _

theorem evalSuperclass (ih : child.Satisfies (C.NodeRel enter enter')) :
    C.Rel (Evaluation.evalSuperclass enter child) (Evaluation.evalSuperclass enter' child) := by
  cases child with
  | node inner =>
    rw [Evaluation.evalSuperclass, Evaluation.evalSuperclass]
    apply C.bind ih
    intro value
    apply C.bind C.getWorld
    intro world
    split
    next => exact C.pure _
    next => exact C.raise _ _
  | _ => exact C.pure _

theorem evalConstPath (owner : Node)
    (ih : ∀ child ∈ children, child.Satisfies (C.NodeRel enter enter')) :
    C.Rel (Evaluation.evalConstPath enter owner children)
      (Evaluation.evalConstPath enter' owner children) := by
  unfold Evaluation.evalConstPath
  split
  next => exact C.pure _
  next inner name rest =>
    have hinner : C.NodeRel enter enter' inner := ih _ List.mem_cons_self
    apply C.bind hinner
    intro value
    apply C.bind C.getWorld
    intro world
    split
    next => exact C.pure _
    next => exact C.raise _ _
  next => exact C.raise _ _

end Parts

section Frames

variable (henter : ∀ frame site task, C.Rel (enter frame site task) (enter' frame site task))

include henter

/-- One case for each kind of node; children that do not fit the kind are a fault on both sides. -/
theorem evalNode (node : Node) : C.NodeRel enter enter' node := by
  refine (Node.induction (fun kind children pos below => ?_) node).1
  have ih : ∀ child ∈ children, child.Satisfies (C.NodeRel enter enter') :=
    fun child hchild => (below child hchild).mono fun _ => And.left
  unfold NodeRel
  match kind with
  | .str =>
    unfold Evaluation.evalNode
    dsimp only
    split
    next => exact C.bind (C.grow _) fun made => C.leave _
    next => exact C.raise _ _
  | .begin =>
    rw [Evaluation.evalNode, Evaluation.evalNode]
    exact C.evalSequence _ ih
  | .localAssign =>
    unfold Evaluation.evalNode
    dsimp only
    split
    next name value rest =>
      apply C.bind (C.evalPart _ (ih value (by simp)))
      intro result
      exact C.bind (C.assign name result) fun _ => C.leave _
    next => exact C.raise _ _
  | .localRef =>
    unfold Evaluation.evalNode
    dsimp only
    split
    next =>
      apply C.getFrame
      intro frame frame' hframe
      rw [(Frame.unset_eq_iff.1 hframe).2.2.1]
      split
      next => exact C.leave _
      next => exact C.raise _ _
    next => exact C.raise _ _
  | .ivarAssign =>
    unfold Evaluation.evalNode
    dsimp only
    split
    next name value rest =>
      apply C.bind (C.evalPart _ (ih value (by simp)))
      intro result
      apply C.getFrame
      intro frame frame' hframe
      rw [(Frame.unset_eq_iff.1 hframe).2.1]
      apply C.bind C.getWorld
      intro world
      exact C.bind (C.setWorld _) fun _ => C.leave _
    next => exact C.raise _ _
  | .ivarRef =>
    unfold Evaluation.evalNode
    dsimp only
    split
    next =>
      apply C.getFrame
      intro frame frame' hframe
      rw [(Frame.unset_eq_iff.1 hframe).2.1]
      exact C.bind C.getWorld fun world => C.leave _
    next => exact C.raise _ _
  | .selfRef =>
    apply C.getFrame
    intro frame frame' hframe
    rw [(Frame.unset_eq_iff.1 hframe).2.1]
    exact C.leave _
  | .nilRef => exact C.leave _
  | .classDef =>
    unfold Evaluation.evalNode
    dsimp only
    split
    next steps place superclass body rest =>
      -- The rule looks into its first child, so the hypothesis is needed two levels down.
      have hsteps := (below _ List.mem_cons_self).2
      split
      next =>
        apply C.bind (C.evalConstPath _ hsteps)
        rintro ⟨owner, name⟩
        apply C.bind (C.evalSuperclass (ih superclass (by simp)))
        intro parent
        apply C.bind (C.openClass _ _ _ _)
        intro id
        exact C.bind C.getWorld fun world => henter _ _ _
      next => exact C.raise _ _
    next => exact C.raise _ _
  | .methodDef =>
    unfold Evaluation.evalNode
    dsimp only
    split
    next =>
      split
      next => exact C.bind (C.paramNames _ _) fun found => C.defineMethod _ _ _
      next => exact C.raise _ _
    next => exact C.raise _ _
  | .send =>
    unfold Evaluation.evalNode
    dsimp only
    split
    next receiver name args =>
      split
      next =>
        apply C.bind (C.evalReceiver (ih receiver (by simp)))
        intro target
        apply C.bind (C.evalArgs _ fun arg harg => ih arg (by simp [harg]))
        intro values
        exact C.send henter _ _ _ _
      next => exact C.raise _ _
    next => exact C.raise _ _
  | .const =>
    rw [Evaluation.evalNode, Evaluation.evalNode]
    apply C.bind (C.evalConstPath _ ih)
    rintro ⟨owner, name⟩
    apply C.bind C.getWorld
    intro world
    dsimp only
    split
    next => exact C.leave _
    next => exact C.raise _ _
  | .int | .float | .sym | .trueRef | .falseRef | .singletonDef | .constAssign | .param | .params
  | .other _ => exact C.raise _ _

theorem runTask (site : Option Node) (task : Task) :
    C.Rel (Evaluation.runTask enter site task) (Evaluation.runTask enter' site task) := by
  match task with
  | .body none => exact C.leave .nil
  | .body (some code) => exact C.evalNode henter code
  | .native native args =>
    exact C.bind (C.runNative henter site args native) fun value => C.leave value

end Frames

end Eval.Congruence

end Garnet
