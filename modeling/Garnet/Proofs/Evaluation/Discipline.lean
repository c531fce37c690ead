import Garnet.Proofs.Evaluation.Logic
import Garnet.Proofs.Tree.Shape

/-! # Properties of steps

A statement about one evaluation, such as that it keeps an invariant, is a property of steps with a
rule for each thing that a node can do by itself: make a string, store an instance variable, open a
class and define a method. Messages and the bodies of classes run in frames of their own. If the
property holds of them, it holds of the evaluation of every node.
-/

namespace Garnet

open Evaluation

/-- A property of steps that the rules for nodes respect. The world is only changed in the ways in
which nodes change it. The trees may be restricted, and with them the names that they mention. -/
structure Eval.Discipline where
  Fits : Node → Prop
  Names : String → Prop
  /-- The parts of a tree are restricted in the same way. -/
  child {kind : Node.Kind} {children : List Child} {pos : Pos} {inner : Node} :
    Fits (.mk kind children pos) → .node inner ∈ children → Fits inner
  sym {kind : Node.Kind} {children : List Child} {pos : Pos} {name : String} :
    Fits (.mk kind children pos) → .sym name ∈ children → Names name
  Holds {α : Type} : Eval α → Prop
  pure {α : Type} (value : α) : Holds (Pure.pure value)
  bind {α β : Type} {step : Eval α} {next : α → Eval β} :
    Holds step → (∀ value, Holds (next value)) → Holds (step >>= next)
  raise {α : Type} (fault : Fault) (site : Option Node) :
    Holds (Evaluation.raise fault site : Eval α)
  leave (value : Ref) : Holds (Eval.leave value)
  getWorld : Holds Eval.getWorld
  getFrame : Holds Eval.getFrame
  assign {name : String} (hname : Names name) (value : Ref) :
    Holds (Eval.modifyFrame fun frame => { frame with locals := frame.locals.insert name value })
  newString (text : String) : Holds (Eval.grow (·.newString text))
  storeIvar (name : String) (value : Ref) :
    Holds do
      let self := (← Eval.getFrame).self
      Eval.setWorld ((← Eval.getWorld).setIvar self name value)
      Eval.leave value
  openClass (node : Node) (owner : ClassId) {name : String} (hname : Names name)
    (superclass : Option ClassId) : Holds (Evaluation.openClass node owner name superclass)
  defineMethod {name : String} (hname : Names name) (params : List String) {body : Option Node}
    (hbody : ∀ node ∈ body, Fits node) : Holds (Evaluation.defineMethod name params body)

namespace Eval.Discipline

variable (D : Discipline) {enter : Enter}

/-- A step behind a check that may fail. -/
theorem guard {α : Type} {check : Prop} [Decidable check] {step : Eval α} (h : D.Holds step)
    (fault : Fault) (site : Option Node) :
    D.Holds (if check then Evaluation.raise fault site >>= fun _ : PUnit => step else step) := by
  split
  next => exact D.bind (D.raise fault site) fun _ => h
  next => exact h

theorem paramNames (node : Node) (listed : List Child) :
    D.Holds (Evaluation.paramNames node listed) := by
  induction listed with
  | nil => exact D.pure _
  | cons first rest ih =>
    cases first with
    | node param =>
      unfold Evaluation.paramNames
      refine D.guard ?_ _ _
      split
      next => exact D.raise _ _
      next => exact D.bind ih fun found => D.pure _
    | _ => exact D.raise _ _

/-! ### Native methods -/

theorem writeLines (hwrite : ∀ text, D.Holds (Eval.write text)) (site : Option Node)
    (lines : List String) : D.Holds (Evaluation.writeLines site lines) := by
  induction lines with
  | nil => exact D.pure ()
  | cons line rest ih =>
    refine D.bind (hwrite _) fun refusal => ?_
    cases refusal with
    | some reason => exact D.raise _ _
    | none => exact ih

/-- Natives do two things that nodes do not do: they make objects, and they pass faults on. -/
theorem runNative (hwrite : ∀ text, D.Holds (Eval.write text))
    (hobject : ∀ id, D.Holds (Eval.grow (·.newObject id)))
    (hannotating : ∀ (note : Option String) {step : Eval Ref},
      D.Holds step → D.Holds (annotating note step))
    (hsend : ∀ site receiver name args, D.Holds (send enter site receiver name args))
    (site : Option Node) (args : List Ref) (native : Native) :
    D.Holds (Evaluation.runNative enter site args native) := by
  match native with
  | .new =>
    refine D.bind D.getWorld fun world => D.bind D.getFrame fun frame => ?_
    dsimp only
    split
    next => exact D.raise _ _
    next id _ =>
      exact D.bind (hobject id) fun made => D.bind (hsend _ _ _ _) fun _ => D.pure made
  | .setUp => exact D.pure _
  | .puts =>
    exact D.bind D.getWorld fun world => D.bind (D.writeLines hwrite site _) fun _ => D.pure _
  | .host .nothing => exact D.pure _
  | .host .receiver => exact D.bind D.getFrame fun frame => D.pure _
  | .host .lastArgument => exact D.pure _
  | .host (.fail text marks) => exact D.raise _ _
  | .host (.forward message note) =>
    exact D.bind D.getFrame fun frame => hannotating note (hsend _ _ _ _)

/-! ### Parts of nodes -/

/-- The property holds of the evaluation of a node. -/
def OfNode (enter : Enter) (node : Node) : Prop :=
  D.Holds (evalNode enter node)

section Parts

variable {child : Child} {children : List Child}

theorem evalPart (owner : Node) (ih : child.Satisfies (D.OfNode enter)) :
    D.Holds (Evaluation.evalPart enter owner child) := by
  cases child with
  | node inner =>
    rw [Evaluation.evalPart]
    exact ih
  | absent => exact D.leave .nil
  | _ => exact D.raise _ _

theorem evalSequence (owner : Node) (ih : ∀ child ∈ children, child.Satisfies (D.OfNode enter)) :
    D.Holds (Evaluation.evalSequence enter owner children) := by
  induction children with
  | nil => exact D.leave .nil
  | cons first rest rec =>
    have hfirst := D.evalPart owner (ih first List.mem_cons_self)
    have hrest := rec fun child hchild => ih child (List.mem_cons_of_mem _ hchild)
    cases rest with
    | nil =>
      rw [Evaluation.evalSequence]
      exact hfirst
    | cons second more => exact D.bind hfirst fun _ => hrest

theorem evalArgs (owner : Node) (ih : ∀ child ∈ children, child.Satisfies (D.OfNode enter)) :
    D.Holds (Evaluation.evalArgs enter owner children) := by
  induction children with
  | nil => exact D.pure []
  | cons first rest rec =>
    cases first with
    | node inner =>
      have hinner : D.OfNode enter inner := ih _ List.mem_cons_self
      have hrest := rec fun child hchild => ih child (List.mem_cons_of_mem _ hchild)
      rw [Evaluation.evalArgs]
      exact D.bind hinner fun value => D.bind hrest fun values => D.pure _
    | _ => exact D.raise _ _

theorem evalReceiver (ih : child.Satisfies (D.OfNode enter)) :
    D.Holds (Evaluation.evalReceiver enter child) := by
  cases child with
  | node inner =>
    rw [Evaluation.evalReceiver]
    exact ih
  | _ => exact D.bind D.getFrame fun frame => D.pure _

theorem evalSuperclass (ih : child.Satisfies (D.OfNode enter)) :
    D.Holds (Evaluation.evalSuperclass enter child) := by
  cases child with
  | node inner =>
    rw [Evaluation.evalSuperclass]
    refine D.bind ih fun value => D.bind D.getWorld fun world => ?_
    split
    next => exact D.pure _
    next => exact D.raise _ _
  | _ => exact D.pure _

/-- The name of a path stands in it, so what comes after the path may rely on that. -/
theorem evalConstPath_bind {α : Type} {next : ClassId × String → Eval α} (owner : Node)
    (ih : ∀ child ∈ children, child.Satisfies (D.OfNode enter))
    (hnext : ∀ id name, .sym name ∈ children → D.Holds (next (id, name))) :
    D.Holds (Evaluation.evalConstPath enter owner children >>= next) := by
  unfold Evaluation.evalConstPath
  split
  next name rest => exact hnext .objectClass name (by simp)
  next inner name rest =>
    have hinner : D.OfNode enter inner := ih _ List.mem_cons_self
    rw [bind_assoc]
    refine D.bind hinner fun value => ?_
    rw [bind_assoc]
    refine D.bind D.getWorld fun world => ?_
    split
    next id _ => exact hnext id name (by simp)
    next => exact D.raise _ _
  next => exact D.raise _ _

theorem evalConstPath (owner : Node) (ih : ∀ child ∈ children, child.Satisfies (D.OfNode enter)) :
    D.Holds (Evaluation.evalConstPath enter owner children) := by
  have hpath := D.evalConstPath_bind owner ih fun id name _ => D.pure (id, name)
  rwa [bind_pure] at hpath

end Parts

/-! ### Nodes -/

/-- Parts of a tree of the right sort are of the right sort. -/
theorem satisfies_ofNode {kind : Node.Kind} {children : List Child} {pos : Pos}
    (hfits : D.Fits (.mk kind children pos))
    (below : ∀ child ∈ children, child.Satisfies fun inner => D.Fits inner → D.OfNode enter inner) :
    ∀ child ∈ children, child.Satisfies (D.OfNode enter) := by
  intro child hchild
  have hbelow := below child hchild
  cases child with
  | node inner => exact hbelow (D.child hfits hchild)
  | _ => trivial

theorem fits_node? {kind : Node.Kind} {children : List Child} {pos : Pos}
    (hfits : D.Fits (.mk kind children pos)) {child : Child} (hchild : child ∈ children) :
    ∀ node ∈ child.node?, D.Fits node := by
  intro node hnode
  cases child with
  | node inner =>
    cases hnode
    exact D.child hfits hchild
  | _ => cases hnode

/-- One case for each kind of node; children that do not fit the kind are a fault. -/
theorem evalNode
    (hbody : ∀ frame site body, (∀ node ∈ body, D.Fits node) →
      D.Holds (enter frame site (.body body)))
    (hsend : ∀ site receiver name args, D.Holds (send enter site receiver name args))
    {node : Node} (hnode : D.Fits node) : D.OfNode enter node := by
  have hall : ∀ node : Node, (D.Fits node → D.OfNode enter node) ∧ _ :=
    Node.induction fun kind children pos below hfits => ?_
  · exact (hall node).1 hnode
  have ih : ∀ child ∈ children, child.Satisfies (D.OfNode enter) :=
    D.satisfies_ofNode hfits fun child hchild => (below child hchild).mono fun _ => And.left
  unfold OfNode
  match kind with
  | .str =>
    unfold Evaluation.evalNode
    dsimp only
    split
    next => exact D.bind (D.newString _) fun made => D.leave _
    next => exact D.raise _ _
  | .begin =>
    rw [Evaluation.evalNode]
    exact D.evalSequence _ ih
  | .localAssign =>
    unfold Evaluation.evalNode
    dsimp only
    split
    next name value rest =>
      refine D.bind (D.evalPart _ (ih value (by simp))) fun result => ?_
      exact D.bind (D.assign (D.sym hfits (by simp)) result) fun _ => D.leave _
    next => exact D.raise _ _
  | .localRef =>
    unfold Evaluation.evalNode
    dsimp only
    split
    next =>
      refine D.bind D.getFrame fun frame => ?_
      split
      next => exact D.leave _
      next => exact D.raise _ _
    next => exact D.raise _ _
  | .ivarAssign =>
    unfold Evaluation.evalNode
    dsimp only
    split
    next name value rest =>
      exact D.bind (D.evalPart _ (ih value (by simp))) fun result => D.storeIvar name result
    next => exact D.raise _ _
  | .ivarRef =>
    unfold Evaluation.evalNode
    dsimp only
    split
    next => exact D.bind D.getFrame fun frame => D.bind D.getWorld fun world => D.leave _
    next => exact D.raise _ _
  | .selfRef => exact D.bind D.getFrame fun frame => D.leave _
  | .nilRef => exact D.leave _
  | .classDef =>
    unfold Evaluation.evalNode
    dsimp only
    split
    next steps place superclass body rest =>
      -- The rule looks into its first child, so the hypothesis is needed two levels down.
      have hpath := D.child hfits List.mem_cons_self
      have hsteps := D.satisfies_ofNode hpath (below _ List.mem_cons_self).2
      split
      next =>
        refine D.evalConstPath_bind _ hsteps fun owner name hname => ?_
        refine D.bind (D.evalSuperclass (ih superclass (by simp))) fun parent => ?_
        refine D.bind (D.openClass _ _ (D.sym hpath hname) _) fun id => ?_
        exact D.bind D.getWorld fun world => hbody _ _ _ (D.fits_node? hfits (by simp))
      next => exact D.raise _ _
    next => exact D.raise _ _
  | .methodDef =>
    unfold Evaluation.evalNode
    dsimp only
    split
    next =>
      split
      next =>
        refine D.bind (D.paramNames _ _) fun found => ?_
        exact D.defineMethod (D.sym hfits (by simp)) _ (D.fits_node? hfits (by simp))
      next => exact D.raise _ _
    next => exact D.raise _ _
  | .send =>
    unfold Evaluation.evalNode
    dsimp only
    split
    next receiver name args =>
      split
      next =>
        refine D.bind (D.evalReceiver (ih receiver (by simp))) fun target => ?_
        refine D.bind (D.evalArgs _ fun arg harg => ih arg (by simp [harg])) fun values => ?_
        exact hsend _ _ _ _
      next => exact D.raise _ _
    next => exact D.raise _ _
  | .const =>
    rw [Evaluation.evalNode]
    refine D.evalConstPath_bind _ ih fun owner name _ => D.bind D.getWorld fun world => ?_
    dsimp only
    split
    next => exact D.leave _
    next => exact D.raise _ _
  | .int | .float | .sym | .trueRef | .falseRef | .singletonDef | .constAssign | .param | .params
  | .other _ => exact D.raise _ _

end Eval.Discipline

end Garnet
