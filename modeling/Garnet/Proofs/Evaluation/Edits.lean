import Garnet.Proofs.Evaluation.Discipline
import Garnet.Proofs.Object.Edits

/-! # An evaluation edits the world

Whatever an evaluation does to the world of objects, it does by edits, whether it ends in a value or
in a fault, and whatever the tree and the world look like. A class that is there already is opened
without any edit. Laws about worlds before and after an evaluation therefore follow from what single
edits do. The sink is written to and never exchanged, so it keeps its reasons to refuse writes.
-/

namespace Garnet

open Evaluation

/-- The world comes from the one before by edits, and the sink refuses what it refused. -/
structure Evaluation.State.Edits (before after : State) : Prop where
  world : before.world.Edits after.world
  refusal : after.sink.refusal = before.sink.refusal

namespace Evaluation.State.Edits

variable {first second third : State}

theorem refl (state : State) : state.Edits state :=
  ⟨.refl, rfl⟩

theorem trans (h : first.Edits second) (h' : second.Edits third) : first.Edits third where
  world := h.world.trans h'.world
  refusal := h'.refusal.trans h.refusal

end Evaluation.State.Edits

/-- Whether it fails or not, a step leaves a state that comes from the one before by edits. -/
def Eval.Edits {α : Type} (step : Eval α) : Prop :=
  ∀ context state, step.Ends context state (fun _ left => state.Edits left)
    (fun _ left => state.Edits left)

namespace Eval.Edits

variable {α β : Type}

/-- A step that leaves the world and the sink alone. -/
theorem still {step : Eval α}
    (h : ∀ context state, (step context state).2.world = state.world ∧
      (step context state).2.sink = state.sink) : step.Edits := by
  intro context state
  obtain ⟨hworld, hsink⟩ := h context state
  exact Ends.left_iff.mpr ⟨by rw [hworld]; exact .refl, by rw [hsink]⟩

theorem pure (value : α) : Eval.Edits (Pure.pure value) :=
  still fun _ _ => ⟨rfl, rfl⟩

theorem raise (fault : Fault) (site : Option Node) :
    (Evaluation.raise fault site : Eval α).Edits :=
  still fun _ _ => ⟨rfl, rfl⟩

/-- The edits of the second step come after those of the first. -/
theorem bind {step : Eval α} {next : α → Eval β} (hstep : step.Edits)
    (hnext : ∀ value, (next value).Edits) : (step >>= next).Edits := by
  intro context state
  refine (hstep context state).bind fun value left hleft => ?_
  refine (hnext value context left).mono ?_ ?_
  · intro result after hafter
    exact hleft.trans hafter
  · intro error after hafter
    exact hleft.trans hafter

theorem grow {change : World → α × World} (h : ∀ world : World, world.Edit (change world).2) :
    (Eval.grow change).Edits := by
  intro context state
  have hedits : state.world.Edits (change state.world).2 := .single (h state.world)
  exact ⟨hedits, rfl⟩

theorem write (text : String) : (Eval.write text).Edits := by
  intro context state
  exact Ends.left_iff.mpr ⟨.refl, Sink.refusal_write _ _⟩

theorem annotating {step : Eval α} (h : step.Edits) (note : Option String) :
    (Evaluation.annotating note step).Edits :=
  fun context state => .annotating (h context state) fun _ _ => id

theorem within {step : Eval Ref} (h : step.Edits) (frame : Frame) :
    (Evaluation.within frame step).Edits := by
  intro context state
  refine .within ((h _ _).mono ?_ ?_)
  · exact fun value left hleft => ⟨hleft.world, hleft.refusal⟩
  · exact fun error left hleft => ⟨hleft.world, hleft.refusal⟩

/-- A constant that is bound is only looked at; one that is not bound gets a new class. -/
theorem openClass (node : Node) (owner : ClassId) (name : String) (superclass : Option ClassId) :
    (Evaluation.openClass node owner name superclass).Edits := by
  intro context state
  apply Ends.getWorld
  dsimp only
  split
  next existing _ =>
    split
    next => exact .raise (.refl state)
    next id _ =>
      split
      next => exact .raise_bind (.refl state)
      next => exact .note (.pure ⟨.refl, rfl⟩)
  next hfresh =>
    have hdefined : state.world.Edits
        (state.world.defineClass owner name (superclass.getD .objectClass)) :=
      .single (.defineClass hfresh _)
    exact .grow (.getWorld (.setWorld (.note (.pure ⟨hdefined, rfl⟩))))

theorem defineMethod (name : String) (params : List String) (body : Option Node) :
    (Evaluation.defineMethod name params body).Edits := by
  intro context state
  have hdefined : state.world.Edits (state.world.setMethod
      (definitionTarget state.world state.frame.self) name (.interpreted params body)) :=
    .single (.setMethod _ name params body)
  exact .getWorld (.getFrame (.setWorld (.note (.leave ⟨hdefined, rfl⟩))))

/-- The value of an assignment is stored in the current receiver. -/
theorem storeIvar (name : String) (value : Ref) :
    (do
      let self := (← Eval.getFrame).self
      Eval.setWorld ((← Eval.getWorld).setIvar self name value)
      Eval.leave value : Eval Ref).Edits := by
  intro context state
  have hset : state.world.Edits (state.world.setIvar state.frame.self name value) :=
    .single (.setIvar _ name value)
  exact .getFrame (.getWorld (.setWorld (.leave ⟨hset, rfl⟩)))

end Eval.Edits

/-- Whatever a node does by itself to the world, it does by an edit. -/
def Eval.editing : Discipline where
  Fits _ := True
  Names _ := True
  child _ _ := trivial
  sym _ _ := trivial
  Holds := Edits
  pure := .pure
  bind := .bind
  raise := .raise
  leave _ := .still fun _ _ => ⟨rfl, rfl⟩
  getWorld := .still fun _ _ => ⟨rfl, rfl⟩
  getFrame := .still fun _ _ => ⟨rfl, rfl⟩
  assign _ _ := .still fun _ _ => ⟨rfl, rfl⟩
  newString text := .grow fun _ => .newString text
  storeIvar := .storeIvar
  openClass node owner name _ := .openClass node owner name
  defineMethod {name} _ params body _ := .defineMethod name params body

namespace Evaluation

open Eval

variable {enter : Enter}

/-- What runs in other frames edits the world. -/
def Enter.Edits (enter : Enter) : Prop :=
  ∀ frame site task, (enter frame site task).Edits

theorem send_edits (henter : enter.Edits) (site : Option Node) (receiver : Ref) (name : String)
    (args : List Ref) : (send enter site receiver name args).Edits := by
  refine .bind editing.getWorld fun world => ?_
  split
  next => exact .raise _ _
  next =>
    refine .bind (.still fun _ _ => ⟨rfl, rfl⟩) fun _ => ?_
    split
    next => exact henter _ _ _
    next => exact henter _ _ _

theorem runNative_edits (henter : enter.Edits) (site : Option Node) (args : List Ref)
    (native : Native) : (runNative enter site args native).Edits :=
  editing.runNative .write (fun id => .grow fun _ => .newObject id)
    (fun note _ h => .annotating h note) (send_edits henter) site args native

theorem evalNode_edits (henter : enter.Edits) (node : Node) : (evalNode enter node).Edits :=
  editing.evalNode (fun frame site body _ => henter frame site (.body body)) (send_edits henter)
    trivial

theorem runTask_edits (henter : enter.Edits) (site : Option Node) (task : Task) :
    (runTask enter site task).Edits := by
  match task with
  | .body none => exact editing.leave .nil
  | .body (some code) => exact evalNode_edits henter code
  | .native native args =>
    exact .bind (runNative_edits henter site args native) fun value => editing.leave value

/-- However many frames can be entered one in the other. -/
theorem perform_edits (room : Nat) : (perform room).Edits := by
  induction room with
  | zero => exact fun _ _ _ => .bind (.still fun _ _ => ⟨rfl, rfl⟩) fun _ => .raise _ _
  | succ room ih => exact fun frame site task => .within (runTask_edits ih site task) frame

theorem evalTree_edits (room : Nat) (tree : Option Node) : (evalTree room tree).Edits := by
  match tree with
  | none => exact editing.leave .nil
  | some node => exact evalNode_edits (perform_edits room) node

end Evaluation

end Garnet
