import Garnet.Proofs.Evaluation.Discipline
import Garnet.Proofs.Interpreter.Basic
import Garnet.Proofs.Object.World
import Garnet.Proofs.Parse.Names

/-! # Names in an interpreter

Methods, constants and local variables get their names from the texts that run. So whatever texts
have run, these names are made of the characters of names and operators.
-/

namespace Garnet

open Token

/-! ### Worlds -/

namespace World

variable {world : World}

/-- The names in the tables of all classes and in the bodies of all methods are made of the
characters of names and operators. -/
structure WellSpelled (world : World) : Prop where
  constants (id : ClassId) : ∀ name ∈ (world.classRecord id).constants.names, Wordlike name
  methods (id : ClassId) : ∀ name ∈ (world.classRecord id).methods.names, Wordlike name
  bodies : world.AllBodies fun _ body => ∀ node ∈ body, node.WellSpelled

theorem wordlike_insert {α : Type} {table : Table α} (h : ∀ name ∈ table.names, Wordlike name)
    {name : String} (hname : Wordlike name) (value : α) :
    ∀ other ∈ (table.insert name value).names, Wordlike other := by
  intro other hother
  rw [Table.mem_names_iff, Table.contains_insert, ← Table.mem_names_iff] at hother
  rcases hother with rfl | hold
  · exact hname
  · exact h other hold

theorem wellSpelled_initial : initial.WellSpelled where
  constants id := by
    obtain ⟨index⟩ := id
    match index with
    | 0 | 1 | 2 | 3 => decide +kernel
    | _ + 4 => exact fun name hname => absurd hname List.not_mem_nil
  methods id := by
    obtain ⟨index⟩ := id
    match index with
    | 0 | 1 | 2 | 3 => decide +kernel
    | _ + 4 => exact fun name hname => absurd hname List.not_mem_nil
  bodies := allBodies_initial _

namespace WellSpelled

theorem newString (h : world.WellSpelled) (text : String) : (world.newString text).2.WellSpelled :=
  ⟨h.constants, h.methods, h.bodies⟩

theorem newObject (h : world.WellSpelled) (id : ClassId) : (world.newObject id).2.WellSpelled :=
  ⟨h.constants, h.methods, h.bodies⟩

theorem setIvar (h : world.WellSpelled) (ref : Ref) (name : String) (value : Ref) :
    (world.setIvar ref name value).WellSpelled :=
  ⟨h.constants, h.methods, h.bodies⟩

theorem newClass (h : world.WellSpelled) (name : String) (superclass : ClassId) :
    (world.newClass name superclass).2.WellSpelled := by
  refine ⟨fun id => ?_, fun id => ?_, AllBodies.newClass h.bodies name superclass⟩
  · rw [classRecord_newClass]
    split
    next => exact fun name hname => absurd hname List.not_mem_nil
    next => exact h.constants id
  · rw [classRecord_newClass]
    split
    next => exact fun name hname => absurd hname List.not_mem_nil
    next => exact h.methods id

theorem setConstant (h : world.WellSpelled) (id : ClassId) {name : String} (hname : Wordlike name)
    (value : Ref) : (world.setConstant id name value).WellSpelled := by
  refine ⟨fun other => ?_, fun other => ?_, AllBodies.setConstant h.bodies id name value⟩
  · rw [World.setConstant, classRecord_modifyClass]
    split
    next => exact wordlike_insert (h.constants other) hname value
    next => exact h.constants other
  · rw [World.setConstant, classRecord_modifyClass]
    split
    next => exact h.methods other
    next => exact h.methods other

theorem setMethod (h : world.WellSpelled) (id : ClassId) {name : String} (hname : Wordlike name)
    (params : List String) {body : Option Node} (hbody : ∀ node ∈ body, node.WellSpelled) :
    (world.setMethod id name (.interpreted params body)).WellSpelled := by
  refine ⟨fun other => ?_, fun other => ?_, AllBodies.setMethod h.bodies hbody⟩
  · rw [World.setMethod, classRecord_modifyClass]
    split
    next => exact h.constants other
    next => exact h.constants other
  · rw [World.setMethod, classRecord_modifyClass]
    split
    next => exact wordlike_insert (h.methods other) hname _
    next => exact h.methods other

end WellSpelled

end World

/-! ### Steps -/

/-- After a step the names in the world are well spelled, and so are those of the local variables
that the step has added to the current frame. -/
structure Evaluation.State.Spells (before after : State) : Prop where
  world : after.world.WellSpelled
  locals (name : String) : after.frame.locals.contains name = true →
    before.frame.locals.contains name = true ∨ Wordlike name

/-- Whether it fails or not, a step gives no other than well-spelled names. -/
def Eval.Spells {α : Type} (step : Eval α) : Prop :=
  ∀ context state, state.world.WellSpelled →
    step.Ends context state (fun _ => state.Spells) fun _ => state.Spells

open Evaluation

namespace Eval.Spells

variable {α β : Type}

theorem still {step : Eval α} (h : ∀ context state, (step context state).2.world = state.world ∧
    (step context state).2.frame.locals = state.frame.locals) : step.Spells := by
  intro context state hworld
  obtain ⟨hsame, hlocals⟩ := h context state
  refine Ends.left_iff.mpr ⟨hsame ▸ hworld, fun name hname => .inl ?_⟩
  exact hlocals ▸ hname

theorem pure (value : α) : Eval.Spells (Pure.pure value) :=
  still fun _ _ => ⟨rfl, rfl⟩

theorem raise (fault : Fault) (site : Option Node) :
    (Evaluation.raise fault site : Eval α).Spells :=
  still fun _ _ => ⟨rfl, rfl⟩

theorem bind {step : Eval α} {next : α → Eval β} (hstep : step.Spells)
    (hnext : ∀ value, (next value).Spells) : (step >>= next).Spells := by
  intro context state hworld
  have htrans {left after : State} (hleft : state.Spells left) (hafter : left.Spells after) :
      state.Spells after :=
    ⟨hafter.world, fun name hname => (hafter.locals name hname).elim (hleft.locals name) .inr⟩
  refine (hstep context state hworld).bind fun value left hleft => ?_
  refine (hnext value context left hleft.world).mono ?_ ?_
  · exact fun _ _ => htrans hleft
  · exact fun _ _ => htrans hleft

theorem getWorld {next : World → Eval β}
    (h : ∀ world : World, world.WellSpelled → (next world).Spells) :
    (Eval.getWorld >>= next).Spells :=
  fun context state hworld => h state.world hworld context state hworld

theorem grow {change : World → α × World}
    (h : ∀ world : World, world.WellSpelled → (change world).2.WellSpelled) :
    (Eval.grow change).Spells :=
  fun _ state hworld => ⟨h state.world hworld, fun _ => .inl⟩

theorem assign {name : String} (hname : Wordlike name) (value : Ref) :
    (Eval.modifyFrame fun frame =>
      { frame with locals := frame.locals.insert name value }).Spells := by
  intro context state hworld
  refine ⟨hworld, fun other hother => ?_⟩
  rcases (Table.contains_insert ..).1 hother with rfl | hold
  · exact .inr hname
  · exact .inl hold

theorem storeIvar (name : String) (value : Ref) :
    (do
      let self := (← Eval.getFrame).self
      Eval.setWorld ((← Eval.getWorld).setIvar self name value)
      Eval.leave value : Eval Ref).Spells := by
  intro context state hworld
  have hset := hworld.setIvar state.frame.self name value
  exact .getFrame (.getWorld (.setWorld (.leave ⟨hset, fun _ => .inl⟩)))

theorem openClass (node : Node) (owner : ClassId) {name : String} (hname : Wordlike name)
    (superclass : Option ClassId) : (Evaluation.openClass node owner name superclass).Spells := by
  intro context state hworld
  have hsame : state.Spells state := ⟨hworld, fun _ => .inl⟩
  apply Ends.getWorld
  dsimp only
  split
  next existing _ =>
    split
    next => exact .raise hsame
    next id _ =>
      split
      next => exact .raise_bind hsame
      next => exact .note (.pure ⟨hworld, fun _ => .inl⟩)
  next =>
    have hmade := hworld.newClass (state.world.qualify owner name)
      (superclass.getD .objectClass)
    exact .grow (.getWorld (.setWorld (.note (.pure
      ⟨hmade.setConstant owner hname _, fun _ => .inl⟩))))

theorem defineMethod {name : String} (hname : Wordlike name) (params : List String)
    {body : Option Node} (hbody : ∀ node ∈ body, node.WellSpelled) :
    (Evaluation.defineMethod name params body).Spells := by
  intro context state hworld
  have hdefined := hworld.setMethod (definitionTarget state.world state.frame.self) hname params
    hbody
  exact .getWorld (.getFrame (.setWorld (.note (.leave ⟨hdefined, fun _ => .inl⟩))))

/-- Only the world counts of what was done in another frame. -/
theorem within {step : Eval Ref} (h : step.Spells) (frame : Frame) :
    (Evaluation.within frame step).Spells := by
  intro context state hworld
  refine .within ((h _ (state.entering frame (context.depth + 1)) hworld).mono ?_ ?_)
  · exact fun _ _ hleft => ⟨hleft.world, fun _ => .inl⟩
  · exact fun _ _ hleft => ⟨hleft.world, fun _ => .inl⟩

end Eval.Spells

/-- A well-spelled tree names what it defines in the same way. -/
def Eval.spelling : Discipline where
  Fits := Node.WellSpelled
  Names := Wordlike
  child := .child
  sym := Node.WellSpelled.sym
  Holds := Spells
  pure := .pure
  bind := .bind
  raise := .raise
  leave _ := .still fun _ _ => ⟨rfl, rfl⟩
  getWorld := .still fun _ _ => ⟨rfl, rfl⟩
  getFrame := .still fun _ _ => ⟨rfl, rfl⟩
  assign := .assign
  newString text := .grow fun _ h => h.newString text
  storeIvar := .storeIvar
  openClass := .openClass
  defineMethod := .defineMethod

namespace Evaluation

open Eval

/-- If a task has a body, it is well spelled. -/
def Task.WellSpelled : Task → Prop
  | .body code => ∀ node ∈ code, node.WellSpelled
  | .native .. => True

/-- What runs in other frames gives no other than well-spelled names. -/
def Enter.Spells (enter : Enter) : Prop :=
  ∀ frame site task, task.WellSpelled → (enter frame site task).Spells

variable {enter : Enter}

theorem send_spells (henter : enter.Spells) (site : Option Node) (receiver : Ref) (name : String)
    (args : List Ref) : (send enter site receiver name args).Spells := by
  refine .getWorld fun world hworld => ?_
  split
  next => exact .raise _ _
  next method owner hfound =>
    have hown := World.ownMethod?_of_findMethod hfound
    refine .bind (.still fun _ _ => ⟨rfl, rfl⟩) fun _ => ?_
    split
    next => exact henter _ _ _ trivial
    next params body hcode => exact henter _ _ _ (hworld.bodies _ _ _ _ _ hown hcode)

theorem runNative_spells (henter : enter.Spells) (site : Option Node) (args : List Ref)
    (native : Native) : (runNative enter site args native).Spells := by
  refine spelling.runNative (fun _ => .still fun _ _ => ⟨rfl, rfl⟩)
    (fun id => .grow fun _ h => h.newObject id) (fun note step h context state hworld => ?_)
    (send_spells henter) site args native
  exact .annotating (h context state hworld) fun _ _ => id

theorem evalNode_spells (henter : enter.Spells) {node : Node} (hnode : node.WellSpelled) :
    (evalNode enter node).Spells :=
  spelling.evalNode (fun frame site body => henter frame site (.body body)) (send_spells henter)
    hnode

theorem runTask_spells (henter : enter.Spells) (site : Option Node) {task : Task}
    (htask : task.WellSpelled) : (runTask enter site task).Spells := by
  match task with
  | .body none => exact spelling.leave _
  | .body (some code) => exact evalNode_spells henter (htask code rfl)
  | .native native args =>
    exact .bind (runNative_spells henter site args native) fun _ => spelling.leave _

/-- By induction on the number of frames that can be entered one in the other. -/
theorem perform_spells (room : Nat) : (perform room).Spells := by
  induction room with
  | zero => exact fun _ _ _ _ => .still fun _ _ => ⟨rfl, rfl⟩
  | succ room ih => exact fun frame site task htask => .within (runTask_spells ih site htask) frame

theorem evalTree_spells (room : Nat) {tree : Option Node}
    (htree : ∀ node ∈ tree, node.WellSpelled) : (evalTree room tree).Spells := by
  match tree with
  | none => exact spelling.leave _
  | some node => exact evalNode_spells (perform_spells room) (htree node rfl)

end Evaluation

/-! ### Interpreters -/

namespace Interpreter

variable {interp : Interpreter}

/-- The names of all methods and constants, and those of the local variables of the current frame,
are made of the characters of names and operators. -/
structure WellSpelled (interp : Interpreter) : Prop where
  world : interp.world.WellSpelled
  locals : ∀ name ∈ interp.current.locals.names, Wordlike name

theorem wellSpelled_new (limit : Int) (sink : Sink) : (new limit sink).WellSpelled :=
  ⟨World.wellSpelled_initial, fun _ hname => absurd hname List.not_mem_nil⟩

theorem WellSpelled.drain (h : interp.WellSpelled) : interp.drain.WellSpelled :=
  ⟨h.world, h.locals⟩

/-- Whatever a text does, it gives well-spelled names, because its tree is well spelled. -/
theorem WellSpelled.run (h : interp.WellSpelled) (source : String) :
    (interp.run source).2.WellSpelled := by
  rcases hparse : parse source interp.current.locals.names with error | tree
  · rw [Interpreter.run, hparse]
    exact h
  · have hends := Evaluation.evalTree_spells interp.room (wellSpelled_of_parse hparse)
      (interp.reading source).context interp.state h.world
    rcases hrun : Evaluation.evalTree interp.room tree (interp.reading source).context
      interp.state with ⟨outcome, left⟩
    have hleft := Eval.Ends.left_iff.1 hends
    rw [hrun] at hleft
    rw [run_of_parse hparse hrun]
    refine ⟨hleft.world, fun name hname => ?_⟩
    rcases hleft.locals name (Table.mem_names_iff.1 hname) with hold | hnew
    · exact h.locals name (Table.mem_names_iff.2 hold)
    · exact hnew

end Interpreter

end Garnet
