import Garnet.Proofs.Evaluation.Congruence
import Garnet.Proofs.Interpreter.Basic

/-! # What an evaluation cannot see

A frame keeps the value of what was evaluated in it last. No evaluation reads a value that was left
there before it began: each of them leaves its own value, or fails. Of the frames below the current
one an evaluation sees what a trace shows, which are neither receivers nor local variables.
-/

namespace Garnet

namespace Evaluation

/-- A state without the result of its frame. -/
def State.unset (state : State) : State :=
  { state with frame := state.frame.unset }

theorem State.unset_eq_iff {state state' : State} :
    state.unset = state'.unset ↔ state.world = state'.world ∧
      state.frame.unset = state'.frame.unset ∧ state.sink = state'.sink ∧
        state.log = state'.log := by
  simp [unset]

end Evaluation

open Evaluation

/-! ### Steps that do not read the result -/

namespace Eval

variable {α β : Type}

/-- Two steps with one outcome in any two states that differ in the result of the frame. -/
def Blind (step step' : Eval α) : Prop :=
  ∀ context state state', state.unset = state'.unset →
    (step context state).1 = (step' context state').1 ∧
      (step context state).2.unset = (step' context state').2.unset

namespace Blind

theorem bind {step step' : Eval α} {next next' : α → Eval β} (hstep : Blind step step')
    (hnext : ∀ value, Blind (next value) (next' value)) :
    Blind (step >>= next) (step' >>= next') := by
  intro context state state' hstate
  have hsame := hstep context state state' hstate
  rw [bind_apply, bind_apply]
  generalize step context state = first at hsame ⊢
  generalize step' context state' = second at hsame ⊢
  obtain ⟨outcome, left⟩ := first
  obtain ⟨outcome', left'⟩ := second
  obtain ⟨rfl, hleft⟩ : outcome = outcome' ∧ left.unset = left'.unset := hsame
  cases outcome with
  | ok value => exact hnext value context left left' hleft
  | error error => exact ⟨rfl, hleft⟩

/-- A trace shows the label and the place of a frame, but not its result. -/
theorem raise (fault : Fault) (site : Option Node) :
    Blind (Evaluation.raise fault site : Eval α) (Evaluation.raise fault site) := by
  intro context state state' hstate
  obtain ⟨-, hframe, -, -⟩ := State.unset_eq_iff.1 hstate
  obtain ⟨hlabel, -, -, hpos⟩ := Frame.unset_eq_iff.1 hframe
  refine ⟨?_, hstate⟩
  simp only [Evaluation.raise, errorAt, hlabel, hpos]

theorem write (text : String) : Blind (Eval.write text) (Eval.write text) := by
  intro context state state' hstate
  obtain ⟨hworld, hframe, hsink, hlog⟩ := State.unset_eq_iff.1 hstate
  unfold Eval.write
  rw [hsink]
  exact ⟨rfl, State.unset_eq_iff.2 ⟨hworld, hframe, rfl, hlog⟩⟩

theorem writeLines (site : Option Node) (lines : List String) :
    Blind (Evaluation.writeLines site lines) (Evaluation.writeLines site lines) := by
  induction lines with
  | nil => exact fun _ _ _ hstate => ⟨rfl, hstate⟩
  | cons line rest ih =>
    apply bind (write _)
    intro refusal
    cases refusal with
    | some reason => exact raise _ _
    | none => exact ih

theorem assign (name : String) (value : Ref) :
    Blind (Eval.modifyFrame fun frame => { frame with locals := frame.locals.insert name value })
      (Eval.modifyFrame fun frame => { frame with locals := frame.locals.insert name value }) := by
  intro context state state' hstate
  obtain ⟨hworld, hframe, hsink, hlog⟩ := State.unset_eq_iff.1 hstate
  obtain ⟨hlabel, hself, hlocals, hpos⟩ := Frame.unset_eq_iff.1 hframe
  have hinsert : state.frame.locals.insert name value = state'.frame.locals.insert name value :=
    congrArg (·.insert name value) hlocals
  refine ⟨rfl, State.unset_eq_iff.2 ⟨hworld, ?_, hsink, hlog⟩⟩
  exact Frame.unset_eq_iff.2 ⟨hlabel, hself, hinsert, hpos⟩

theorem annotating {step step' : Eval α} (h : Blind step step') (note : Option String) :
    Blind (Evaluation.annotating note step) (Evaluation.annotating note step') := by
  intro context state state' hstate
  have hsame := h context state state' hstate
  unfold Evaluation.annotating
  generalize step context state = first at hsame ⊢
  generalize step' context state' = second at hsame ⊢
  obtain ⟨outcome, left⟩ := first
  obtain ⟨outcome', left'⟩ := second
  obtain ⟨rfl, hleft⟩ : outcome = outcome' ∧ left.unset = left'.unset := hsame
  cases outcome with
  | ok value => exact ⟨rfl, hleft⟩
  | error error => exact ⟨rfl, hleft⟩

theorem within {step step' : Eval Ref} (h : Blind step step') (frame : Frame) :
    Blind (Evaluation.within frame step) (Evaluation.within frame step') := by
  intro context state state' hstate
  obtain ⟨hworld, hframe, hsink, hlog⟩ := State.unset_eq_iff.1 hstate
  obtain ⟨hlabel, hself, hlocals, hpos⟩ := Frame.unset_eq_iff.1 hframe
  have hcontext : context.entering state.frame = context.entering state'.frame := by
    simp only [Context.entering, hlabel, hpos]
  have hentered : state.entering frame (context.depth + 1) =
      state'.entering frame (context.depth + 1) := by
    simp only [State.entering, hworld, hsink, hlog]
  have hsame := h (context.entering state'.frame) (state'.entering frame (context.depth + 1)) _ rfl
  rw [within_apply, within_apply, hcontext, hentered]
  generalize step (context.entering state'.frame) _ = first at hsame ⊢
  generalize step' (context.entering state'.frame) _ = second at hsame ⊢
  obtain ⟨outcome, left⟩ := first
  obtain ⟨outcome', left'⟩ := second
  obtain ⟨rfl, hleft⟩ : outcome = outcome' ∧ left.unset = left'.unset := hsame
  obtain ⟨hworld, -, hsink, hlog⟩ := State.unset_eq_iff.1 hleft
  -- The frame that is left is forgotten, and the frames below differ in their results at most.
  have hbelow : ∀ below below' : Frame, below.unset = below'.unset →
      (left.leaving below frame.label context.depth).unset =
        (left'.leaving below' frame.label context.depth).unset := by
    intro below below' hbelow
    refine State.unset_eq_iff.2 ⟨hworld, hbelow, hsink, ?_⟩
    exact congrArg (·.push (.pop frame.label context.depth)) hlog
  cases outcome with
  | ok value =>
    exact ⟨rfl, hbelow _ _ (Frame.unset_eq_iff.2 ⟨hlabel, hself, hlocals, hpos⟩)⟩
  | error error => exact ⟨rfl, hbelow _ _ hframe⟩

end Blind

/-- No rule of the evaluator reads the result of the frame. -/
def blindness : Congruence where
  Rel := Blind
  pure _ := fun _ _ _ hstate => ⟨rfl, hstate⟩
  bind := Blind.bind
  raise := Blind.raise
  leave value := by
    intro context state state' hstate
    obtain ⟨hworld, hframe, hsink, hlog⟩ := State.unset_eq_iff.1 hstate
    exact ⟨rfl, State.unset_eq_iff.2 ⟨hworld, hframe, hsink, hlog⟩⟩
  getWorld := fun _ _ _ hstate => ⟨congrArg Except.ok (State.unset_eq_iff.1 hstate).1, hstate⟩
  getFrame hnext := fun context state state' hstate =>
    hnext state.frame state'.frame (State.unset_eq_iff.1 hstate).2.1 context state state' hstate
  setWorld world := by
    intro context state state' hstate
    obtain ⟨-, hframe, hsink, hlog⟩ := State.unset_eq_iff.1 hstate
    exact ⟨rfl, State.unset_eq_iff.2 ⟨rfl, hframe, hsink, hlog⟩⟩
  grow change := by
    intro context state state' hstate
    obtain ⟨hworld, hframe, hsink, hlog⟩ := State.unset_eq_iff.1 hstate
    unfold Eval.grow
    rw [hworld]
    exact ⟨rfl, State.unset_eq_iff.2 ⟨rfl, hframe, hsink, hlog⟩⟩
  assign := Blind.assign
  note {event} _ := by
    intro context state state' hstate
    obtain ⟨hworld, hframe, hsink, hlog⟩ := State.unset_eq_iff.1 hstate
    exact ⟨rfl, State.unset_eq_iff.2 ⟨hworld, hframe, hsink, congrArg (·.push event) hlog⟩⟩
  writeLines := Blind.writeLines
  annotating note h := h.annotating note

end Eval

namespace Evaluation

open Eval

theorem perform_blind (room : Nat) (frame : Frame) (site : Option Node) (task : Task) :
    Blind (perform room frame site task) (perform room frame site task) := by
  induction room generalizing frame site task with
  | zero =>
    intro context state state' hstate
    exact Blind.raise (.stackTooDeep context.limit) site context state state' hstate
  | succ room ih => exact (blindness.runTask ih site task).within frame

theorem evalTree_blind (room : Nat) (tree : Option Node) :
    Blind (evalTree room tree) (evalTree room tree) := by
  match tree with
  | none => exact blindness.leave .nil
  | some node => exact blindness.evalNode (perform_blind room) node

end Evaluation

/-! ### Steps that leave their value -/

namespace Eval

variable {α : Type}

/-- If a step has a value, the value is the result of the frame afterwards. -/
def Leaves (step : Eval Ref) : Prop :=
  ∀ context state, step.Ends context state (fun value left => left.frame.result = some value)
    fun _ _ => True

namespace Leaves

theorem leave (value : Ref) : (Eval.leave value).Leaves :=
  fun _ _ => .leave rfl

theorem raise (fault : Fault) (site : Option Node) : (Evaluation.raise fault site).Leaves :=
  fun _ _ => .raise trivial

/-- What a step leaves is what its last part leaves. -/
theorem bind {step : Eval α} {next : α → Eval Ref} (hnext : ∀ value, (next value).Leaves) :
    (step >>= next).Leaves := by
  intro context state
  have hstep : step.Ends context state (fun _ _ => True) fun _ _ => True := by
    unfold Ends
    split <;> trivial
  exact hstep.bind fun value left _ => hnext value context left

theorem within (frame : Frame) (step : Eval Ref) : (Evaluation.within frame step).Leaves := by
  intro context state
  apply Ends.within
  unfold Ends
  split
  next => rfl
  next => trivial

end Leaves

end Eval

namespace Evaluation

open Eval

variable {enter : Enter}

theorem defineMethod_leaves (name : String) (params : List String) (body : Option Node) :
    (defineMethod name params body).Leaves :=
  .bind fun _ => .bind fun _ => .bind fun _ => .bind fun _ => .leave _

/-- A node that has a value leaves it as the result of the frame. -/
def NodeLeaves (enter : Enter) (node : Node) : Prop :=
  (evalNode enter node).Leaves

theorem evalPart_leaves {child : Child} (ih : child.Satisfies (NodeLeaves enter)) (owner : Node) :
    (evalPart enter owner child).Leaves := by
  cases child with
  | node inner =>
    rw [evalPart]
    exact ih
  | absent => exact .leave .nil
  | _ => exact .raise _ _

theorem evalSequence_leaves {children : List Child}
    (ih : ∀ child ∈ children, child.Satisfies (NodeLeaves enter)) (owner : Node) :
    (evalSequence enter owner children).Leaves := by
  induction children with
  | nil => exact .leave .nil
  | cons first rest rec =>
    cases rest with
    | nil =>
      rw [evalSequence]
      exact evalPart_leaves (ih first List.mem_cons_self) owner
    | cons second more =>
      have hrest := rec fun child hchild => ih child (List.mem_cons_of_mem _ hchild)
      exact .bind fun _ => hrest

section Parts

variable (henter : ∀ frame site task, (enter frame site task).Leaves)

include henter

theorem send_leaves (site : Option Node) (receiver : Ref) (name : String) (args : List Ref) :
    (send enter site receiver name args).Leaves := by
  apply Leaves.bind
  intro world
  split
  next => exact .raise _ _
  next =>
    apply Leaves.bind
    intro _
    split
    next => exact henter _ _ _
    next => exact henter _ _ _

/-- Whatever its kind, a node that has a value leaves it as the result of the frame. -/
theorem evalNode_leaves (node : Node) : NodeLeaves enter node := by
  refine (Node.induction (fun kind children pos below => ?_) node).1
  have ih : ∀ child ∈ children, child.Satisfies (NodeLeaves enter) :=
    fun child hchild => (below child hchild).mono fun _ => And.left
  unfold NodeLeaves
  match kind with
  | .begin =>
    rw [evalNode]
    exact evalSequence_leaves ih _
  | .str =>
    unfold evalNode
    dsimp only
    split
    next => exact .bind fun made => .leave _
    next => exact .raise _ _
  | .localAssign =>
    unfold evalNode
    dsimp only
    split
    next => exact .bind fun value => .bind fun _ => .leave _
    next => exact .raise _ _
  | .ivarAssign =>
    unfold evalNode
    dsimp only
    split
    next => exact .bind fun value => .bind fun frame => .bind fun world => .bind fun _ => .leave _
    next => exact .raise _ _
  | .ivarRef =>
    unfold evalNode
    dsimp only
    split
    next => exact .bind fun frame => .bind fun world => .leave _
    next => exact .raise _ _
  | .localRef =>
    unfold evalNode
    dsimp only
    split
    next =>
      apply Leaves.bind
      intro frame
      split
      next => exact .leave _
      next => exact .raise _ _
    next => exact .raise _ _
  | .selfRef => exact .bind fun frame => .leave _
  | .nilRef => exact .leave _
  | .classDef =>
    unfold evalNode
    dsimp only
    split
    next =>
      split
      next =>
        exact .bind fun path => .bind fun parent => .bind fun id => .bind fun world => henter _ _ _
      next => exact .raise _ _
    next => exact .raise _ _
  | .methodDef =>
    unfold evalNode
    dsimp only
    split
    next =>
      split
      next => exact .bind fun found => defineMethod_leaves _ _ _
      next => exact .raise _ _
    next => exact .raise _ _
  | .send =>
    unfold evalNode
    dsimp only
    split
    next =>
      split
      next => exact .bind fun target => .bind fun values => send_leaves henter _ _ _ _
      next => exact .raise _ _
    next => exact .raise _ _
  | .const =>
    rw [evalNode]
    apply Leaves.bind
    rintro ⟨owner, name⟩
    apply Leaves.bind
    intro world
    dsimp only
    split
    next => exact .leave _
    next => exact .raise _ _
  | .int | .float | .sym | .trueRef | .falseRef | .singletonDef | .constAssign | .param | .params
  | .other _ => exact .raise _ _

theorem runTask_leaves (site : Option Node) (task : Task) :
    (runTask enter site task).Leaves := by
  match task with
  | .body none => exact .leave .nil
  | .body (some code) => exact evalNode_leaves henter code
  | .native native args => exact .bind fun value => .leave value

end Parts

theorem perform_leaves (room : Nat) (frame : Frame) (site : Option Node) (task : Task) :
    (perform room frame site task).Leaves := by
  cases room with
  | zero => exact .bind fun context => .raise _ _
  | succ room => exact .within frame _

theorem evalTree_leaves (room : Nat) (tree : Option Node) : (evalTree room tree).Leaves := by
  match tree with
  | none => exact .leave .nil
  | some node => exact evalNode_leaves (perform_leaves room) node

end Evaluation

/-! ### Interpreters -/

namespace Interpreter

/-- Two interpreters that differ in what an evaluation cannot see: the results of frames, and the
receivers and local variables of the frames below the current one. -/
structure Alike (first second : Interpreter) : Prop where
  world : first.world = second.world
  current : first.current.unset = second.current.unset
  outer : first.outer.map (fun frame => (frame.label, frame.pos)) =
    second.outer.map fun frame => (frame.label, frame.pos)
  sink : first.sink = second.sink
  log : first.log = second.log
  limit : first.limit = second.limit
  source : first.source = second.source

namespace Alike

variable {first second : Interpreter}

theorem callers (h : first.Alike second) : first.context.callers = second.context.callers := by
  have hentries := congrArg (List.map fun entry => Trace.Entry.mk entry.1 entry.2) h.outer
  rw [List.map_map, List.map_map] at hentries
  exact hentries

theorem depth (h : first.Alike second) : first.depth = second.depth := by
  have hlength := congrArg List.length h.callers
  rwa [← Nat.add_right_cancel_iff, ← first.context.depth_eq, ← second.context.depth_eq] at hlength

theorem context (h : first.Alike second) : first.context = second.context := by
  have hcallers := h.callers
  have hdepth := h.depth
  unfold Interpreter.context at hcallers ⊢
  simp only at hcallers
  simp only [hcallers, hdepth, h.limit, h.source]

theorem room (h : first.Alike second) : first.room = second.room := by
  rw [Interpreter.room, Interpreter.room, h.depth, h.limit]

theorem state (h : first.Alike second) : first.state.unset = second.state.unset :=
  State.unset_eq_iff.2 ⟨h.world, h.current, h.sink, h.log⟩

theorem resume (h : first.Alike second) {left left' : State} (hleft : left.unset = left'.unset) :
    (first.resume left).Alike (second.resume left') := by
  obtain ⟨hworld, hframe, hsink, hlog⟩ := State.unset_eq_iff.1 hleft
  exact ⟨hworld, hframe, h.outer, hsink, hlog, h.limit, h.source⟩

end Alike

/-- A value that is left is the result of the current frame afterwards. -/
theorem result_of_exec {interp left : Interpreter} {step : Eval Ref} {value : Ref}
    (hstep : step.Leaves) (h : interp.exec step = (.ok value, left)) :
    left.current.result = some value := by
  have hleaves := hstep interp.context interp.state
  rw [exec_eq] at h
  unfold Eval.Ends at hleaves
  split at hleaves
  next found after hrun =>
    rw [hrun] at h
    cases h
    exact hleaves
  next error after hrun =>
    rw [hrun] at h
    cases h

/-- The value of a tree is the result of the current frame afterwards. -/
theorem result_of_interpret {interp : Interpreter} {tree : Option Node} {value : Ref}
    (h : (interp.interpret tree).1 = .ok value) :
    (interp.interpret tree).2.current.result = some value :=
  result_of_exec (Evaluation.evalTree_leaves interp.room tree) (Prod.ext h rfl)

/-- Interpreters that differ in what an evaluation cannot see have the same value or the same fault
for every tree, and differ in nothing else afterwards; if there is a value, it is the result of both
current frames. Hence a method that runs in a frame of its own never sees a variable of its caller,
and no tree has a value that was left behind by something else. -/
theorem interpret_alike {first second : Interpreter} (h : first.Alike second)
    (tree : Option Node) :
    (first.interpret tree).1 = (second.interpret tree).1 ∧
      (first.interpret tree).2.Alike (second.interpret tree).2 ∧
      ∀ value, (first.interpret tree).1 = .ok value →
        (first.interpret tree).2.current.result = some value ∧
          (second.interpret tree).2.current.result = some value := by
  have hsame := Evaluation.evalTree_blind first.room tree first.context _ _ h.state
  have houtcome : (first.interpret tree).1 = (second.interpret tree).1 := by
    rw [interpret, interpret, exec_eq, exec_eq, ← h.room, ← h.context]
    exact hsame.1
  refine ⟨houtcome, ?_, fun value hvalue => ⟨result_of_interpret hvalue, ?_⟩⟩
  · rw [interpret, interpret, exec_eq, exec_eq, ← h.room, ← h.context]
    exact h.resume hsame.2
  · rw [houtcome] at hvalue
    exact result_of_interpret hvalue

/-- Two callers with other receivers, variables and results: an assignment in the frame above them
has the same value, which is then the result of both frames. -/
theorem interpret_alike_above_callers :
    let caller : Frame := { label := "<main>", self := .main, locals := .ofList [("x", .nil)] }
    let stranger : Frame := { label := "<main>", self := .nil, result := none }
    let first := Interpreter.push { new 0 default with current := caller } .toplevel
    let second := Interpreter.push { new 0 default with current := stranger }
      { Frame.toplevel with result := none }
    let tree : Node := .mk .localAssign [.sym "y", .node (.mk .selfRef [] .unknown)] .unknown
    first.Alike second ∧ (first.interpret tree).1 = .ok .main ∧
      (second.interpret tree).1 = .ok .main ∧
      (second.interpret tree).2.current.result = some .main := by
  intro caller stranger first second tree
  have halike : first.Alike second := ⟨rfl, rfl, rfl, rfl, rfl, rfl, rfl⟩
  have hvalue : (first.interpret tree).1 = .ok .main := rfl
  obtain ⟨hsame, -, hresult⟩ := interpret_alike halike tree
  exact ⟨halike, hvalue, hsame ▸ hvalue, (hresult _ hvalue).2⟩

end Interpreter

end Garnet
