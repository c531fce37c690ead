import Garnet.Proofs.Evaluation.Logic
import Garnet.Proofs.Object.Erasure

/-! # Steps that agree but for places

Places are kept in frames, in the bodies of methods and in reports of faults. Two steps agree if
they do the same in states that differ in places only: they yield the same value or fail for the
same reason, and the states they leave again differ in places only. The result of a frame is left
out as well, since no step reads it. As for statements about one step, there is a rule for each
primitive step.
-/

namespace Garnet

/-! ### Faults without places -/

/-- A fault without the places of its node. -/
def Fault.erase : Fault → Fault
  | .malformed node => .malformed node.erase
  | fault => fault

theorem Fault.erase_malformed (node : Node) :
    (Fault.malformed node).erase = (Fault.malformed node.erase).erase := by
  rw [erase, erase, Node.erase_erase]

theorem Fault.kind_erase (fault : Fault) : fault.erase.kind = fault.kind := by
  cases fault <;> rfl

theorem Fault.message_erase (fault : Fault) : fault.erase.message = fault.message := by
  cases fault with
  | malformed node =>
    have htext : node.erase.text = node.text := Node.text_mapPos _ node
    have hkind : node.erase.kind = node.kind := Node.kind_mapPos _ node
    unfold erase message
    dsimp only
    rw [htext, hkind]
  | _ => simp only [erase]

theorem Fault.name?_erase (fault : Fault) : fault.erase.name? = fault.name? := by
  cases fault <;> rfl

theorem Fault.className?_erase (fault : Fault) : fault.erase.className? = fault.className? := by
  cases fault <;> rfl

/-- A frame of a trace without its place. -/
def Trace.Entry.erase (entry : Trace.Entry) : Trace.Entry :=
  { entry with pos := .unknown }

/-- A report of a fault without its places. -/
def RuntimeError.erase (error : RuntimeError) : RuntimeError :=
  { error with
    fault := error.fault.erase
    pos := .unknown
    codeFrame := none
    trace := error.trace.map Trace.Entry.erase }

theorem RuntimeError.erase_annotate (error : RuntimeError) (note : Option String) :
    (error.annotate note).erase = error.erase.annotate note := by
  cases note <;> rfl

/-- A frame without its place and its result. -/
def Frame.erase (frame : Frame) : Frame :=
  { frame with result := none, pos := .unknown }

theorem Frame.erase_eq_iff {frame frame' : Frame} :
    frame.erase = frame'.erase ↔
      frame.label = frame'.label ∧ frame.self = frame'.self ∧ frame.locals = frame'.locals := by
  simp [erase]

namespace Evaluation

/-- A trace shows the same labels wherever the fault is. -/
theorem map_erase_traceFrom (pos : Pos) (callers : List Trace.Entry) :
    (traceFrom pos callers).map Trace.Entry.erase = callers.map Trace.Entry.erase := by
  induction callers generalizing pos with
  | nil => rfl
  | cons entry callers ih =>
    rw [traceFrom, List.map_cons, List.map_cons, ih]
    rfl

/-- A context without places and without the source text. -/
def Context.erase (context : Context) : Context :=
  { context with
    callers := context.callers.map Trace.Entry.erase
    depth_eq := by simp [context.depth_eq]
    source := "" }

/-- A state without places. -/
def State.erase (state : State) : State :=
  { state with world := state.world.erase, frame := state.frame.erase }

variable {context context' : Context} {state state' : State} {frame frame' : Frame}

theorem Context.erase_eq_iff :
    context.erase = context'.erase ↔
      context.callers.map Trace.Entry.erase = context'.callers.map Trace.Entry.erase ∧
        context.depth = context'.depth ∧ context.limit = context'.limit := by
  simp [erase]

theorem State.erase_eq_iff :
    state.erase = state'.erase ↔
      state.world.erase = state'.world.erase ∧ state.frame.erase = state'.frame.erase ∧
        state.sink = state'.sink ∧ state.log = state'.log := by
  simp [erase]

theorem erase_errorAt {fault fault' : Fault} {site site' : Option Node}
    (hcontext : context.erase = context'.erase) (hframe : frame.erase = frame'.erase)
    (hfault : fault.erase = fault'.erase) (hsite : site.map Node.kind = site'.map Node.kind) :
    (errorAt context frame fault site).erase = (errorAt context' frame' fault' site').erase := by
  obtain ⟨hcallers, -, -⟩ := Context.erase_eq_iff.1 hcontext
  obtain ⟨hlabel, -, -⟩ := Frame.erase_eq_iff.1 hframe
  simp only [RuntimeError.erase, errorAt, map_erase_traceFrom, List.map_cons]
  rw [hfault, hsite, hcallers, Trace.Entry.erase, Trace.Entry.erase, hlabel]

theorem Context.erase_entering (hcontext : context.erase = context'.erase)
    (hframe : frame.erase = frame'.erase) :
    (context.entering frame).erase = (context'.entering frame').erase := by
  obtain ⟨hcallers, hdepth, hlimit⟩ := Context.erase_eq_iff.1 hcontext
  obtain ⟨hlabel, -, -⟩ := Frame.erase_eq_iff.1 hframe
  refine Context.erase_eq_iff.2 ⟨?_, congrArg (· + 1) hdepth, hlimit⟩
  rw [entering, entering, List.map_cons, List.map_cons, hcallers, Trace.Entry.erase,
    Trace.Entry.erase, hlabel]

theorem State.erase_entering {depth : Nat} (hstate : state.erase = state'.erase)
    (hframe : frame.erase = frame'.erase) :
    (state.entering frame depth).erase = (state'.entering frame' depth).erase := by
  obtain ⟨hworld, -, hsink, hlog⟩ := State.erase_eq_iff.1 hstate
  obtain ⟨hlabel, -, -⟩ := Frame.erase_eq_iff.1 hframe
  refine State.erase_eq_iff.2 ⟨hworld, hframe, hsink, ?_⟩
  rw [entering, entering, hlog, hlabel]

theorem State.erase_leaving {label : String} {depth : Nat} (hstate : state.erase = state'.erase)
    (hframe : frame.erase = frame'.erase) :
    (state.leaving frame label depth).erase = (state'.leaving frame' label depth).erase := by
  obtain ⟨hworld, -, hsink, hlog⟩ := State.erase_eq_iff.1 hstate
  refine State.erase_eq_iff.2 ⟨hworld, hframe, hsink, ?_⟩
  rw [leaving, leaving, hlog]

end Evaluation

open Evaluation

/-! ### Agreement -/

namespace Eval

variable {α β : Type}

/-- Two outcomes that differ in places only. -/
inductive SameOutcome : Except RuntimeError α × State → Except RuntimeError α × State → Prop
  | value {value : α} {left left' : State} (hleft : left.erase = left'.erase) :
    SameOutcome (.ok value, left) (.ok value, left')
  | fault {error error' : RuntimeError} {left left' : State} (herror : error.erase = error'.erase)
    (hleft : left.erase = left'.erase) : SameOutcome (.error error, left) (.error error', left')

theorem SameOutcome.symm {first second : Except RuntimeError α × State}
    (h : SameOutcome first second) : SameOutcome second first := by
  cases h with
  | value hleft => exact .value hleft.symm
  | fault herror hleft => exact .fault herror.symm hleft.symm

theorem SameOutcome.trans {first second third : Except RuntimeError α × State}
    (h : SameOutcome first second) (h' : SameOutcome second third) : SameOutcome first third := by
  cases h with
  | value hleft =>
    cases h' with
    | value hleft' => exact .value (hleft.trans hleft')
  | fault herror hleft =>
    cases h' with
    | fault herror' hleft' => exact .fault (herror.trans herror') (hleft.trans hleft')

/-- Two steps that do the same but for places. -/
def Agree (first second : Eval α) : Prop :=
  ∀ context context' state state', context.erase = context'.erase → state.erase = state'.erase →
    SameOutcome (first context state) (second context' state')

namespace Agree

variable {first second third : Eval α} {next next' : β → Eval α}

theorem symm (h : Agree first second) : Agree second first :=
  fun context context' state state' hcontext hstate =>
    (h context' context state' state hcontext.symm hstate.symm).symm

theorem trans (h : Agree first second) (h' : Agree second third) : Agree first third :=
  fun context context' state state' hcontext hstate =>
    (h context context' state state' hcontext hstate).trans
      (h' context' context' state' state' rfl rfl)

theorem pure (value : α) : Agree (Pure.pure value) (Pure.pure value) :=
  fun _ _ _ _ _ hstate => .value hstate

theorem bind {step step' : Eval β} (hstep : Agree step step')
    (hnext : ∀ value, Agree (next value) (next' value)) :
    Agree (step >>= next) (step' >>= next') := by
  intro context context' state state' hcontext hstate
  have hsame := hstep context context' state state' hcontext hstate
  rw [bind_apply, bind_apply]
  generalize step context state = outcome at hsame ⊢
  generalize step' context' state' = outcome' at hsame ⊢
  cases hsame with
  | value hleft => exact hnext _ _ _ _ _ hcontext hleft
  | fault herror hleft => exact .fault herror hleft

theorem raise {fault fault' : Fault} {site site' : Option Node}
    (hfault : fault.erase = fault'.erase) (hsite : site.map Node.kind = site'.map Node.kind) :
    Agree (Evaluation.raise fault site : Eval α) (Evaluation.raise fault' site') := by
  intro context context' state state' hcontext hstate
  obtain ⟨-, hframe, -, -⟩ := State.erase_eq_iff.1 hstate
  exact .fault (erase_errorAt hcontext hframe hfault hsite) hstate

/-- A step behind a check that may fail. -/
theorem guard {check : Prop} [Decidable check] {fault fault' : Fault} {site site' : Option Node}
    (hfault : fault.erase = fault'.erase) (hsite : site.map Node.kind = site'.map Node.kind)
    (h : Agree first second) :
    Agree (if check then Evaluation.raise fault site >>= fun _ : PUnit => first else first)
      (if check then Evaluation.raise fault' site' >>= fun _ : PUnit => second else second) := by
  split
  next => exact .bind (.raise hfault hsite) fun _ => h
  next => exact h

theorem leave (value : Ref) : Agree (Eval.leave value) (Eval.leave value) :=
  fun _ _ _ _ _ hstate => .value hstate

theorem note (event : Event) : Agree (Eval.note event) (Eval.note event) := by
  intro context context' state state' _ hstate
  obtain ⟨hworld, hframe, hsink, hlog⟩ := State.erase_eq_iff.1 hstate
  exact .value (State.erase_eq_iff.2 ⟨hworld, hframe, hsink, congrArg (·.push event) hlog⟩)

theorem write (text : String) : Agree (Eval.write text) (Eval.write text) := by
  intro context context' state state' _ hstate
  obtain ⟨hworld, hframe, hsink, hlog⟩ := State.erase_eq_iff.1 hstate
  unfold Eval.write
  rw [hsink]
  exact .value (State.erase_eq_iff.2 ⟨hworld, hframe, rfl, hlog⟩)

/-- Two worlds that differ in places only are read. -/
theorem getWorld {next next' : World → Eval α}
    (h : ∀ world world', world.erase = world'.erase → Agree (next world) (next' world')) :
    Agree (Eval.getWorld >>= next) (Eval.getWorld >>= next') :=
  fun context context' state state' hcontext hstate =>
    h state.world state'.world (congrArg State.world hstate) context context' state state' hcontext
      hstate

theorem getFrame {next next' : Frame → Eval α}
    (h : ∀ frame frame', frame.erase = frame'.erase → Agree (next frame) (next' frame')) :
    Agree (Eval.getFrame >>= next) (Eval.getFrame >>= next') :=
  fun context context' state state' hcontext hstate =>
    h state.frame state'.frame (congrArg State.frame hstate) context context' state state' hcontext
      hstate

theorem getContext {next next' : Context → Eval α}
    (h : ∀ context context', context.erase = context'.erase →
      Agree (next context) (next' context')) :
    Agree (Eval.getContext >>= next) (Eval.getContext >>= next') :=
  fun context context' state state' hcontext hstate =>
    h context context' hcontext context context' state state' hcontext hstate

theorem setWorld {world world' : World} (h : world.erase = world'.erase) :
    Agree (Eval.setWorld world) (Eval.setWorld world') := by
  intro context context' state state' _ hstate
  obtain ⟨-, hframe, hsink, hlog⟩ := State.erase_eq_iff.1 hstate
  exact .value (State.erase_eq_iff.2 ⟨h, hframe, hsink, hlog⟩)

theorem grow {change : World → α × World}
    (h : ∀ world world', world.erase = world'.erase →
      (change world).1 = (change world').1 ∧ (change world).2.erase = (change world').2.erase) :
    Agree (Eval.grow change) (Eval.grow change) := by
  intro context context' state state' _ hstate
  obtain ⟨hworld, hframe, hsink, hlog⟩ := State.erase_eq_iff.1 hstate
  obtain ⟨hadded, hgrown⟩ := h state.world state'.world hworld
  unfold Eval.grow
  dsimp only
  rw [hadded]
  exact .value (State.erase_eq_iff.2 ⟨hgrown, hframe, hsink, hlog⟩)

theorem assign (name : String) (value : Ref) :
    Agree (Eval.modifyFrame fun frame => { frame with locals := frame.locals.insert name value })
      (Eval.modifyFrame fun frame => { frame with locals := frame.locals.insert name value }) := by
  intro context context' state state' _ hstate
  obtain ⟨hworld, hframe, hsink, hlog⟩ := State.erase_eq_iff.1 hstate
  obtain ⟨hlabel, hself, hlocals⟩ := Frame.erase_eq_iff.1 hframe
  have hinsert : state.frame.locals.insert name value = state'.frame.locals.insert name value :=
    congrArg (·.insert name value) hlocals
  refine .value (State.erase_eq_iff.2 ⟨hworld, ?_, hsink, hlog⟩)
  exact Frame.erase_eq_iff.2 ⟨hlabel, hself, hinsert⟩

theorem annotating {step step' : Eval α} (h : Agree step step') (note : Option String) :
    Agree (Evaluation.annotating note step) (Evaluation.annotating note step') := by
  intro context context' state state' hcontext hstate
  have hsame := h context context' state state' hcontext hstate
  unfold Evaluation.annotating
  generalize step context state = outcome at hsame ⊢
  generalize step' context' state' = outcome' at hsame ⊢
  cases hsame with
  | value hleft => exact .value hleft
  | fault herror hleft =>
    refine .fault ?_ hleft
    rw [RuntimeError.erase_annotate, RuntimeError.erase_annotate, herror]

theorem within {frame frame' : Frame} {step step' : Eval Ref} (hframe : frame.erase = frame'.erase)
    (h : Agree step step') :
    Agree (Evaluation.within frame step) (Evaluation.within frame' step') := by
  intro context context' state state' hcontext hstate
  obtain ⟨hlabel, -, -⟩ := Frame.erase_eq_iff.1 hframe
  obtain ⟨-, hdepth, -⟩ := Context.erase_eq_iff.1 hcontext
  obtain ⟨-, hbelow, -, -⟩ := State.erase_eq_iff.1 hstate
  have hsame := h (context.entering state.frame) (context'.entering state'.frame)
    (state.entering frame (context.depth + 1)) (state'.entering frame' (context.depth + 1))
    (Context.erase_entering hcontext hbelow) (State.erase_entering hstate hframe)
  rw [within_apply, within_apply, ← hdepth, ← hlabel]
  generalize step (context.entering state.frame) _ = outcome at hsame ⊢
  generalize step' (context'.entering state'.frame) _ = outcome' at hsame ⊢
  cases hsame with
  | value hleft => exact .value (State.erase_leaving hleft hbelow)
  | fault herror hleft => exact .fault herror (State.erase_leaving hleft hbelow)

end Agree

end Eval

end Garnet
