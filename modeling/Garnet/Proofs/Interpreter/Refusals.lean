import Garnet.Proofs.Interpreter.Runs
import Garnet.Proofs.Interpreter.Traces

/-! # Refused writes

The sink is looked at only where a line is written, and a refused write ends the whole evaluation.
An evaluation with a sink that refuses all writes from some number on therefore does the same as one
with a sink that refuses none, up to the first refused write, and nothing after it: the fault is
raised in the frame of the method that writes, and from then on frames are left and nothing else.

What callers are shown depends on the reason of the refusal. It is a failure of the host with the
reason behind it, but a reason that is recognised as a wrong type is taken for one and dropped, and
a reason that has the fault of another program behind it passes that on.
-/

namespace Garnet

/-! ### Sinks -/

namespace Sink

/-- The same sink, which refuses no write. -/
def willing (sink : Sink) : Sink :=
  { sink with refusal := fun _ => none }

/-- The same sink, which refuses the write with a given number and all later ones. -/
def refusing (sink : Sink) (first : Nat) (reason : Nat → Refusal) : Sink :=
  { sink with refusal := fun number => if number < first then none else some (reason number) }

/-- A sink that has taken some more writes. -/
def taking (sink : Sink) (texts : List String) : Sink :=
  { sink with
    attempts := sink.attempts + texts.length, written := sink.written ++ texts.toArray }

@[simp] theorem taking_nil (sink : Sink) : sink.taking [] = sink := by
  simp [taking]

@[simp] theorem taking_taking (sink : Sink) (texts more : List String) :
    (sink.taking texts).taking more = sink.taking (texts ++ more) := by
  simp [taking, Nat.add_assoc]

theorem write_willing (sink : Sink) (text : String) :
    sink.willing.write text = (none, sink.willing.taking [text]) := by
  simp [write, willing, taking]

theorem write_refusing_of_lt {sink : Sink} {first : Nat} (h : sink.attempts < first)
    (reason : Nat → Refusal) (text : String) :
    (sink.refusing first reason).write text =
      (none, (sink.refusing first reason).taking [text]) := by
  simp [write, refusing, taking, h]

theorem write_refusing_of_le {sink : Sink} {first : Nat} (h : first ≤ sink.attempts)
    (reason : Nat → Refusal) (text : String) :
    (sink.refusing first reason).write text = (some (reason sink.attempts),
      { sink.refusing first reason with attempts := sink.attempts + 1 }) := by
  simp [write, refusing, Nat.not_lt.2 h]

end Sink

/-! ### Faults of refused writes -/

namespace Fault

variable {refusal : Refusal}

theorem ofRefusal_of_behind {shown : Shown} (h : refusal.behind = some shown) :
    ofRefusal refusal =
      .foreign { shown with text := "puts: " ++ refusal.text, marks := refusal.marks } := by
  rw [ofRefusal, h]
  rfl

theorem ofRefusal_of_mem (hbehind : refusal.behind = none) (hkind : .typeMismatch ∈ refusal.kinds) :
    ofRefusal refusal = .hostMismatch ("puts: " ++ refusal.text) := by
  have hmark : refusal.marks.contains (.kind .typeMismatch) = true := by
    simp [Refusal.marks, hkind]
  rw [ofRefusal, hbehind, ofHost, if_pos hmark]

theorem ofRefusal_of_notMem (hbehind : refusal.behind = none)
    (hkind : .typeMismatch ∉ refusal.kinds) :
    ofRefusal refusal = .host ("puts: " ++ refusal.text) refusal.marks := by
  have hmark : ¬ refusal.marks.contains (.kind .typeMismatch) = true := by
    simp [Refusal.marks, hkind, hbehind]
  rw [ofRefusal, hbehind, ofHost, if_neg hmark]

/-- What fails outside of the program is not a fault of the program. -/
theorem isPlain_ofHost (text : String) (marks : List Mark) (behind : Option Shown) :
    (ofHost text marks behind).isPlain = false := by
  unfold ofHost
  split
  · rfl
  · split
    · rfl
    · rfl

/-- Also where both are failures because of a type, the wording tells them apart. -/
theorem ofRefusal_ne_notClass (refusal : Refusal) (inspected : String) :
    ofRefusal refusal ≠ ofHost ("type mismatch: new called on non-class " ++ inspected)
      [.kind .typeMismatch] none := by
  intro h
  have hmismatch (text : String) : ofHost text [.kind .typeMismatch] none = .hostMismatch text :=
    rfl
  rw [hmismatch] at h
  rcases hbehind : refusal.behind with _ | shown
  · by_cases hkind : .typeMismatch ∈ refusal.kinds
    · rw [ofRefusal_of_mem hbehind hkind] at h
      have htext := congrArg String.toList (hostMismatch.inj h)
      rw [String.toList_append, String.toList_append] at htext
      exact absurd (List.cons.inj htext).1 (by decide)
    · rw [ofRefusal_of_notMem hbehind hkind] at h
      cases h
  · rw [ofRefusal_of_behind hbehind] at h
    cases h

end Fault

/-- What callers are shown of a refused write. -/
structure Refusal.ReportedBy (refusal : Refusal) (error : RuntimeError) : Prop where
  /-- It is a failure of the host, recognised by what the sink said. -/
  failure (hbehind : refusal.behind = none) (hkind : .typeMismatch ∉ refusal.kinds) :
    error.shown.report.kind = some .hostFailure ∧
      error.shown.report.message = "puts: " ++ refusal.text ∧
      error.shown.report.trace.head?.map (·.label) = some "Object#puts" ∧
      ∀ mark, mark ∈ error.shown.marks ↔ mark = .kind .hostFailure ∨ mark ∈ refusal.marks
  /-- The sink complains about a type: nothing else of what it said is recognised. -/
  mismatch (hbehind : refusal.behind = none) (hkind : .typeMismatch ∈ refusal.kinds) :
    error.shown.report.kind = some .typeMismatch ∧
      error.shown.report.message = "puts: " ++ refusal.text ∧
      error.shown.report.trace.head?.map (·.label) = some "Object#puts" ∧
      ∀ mark, mark ∈ error.shown.marks ↔ mark = .kind .typeMismatch
  /-- The fault of another program is shown in place of one of this program. -/
  passedOn (shown : Fault.Shown) (hbehind : refusal.behind = some shown) :
    error.shown.report = shown.report ∧ error.shown.nodeKind = shown.nodeKind ∧
      error.shown.pos = shown.pos ∧ error.shown.name? = shown.name? ∧
      error.shown.className? = shown.className? ∧
      ∀ mark, mark ∈ error.shown.marks ↔ mark ∈ refusal.marks

namespace RuntimeError

theorem marks_shown (error : RuntimeError) : error.shown.marks = error.marks := by
  unfold shown exhibit
  split
  · rfl
  · rfl

/-- Of a fault of this program, the report is its own. -/
theorem report_shown {error : RuntimeError} {fault : Fault} (hfault : error.fault = fault)
    (hown : ∀ shown, fault ≠ .foreign shown) :
    error.shown.report = ⟨some fault.kind, fault.message, error.codeFrame, error.trace⟩ := by
  rw [shown, exhibit, hfault]
  cases fault with
  | foreign shown => exact absurd rfl (hown shown)
  | _ => rfl

end RuntimeError

theorem Refusal.reportedBy {refusal : Refusal} {error : RuntimeError}
    (hfault : error.fault = .ofRefusal refusal)
    (hinnermost : error.trace.head?.map (·.label) = some "Object#puts") :
    refusal.ReportedBy error where
  failure hbehind hkind := by
    rw [Fault.ofRefusal_of_notMem hbehind hkind] at hfault
    rw [RuntimeError.report_shown hfault (by simp)]
    refine ⟨rfl, rfl, hinnermost, fun mark => ?_⟩
    rw [RuntimeError.marks_shown, RuntimeError.mem_marks, hfault, Fault.marks, List.mem_cons]
  mismatch hbehind hkind := by
    rw [Fault.ofRefusal_of_mem hbehind hkind] at hfault
    rw [RuntimeError.report_shown hfault (by simp)]
    refine ⟨rfl, rfl, hinnermost, fun mark => ?_⟩
    rw [RuntimeError.marks_shown, RuntimeError.mem_marks, hfault]
    exact List.mem_singleton
  passedOn shown hbehind := by
    rw [Fault.ofRefusal_of_behind hbehind] at hfault
    have hexhibit : error.exhibit =
        { shown with text := "puts: " ++ refusal.text, marks := error.marks } := by
      rw [RuntimeError.exhibit, hfault]
    have hshown : error.shown = { shown with text := error.render, marks := error.marks } := by
      rw [RuntimeError.shown, hexhibit]
    rw [hshown]
    refine ⟨rfl, rfl, rfl, rfl, rfl, fun mark => ?_⟩
    rw [RuntimeError.mem_marks, hfault, Fault.marks]

open Evaluation

/-! ### Steps with two sinks -/

/-- The same state with another sink. -/
def Evaluation.State.through (state : State) (sink : Sink) : State :=
  { state with sink }

namespace Eval

variable {α β : Type} {first : Nat} {reason : Nat → Refusal}

/-- How a run with a refusing sink compares with one with a willing sink that writes some texts. -/
structure Compares (first : Nat) (reason : Nat → Refusal) (sink : Sink) (texts : List String)
    (full cut : Except RuntimeError α × State) : Prop where
  taken : full.2.sink = sink.willing.taking texts
  same : sink.attempts + texts.length ≤ first →
    cut = (full.1, full.2.through ((sink.refusing first reason).taking texts))
  stopped : sink.attempts ≤ first → first < sink.attempts + texts.length →
    ∃ error left, cut = (.error error, left) ∧
      error.fault = .ofRefusal (reason first) ∧
      left.sink.attempts = first + 1 ∧
      left.sink.written = sink.written ++ (texts.take (first - sink.attempts)).toArray

/-- Whatever the state, a refusing sink cuts a step short. -/
def Truncates (first : Nat) (reason : Nat → Refusal) (step : Eval α) : Prop :=
  ∀ (context : Context) (state : State), ∃ texts, Compares first reason state.sink texts
    (step context (state.through state.sink.willing))
    (step context (state.through (state.sink.refusing first reason)))

namespace Truncates

/-- A step that has nothing to do with the sink. -/
theorem silent {step : Eval α}
    (h : ∀ context state sink, step context (state.through sink) =
      ((step context state).1, (step context state).2.through sink)) :
    step.Truncates first reason := by
  intro context state
  refine ⟨[], ?_, fun _ => ?_, fun hle hlt => ?_⟩
  · rw [h, Sink.taking_nil]
    rfl
  · rw [h context state (state.sink.refusing first reason), h, Sink.taking_nil]
    rfl
  · exact absurd hlt (Nat.not_lt.2 hle)

theorem bind {step : Eval α} {next : α → Eval β} (hstep : step.Truncates first reason)
    (hnext : ∀ value, (next value).Truncates first reason) :
    (step >>= next).Truncates first reason := by
  intro context state
  obtain ⟨texts, hcompare⟩ := hstep context state
  rw [bind_apply, bind_apply]
  rcases hfull : step context (state.through state.sink.willing) with ⟨error | value, left⟩
  · rw [hfull] at hcompare
    refine ⟨texts, hcompare.taken, fun hle => ?_, fun hle hlt => ?_⟩
    · rw [hcompare.same hle]
    · obtain ⟨raised, after, hcut, hrest⟩ := hcompare.stopped hle hlt
      exact ⟨raised, after, by rw [hcut], hrest⟩
  · rw [hfull] at hcompare
    obtain ⟨more, hmore⟩ := hnext value context left
    have htaken : left.sink = state.sink.willing.taking texts := hcompare.taken
    have hsink : left.sink.willing = left.sink := by rw [htaken]; rfl
    have hrefusing : left.sink.refusing first reason =
        (state.sink.refusing first reason).taking texts := by rw [htaken]; rfl
    have hattempts : left.sink.attempts = state.sink.attempts + texts.length := by rw [htaken]; rfl
    have hwritten : left.sink.written = state.sink.written ++ texts.toArray := by rw [htaken]; rfl
    refine ⟨texts ++ more, ?_, fun hle => ?_, fun hle hlt => ?_⟩
    · have hmore := hmore.taken
      rw [hsink, htaken, Sink.taking_taking] at hmore
      rw [← hmore, ← htaken]
      rfl
    · rw [List.length_append] at hle
      have hmore := hmore.same (by omega)
      rw [hsink, hrefusing, Sink.taking_taking] at hmore
      rw [hcompare.same (by omega)]
      exact hmore
    · rw [List.length_append] at hlt
      by_cases hreached : state.sink.attempts + texts.length ≤ first
      · obtain ⟨raised, after, hcut, hfault, hafter, hmore⟩ := hmore.stopped (by omega) (by omega)
        rw [hrefusing] at hcut
        rw [hcompare.same hreached]
        refine ⟨raised, after, hcut, hfault, hafter, ?_⟩
        have hall : texts.take (first - state.sink.attempts) = texts :=
          List.take_of_length_le (by omega)
        rw [hmore, hwritten, hattempts, List.take_append, hall, Nat.sub_sub]
        simp
      · obtain ⟨raised, after, hcut, hrest⟩ := hcompare.stopped hle (by omega)
        refine ⟨raised, after, by rw [hcut], ?_⟩
        rw [List.take_append_of_le_length (by omega)]
        exact hrest

theorem annotating {step : Eval α} (note : Option String) (h : step.Truncates first reason) :
    (Evaluation.annotating note step).Truncates first reason := by
  intro context state
  obtain ⟨texts, hcompare⟩ := h context state
  refine ⟨texts, ?_, fun hle => ?_, fun hle hlt => ?_⟩
  · rw [← hcompare.taken]
    unfold Evaluation.annotating
    split <;> simp [*]
  · unfold Evaluation.annotating
    rw [hcompare.same hle]
    rcases step context (state.through state.sink.willing) with ⟨error | value, left⟩ <;> rfl
  · obtain ⟨error, left, hcut, hrest⟩ := hcompare.stopped hle hlt
    refine ⟨error.annotate note, left, ?_, hrest⟩
    unfold Evaluation.annotating
    rw [hcut]

/-- The frame below is the same on both sides, and the sink is that of the frame that was left. -/
theorem within {step : Eval Ref} (h : step.Truncates first reason) (frame : Frame) :
    (Evaluation.within frame step).Truncates first reason := by
  intro context state
  obtain ⟨texts, hcompare⟩ := h (context.entering state.frame)
    (state.entering frame (context.depth + 1))
  rw [within_apply, within_apply]
  change Compares first reason state.sink texts
    (step (context.entering (state.through state.sink.willing).frame)
      ((state.through state.sink.willing).entering frame (context.depth + 1)))
    (step (context.entering (state.through (state.sink.refusing first reason)).frame)
      ((state.through (state.sink.refusing first reason)).entering frame (context.depth + 1)))
    at hcompare
  generalize step _ ((state.through state.sink.willing).entering frame _) = full at hcompare ⊢
  generalize step _ ((state.through (state.sink.refusing first reason)).entering frame _) = cut
    at hcompare ⊢
  refine ⟨texts, ?_, fun hle => ?_, fun hle hlt => ?_⟩
  · rcases full with ⟨error | value, left⟩
    · exact hcompare.taken
    · exact hcompare.taken
  · rw [hcompare.same hle]
    rcases full with ⟨error | value, left⟩
    · rfl
    · rfl
  · obtain ⟨error, left, rfl, hrest⟩ := hcompare.stopped hle hlt
    exact ⟨error, left.leaving state.frame frame.label context.depth, rfl, hrest⟩

/-- One line is written or refused, and the others come after it. -/
theorem writeLines_cons_apply (site : Option Node) (line : String) (rest : List String)
    (context : Context) (state : State) :
    Evaluation.writeLines site (line :: rest) context state =
      match state.sink.write (line ++ "\n") with
      | (some refusal, sink) =>
        (.error (errorAt context state.frame (.ofRefusal refusal) site), state.through sink)
      | (none, sink) => Evaluation.writeLines site rest context (state.through sink) := by
  rw [Evaluation.writeLines, bind_apply]
  unfold Eval.write
  rcases state.sink.write (line ++ "\n") with ⟨_ | refusal, sink⟩ <;> rfl

theorem writeLines (site : Option Node) (lines : List String) :
    (Evaluation.writeLines site lines).Truncates first reason := by
  intro context state
  induction lines generalizing state with
  | nil => exact silent (fun _ _ _ => rfl) context state
  | cons line rest ih =>
    have hsink (sink : Sink) : (state.through sink).sink = sink := rfl
    obtain ⟨texts, hcompare⟩ := ih (state.through (state.sink.taking [line ++ "\n"]))
    have hcons (sink : Sink) : sink.taking ((line ++ "\n") :: texts) =
        (sink.taking [line ++ "\n"]).taking texts :=
      (Sink.taking_taking sink [line ++ "\n"] texts).symm
    have hnext : (state.through (state.sink.taking [line ++ "\n"])).sink.attempts =
        state.sink.attempts + 1 := rfl
    rw [writeLines_cons_apply, writeLines_cons_apply, hsink, hsink, Sink.write_willing]
    refine ⟨(line ++ "\n") :: texts, ?_, fun hle => ?_, fun hle hlt => ?_⟩
    · rw [hcons]
      exact hcompare.taken
    · rw [List.length_cons] at hle
      rw [Sink.write_refusing_of_lt (by omega), hcons]
      exact hcompare.same (by omega)
    · rw [List.length_cons] at hlt
      by_cases htaken : state.sink.attempts < first
      · rw [Sink.write_refusing_of_lt htaken]
        obtain ⟨error, left, hcut, hfault, hattempts, hwritten⟩ :=
          hcompare.stopped (by omega) (by omega)
        refine ⟨error, left, hcut, hfault, hattempts, ?_⟩
        obtain ⟨count, hcount⟩ : ∃ count, first - state.sink.attempts = count + 1 :=
          ⟨first - (state.sink.attempts + 1), by omega⟩
        have hrest : first - (state.sink.attempts + 1) = count := by omega
        rw [hwritten, hnext, hrest, hcount, List.take_succ_cons, hsink]
        simp [Sink.taking]
      · obtain rfl : first = state.sink.attempts := by omega
        rw [Sink.write_refusing_of_le (Nat.le_refl _), Nat.sub_self, List.take_zero]
        exact ⟨_, _, rfl, rfl, rfl, by simp [State.through, Sink.refusing]⟩

end Truncates

/-- To be cut short by a refusing sink is a statement about single steps. -/
def truncating (first : Nat) (reason : Nat → Refusal) : Congruence where
  Rel step _ := step.Truncates first reason
  pure _ := .silent fun _ _ _ => rfl
  bind := .bind
  raise _ _ := .silent fun _ _ _ => rfl
  leave _ := .silent fun _ _ _ => rfl
  getWorld := .silent fun _ _ _ => rfl
  getFrame h := .bind (.silent fun _ _ _ => rfl) fun frame => h frame frame rfl
  setWorld _ := .silent fun _ _ _ => rfl
  grow _ := .silent fun _ _ _ => rfl
  assign _ _ := .silent fun _ _ _ => rfl
  note _ := .silent fun _ _ _ => rfl
  writeLines := .writeLines
  annotating note h := .annotating note h

end Eval

namespace Evaluation

variable (first : Nat) (reason : Nat → Refusal)

theorem perform_truncates (room : Nat) (frame : Frame) (site : Option Node) (task : Task) :
    (perform room frame site task).Truncates first reason := by
  induction room generalizing frame site task with
  | zero => exact .bind (.silent fun _ _ _ => rfl) fun _ => .silent fun _ _ _ => rfl
  | succ room ih =>
    have halike : ∀ frame site task, (Eval.truncating first reason).Rel
        (perform room frame site task) (perform room frame site task) := ih
    exact Eval.Truncates.within ((Eval.truncating first reason).runTask halike site task) frame

theorem evalTree_truncates (room : Nat) (tree : Option Node) :
    (evalTree room tree).Truncates first reason := by
  have halike : ∀ frame site task, (Eval.truncating first reason).Rel
      (perform room frame site task) (perform room frame site task) :=
    perform_truncates first reason room
  rw [evalTree_eq_runTask]
  exact (Eval.truncating first reason).runTask halike none (.body tree)

end Evaluation

/-! ### Interpreters -/

namespace Interpreter

variable {interp left : Interpreter} {tree : Option Node} {error : RuntimeError}

/-- An evaluation that was ended by a refused write. There is a moment at which the write was tried,
and after it nothing changed: the objects and the classes are those of that moment, and so are the
frames that are left, with their local variables. -/
structure Interrupted (interp : Interpreter) (tree : Option Node) (error : RuntimeError)
    (left : Interpreter) : Prop where
  innermost : error.trace.head?.map (·.label) = some "Object#puts"
  depth : left.depth = interp.depth
  moment : ∃ moment site line lines,
    Reaches interp (.task none (.body tree)) moment (.lines site (line :: lines)) ∧
      left.sink = (moment.sink.write (line ++ "\n")).2 ∧ left.world = moment.world ∧
      left.stack <:+ moment.stack

/-- Without methods of the host, nothing but a refused write has such a fault. -/
theorem interpret_interrupted {refusal : Refusal} (hbuilt : interp.world.BuiltIn)
    (h : interp.interpret tree = (.error error, left)) (hfault : error.fault = .ofRefusal refusal) :
    interp.Interrupted tree error left := by
  have hfailed : (interp.interpret tree).1 = .error error := by rw [h]
  obtain ⟨moment, last, hreaches, hraised⟩ := exists_raised hfailed
  rw [h] at hraised
  have hlast := hreaches.builtIn hbuilt trivial
  obtain ⟨fault, site, notes, hraises, -, herror⟩ := hraised.error
  have hraisedFault : fault = .ofRefusal refusal := by
    rw [← hfault, herror]
    rfl
  cases hraises with
  | plain _ hplain =>
    rw [hraisedFault, Fault.ofRefusal, Fault.isPlain_ofHost] at hplain
    cases hplain
  | full => exact absurd (congrArg Fault.kind hraisedFault).symm (Fault.kind_ofHost_ne _ _ _)
  | notClass => exact absurd hraisedFault.symm (Fault.ofRefusal_ne_notClass _ _)
  | host => cases hlast
  | refused =>
    obtain ⟨tried, line, lines, hlines, -, rfl⟩ := hreaches.of_refused nofun
    have hdepth : (interp.interpret tree).2.depth = interp.depth := rfl
    rw [h] at hdepth
    refine ⟨?_, hdepth, tried, _, line, lines, hlines, hraised.sink, hraised.world, hraised.stack⟩
    rw [hraised.trace_eq]
    exact congrArg some hlast

/-- The same interpreter with another sink. -/
def through (interp : Interpreter) (sink : Sink) : Interpreter :=
  { interp with sink }

theorem run_through_of_parse_error {source : String} {failure : ParseError}
    (hparse : parse source interp.current.locals.names = .error failure) (sink : Sink) :
    (interp.through sink).run source = (.error (.parse failure), interp.through sink) := by
  have hparse' : parse source (interp.through sink).current.locals.names = .error failure := hparse
  rw [run, hparse']

/-- A sink that refuses all writes after some of them cuts a run short, exactly there. If the run
does not write more, it is the same. Otherwise it writes what it would have written first, and ends
with the refused write, which is reported. -/
theorem run_refusing (hbuilt : interp.world.BuiltIn) (source : String) (count : Nat)
    (reason : Nat → Refusal) :
    let full := (interp.through interp.sink.willing).run source
    let refusing := interp.sink.refusing (interp.sink.attempts + count) reason
    ∃ texts, full.2.sink = interp.sink.willing.taking texts ∧
      (texts.length ≤ count → (interp.through refusing).run source =
        (full.1, full.2.through (refusing.taking texts))) ∧
      (count < texts.length → ∃ tree error left,
        parse source interp.current.locals.names = .ok tree ∧
        (interp.through refusing).run source = (.error (.runtime error), left) ∧
        (reason (interp.sink.attempts + count)).ReportedBy error ∧
        left.sink.attempts = interp.sink.attempts + count + 1 ∧
        left.sink.written = interp.sink.written ++ (texts.take count).toArray ∧
        ((interp.through refusing).reading source).Interrupted tree error left) := by
  intro full refusing
  rcases hparse : parse source interp.current.locals.names with failure | tree
  · have hfull : full = _ := run_through_of_parse_error hparse interp.sink.willing
    have hcut : (interp.through refusing).run source = _ := run_through_of_parse_error hparse _
    rw [hfull, hcut]
    refine ⟨[], (Sink.taking_nil _).symm, fun _ => ?_, fun hlt => absurd hlt (Nat.not_lt_zero _)⟩
    rw [Sink.taking_nil]
    rfl
  · obtain ⟨texts, hcompare⟩ := Evaluation.evalTree_truncates (interp.sink.attempts + count) reason
      interp.room tree (interp.reading source).context interp.state
    change Eval.Compares _ _ interp.sink texts
      (Evaluation.evalTree interp.room tree (interp.reading source).context
        (interp.state.through interp.sink.willing))
      (Evaluation.evalTree interp.room tree (interp.reading source).context
        (interp.state.through refusing)) at hcompare
    rcases hrun : Evaluation.evalTree interp.room tree (interp.reading source).context
      (interp.state.through interp.sink.willing) with ⟨outcome, after⟩
    rw [hrun] at hcompare
    have hfull : full = _ := run_of_parse hparse hrun
    rw [hfull]
    refine ⟨texts, hcompare.taken, fun hle => ?_, fun hlt => ?_⟩
    · have hcut : (interp.through refusing).run source = _ :=
        run_of_parse hparse (hcompare.same (by omega))
      exact hcut
    · obtain ⟨error, left, hstop, hfault, hattempts, hwritten⟩ :=
        hcompare.stopped (by omega) (by omega)
      have hcut : (interp.through refusing).run source = _ := run_of_parse hparse hstop
      have hinterpret : ((interp.through refusing).reading source).interpret tree =
          (.error error, ((interp.through refusing).reading source).resume left) := by
        rw [interpret, exec_eq]
        exact congrArg (fun run => (run.1, resume _ run.2)) hstop
      have hinterrupted : ((interp.through refusing).reading source).Interrupted tree error _ :=
        interpret_interrupted hbuilt hinterpret hfault
      rw [Nat.add_sub_cancel_left] at hwritten
      exact ⟨tree, error, _, rfl, hcut, Refusal.reportedBy hfault hinterrupted.innermost, hattempts,
        hwritten, hinterrupted⟩

/-- A text that writes two values at once while an object is set up. -/
def settingUp : String :=
  "class A\n  def initialize(x)\n    @x = x\n    puts \"a\", x\n    @x = nil\n  end\nend\n" ++
    "A.new(\"b\")\nputs \"c\""

/-- The reason of a full disk. -/
def diskFull : Refusal where
  text := "disk full"

/-- The second of three lines is refused. -/
theorem run_refusing_second_line :
    (new 0 {}).world.BuiltIn ∧
      ((new 0 {}).run settingUp).2.sink.written = #["a\n", "b\n", "c\n"] ∧
      ∃ tree error left, parse settingUp [] = .ok tree ∧
        ((new 0 {}).through (Sink.refusing {} 1 fun _ => diskFull)).run settingUp =
          (.error (.runtime error), left) ∧
        error.shown.report.kind = some .hostFailure ∧
        error.shown.report.message = "puts: disk full" ∧ .sink ∈ error.shown.marks ∧
        left.sink.written = #["a\n"] ∧
        (((new 0 {}).through (Sink.refusing {} 1 fun _ => diskFull)).reading
          settingUp).Interrupted tree error left := by
  have hbuilt : (new 0 {}).world.BuiltIn := World.builtIn_initial
  have hfull : ((new 0 {}).run settingUp).2.sink.written = #["a\n", "b\n", "c\n"] := by
    decide +kernel
  obtain ⟨texts, htaken, -, hstopped⟩ := run_refusing hbuilt settingUp 1 fun _ => diskFull
  have htexts : texts = ["a\n", "b\n", "c\n"] := by
    have hwritten : #["a\n", "b\n", "c\n"] = #[] ++ texts.toArray :=
      hfull.symm.trans (congrArg Sink.written htaken)
    simpa using (congrArg Array.toList hwritten).symm
  obtain ⟨tree, error, left, hparse, hrun, hreported, -, hwritten, hinterrupted⟩ :=
    hstopped (by rw [htexts]; decide)
  obtain ⟨hkind, hmessage, -, hmarks⟩ := hreported.failure rfl (by decide)
  rw [htexts] at hwritten
  exact ⟨hbuilt, hfull, tree, error, left, hparse, hrun, hkind, hmessage,
    (hmarks _).2 (.inr (by decide)), hwritten, hinterrupted⟩

/-- The reason of a sink that takes no text. -/
def wrongType : Refusal where
  text := "not a text"
  kinds := [.typeMismatch]

/-- The reason of a sink that runs a program of its own, in which a method is missing. -/
def failedFilter : Refusal where
  text := "filter failed"
  behind := some
    { report := ⟨some .noMethod, "undefined method 'go' for nil", none, [⟨"<main>", .unknown⟩]⟩
      text := "filter failed"
      marks := [.kind .noMethod]
      nodeKind := some .send
      pos := .unknown
      name? := some "go"
      className? := some "NilClass" }

/-- Neither is every refused write a failure of the host in the frame of the method that writes, nor
is there one write for each line. -/
theorem run_refusing_otherwise :
    let run (first : Nat) (refusal : Refusal) (source : String) :=
      ((new 0 {}).through (Sink.refusing {} first fun _ => refusal)).run source
    (runtimeError? (run 0 wrongType "puts \"x\"").1).map (·.shown.marks) =
        some [.kind .typeMismatch] ∧
      (runtimeError? (run 0 failedFilter "puts \"x\"").1).map (·.shown.report.trace) =
        some [⟨"<main>", .unknown⟩] ∧
      (run 1 diskFull "puts \"a\nb\"").2.sink.written = #["a\nb\n"] := by
  decide +kernel

end Interpreter

end Garnet
