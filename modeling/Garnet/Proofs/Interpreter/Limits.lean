import Garnet.Proofs.Evaluation.Congruence
import Garnet.Proofs.Interpreter.Basic
import Garnet.Proofs.Interpreter.Termination

/-! # Higher limits

The limit on the number of frames is looked at only where there is no room for another frame, and
the fault that is raised then ends the whole evaluation. An evaluation under a higher limit
therefore does the same up to that point. Where it goes on, it can only write more.
-/

namespace Garnet

namespace Evaluation

/-- The same context under another limit. -/
def Context.limited (context : Context) (limit : Nat) : Context :=
  { context with limit }

/-- Nothing that had been written in the first state was taken back in the second. -/
def State.Precedes (state state' : State) : Prop :=
  state.sink.written.toList <+: state'.sink.written.toList

theorem State.Precedes.trans {first second third : State} (h : first.Precedes second)
    (h' : second.Precedes third) : first.Precedes third :=
  List.IsPrefix.trans h h'

end Evaluation

open Evaluation

/-! ### Steps with more room -/

namespace Eval

variable {α β : Type}

/-- A run ends because there is no room for a frame, with nothing written that is not there in
another state. -/
def Overflows (run : Except RuntimeError α × State) (after : State) : Prop :=
  ∃ error left, run = (.error error, left) ∧ error.fault.kind = .stackTooDeep ∧
    left.Precedes after

/-- Under any other limit, the second step does the same as the first, unless there is no room for a
frame in the first. It never takes back what was written. -/
structure Outlasts (step step' : Eval α) : Prop where
  run (context : Context) (limit : Nat) (state : State) :
    step' (context.limited limit) state = step context state ∨
      Overflows (step context state) (step' (context.limited limit) state).2
  writes (context : Context) (state : State) : state.Precedes (step' context state).2

namespace Outlasts

/-- A step that neither looks at the limit nor writes. -/
theorem silent {step : Eval α}
    (hlimit : ∀ context limit state, step (context.limited limit) state = step context state)
    (hsink : ∀ context state, (step context state).2.sink = state.sink) : Outlasts step step where
  run context limit state := .inl (hlimit context limit state)
  writes context state := by
    simp only [State.Precedes, hsink, List.prefix_refl]

theorem bind {step step' : Eval α} {next next' : α → Eval β} (hstep : Outlasts step step')
    (hnext : ∀ value, Outlasts (next value) (next' value)) :
    Outlasts (step >>= next) (step' >>= next') := by
  have hwrites (context : Context) (state : State) :
      (step' context state).2.Precedes ((step' >>= next') context state).2 := by
    rw [bind_apply]
    rcases step' context state with ⟨error | value, left⟩
    · exact List.prefix_refl _
    · exact (hnext value).writes context left
  refine ⟨fun context limit state => ?_, fun context state => ?_⟩
  · rw [bind_apply step next]
    rcases hstep.run context limit state with hsame | ⟨error, left, hrun, hkind, hleft⟩
    · rw [bind_apply, hsame]
      rcases step context state with ⟨error | value, left⟩
      · exact .inl rfl
      · exact (hnext value).run context limit left
    · rw [hrun]
      exact .inr ⟨error, left, rfl, hkind, hleft.trans (hwrites _ state)⟩
  · exact (hstep.writes context state).trans (hwrites context state)

theorem write (text : String) : Outlasts (Eval.write text) (Eval.write text) where
  run _ _ _ := .inl rfl
  writes context state := by
    unfold State.Precedes Eval.write Sink.write
    dsimp only
    split
    next => exact List.prefix_refl _
    next => simp

theorem writeLines (site : Option Node) (lines : List String) :
    Outlasts (Evaluation.writeLines site lines) (Evaluation.writeLines site lines) := by
  induction lines with
  | nil => exact silent (fun _ _ _ => rfl) fun _ _ => rfl
  | cons line rest ih =>
    apply bind (write _)
    intro refusal
    cases refusal with
    | some reason => exact silent (fun _ _ _ => rfl) fun _ _ => rfl
    | none => exact ih

/-- A note in front of a fault does not change its kind. -/
theorem annotating {step step' : Eval α} (note : Option String) (h : Outlasts step step') :
    Outlasts (Evaluation.annotating note step) (Evaluation.annotating note step') := by
  have hleft (step : Eval α) (context : Context) (state : State) :
      (Evaluation.annotating note step context state).2 = (step context state).2 := by
    unfold Evaluation.annotating
    rcases step context state with ⟨error | value, left⟩ <;> rfl
  refine ⟨fun context limit state => ?_, fun context state => ?_⟩
  · rcases h.run context limit state with hsame | ⟨error, left, hrun, hkind, hafter⟩
    · left
      unfold Evaluation.annotating
      rw [hsame]
    · refine .inr ⟨error.annotate note, left, ?_, hkind, ?_⟩
      · unfold Evaluation.annotating
        rw [hrun]
      · rw [hleft]
        exact hafter
  · rw [hleft]
    exact h.writes context state

/-- The frame below is the same on both sides, and the sink is that of the frame that was left. -/
theorem within {step step' : Eval Ref} (h : Outlasts step step') (frame : Frame) :
    Outlasts (Evaluation.within frame step) (Evaluation.within frame step') := by
  have hsink (step : Eval Ref) (context : Context) (state : State) :
      (Evaluation.within frame step context state).2.sink =
        (step (context.entering state.frame)
          (state.entering frame (context.depth + 1))).2.sink := by
    rw [within_apply]
    rcases step (context.entering state.frame) (state.entering frame (context.depth + 1)) with
      ⟨error | value, left⟩ <;> rfl
  refine ⟨fun context limit state => ?_, fun context state => ?_⟩
  · rcases h.run (context.entering state.frame) limit (state.entering frame (context.depth + 1))
      with hsame | ⟨error, left, hrun, hkind, hafter⟩
    · left
      have hsame' : step' ((context.limited limit).entering state.frame)
          (state.entering frame ((context.limited limit).depth + 1)) = _ := hsame
      rw [within_apply, within_apply, hsame']
      rfl
    · refine .inr ⟨error, left.leaving state.frame frame.label context.depth, ?_, hkind, ?_⟩
      · rw [within_apply, hrun]
      · unfold State.Precedes
        rw [hsink]
        exact hafter
  · unfold State.Precedes
    rw [hsink]
    exact h.writes _ (state.entering frame (context.depth + 1))

end Outlasts

/-- Steps with more room on the second side. -/
def outlasting : Congruence where
  Rel := Outlasts
  pure _ := .silent (fun _ _ _ => rfl) fun _ _ => rfl
  bind := .bind
  raise _ _ := .silent (fun _ _ _ => rfl) fun _ _ => rfl
  leave _ := .silent (fun _ _ _ => rfl) fun _ _ => rfl
  getWorld := .silent (fun _ _ _ => rfl) fun _ _ => rfl
  getFrame h := .bind (.silent (fun _ _ _ => rfl) fun _ _ => rfl) fun frame => h frame frame rfl
  setWorld _ := .silent (fun _ _ _ => rfl) fun _ _ => rfl
  grow _ := .silent (fun _ _ _ => rfl) fun _ _ => rfl
  assign _ _ := .silent (fun _ _ _ => rfl) fun _ _ => rfl
  note _ := .silent (fun _ _ _ => rfl) fun _ _ => rfl
  writeLines := .writeLines
  annotating note h := .annotating note h

end Eval

namespace Evaluation

theorem perform_outlasts {room room' : Nat} (hroom : room ≤ room') (frame : Frame)
    (site : Option Node) (task : Task) :
    Eval.Outlasts (perform room frame site task) (perform room' frame site task) := by
  induction room' generalizing room frame site task with
  | zero =>
    obtain rfl : room = 0 := Nat.le_zero.1 hroom
    exact ⟨fun _ _ _ => .inr ⟨_, _, rfl, rfl, List.prefix_refl _⟩, fun _ _ => List.prefix_refl _⟩
  | succ room' ih =>
    cases room with
    | zero =>
      -- There is no room on one side, and on the other nothing is taken back.
      have hself := (Eval.outlasting.runTask (ih (Nat.le_refl room')) site task).within frame
      exact ⟨fun _ _ _ => .inr ⟨_, _, rfl, rfl, hself.writes _ _⟩, hself.writes⟩
    | succ room =>
      exact (Eval.outlasting.runTask (ih (Nat.le_of_succ_le_succ hroom)) site task).within frame

theorem evalTree_outlasts {room room' : Nat} (hroom : room ≤ room') (tree : Option Node) :
    Eval.Outlasts (evalTree room tree) (evalTree room' tree) := by
  rw [evalTree_eq_runTask, evalTree_eq_runTask]
  exact Eval.outlasting.runTask (perform_outlasts hroom) none (.body tree)

end Evaluation

/-! ### Interpreters -/

namespace Interpreter

/-- The same interpreter under another limit. -/
def limited (interp : Interpreter) (limit : Nat) : Interpreter :=
  { interp with limit }

/-- A run that was ended because there was no room for another frame. -/
def RanOut : Except Failure Ref → Prop
  | .error (.runtime error) => error.fault.kind = .stackTooDeep
  | .error (.parse _) | .ok _ => False

instance : DecidablePred RanOut
  | .error (.runtime error) => inferInstanceAs (Decidable (error.fault.kind = .stackTooDeep))
  | .error (.parse _) | .ok _ => inferInstanceAs (Decidable False)

/-- A text that is not accepted does not depend on the limit. -/
theorem run_limited_of_parse_error {interp : Interpreter} {source : String} {failure : ParseError}
    (hparse : parse source interp.current.locals.names = .error failure) (limit : Nat) :
    (interp.limited limit).run source = (.error (.parse failure), interp.limited limit) := by
  have hparse' : parse source (interp.limited limit).current.locals.names = .error failure := hparse
  rw [run, hparse']

/-- A run under a limit that was not reached is the same under a higher one, and what was written
before a limit was reached is also written, first, under a higher one. -/
theorem run_limited (interp : Interpreter) (source : String) {limit limit' : Nat}
    (h : limit ≤ limit') :
    (¬ RanOut ((interp.limited limit).run source).1 →
      (interp.limited limit').run source =
        (((interp.limited limit).run source).1,
          ((interp.limited limit).run source).2.limited limit')) ∧
    (RanOut ((interp.limited limit).run source).1 → ∃ first more,
      ((interp.limited limit).run source).2.sink.written.toList =
        interp.sink.written.toList ++ first ∧
      ((interp.limited limit').run source).2.sink.written.toList =
        interp.sink.written.toList ++ (first ++ more)) := by
  rcases hparse : parse source interp.current.locals.names with failure | tree
  · rw [run_limited_of_parse_error hparse, run_limited_of_parse_error hparse]
    exact ⟨fun _ => rfl, False.elim⟩
  · have hroom : (interp.limited limit).room ≤ (interp.limited limit').room :=
      Nat.sub_le_sub_right h _
    rcases hrun : Evaluation.evalTree (interp.limited limit).room tree
      ((interp.limited limit).reading source).context interp.state with ⟨outcome, left⟩
    rcases hrun' : Evaluation.evalTree (interp.limited limit').room tree
      (((interp.limited limit).reading source).context.limited limit') interp.state with
      ⟨outcome', left'⟩
    have hfirst : (interp.limited limit).run source = _ := run_of_parse hparse hrun
    have hsecond : (interp.limited limit').run source = _ := run_of_parse hparse hrun'
    rw [hfirst, hsecond]
    have hlonger := (evalTree_outlasts hroom tree).run
      ((interp.limited limit).reading source).context limit' interp.state
    rw [hrun, hrun'] at hlonger
    refine ⟨fun hfree => ?_, fun _ => ?_⟩
    · rcases hlonger with hsame | ⟨error, left, hfull, hkind, -⟩
      · cases hsame
        rfl
      · cases hfull
        exact absurd hkind hfree
    · obtain ⟨first, hwritten⟩ : interp.state.Precedes left := by
        have hbefore := (evalTree_outlasts (Nat.le_refl (interp.limited limit).room) tree).writes
          ((interp.limited limit).reading source).context interp.state
        rw [hrun] at hbefore
        exact hbefore
      obtain ⟨more, hmore⟩ : left.Precedes left' := by
        rcases hlonger with hsame | ⟨error, left, hfull, -, hmore⟩
        · cases hsame
          exact List.prefix_refl _
        · cases hfull
          exact hmore
      refine ⟨first, more, hwritten.symm, ?_⟩
      rw [← List.append_assoc]
      exact hmore.symm.trans (congrArg (· ++ more) hwritten.symm)

/-- A method that writes and calls itself without end: one line is written before the third frame
is refused, and it is the first one that is written with more frames. -/
theorem run_limited_recursive :
    3 ≤ 5 ∧
    RanOut (((new 0 {}).limited 3).run "def f\n  puts \"a\"\n  f\nend\nf").1 ∧
    ∃ first more,
      (((new 0 {}).limited 3).run "def f\n  puts \"a\"\n  f\nend\nf").2.sink.written.toList =
        first ∧
      (((new 0 {}).limited 5).run "def f\n  puts \"a\"\n  f\nend\nf").2.sink.written.toList =
        first ++ more := by
  have hfull : RanOut (((new 0 {}).limited 3).run "def f\n  puts \"a\"\n  f\nend\nf").1 := by
    decide +kernel
  exact ⟨by decide, hfull, (run_limited (new 0 {}) _ (by decide)).2 hfull⟩

end Interpreter

end Garnet
