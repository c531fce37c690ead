import Garnet.Proofs.Interpreter.Natives

/-! # Traces of faults

The trace of a fault lists the frames that were there when it was raised. It is made once and passed
on unchanged while these frames are left, so its lower end shows the frames that were there before
the evaluation: each under its label, and each but the current one at the place from which the frame
above it was entered.
-/

namespace Garnet

open Evaluation

/-! ### The entries of a trace -/

namespace Evaluation

variable (pos : Pos) (entries : List Trace.Entry)

@[simp] theorem length_traceFrom : (traceFrom pos entries).length = entries.length := by
  induction entries generalizing pos with
  | nil => rfl
  | cons entry callers ih => rw [traceFrom, List.length_cons, ih, List.length_cons]

@[simp] theorem labels_traceFrom :
    (traceFrom pos entries).map (·.label) = entries.map (·.label) := by
  induction entries generalizing pos with
  | nil => rfl
  | cons entry callers ih => rw [traceFrom, List.map_cons, ih, List.map_cons]

/-- Every frame stands at the place from which the one above it was entered. -/
theorem places_traceFrom :
    (traceFrom pos entries).map (·.pos) = (pos :: entries.map (·.pos)).dropLast := by
  induction entries generalizing pos with
  | nil => rfl
  | cons entry callers ih =>
    rw [traceFrom, List.map_cons, ih, List.map_cons, List.dropLast_cons_cons]

/-- The lower end of a trace is the trace of the lower frames, from the place where the frame above
them was entered. -/
theorem exists_drop_traceFrom (above lower : List Trace.Entry) :
    ∃ place, (traceFrom pos (above ++ lower)).drop above.length = traceFrom place lower := by
  induction above generalizing pos with
  | nil => exact ⟨pos, rfl⟩
  | cons entry more ih => exact ih entry.pos

end Evaluation

/-! ### The kind of a fault -/

theorem Fault.Mark.mem_all (mark : Fault.Mark) : mark ∈ Fault.Mark.all := by
  cases mark with
  | sink => decide
  | kind kind => cases kind <;> decide

theorem Fault.marks_of_isPlain {fault : Fault} (h : fault.isPlain = true) :
    fault.marks = [.kind fault.kind] := by
  cases fault with
  | host | foreign => cases h
  | _ => rfl

/-- What fails outside of the program is never taken for too many frames. -/
theorem Fault.kind_ofHost_ne (text : String) (marks : List Fault.Mark)
    (behind : Option Fault.Shown) : (ofHost text marks behind).kind ≠ .stackTooDeep := by
  unfold Fault.ofHost
  split
  · exact nofun
  · split
    · exact nofun
    · exact nofun

theorem RuntimeError.mem_marks {error : RuntimeError} {mark : Fault.Mark} :
    mark ∈ error.marks ↔ mark ∈ error.fault.marks := by
  rw [marks, List.mem_filter, List.contains_iff_mem]
  exact and_iff_right (Fault.Mark.mem_all mark)

/-- A reason that says nothing but that the sink refused. -/
def Refusal.IsBare (refusal : Refusal) : Prop :=
  refusal.kinds = [] ∧ refusal.behind = none

/-- Nothing that a sink refuses writes for is recognised as a fault of some kind. -/
def Sink.IsBare (sink : Sink) : Prop :=
  ∀ number refusal, sink.refusal number = some refusal → refusal.IsBare

theorem Fault.ofRefusal_of_isBare {refusal : Refusal} (h : refusal.IsBare) :
    ofRefusal refusal = .host ("puts: " ++ refusal.text) [.sink] := by
  obtain ⟨text, kinds, behind⟩ := refusal
  obtain ⟨rfl, rfl⟩ : kinds = [] ∧ behind = none := h
  rfl

namespace Interpreter

variable {interp left moment : Interpreter} {activity : Activity} {error : RuntimeError}

/-- If no method of the host fails and the sink wraps nothing, a fault has no other kind than its
own behind it. -/
theorem Raises.kind_mem_marks {fault : Fault} (h : Raises moment activity fault)
    (hbuilt : activity.BuiltIn moment)
    (hbare : ∀ site refusal, activity = .refused site refusal → refusal.IsBare)
    (kind : Fault.Kind) : .kind kind ∈ fault.marks ↔ kind = fault.kind := by
  cases h with
  | plain _ hplain =>
    simp [Fault.marks_of_isPlain hplain]
  | full => simp [Fault.marks]
  | notClass => simp [Fault.ofHost, Fault.marks, Fault.kind]
  | refused => simp [Fault.ofRefusal_of_isBare (hbare _ _ rfl), Fault.marks, Fault.kind]
  | host => cases hbuilt

theorem Reaches.refusal_isBare {activity : Activity} {site : Option Node} {refusal : Refusal}
    (h : Reaches interp activity moment (.refused site refusal))
    (hactivity : activity ≠ .refused site refusal) (hbare : interp.sink.IsBare) :
    refusal.IsBare := by
  obtain ⟨tried, line, lines, hlines, hrefusal, -⟩ := h.of_refused hactivity
  rw [hlines.refusal_eq] at hrefusal
  exact hbare _ refusal hrefusal

/-- Only where there is no room for a frame is it said that there are too many. -/
theorem Raises.room_eq_zero {fault : Fault} (h : Raises moment activity fault)
    (hkind : fault.kind = .stackTooDeep) : moment.room = 0 := by
  cases h with
  | plain _ hplain =>
    cases fault with
    | stackTooDeep limit => cases hplain
    | _ => cases hkind
  | full hroom => exact hroom
  | notClass | refused | host => exact absurd hkind (Fault.kind_ofHost_ne _ _ _)

/-! ### Traces and stacks -/

/-- A frame as it stands in a trace, at the place it was entered from. -/
def entryOf (frame : Frame) : Trace.Entry :=
  ⟨frame.label, frame.pos⟩

theorem Raised.trace_eq {known : Node → Prop} (h : Raised known moment activity error left) :
    error.trace = traceFrom error.pos (moment.stack.map entryOf) := by
  obtain ⟨fault, site, notes, -, -, rfl⟩ := h.error
  rfl

/-- What the trace of a fault shows of an interpreter on which an evaluation has failed. -/
structure ShownBy (interp : Interpreter) (error : RuntimeError) : Prop where
  covers : interp.depth ≤ error.trace.length
  bounded : error.trace.length ≤ interp.limit
  full : error.fault.kind = .stackTooDeep → error.trace.length = interp.limit
  /-- The last entries have the labels of the frames, innermost first. -/
  labels : (error.trace.drop (error.trace.length - interp.depth)).map (·.label) =
    interp.stack.map (·.label)
  /-- Outside of the current frame, each stands at the place where the frame inside was entered. -/
  places : (error.trace.drop (error.trace.length - interp.depth)).tail.map (·.pos) =
    interp.stack.dropLast.map (·.pos)
  innermost : error.trace.head?.map (·.pos) = some error.pos
  /-- What the sink says about a refused write is not taken for a kind. -/
  kind (hbare : interp.sink.IsBare) (kind : Fault.Kind) :
    .kind kind ∈ error.marks ↔ kind = error.fault.kind

/-- An evaluation leaves the frames as they stand in a trace. -/
theorem stack_entries {names : List String} (h : interp.Keeps names left) :
    left.stack.map entryOf = interp.stack.map entryOf := by
  rw [stack, stack, h.outer, List.map_cons, List.map_cons, entryOf, h.current.label, h.current.pos]
  rfl

/-- Whatever the state of the interpreter and the tree are, as long as the host has put no methods
in. -/
theorem interpret_shownBy (hbuilt : interp.world.BuiltIn) (hdepth : interp.depth ≤ interp.limit)
    {tree : Option Node} (h : (interp.interpret tree).1 = .error error) :
    interp.ShownBy error := by
  obtain ⟨moment, last, hreaches, hraised⟩ := exists_raised h
  obtain ⟨fault, site, notes, hraises, -, herror⟩ := hraised.error
  have hfault : error.fault = fault := by rw [herror]; rfl
  have hheight : error.trace.length = moment.depth := by
    rw [hraised.trace_eq, length_traceFrom, List.length_map]
    rfl
  have hbounded : moment.depth ≤ interp.limit := by
    rw [← hreaches.limit_eq]
    exact hreaches.depth_le hdepth
  -- The frames that are left lie below those that were there when the fault was raised.
  obtain ⟨above, hstack⟩ := hraised.stack
  have hentries : moment.stack.map entryOf = above.map entryOf ++ interp.stack.map entryOf := by
    rw [← hstack, List.map_append]
    exact congrArg _ (stack_entries (exec_keeps (evalTree_keeps interp.room tree) interp))
  have hlength : moment.depth = above.length + interp.depth := by
    have hcount := congrArg List.length hentries
    simp only [List.length_map, List.length_append] at hcount
    exact hcount
  have hskip : error.trace.length - interp.depth = (above.map entryOf).length := by
    rw [List.length_map]
    omega
  obtain ⟨place, hlower⟩ := exists_drop_traceFrom error.pos (above.map entryOf)
    (interp.stack.map entryOf)
  rw [← hentries, ← hraised.trace_eq, ← hskip] at hlower
  refine ⟨by omega, by omega, fun hkind => ?_, ?_, ?_, ?_, fun hbare kind => ?_⟩
  · have hroom := hraises.room_eq_zero (hfault ▸ hkind)
    have hlimit := hreaches.limit_eq
    unfold room at hroom
    omega
  · rw [hlower, labels_traceFrom, List.map_map]
    rfl
  · rw [hlower, List.map_tail, places_traceFrom, List.map_map, List.map_dropLast]
    rfl
  · rw [hraised.trace_eq]
    rfl
  · rw [RuntimeError.mem_marks, hfault]
    refine hraises.kind_mem_marks (hreaches.builtIn hbuilt trivial) ?_ kind
    rintro site refusal rfl
    exact hreaches.refusal_isBare nofun hbare

/-- An interpreter with a method that calls itself without end, in a frame that was entered by
hand. -/
def nested : Interpreter :=
  ((new 4 {}).runAll ["def f\n  f\nend"]).push { label := "host", self := .main, pos := ⟨7, 3⟩ }

/-- A message that the method answers. -/
def nestedCall : Node :=
  .mk .send [.absent, .sym "f"] ⟨9, 1⟩

theorem nested_shownBy :
    nested.world.BuiltIn ∧ nested.depth ≤ nested.limit ∧ nested.sink.IsBare ∧
      ∃ error, (nested.interpret (some nestedCall)).1 = .error error ∧
        error.fault.kind = .stackTooDeep ∧ nested.ShownBy error := by
  have hbuilt : nested.world.BuiltIn := builtIn_runAll 4 {} _
  have hdepth : nested.depth ≤ nested.limit := by decide +kernel
  have hfails : (match (nested.interpret (some nestedCall)).1 with
      | .error error => some error.fault.kind
      | .ok _ => none) = some .stackTooDeep := by decide +kernel
  have hbare : nested.sink.IsBare := by
    intro number refusal hrefusal
    have hkept : nested.sink.refusal = fun _ => none := (run_edits (new 4 {}) _).2
    rw [hkept] at hrefusal
    cases hrefusal
  refine ⟨hbuilt, hdepth, hbare, ?_⟩
  rcases hrun : (nested.interpret (some nestedCall)).1 with error | value
  · rw [hrun] at hfails
    exact ⟨error, rfl, Option.some.inj hfails, interpret_shownBy hbuilt hdepth hrun⟩
  · rw [hrun] at hfails
    cases hfails

end Interpreter

end Garnet
