import Garnet.Proofs.Evaluation.Erasure
import Garnet.Proofs.Evaluation.Frames
import Garnet.Proofs.Interpreter.Runs
import Garnet.Proofs.Parse.Joining

/-! # Running a text in parts

A text that has run can be continued by another one, as at a prompt. This is the same as running
both as one text, with a line break between them: the second part is read with the same names in
both cases, and evaluated in states that differ in places only.
-/

namespace Garnet

/-- Two faults that differ in places only. -/
structure RuntimeError.Resembles (first second : RuntimeError) : Prop where
  kind : first.fault.kind = second.fault.kind
  message : first.fault.message = second.fault.message
  name : first.fault.name? = second.fault.name?
  className : first.fault.className? = second.fault.className?
  nodeKind : first.nodeKind = second.nodeKind
  labels : first.trace.map (·.label) = second.trace.map (·.label)
  notes : first.notes = second.notes

theorem RuntimeError.Resembles.of_erase {first second : RuntimeError}
    (h : first.erase = second.erase) : first.Resembles second := by
  obtain ⟨hfault, hkind, -, -, htrace, hnotes⟩ := RuntimeError.mk.inj h
  have hlabels : (first.trace.map Trace.Entry.erase).map (·.label) =
      (second.trace.map Trace.Entry.erase).map (·.label) := by rw [htrace]
  rw [List.map_map, List.map_map] at hlabels
  refine ⟨?_, ?_, ?_, ?_, hkind, hlabels, hnotes⟩
  · rw [← Fault.kind_erase, hfault, Fault.kind_erase]
  · rw [← Fault.message_erase, hfault, Fault.message_erase]
  · rw [← Fault.name?_erase, hfault, Fault.name?_erase]
  · rw [← Fault.className?_erase, hfault, Fault.className?_erase]

namespace Interpreter

/-- Two runs that end with the same value, or with faults that differ in places only. -/
inductive SameEnd : Except Failure Ref → Except Failure Ref → Prop
  | value (value : Ref) : SameEnd (.ok value) (.ok value)
  | fault {error error' : RuntimeError} (h : error.Resembles error') :
    SameEnd (.error (.runtime error)) (.error (.runtime error'))

/-- Two interpreters that differ only in places, in the source text they remember and in the result
of the current frame. -/
structure Resembles (first second : Interpreter) : Prop where
  world : first.world.erase = second.world.erase
  label : first.current.label = second.current.label
  self : first.current.self = second.current.self
  locals : first.current.locals = second.current.locals
  outer : first.outer = second.outer
  sink : first.sink = second.sink
  log : first.log = second.log
  limit : first.limit = second.limit

/-- Evaluations with the same outcome are runs with the same end. -/
theorem resembles_resume {first second : Interpreter}
    {outcome outcome' : Except RuntimeError Ref × Evaluation.State}
    (houter : first.outer = second.outer) (hlimit : first.limit = second.limit)
    (h : Eval.SameOutcome outcome outcome') :
    SameEnd (outcome.1.mapError .runtime) (outcome'.1.mapError .runtime) ∧
      Resembles (first.resume outcome.2) (second.resume outcome'.2) := by
  have hresume : ∀ left left', left.erase = left'.erase →
      Resembles (first.resume left) (second.resume left') := by
    intro left left' hleft
    obtain ⟨hworld, hframe, hsink, hlog⟩ := Evaluation.State.erase_eq_iff.1 hleft
    obtain ⟨hlabel, hself, hlocals⟩ := Frame.erase_eq_iff.1 hframe
    exact ⟨hworld, hlabel, hself, hlocals, houter, hsink, hlog, hlimit⟩
  cases h with
  | value hleft => exact ⟨.value _, hresume _ _ hleft⟩
  | fault herror hleft => exact ⟨.fault (.of_erase herror), hresume _ _ hleft⟩

variable {interp mid : Interpreter} {first second : String} {value : Ref}

/-- A run with a value is an accepted text whose tree has that value. -/
theorem run_eq_ok (h : interp.run first = (.ok value, mid)) :
    ∃ tree left, parse first interp.current.locals.names = .ok tree ∧
      Evaluation.evalTree interp.room tree (interp.reading first).context interp.state =
        (.ok value, left) ∧
      mid = (interp.reading first).resume left := by
  cases hparse : parse first interp.current.locals.names with
  | error error =>
    unfold run at h
    rw [hparse] at h
    cases h
  | ok tree =>
    rcases hrun : Evaluation.evalTree interp.room tree (interp.reading first).context
      interp.state with ⟨outcome, left⟩
    rw [run_of_parse hparse hrun] at h
    cases outcome with
    | ok found =>
      cases h
      exact ⟨tree, left, rfl, hrun, rfl⟩
    | error error => cases h

/-- After a run with a value, the bound names are those the parser took to be bound at its end. -/
theorem mem_names_of_run (hconsistent : interp.Consistent) {tree : Option Node}
    {left : Evaluation.State} (hparse : parse first interp.current.locals.names = .ok tree)
    (hrun : Evaluation.evalTree interp.room tree (interp.reading first).context interp.state =
      (.ok value, left)) (name : String) :
    name ∈ left.frame.locals.names ↔
      name ∈ (Child.ofNode? tree).assigned ∨ name ∈ interp.current.locals.names := by
  have hsound := interpret_ends (interp.reading first) hconsistent (wellFormedBody_of_parse hparse)
  have hkept := Evaluation.evalTree_keeps interp.room tree (interp.reading first).context
    interp.state
  rw [room_reading, state_reading] at hsound
  unfold Eval.Ends at hsound hkept
  rw [hrun] at hsound hkept
  constructor
  -- A name that the tree does not assign is bound as it was before.
  · intro hname
    by_cases hassigned : name ∈ (Child.ofNode? tree).assigned
    · exact .inl hassigned
    · have hsame := hkept.frame.others name hassigned
      rw [Table.mem_names_iff, Table.contains, hsame] at hname
      exact .inr (Table.mem_names_iff.2 hname)
  · intro hname
    exact Table.mem_names_iff.2 (hsound.binds name (List.mem_append.2 hname))

/-- Whatever has run before: if a text has a value and another one is accepted after it and not
empty, then running both as one text, with a line break between them, ends as running the second
one after the first. The value or the fault is the same, and so are the output, the classes with
their methods and constants, the objects and the local variables. -/
theorem run_joined (limit : Int) (sink : Sink) (history : List String) {tree : Node}
    (hnul : Token.nul ∉ first.toList)
    (hfirst : ((new limit sink).runAll history).run first = (.ok value, mid))
    (hsecond : parse second mid.current.locals.names = .ok (some tree)) :
    SameEnd (((new limit sink).runAll history).run (first ++ "\n" ++ second)).1 (mid.run second).1 ∧
      Resembles (((new limit sink).runAll history).run (first ++ "\n" ++ second)).2
        (mid.run second).2 := by
  have hconsistent := runAll_consistent (consistent_new limit sink) history
  generalize (new limit sink).runAll history = interp at hconsistent hfirst ⊢
  obtain ⟨body, left, hparse, hrun, rfl⟩ := run_eq_ok hfirst
  obtain ⟨nodes, more, rfl, hmore, htree, hjoined⟩ :=
    parse_joined hnul hparse hsecond (mem_names_of_run hconsistent hparse hrun)
  -- Both parts are evaluated in the same way as before; only the places of the second part and the
  -- remembered text differ.
  have hmoved : more.map (Node.mapPos (Pos.down (Token.lastLine first))) ≠ [] := by
    simpa using hmore
  have herase : (more.map (Node.mapPos (Pos.down (Token.lastLine first)))).map Node.erase =
      more.map Node.erase := by simp
  have hwholeContext : (interp.reading (first ++ "\n" ++ second)).context.erase =
      (interp.reading first).context.erase := rfl
  have hrestContext : (interp.reading first).context.erase =
      (((interp.reading first).resume left).reading second).context.erase := rfl
  have hsame := Evaluation.evalTree_append interp.room nodes hmoved herase hwholeContext
    hrestContext hrun
  rcases hwhole : Evaluation.evalTree interp.room
    (Parse.wrapBody (nodes ++ more.map (Node.mapPos (Pos.down (Token.lastLine first)))))
    (interp.reading (first ++ "\n" ++ second)).context interp.state with ⟨outcome, after⟩
  rcases hrest : Evaluation.evalTree interp.room (Parse.wrapBody more)
    (((interp.reading first).resume left).reading second).context left with ⟨outcome', after'⟩
  rw [hwhole, hrest] at hsame
  rw [htree] at hsecond
  rw [run_of_parse hjoined hwhole, run_of_parse hsecond hrest]
  refine resembles_resume ?_ ?_ hsame
  · rfl
  · rfl

/-- A text that writes a variable of the text before it, and then fails inside of a method. -/
theorem run_joined_greeting :
    ∃ value mid tree,
      ((new 0 default).runAll ["class A\ndef get\n@x.go\nend\nend"]).run "a = \"hi\"" =
        (.ok value, mid) ∧
      parse "puts a\nA.new.get" mid.current.locals.names = .ok (some tree) ∧
      SameEnd
        (((new 0 default).runAll ["class A\ndef get\n@x.go\nend\nend"]).run
          ("a = \"hi\"" ++ "\n" ++ "puts a\nA.new.get")).1 (mid.run "puts a\nA.new.get").1 ∧
      Resembles
        (((new 0 default).runAll ["class A\ndef get\n@x.go\nend\nend"]).run
          ("a = \"hi\"" ++ "\n" ++ "puts a\nA.new.get")).2 (mid.run "puts a\nA.new.get").2 := by
  have hvalue : (((new 0 default).runAll ["class A\ndef get\n@x.go\nend\nend"]).run
      "a = \"hi\"").1.toOption = some ⟨7⟩ := by decide +kernel
  have htree : ((parse "puts a\nA.new.get" (((new 0 default).runAll
      ["class A\ndef get\n@x.go\nend\nend"]).run "a = \"hi\"").2.current.locals.names).toOption.bind
      id).isSome = true := by decide +kernel
  rcases hfirst : ((new 0 default).runAll ["class A\ndef get\n@x.go\nend\nend"]).run
    "a = \"hi\"" with ⟨_ | value, mid⟩
  · rw [hfirst] at hvalue
    cases hvalue
  rw [hfirst] at htree
  dsimp only at htree
  cases hsecond : parse "puts a\nA.new.get" mid.current.locals.names with
  | error error =>
    rw [hsecond] at htree
    cases htree
  | ok body =>
    rw [hsecond] at htree
    obtain ⟨tree, rfl⟩ := Option.isSome_iff_exists.1 htree
    have hnul : Token.nul ∉ "a = \"hi\"".toList := by decide
    exact ⟨value, mid, tree, rfl, hsecond, run_joined 0 default _ hnul hfirst hsecond⟩

end Interpreter

end Garnet
