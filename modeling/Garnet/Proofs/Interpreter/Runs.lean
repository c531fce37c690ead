import Garnet.Proofs.Evaluation.Wellformed
import Garnet.Proofs.Interpreter.Basic
import Garnet.Proofs.Parse.Scope

/-! # Runs on one interpreter

Source texts run one after the other, and any of them may fail. Between two runs all method bodies
of the world are well formed: they come from accepted texts, and a run that fails keeps the ones it
has defined. Each text is read with the names that are bound in the current frame, so its tree is
well formed there. Hence no run misses a local variable or meets a node of the wrong shape.
-/

namespace Garnet

/-- A program is well formed in a frame with the names it was read with. -/
theorem wellFormedBody_of_parse {source : String} {locals : List String} {tree : Option Node}
    (h : parse source locals = .ok tree) : WellFormedBody locals tree := by
  obtain ⟨after, hextends⟩ := extends_of_parse h
  refine ⟨?_, hextends.wellShaped, hextends.known⟩
  cases tree with
  | none => rfl
  | some node => exact hextends.proper

/-- The fault that ended a run, if the text was accepted and then failed. -/
def runtimeError? : Except Failure Ref → Option RuntimeError
  | .error (.runtime error) => some error
  | _ => none

namespace Interpreter

variable {interp : Interpreter}

/-- What runs rely on and keep. -/
def Consistent (interp : Interpreter) : Prop :=
  interp.world.AllBodies WellFormedBody

theorem consistent_new (limit : Int) (sink : Sink) : (new limit sink).Consistent :=
  World.allBodies_initial _

/-- The invariant of an evaluation holds when a run begins. -/
theorem Consistent.sound (h : interp.Consistent) :
    Evaluation.Sound interp.current.locals.names interp.state :=
  ⟨h, fun _ hname => Table.mem_names_iff.1 hname⟩

/-- How the tree of an accepted text is evaluated. -/
theorem interpret_ends (interp : Interpreter) (h : interp.Consistent) {tree : Option Node}
    (htree : WellFormedBody interp.current.locals.names tree) :
    (Evaluation.evalTree interp.room tree).Ends interp.context interp.state
      (fun _ => Evaluation.Sound
        ((Child.ofNode? tree).assigned ++ interp.current.locals.names)) Evaluation.Aborted :=
  Evaluation.evalTree_sound interp.room htree h.sound

theorem run_consistent (h : interp.Consistent) (source : String) :
    (interp.run source).2.Consistent ∧
      ∀ error ∈ runtimeError? (interp.run source).1, error.Expected := by
  cases hparse : parse source interp.current.locals.names with
  | error error =>
    unfold run
    rw [hparse]
    exact ⟨h, fun _ herror => by cases herror⟩
  | ok tree =>
    have hends := interpret_ends (interp.reading source) h (wellFormedBody_of_parse hparse)
    unfold Eval.Ends at hends
    split at hends
    next value left hrun =>
      rw [run_of_parse hparse hrun]
      exact ⟨hends.bodies, fun _ herror => by cases herror⟩
    next error left hrun =>
      rw [run_of_parse hparse hrun]
      refine ⟨hends.bodies, fun other herror => ?_⟩
      cases herror
      exact hends.expected

theorem runAll_consistent (h : interp.Consistent) (sources : List String) :
    (interp.runAll sources).Consistent := by
  induction sources generalizing interp with
  | nil => exact h
  | cons source rest ih => exact ih (run_consistent h source).1

/-- Whatever has run before, a fault of a run is one that well-formed programs can have. -/
theorem expected_of_runAll (limit : Int) (sink : Sink) (history : List String) (source : String) :
    ∀ error ∈ runtimeError? (((new limit sink).runAll history).run source).1, error.Expected :=
  (run_consistent (runAll_consistent (consistent_new limit sink) history) source).2

/-- No sequence of runs misses a local variable: what the parser takes for one is bound whenever the
evaluator reads it. -/
theorem run_ne_unboundLocal (limit : Int) (sink : Sink) (history : List String) (source : String)
    (name : String) :
    (runtimeError? (((new limit sink).runAll history).run source).1).map (·.fault) ≠
      some (.unboundLocal name) := by
  intro hfault
  obtain ⟨error, herror, hname⟩ := Option.map_eq_some_iff.1 hfault
  have hexpected := expected_of_runAll limit sink history source error herror
  rw [RuntimeError.Expected, hname] at hexpected
  exact hexpected

/-- The parser and the evaluator agree on the shapes of nodes. No run is aborted because of the
children of a node; if a run is aborted because there is no rule for a node, the node is of one of
seven kinds; and the tree of every accepted text has, at each node, children of the right sort. -/
theorem run_ne_malformed (limit : Int) (sink : Sink) (history : List String) :
    (∀ source node, (runtimeError? (((new limit sink).runAll history).run source).1).map (·.fault) ≠
      some (.malformed node)) ∧
    (∀ source, ∀ error ∈ runtimeError? (((new limit sink).runAll history).run source).1,
      error.fault.kind = .unsupportedConstruct →
        ∃ kind ∈ Node.Kind.unsupported, error.nodeKind = some kind) ∧
    ∀ source locals tree, parse source locals = .ok tree →
      (Child.ofNode? tree).isOptional = true ∧ (Child.ofNode? tree).wellShaped = true := by
  refine ⟨fun source node hfault => ?_, fun source error herror hkind => ?_,
    fun source locals tree hparse => ?_⟩
  · obtain ⟨error, herror, hnode⟩ := Option.map_eq_some_iff.1 hfault
    have hexpected := expected_of_runAll limit sink history source error herror
    rw [RuntimeError.Expected, hnode] at hexpected
    exact hexpected
  · have hexpected := expected_of_runAll limit sink history source error herror
    unfold RuntimeError.Expected at hexpected
    split at hexpected
    next => exact hexpected.elim
    next => exact hexpected.elim
    next kind _ => exact ⟨kind, hexpected⟩
    next hmalformed _ hunsupported =>
      cases hfault : error.fault with
      | unsupported kind => exact absurd hfault (hunsupported kind)
      | malformed node => exact absurd hfault (hmalformed node)
      | _ =>
        rw [hfault] at hkind
        cases hkind
  · have hbody := wellFormedBody_of_parse hparse
    exact ⟨hbody.optional, hbody.wellShaped⟩

/-- After a text that fails for want of a superclass, a number is refused by its kind. -/
theorem run_ne_malformed_number :
    ∃ error ∈ runtimeError? (((new 0 default).runAll ["class A < x\nend"]).run "1").1,
      error.fault.kind = .unsupportedConstruct ∧
        ∃ kind ∈ Node.Kind.unsupported, error.nodeKind = some kind := by
  have hrun : (runtimeError? (((new 0 default).runAll ["class A < x\nend"]).run "1").1).map
      (fun error => error.fault.kind) = some .unsupportedConstruct := by decide +kernel
  obtain ⟨error, herror, hkind⟩ := Option.map_eq_some_iff.1 hrun
  exact ⟨error, herror, hkind, (run_ne_malformed 0 default _).2.1 "1" error herror hkind⟩

end Interpreter

end Garnet
