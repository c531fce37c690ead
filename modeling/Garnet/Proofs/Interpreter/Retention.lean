import Garnet.Proofs.Evaluation.Edits
import Garnet.Proofs.Interpreter.Basic

/-! # Nothing that was defined is lost

An interpreter only ever adds to its world: whatever is evaluated on it or sent to it, and however
that ends, the classes, constants, methods and objects of before are still there. The world may be
any world, also one that no program could have made.
-/

namespace Garnet.Interpreter

theorem exec_edits {α : Type} {step : Eval α} (h : step.Edits) (interp : Interpreter) :
    interp.world.Edits (interp.exec step).2.world ∧
      (interp.exec step).2.sink.refusal = interp.sink.refusal := by
  have hedits : interp.state.Edits (step interp.context interp.state).2 :=
    Eval.Ends.left_iff.mp (h interp.context interp.state)
  rw [exec_eq]
  exact ⟨hedits.world, hedits.refusal⟩

theorem interpret_edits (interp : Interpreter) (tree : Option Node) :
    interp.world.Edits (interp.interpret tree).2.world ∧
      (interp.interpret tree).2.sink.refusal = interp.sink.refusal :=
  exec_edits (Evaluation.evalTree_edits interp.room tree) interp

/-- A text that is not accepted changes nothing. -/
theorem run_edits (interp : Interpreter) (source : String) :
    interp.world.Edits (interp.run source).2.world ∧
      (interp.run source).2.sink.refusal = interp.sink.refusal := by
  rcases hparse : parse source interp.current.locals.names with error | tree
  · rw [run, hparse]
    exact ⟨.refl, rfl⟩
  · rcases hrun : Evaluation.evalTree interp.room tree (interp.reading source).context
        interp.state with ⟨outcome, left⟩
    have hedits := interpret_edits (interp.reading source) tree
    rw [interpret, exec_eq, room_reading, state_reading, hrun] at hedits
    rw [run_of_parse hparse hrun]
    exact hedits

/-- Whatever the state of the interpreter, a program, a tree of any shape and a message lose nothing
that was defined, whether they succeed or fail. In particular a class that is opened again stays
the same class, with its superclass and with its methods. -/
theorem nothing_lost (interp : Interpreter) :
    (∀ source, interp.world.Keeps (interp.run source).2.world) ∧
    (∀ tree, interp.world.Keeps (interp.interpret tree).2.world) ∧
    ∀ receiver name args, interp.world.Keeps (interp.send receiver name args).2.world := by
  refine ⟨fun source => ?_, fun tree => ?_, fun receiver name args => ?_⟩
  · exact (run_edits interp source).1.keeps
  · exact (interpret_edits interp tree).1.keeps
  · have hsend := Evaluation.send_edits (Evaluation.perform_edits interp.room) none receiver name
      args
    exact (exec_edits hsend interp).1.keeps

end Garnet.Interpreter
