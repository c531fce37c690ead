import Garnet.Proofs.Interpreter.Occurring
import Garnet.Proofs.Interpreter.Stack
import Garnet.Proofs.Object.Resolution
import Garnet.Proofs.Tree.Scope

/-! # Method definitions

A method definition always succeeds with nil. It puts one entry into the table of the class that
definitions go to, and changes nothing else in the world.
-/

namespace Garnet

open Evaluation

/-- A method definition. -/
def Node.definition (name : String) (params : List Child) (place : Pos) (body : Child) (pos : Pos) :
    Node :=
  .mk .methodDef [.sym name, .node (.mk .params params place), body] pos

/-- The evaluator finds the names of all parameters, and changes nothing. -/
theorem Evaluation.paramNames_eq (node : Node) {params : List Child}
    (hadmits : Node.Kind.admits .params params = true)
    (hshape : Child.allWellShaped params = true) :
    paramNames node params = pure (Child.paramNames params) := by
  induction params with
  | nil => rfl
  | cons first rest ih =>
    simp only [Node.Kind.admits, List.all_cons, Bool.and_eq_true] at hadmits
    simp only [Child.allWellShaped, Bool.and_eq_true] at hshape
    obtain ⟨children, pos, rfl⟩ := Child.eq_node_of_isOf hadmits.1
    have hparam : Node.Kind.admits .param children = true ∧ _ := Bool.and_eq_true_iff.1 hshape.1
    cases Node.Kind.admitted_of_admits hparam.1 with
    | param name =>
      have hrest := ih hadmits.2 hshape.2
      unfold paramNames
      rw [hrest]
      rfl

namespace Interpreter

/-- The class that method definitions in the current frame go to. -/
def target (interp : Interpreter) : ClassId :=
  definitionTarget interp.world interp.current.self

variable {interp : Interpreter} {name : String} {params : List Child} {place pos : Pos}
  {body : Child}

theorem interpret_definition_eq
    (hshape : (Node.definition name params place body pos).wellShaped = true) :
    interp.interpret (some (.definition name params place body pos)) =
      (.ok .nil, ((interp.mapWorld (·.setMethod interp.target name
        (.interpreted (Child.paramNames params) body.node?))).note
          (.defineMethod (interp.world.classRecord interp.target).name name
            (Child.paramNames params).length)).setResult .nil) := by
  simp only [Node.definition, Node.wellShaped, Node.Kind.admits, Child.allWellShaped,
    Child.wellShaped, Bool.and_eq_true] at hshape
  obtain ⟨⟨-, hbody⟩, -, ⟨hadmits, hparams⟩, -⟩ := hshape
  unfold interpret evalTree Node.definition
  dsimp only
  rw [evalNode]
  rw [if_pos (Child.isPart_of_isOptional hbody), paramNames_eq _ hadmits hparams]
  rfl

/-- A definition is seen from the classes whose chains lead to the class that it goes to without
passing a nearer one that declares the message. From all other classes, and for all other messages,
nothing changes. Before and after, a message goes to the first class on the chain that declares
it. -/
theorem interpret_definition (h : interp.Occurs)
    (hshape : (Node.definition name params place body pos).wellShaped = true) :
    ∃ after, interp.interpret (some (.definition name params place body pos)) = (.ok .nil, after) ∧
      after.world.classes.size = interp.world.classes.size ∧
      ∀ id message, interp.world.HasClass id →
        interp.world.FindsFirst id message ∧ after.world.FindsFirst id message ∧
        (message = name ∧ interp.world.Unshadowed id interp.target name →
          after.world.findMethod id message =
            some ({ name, owner := interp.target,
                    code := .interpreted (Child.paramNames params) body.node? }, interp.target)) ∧
        (¬ (message = name ∧ interp.world.Unshadowed id interp.target name) →
          after.world.findMethod id message = interp.world.findMethod id message) := by
  have hgraph : interp.world.Graph := h.sound.world
  have htarget : interp.world.HasClass interp.target :=
    World.Invariant.hasClass_definitionTarget h.sound.closed h.sound.current.self
  refine ⟨_, interpret_definition_eq hshape, World.size_classes_setMethod .., ?_⟩
  intro id message hid
  have hafter := hgraph.setMethod interp.target name
    (.interpreted (Child.paramNames params) body.node?)
  refine ⟨hgraph.findsFirst hid message, hafter.findsFirst (World.hasClass_setMethod.2 hid) message,
    ?_, hgraph.findMethod_setMethod_of_not hid⟩
  rintro ⟨rfl, hsees⟩
  exact hgraph.findMethod_setMethod hid htarget hsees

/-- A toplevel definition of `new` is seen from strings, but not from classes, which have a method
of that name themselves. -/
theorem interpret_definition_new :
    let param : Child := .node (.mk .param [.sym "x"] ⟨1, 9⟩)
    let node := Node.definition "new" [param] ⟨1, 8⟩ .absent ⟨1, 1⟩
    (new 0 {}).Occurs ∧ node.wellShaped = true ∧
      ∃ after, (new 0 {}).interpret (some node) = (.ok .nil, after) ∧
        after.world.findMethod .stringClass "new" = some
          ({ name := "new", owner := .objectClass, code := .interpreted ["x"] none },
            .objectClass) ∧
        after.world.findMethod .classClass "new" = some
          ({ name := "new", owner := .classClass, code := .native .new }, .classClass) := by
  intro param node
  have hoccurs : (new 0 {}).Occurs := .between (.new 0 {})
  have hshape : node.wellShaped = true := by decide
  have hsees : (new 0 {}).world.Unshadowed .stringClass .objectClass "new" := by
    refine ⟨[.stringClass], [], .inherits rfl (.root rfl), fun other hother => ?_⟩
    rw [List.mem_singleton.1 hother]
    decide
  have hhidden : ¬ (new 0 {}).world.Unshadowed .classClass .objectClass "new" := by
    rintro ⟨nearer, further, hchain, hnone⟩
    have hclass : (new 0 {}).world.Chain .classClass [.classClass, .objectClass] :=
      .inherits rfl (.root rfl)
    have heq := hclass.unique hchain
    cases nearer with
    | nil => cases heq
    | cons first rest =>
      obtain rfl : ClassId.classClass = first := (List.cons.inj heq).1
      exact absurd (hnone _ List.mem_cons_self) (by decide)
  obtain ⟨after, hafter, -, hfinds⟩ := interpret_definition hoccurs hshape
  have hstring := (hfinds .stringClass "new" (by decide)).2.2.1 ⟨rfl, hsees⟩
  have hclass := (hfinds .classClass "new" (by decide)).2.2.2 fun h => hhidden h.2
  have hbuiltIn : (new 0 {}).world.findMethod .classClass "new" = some
      ({ name := "new", owner := .classClass, code := .native .new }, .classClass) := rfl
  exact ⟨hoccurs, hshape, after, hafter, hstring, hclass.trans hbuiltIn⟩

end Interpreter

end Garnet
