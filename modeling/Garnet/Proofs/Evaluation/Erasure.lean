import Garnet.Proofs.Evaluation.Agreement
import Garnet.Proofs.Tree.Shape

/-! # Evaluation does not look at places

A tree is evaluated in the same way wherever it stands in a source text: each rule of the evaluator
agrees with itself on the tree without places. Frames that are entered may then run bodies that
differ in places only, so agreement goes through any number of frames.
-/

namespace Garnet

namespace Evaluation

open Eval

/-- A task without the places in its body. -/
def Task.erase : Task → Task
  | .body code => .body (code.map Node.erase)
  | .native code args => .native code args

/-- Entering a frame does not look at places. -/
def Enter.Agrees (enter : Enter) : Prop :=
  ∀ frame frame' site site' task task', frame.erase = frame'.erase →
    site.map Node.kind = site'.map Node.kind → task.erase = task'.erase →
    Agree (enter frame site task) (enter frame' site' task')

variable {enter : Enter} {site site' : Option Node}

/-! ### Messages and native methods -/

theorem send_agrees (henter : enter.Agrees) (hsite : site.map Node.kind = site'.map Node.kind)
    (receiver : Ref) (name : String) (args : List Ref) :
    Agree (send enter site receiver name args) (send enter site' receiver name args) := by
  apply Agree.getWorld
  intro world world' hworld
  dsimp only
  rw [World.classOf_eq hworld]
  obtain ⟨hfirst, hsecond⟩ | ⟨method, method', owner, hfirst, hsecond, hcode⟩ :=
    World.findMethod_cases hworld (world'.classOf receiver) name
  · rw [hfirst, hsecond]
    refine .raise ?_ hsite
    rw [World.describe_eq hworld, World.className_eq hworld]
  · rw [hfirst, hsecond]
    dsimp only
    rw [World.inspect_eq hworld, (World.classRecord_eq hworld owner).1]
    apply Agree.bind (.note _)
    intro _
    obtain ⟨native, hnative, hnative'⟩ | ⟨params, body, body', hbody, hbody', hsame⟩ :=
      Method.Code.erase_cases hcode
    · rw [Method.params, Method.params, hnative, hnative']
      exact henter _ _ _ _ _ _ (Frame.erase_eq_iff.2 ⟨rfl, rfl, rfl⟩) hsite rfl
    · rw [Method.params, Method.params, hbody, hbody']
      exact henter _ _ _ _ _ _ (Frame.erase_eq_iff.2 ⟨rfl, rfl, rfl⟩) hsite
        (congrArg Task.body hsame)

theorem writeLines_agrees (hsite : site.map Node.kind = site'.map Node.kind) (lines : List String) :
    Agree (writeLines site lines) (writeLines site' lines) := by
  induction lines with
  | nil => exact .pure ()
  | cons line rest ih =>
    apply Agree.bind (.write _)
    intro refusal
    cases refusal with
    | some reason => exact .raise rfl hsite
    | none => exact ih

theorem runNative_agrees (henter : enter.Agrees) (hsite : site.map Node.kind = site'.map Node.kind)
    (args : List Ref) (native : Native) :
    Agree (runNative enter site args native) (runNative enter site' args native) := by
  match native with
  | .new =>
    apply Agree.getWorld
    intro world world' hworld
    apply Agree.getFrame
    intro frame frame' hframe
    obtain ⟨-, hself, -⟩ := Frame.erase_eq_iff.1 hframe
    dsimp only
    rw [hself, World.asClass?_eq hworld, World.inspect_eq hworld]
    split
    next => exact .raise rfl hsite
    next id _ =>
      refine .bind (.grow fun first second hsame => ⟨?_, ?_⟩) fun made => ?_
      · exact congrArg (fun objects : Array Object => Ref.mk objects.size) (World.objects_eq hsame)
      · exact congrArg (fun world => (world.newObject id).2) hsame
      · exact .bind (send_agrees henter rfl _ _ _) fun _ => .pure made
  | .setUp => exact .pure _
  | .puts =>
    apply Agree.getWorld
    intro world world' hworld
    rw [funext (World.displayText_eq hworld)]
    exact .bind (writeLines_agrees hsite _) fun _ => .pure _
  | .host .nothing => exact .pure _
  | .host .receiver =>
    apply Agree.getFrame
    intro frame frame' hframe
    rw [(Frame.erase_eq_iff.1 hframe).2.1]
    exact .pure _
  | .host .lastArgument => exact .pure _
  | .host (.fail text marks) => exact .raise rfl hsite
  | .host (.forward message note) =>
    apply Agree.getFrame
    intro frame frame' hframe
    rw [(Frame.erase_eq_iff.1 hframe).2.1]
    exact .annotating (send_agrees henter rfl _ _ _) note

/-! ### Definitions -/

/-- A node that is not shaped as its rule needs is the same fault in all places. -/
theorem malformed_agrees {α : Type} (node : Node) :
    Agree (raise (.malformed node) (some node) : Eval α)
      (raise (.malformed node.erase) (some node.erase)) :=
  .raise (Fault.erase_malformed node) (congrArg some node.kind_erase.symm)

theorem paramNames_agrees (node : Node) (listed : List Child) :
    Agree (paramNames node listed) (paramNames node.erase (Child.eraseAll listed)) := by
  induction listed with
  | nil => exact .pure _
  | cons first rest ih =>
    cases first with
    | node param =>
      have hkind : (param.mapPos fun _ => .unknown).kind = param.kind := param.kind_mapPos _
      have hname : (param.mapPos fun _ => .unknown).symbolAt? 0 = param.symbolAt? 0 :=
        param.symbolAt?_mapPos_zero _
      rw [Child.eraseAll, Child.mapPosAll, Child.mapPos]
      unfold paramNames
      dsimp only
      rw [hkind, hname]
      refine .guard (Fault.erase_malformed node) (congrArg some node.kind_erase.symm) ?_
      split
      next => exact malformed_agrees param
      next => exact .bind ih fun found => .pure _
    | _ => exact malformed_agrees node

theorem openClass_agrees (node : Node) (owner : ClassId) (name : String)
    (superclass : Option ClassId) :
    Agree (openClass node owner name superclass) (openClass node.erase owner name superclass) := by
  have hsite : (some node).map Node.kind = (some node.erase).map Node.kind :=
    congrArg some node.kind_erase.symm
  apply Agree.getWorld
  intro world world' hworld
  dsimp only
  rw [World.qualify_eq hworld, (World.classRecord_eq hworld owner).2.2.1]
  split
  next existing _ =>
    rw [World.asClass?_eq hworld]
    split
    next => exact .raise rfl hsite
    next id _ =>
      rw [(World.classRecord_eq hworld id).1, (World.classRecord_eq hworld id).2.1]
      exact .guard rfl hsite (.bind (.note _) fun _ => .pure _)
  next =>
    refine .bind (.grow fun first second hsame => ⟨?_, ?_⟩) fun id => ?_
    · rw [← World.fst_newClass_erase first, hsame, World.fst_newClass_erase]
    · rw [World.erase_newClass, hsame, World.erase_newClass]
    · apply Agree.getWorld
      intro grown grown' hgrown
      obtain ⟨hname, -, -, -⟩ := World.classRecord_eq hgrown (superclass.getD .objectClass)
      obtain ⟨-, -, -, hface⟩ := World.classRecord_eq hgrown id
      rw [hname, hface]
      refine .bind (.setWorld ?_) fun _ => .bind (.note _) fun _ => .pure _
      rw [World.erase_setConstant, hgrown, World.erase_setConstant]

theorem defineMethod_agrees (name : String) (params : List String) {body body' : Option Node}
    (hbody : body.map Node.erase = body'.map Node.erase) :
    Agree (defineMethod name params body) (defineMethod name params body') := by
  apply Agree.getWorld
  intro world world' hworld
  apply Agree.getFrame
  intro frame frame' hframe
  obtain ⟨-, hself, -⟩ := Frame.erase_eq_iff.1 hframe
  have htarget : definitionTarget world frame.self = definitionTarget world' frame'.self := by
    rw [definitionTarget, definitionTarget, hself, World.asClass?_eq hworld,
      World.classOf_eq hworld]
  dsimp only
  rw [htarget, (World.classRecord_eq hworld _).1]
  refine .bind (.setWorld ?_) fun _ => .bind (.note _) fun _ => .leave _
  rw [World.erase_setMethod, hworld, World.erase_setMethod]
  exact congrArg (fun body => world'.erase.setMethod _ name (.interpreted params body)) hbody

/-! ### Nodes -/

/-- A node is evaluated as it is without its places. -/
def NodeAgrees (enter : Enter) (node : Node) : Prop :=
  Agree (evalNode enter node) (evalNode enter node.erase)

/-- All but the last of a sequence of children are followed by the others. -/
theorem evalSequence_cons (owner : Node) (child : Child) {rest : List Child} (h : rest ≠ []) :
    evalSequence enter owner (child :: rest) = (do
      let _ ← evalPart enter owner child
      evalSequence enter owner rest) := by
  rw [evalSequence]
  exact h

section Parts

variable {child : Child} {children : List Child}

theorem evalPart_agrees (ih : child.Satisfies (NodeAgrees enter)) (owner : Node) :
    Agree (evalPart enter owner child) (evalPart enter owner.erase child.erase) := by
  cases child with
  | node inner =>
    rw [Child.erase, Child.mapPos, evalPart, evalPart]
    exact ih
  | absent => exact .leave .nil
  | _ => exact malformed_agrees owner

theorem evalSequence_agrees (ih : ∀ child ∈ children, child.Satisfies (NodeAgrees enter))
    (owner : Node) :
    Agree (evalSequence enter owner children)
      (evalSequence enter owner.erase (Child.eraseAll children)) := by
  induction children with
  | nil => exact .leave .nil
  | cons first rest rec =>
    have hfirst := evalPart_agrees (ih first List.mem_cons_self) owner
    have hrest := rec fun child hchild => ih child (List.mem_cons_of_mem _ hchild)
    cases rest with
    | nil =>
      rw [Child.eraseAll, Child.mapPosAll, Child.mapPosAll, evalSequence, evalSequence]
      exact hfirst
    | cons second more =>
      have hmore : Child.eraseAll (second :: more) ≠ [] := List.cons_ne_nil _ _
      rw [evalSequence_cons owner first (List.cons_ne_nil second more), Child.eraseAll,
        Child.mapPosAll, evalSequence_cons owner.erase _ hmore]
      exact .bind hfirst fun _ => hrest

theorem evalArgs_agrees (ih : ∀ child ∈ children, child.Satisfies (NodeAgrees enter))
    (owner : Node) :
    Agree (evalArgs enter owner children)
      (evalArgs enter owner.erase (Child.eraseAll children)) := by
  induction children with
  | nil => exact .pure []
  | cons first rest rec =>
    cases first with
    | node inner =>
      have hinner : NodeAgrees enter inner := ih _ List.mem_cons_self
      have hrest := rec fun child hchild => ih child (List.mem_cons_of_mem _ hchild)
      rw [Child.eraseAll, Child.mapPosAll, Child.mapPos, evalArgs, evalArgs]
      exact .bind hinner fun value => .bind hrest fun values => .pure _
    | _ => exact malformed_agrees owner

theorem evalReceiver_agrees (ih : child.Satisfies (NodeAgrees enter)) :
    Agree (evalReceiver enter child) (evalReceiver enter child.erase) := by
  cases child with
  | node inner =>
    rw [Child.erase, Child.mapPos, evalReceiver, evalReceiver]
    exact ih
  | _ =>
    apply Agree.getFrame
    intro frame frame' hframe
    rw [(Frame.erase_eq_iff.1 hframe).2.1]
    exact .pure _

theorem evalSuperclass_agrees (ih : child.Satisfies (NodeAgrees enter)) :
    Agree (evalSuperclass enter child) (evalSuperclass enter child.erase) := by
  cases child with
  | node inner =>
    rw [Child.erase, Child.mapPos, evalSuperclass, evalSuperclass]
    apply Agree.bind ih
    intro value
    apply Agree.getWorld
    intro world world' hworld
    rw [World.asClass?_eq hworld, World.inspect_eq hworld]
    split
    next => exact .pure _
    next => exact .raise rfl (congrArg some inner.kind_erase.symm)
  | _ => exact .pure _

theorem evalConstPath_agrees (ih : ∀ child ∈ children, child.Satisfies (NodeAgrees enter))
    (owner : Node) :
    Agree (evalConstPath enter owner children)
      (evalConstPath enter owner.erase (Child.eraseAll children)) := by
  match children with
  | .absent :: .sym name :: _ => exact .pure _
  | .node inner :: .sym name :: _ =>
    have hinner : NodeAgrees enter inner := ih _ List.mem_cons_self
    rw [Child.eraseAll, Child.mapPosAll, Child.mapPosAll, Child.mapPos, Child.mapPos, evalConstPath,
      evalConstPath]
    apply Agree.bind hinner
    intro value
    apply Agree.getWorld
    intro world world' hworld
    rw [World.asClass?_eq hworld, World.inspect_eq hworld]
    split
    next => exact .pure _
    next => exact .raise rfl (congrArg some inner.kind_erase.symm)
  | [] | .sym _ :: _ | .str _ :: _ | .int _ :: _ | .float _ :: _ | .foreign _ :: _ =>
    exact malformed_agrees owner
  | [.absent] | .absent :: .absent :: _ | .absent :: .node _ :: _ | .absent :: .str _ :: _
  | .absent :: .int _ :: _ | .absent :: .float _ :: _ | .absent :: .foreign _ :: _
  | [.node _] | .node _ :: .absent :: _ | .node _ :: .node _ :: _ | .node _ :: .str _ :: _
  | .node _ :: .int _ :: _ | .node _ :: .float _ :: _ | .node _ :: .foreign _ :: _ =>
    exact malformed_agrees owner

end Parts

/-- One case for each kind of node. A child that does not fit stays one without places, because
rules look at what children are and at their kinds only. -/
theorem evalNode_agrees (henter : enter.Agrees) (node : Node) : NodeAgrees enter node := by
  refine (Node.induction (fun kind children pos below => ?_) node).1
  have ih : ∀ child ∈ children, child.Satisfies (NodeAgrees enter) :=
    fun child hchild => (below child hchild).mono fun _ => And.left
  -- All kinds have the same fault for children that do not fit.
  have hmalformed : Agree
      (raise (.malformed (.mk kind children pos)) (some (.mk kind children pos)) : Eval Ref) _ :=
    malformed_agrees (.mk kind children pos)
  have hsite : (some (Node.mk kind children pos)).map Node.kind =
      (some (Node.mk kind children pos).erase).map Node.kind := rfl
  unfold NodeAgrees
  match kind with
  | .str =>
    match children with
    | .str text :: _ =>
      refine .bind (.grow fun first second hsame => ⟨?_, ?_⟩) fun made => .leave _
      · exact congrArg (fun objects : Array Object => Ref.mk objects.size) (World.objects_eq hsame)
      · exact congrArg (fun world => (world.newString text).2) hsame
    | [] | .absent :: _ | .node _ :: _ | .sym _ :: _ | .int _ :: _ | .float _ :: _
    | .foreign _ :: _ => exact hmalformed
  | .begin =>
    rw [Node.erase, Node.mapPos, evalNode, evalNode]
    exact evalSequence_agrees ih _
  | .localAssign =>
    match children with
    | .sym name :: value :: _ =>
      apply Agree.bind (evalPart_agrees (ih value (by simp)) _)
      intro result
      exact .bind (.assign name result) fun _ => .leave _
    | [] | [.sym _] | .absent :: _ | .node _ :: _ | .str _ :: _ | .int _ :: _ | .float _ :: _
    | .foreign _ :: _ => exact hmalformed
  | .localRef =>
    match children with
    | .sym name :: _ =>
      apply Agree.getFrame
      intro frame frame' hframe
      rw [(Frame.erase_eq_iff.1 hframe).2.2]
      split
      next => exact .leave _
      next => exact .raise rfl hsite
    | [] | .absent :: _ | .node _ :: _ | .str _ :: _ | .int _ :: _ | .float _ :: _
    | .foreign _ :: _ => exact hmalformed
  | .ivarAssign =>
    match children with
    | .sym name :: value :: _ =>
      apply Agree.bind (evalPart_agrees (ih value (by simp)) _)
      intro result
      apply Agree.getFrame
      intro frame frame' hframe
      apply Agree.getWorld
      intro world world' hworld
      refine .bind (.setWorld ?_) fun _ => .leave _
      rw [(Frame.erase_eq_iff.1 hframe).2.1]
      exact congrArg (·.setIvar frame'.self name result) hworld
    | [] | [.sym _] | .absent :: _ | .node _ :: _ | .str _ :: _ | .int _ :: _ | .float _ :: _
    | .foreign _ :: _ => exact hmalformed
  | .ivarRef =>
    match children with
    | .sym name :: _ =>
      apply Agree.getFrame
      intro frame frame' hframe
      apply Agree.getWorld
      intro world world' hworld
      rw [(Frame.erase_eq_iff.1 hframe).2.1, World.getIvar, World.lookupIvar,
        World.object_eq hworld]
      exact .leave _
    | [] | .absent :: _ | .node _ :: _ | .str _ :: _ | .int _ :: _ | .float _ :: _
    | .foreign _ :: _ => exact hmalformed
  | .selfRef =>
    apply Agree.getFrame
    intro frame frame' hframe
    rw [(Frame.erase_eq_iff.1 hframe).2.1]
    exact .leave _
  | .nilRef => exact .leave _
  | .classDef =>
    match children with
    | .node (.mk path steps place) :: superclass :: body :: _ =>
      -- A path of another kind does not fit, and erasing keeps the kind.
      have hsteps := (below _ List.mem_cons_self).2
      cases path with
      | const =>
        rw [Node.erase, Node.mapPos, Child.mapPosAll, Child.mapPosAll, Child.mapPosAll,
          Child.mapPos, Node.mapPos, evalNode, evalNode, Child.isPart_mapPos, Child.isPart_mapPos,
          Child.node?_erase]
        split
        next =>
          apply Agree.bind (evalConstPath_agrees hsteps _)
          rintro ⟨owner, name⟩
          apply Agree.bind (evalSuperclass_agrees (ih superclass (by simp)))
          intro parent
          apply Agree.bind (openClass_agrees _ _ _ _)
          intro id
          apply Agree.getWorld
          intro world world' hworld
          obtain ⟨hname, -, -, hface⟩ := World.classRecord_eq hworld id
          refine henter _ _ _ _ _ _ (Frame.erase_eq_iff.2 ⟨?_, hface, rfl⟩) hsite ?_
          · rw [hname]
          · rw [Task.erase, Task.erase, Node.map_erase_erase]
        next => exact hmalformed
      | _ => exact hmalformed
    | [.node (.mk path _ _)] | [.node (.mk path _ _), _] => cases path <;> exact hmalformed
    | [] | .absent :: _ | .sym _ :: _ | .str _ :: _ | .int _ :: _ | .float _ :: _
    | .foreign _ :: _ => exact hmalformed
  | .methodDef =>
    match children with
    | .sym name :: .node (.mk listing params _) :: body :: _ =>
      cases listing with
      | params =>
        rw [Node.erase, Node.mapPos, Child.mapPosAll, Child.mapPosAll, Child.mapPosAll,
          Child.mapPos, Child.mapPos, Node.mapPos, evalNode, evalNode, Child.isPart_mapPos,
          Child.node?_erase]
        split
        next =>
          refine .bind (paramNames_agrees _ _) fun found => defineMethod_agrees _ _ ?_
          rw [Node.map_erase_erase]
        next => exact hmalformed
      | _ => exact hmalformed
    | [.sym _, .node (.mk listing _ _)] => cases listing <;> exact hmalformed
    | [] | [.sym _] | .sym _ :: .absent :: _ | .sym _ :: .sym _ :: _
    | .sym _ :: .str _ :: _ | .sym _ :: .int _ :: _ | .sym _ :: .float _ :: _
    | .sym _ :: .foreign _ :: _ | .absent :: _ | .node _ :: _ | .str _ :: _ | .int _ :: _
    | .float _ :: _ | .foreign _ :: _ => exact hmalformed
  | .send =>
    match children with
    | receiver :: .sym name :: args =>
      rw [Node.erase, Node.mapPos, Child.mapPosAll, Child.mapPosAll, Child.mapPos, evalNode,
        evalNode, Child.isPart_mapPos]
      split
      next =>
        apply Agree.bind (evalReceiver_agrees (ih receiver (by simp)))
        intro target
        apply Agree.bind (evalArgs_agrees (fun arg harg => ih arg (by simp [harg])) _)
        intro values
        exact send_agrees henter hsite target name values
      next => exact hmalformed
    | [] | [_] | _ :: .absent :: _ | _ :: .node _ :: _ | _ :: .str _ :: _ | _ :: .int _ :: _
    | _ :: .float _ :: _ | _ :: .foreign _ :: _ => exact hmalformed
  | .const =>
    rw [Node.erase, Node.mapPos, evalNode, evalNode]
    apply Agree.bind (evalConstPath_agrees ih _)
    rintro ⟨owner, name⟩
    apply Agree.getWorld
    intro world world' hworld
    dsimp only
    rw [(World.classRecord_eq hworld owner).2.2.1]
    split
    next => exact .leave _
    next =>
      rw [World.qualify_eq hworld, (World.classRecord_eq hworld owner).1]
      exact .raise rfl hsite
  | .int | .float | .sym | .trueRef | .falseRef | .singletonDef | .constAssign | .param | .params
  | .other _ => exact .raise rfl hsite

/-- Nodes that differ in places only are evaluated alike. -/
theorem evalNode_agrees_of_erase (henter : enter.Agrees) {node node' : Node}
    (h : node.erase = node'.erase) : Agree (evalNode enter node) (evalNode enter node') := by
  have hfirst : Agree (evalNode enter node) (evalNode enter node.erase) :=
    evalNode_agrees henter node
  have hsecond : Agree (evalNode enter node') (evalNode enter node'.erase) :=
    evalNode_agrees henter node'
  rw [h] at hfirst
  exact hfirst.trans hsecond.symm

/-! ### Frames -/

theorem runTask_agrees (henter : enter.Agrees) (hsite : site.map Node.kind = site'.map Node.kind)
    {task task' : Task} (h : task.erase = task'.erase) :
    Agree (runTask enter site task) (runTask enter site' task') := by
  match task, task' with
  | .body none, .body none => exact .leave .nil
  | .body (some code), .body (some code') =>
    have hcode : code.erase = code'.erase := Option.some.inj (Task.body.inj h)
    exact evalNode_agrees_of_erase henter hcode
  | .native code args, .native code' args' =>
    obtain ⟨rfl, rfl⟩ := Task.native.inj h
    exact .bind (runNative_agrees henter hsite args code) fun value => .leave value

theorem perform_agrees (room : Nat) : (perform room).Agrees := by
  induction room with
  | zero =>
    intro frame frame' site site' task task' _ hsite _
    apply Agree.getContext
    intro context context' hcontext
    obtain ⟨-, -, hlimit⟩ := Context.erase_eq_iff.1 hcontext
    rw [hlimit]
    exact .raise rfl hsite
  | succ room ih =>
    intro frame frame' site site' task task' hframe hsite htask
    exact .within hframe (runTask_agrees ih hsite htask)

/-! ### Statements -/

/-- Evaluate statements one after the other; the value is that of the last one, and nil if there are
none. -/
def evalAll (enter : Enter) : List Node → Eval Ref
  | [] => Eval.leave .nil
  | [last] => evalNode enter last
  | statement :: rest => do
    let _ ← evalNode enter statement
    evalAll enter rest

theorem evalAll_cons (statement : Node) {rest : List Node} (h : rest ≠ []) :
    evalAll enter (statement :: rest) = (do
      let _ ← evalNode enter statement
      evalAll enter rest) := by
  rw [evalAll]
  exact h

theorem evalSequence_map_node (owner : Node) (nodes : List Node) :
    evalSequence enter owner (nodes.map .node) = evalAll enter nodes := by
  induction nodes with
  | nil => rw [List.map_nil, evalSequence, evalAll]
  | cons first rest ih =>
    cases rest with
    | nil => rw [List.map_cons, List.map_nil, evalSequence, evalPart, evalAll]
    | cons second more =>
      have hmore : (second :: more).map Child.node ≠ [] := List.cons_ne_nil _ _
      rw [List.map_cons, evalSequence_cons owner (.node first) hmore, evalPart, ih,
        evalAll_cons first (List.cons_ne_nil second more)]

/-- The tree of a program is evaluated by statements. -/
theorem evalTree_wrapBody (room : Nat) (nodes : List Node) :
    evalTree room (Parse.wrapBody nodes) = evalAll (perform room) nodes := by
  match nodes with
  | [] => rfl
  | [statement] => rfl
  | first :: second :: rest =>
    rw [Parse.wrapBody, evalTree, evalNode, evalSequence_map_node]
    simp

theorem evalAll_agrees (henter : enter.Agrees) {nodes nodes' : List Node}
    (h : nodes.map Node.erase = nodes'.map Node.erase) :
    Agree (evalAll enter nodes) (evalAll enter nodes') := by
  induction nodes generalizing nodes' with
  | nil =>
    obtain rfl : nodes' = [] := List.map_eq_nil_iff.1 h.symm
    exact .leave .nil
  | cons first rest ih =>
    obtain ⟨first', rest', rfl, hfirst, hrest⟩ := List.map_eq_cons_iff.1 h.symm
    have hagree := evalNode_agrees_of_erase henter hfirst.symm
    match rest, rest' with
    | [], [] => exact hagree
    | second :: more, second' :: more' =>
      rw [evalAll_cons first (List.cons_ne_nil second more),
        evalAll_cons first' (List.cons_ne_nil second' more')]
      exact .bind hagree fun _ => ih hrest.symm

/-- Statements can be divided, also in front of the first one: then only a result is left behind. -/
theorem evalAll_append_agrees (henter : enter.Agrees) (nodes : List Node) {more more' : List Node}
    (hmore : more ≠ []) (h : more.map Node.erase = more'.map Node.erase) :
    Agree (evalAll enter (nodes ++ more))
      (evalAll enter nodes >>= fun _ => evalAll enter more') := by
  have hagree := evalAll_agrees henter h
  induction nodes with
  | nil =>
    -- The first part does nothing but set the result, which is not compared.
    intro context context' state state' hcontext hstate
    have hleft : state.erase = State.erase { state' with
        frame := { state'.frame with result := some .nil } } := hstate
    exact hagree context context' state _ hcontext hleft
  | cons first rest ih =>
    have hfirst := evalNode_agrees_of_erase henter (rfl : first.erase = first.erase)
    rw [List.cons_append, evalAll_cons first (List.append_ne_nil_of_right_ne_nil rest hmore)]
    cases rest with
    | nil => exact .bind hfirst fun _ => hagree
    | cons second others =>
      have hassoc : (evalAll enter (first :: second :: others) >>= fun _ => evalAll enter more') =
          evalNode enter first >>= fun _ =>
            evalAll enter (second :: others) >>= fun _ => evalAll enter more' := by
        rw [evalAll_cons first (List.cons_ne_nil second others), Eval.bind_assoc]
      rw [hassoc]
      exact .bind hfirst fun _ => ih

/-- If the first part of a program has a value, the whole has the outcome of the second part in the
state that the first one leaves. -/
theorem evalTree_append (room : Nat) (nodes : List Node) {more more' : List Node}
    (hmore : more ≠ []) (h : more.map Node.erase = more'.map Node.erase)
    {context first second : Context} {state left : State} {value : Ref}
    (hfirst : context.erase = first.erase) (hsecond : first.erase = second.erase)
    (hrun : evalTree room (Parse.wrapBody nodes) first state = (.ok value, left)) :
    SameOutcome (evalTree room (Parse.wrapBody (nodes ++ more)) context state)
      (evalTree room (Parse.wrapBody more') second left) := by
  have henter := perform_agrees room
  have hwhole := evalAll_append_agrees henter nodes hmore h context first state state hfirst rfl
  have hrest := evalAll_agrees henter (rfl : more'.map Node.erase = _) first second left left
    hsecond rfl
  rw [evalTree_wrapBody] at hrun
  rw [bind_apply, hrun] at hwhole
  rw [evalTree_wrapBody, evalTree_wrapBody]
  exact hwhole.trans hrest

end Evaluation

end Garnet
