import Garnet.Proofs.Interpreter.Origin

/-! # Class statements

A class statement begins with its head: the namespace, the name and the superclass. Then the class
is looked up or made, and last a frame is entered for the body. A statement that fails before its
body is entered leaves behind what its head has left, with one exception: if there is no room for
the frame, then the class has been made already.
-/

namespace Garnet

open Evaluation

/-- The body of a class statement, if it has one. -/
def Node.classBody? : Node → Option Node
  | .mk _ (_ :: _ :: body :: _) _ => body.node?
  | _ => none

/-- A world in which a class is bound to a constant of its namespace. If the constant is bound
already, nothing is done, and otherwise one new class is made. -/
def World.withClass (world : World) (owner : ClassId) (name : String) (above : Option ClassId) :
    World :=
  match (world.classRecord owner).constants.get? name with
  | some _ => world
  | none => world.defineClass owner name (above.getD .objectClass)

namespace Evaluation

/-- Evaluate the head of a class statement: its namespace and its superclass. -/
def evalHead (enter : Enter) (node : Node) : Eval ((ClassId × String) × Option ClassId) :=
  match node.children with
  | .node (.mk .const steps place) :: superclass :: body :: _ =>
    if superclass.isPart && body.isPart then do
      let found ← evalConstPath enter (.mk .const steps place) steps
      let above ← evalSuperclass enter superclass
      pure (found, above)
    else raise (.malformed node) (some node)
  | _ => raise (.malformed node) (some node)

/-- Evaluate the head of a class statement, and look its class up or make it. -/
def evalOpening (enter : Enter) (node : Node) : Eval ClassId := do
  let (found, above) ← evalHead enter node
  openClass node found.1 found.2 above

/-- The children of a node begin as those of a class statement: with a path for the name, a
superclass and a body. -/
def HasClassParts (node : Node) : Prop :=
  ∃ steps place superclass body more,
    node.children = .node (.mk .const steps place) :: superclass :: body :: more

section Malformed

variable (enter : Enter) {node : Node} (hno : ¬ HasClassParts node)

include hno

theorem evalHead_of_not : evalHead enter node = raise (.malformed node) (some node) := by
  unfold evalHead
  split
  next hchildren => exact absurd ⟨_, _, _, _, _, hchildren⟩ hno
  next => rfl

theorem evalNode_of_not (hkind : node.kind = .classDef) :
    evalNode enter node = raise (.malformed node) (some node) := by
  obtain ⟨kind, children, pos⟩ := node
  obtain rfl : kind = .classDef := hkind
  unfold evalNode
  dsimp only
  split
  next => exact absurd ⟨_, _, _, _, _, rfl⟩ hno
  next => rfl

end Malformed

/-- A class statement is its head, the class and the frame for its body. -/
theorem evalNode_classDef (enter : Enter) {node : Node} (hkind : node.kind = .classDef) :
    evalNode enter node = (evalOpening enter node >>= fun id => Eval.getWorld >>= fun world =>
      enter
        { label := "<class:" ++ (world.classRecord id).name ++ ">"
          self := (world.classRecord id).face
          pos := node.pos }
        (some node) (.body node.classBody?)) := by
  by_cases hshape : HasClassParts node
  · obtain ⟨kind, children, pos⟩ := node
    obtain rfl : kind = .classDef := hkind
    obtain ⟨steps, place, superclass, body, more, hchildren⟩ := hshape
    obtain rfl : children = _ := hchildren
    unfold evalNode evalOpening evalHead
    dsimp only [Node.children]
    by_cases hparts : (superclass.isPart && body.isPart) = true
    · rw [if_pos hparts, if_pos hparts]
      simp only [Eval.bind_assoc]
      rfl
    · rw [if_neg hparts, if_neg hparts]
      rfl
  · rw [evalNode_of_not enter hshape hkind, evalOpening, evalHead_of_not enter hshape]
    rfl

end Evaluation

namespace Interpreter

variable {interp : Interpreter} {node : Node}

/-- To look a class up or to make it leaves nothing behind if it fails. -/
theorem exec_openClass (interp : Interpreter) (node : Node) (owner : ClassId) (name : String)
    (above : Option ClassId) :
    (∃ error, interp.exec (openClass node owner name above) = (.error error, interp)) ∨
      ∃ id opened, interp.exec (openClass node owner name above) = (.ok id, opened) ∧
        opened.world = interp.world.withClass owner name above := by
  rw [openClass, exec_getWorld]
  dsimp only
  split
  next existing hexisting =>
    split
    next => exact .inl ⟨_, rfl⟩
    next id hid =>
      split
      next => exact .inl ⟨_, rfl⟩
      next =>
        refine .inr ⟨_, _, rfl, ?_⟩
        rw [World.withClass, hexisting]
  next hfresh =>
    refine .inr ⟨_, _, rfl, ?_⟩
    rw [World.withClass, hfresh]
    rfl

theorem exec_evalOpening_of_head {head : (ClassId × String) × Option ClassId} {left : Interpreter}
    (h : interp.exec (evalHead interp.enters node) = (.ok head, left)) :
    interp.exec (evalOpening interp.enters node) =
      left.exec (openClass node head.1.1 head.1.2 head.2) := by
  rw [evalOpening, exec_bind, h]

/-- A statement that gets no class leaves behind what its head has left. -/
theorem exec_evalOpening (interp : Interpreter) (node : Node) :
    (∃ error, interp.exec (evalOpening interp.enters node) =
      (.error error, (interp.exec (evalHead interp.enters node)).2)) ∨
      ∃ owner name above head id opened,
        interp.exec (evalHead interp.enters node) = (.ok ((owner, name), above), head) ∧
          interp.exec (evalOpening interp.enters node) = (.ok id, opened) ∧
            opened.world = head.world.withClass owner name above := by
  rcases hhead : interp.exec (evalHead interp.enters node) with
    ⟨error | ⟨⟨owner, name⟩, above⟩, head⟩
  · refine .inl ⟨error, ?_⟩
    rw [evalOpening, exec_bind, hhead]
  · rw [exec_evalOpening_of_head hhead]
    rcases exec_openClass head node owner name above with
      ⟨error, herror⟩ | ⟨id, opened, hopen, hworld⟩
    · exact .inl ⟨error, herror⟩
    · exact .inr ⟨owner, name, above, head, id, opened, rfl, hopen, hworld⟩

/-- The evaluation of a class statement comes to run its body in a frame that was entered for it. -/
def EntersBody (interp : Interpreter) (node : Node) : Prop :=
  ∃ opened frame task inner, Begins interp (.node node) opened (.entry frame (some node) task) ∧
    Begins opened (.entry frame (some node) task) inner (.task (some node) task)

/-- A head that ends with a value has found a namespace and then a superclass. -/
theorem exec_evalHead_eq_ok {left : Interpreter} {head : (ClassId × String) × Option ClassId}
    (h : interp.exec (evalHead interp.enters node) = (.ok head, left)) :
    ∃ steps place superclass body more mid,
      node.children = .node (.mk .const steps place) :: superclass :: body :: more ∧
        (superclass.isPart && body.isPart) = true ∧
        interp.exec (evalConstPath interp.enters (.mk .const steps place) steps) =
          (.ok head.1, mid) ∧
        mid.exec (evalSuperclass mid.enters superclass) = (.ok head.2, left) := by
  unfold evalHead at h
  split at h
  next steps place superclass body more hchildren =>
    split at h
    next hparts =>
      rw [exec_bind] at h
      rcases hfound : interp.exec (evalConstPath interp.enters (.mk .const steps place) steps) with
        ⟨error | found, mid⟩
      · rw [hfound] at h
        cases h
      · rw [hfound] at h
        dsimp only at h
        rw [exec_bind, ← enters_of_exec hfound] at h
        rcases hparent : mid.exec (evalSuperclass mid.enters superclass) with ⟨error | above, last⟩
        · rw [hparent] at h
          cases h
        · rw [hparent] at h
          cases h
          exact ⟨steps, place, superclass, body, more, mid, hchildren, hparts, hfound, hparent⟩
    next => cases h
  next => cases h

theorem exec_evalHead {mid left : Interpreter} {steps more : List Child} {place : Pos}
    {superclass body : Child} {found : ClassId × String} {above : Option ClassId}
    (hchildren : node.children = .node (.mk .const steps place) :: superclass :: body :: more)
    (hparts : (superclass.isPart && body.isPart) = true)
    (hfound : interp.exec (evalConstPath interp.enters (.mk .const steps place) steps) =
      (.ok found, mid))
    (hparent : mid.exec (evalSuperclass mid.enters superclass) = (.ok above, left)) :
    interp.exec (evalHead interp.enters node) = (.ok (found, above), left) := by
  rw [evalHead, hchildren]
  dsimp only
  rw [if_pos hparts, exec_bind, hfound]
  dsimp only
  rw [exec_bind, ← enters_of_exec hfound, hparent]
  rfl

/-- A body is entered if the class was found or made and there is room for a frame. -/
theorem entersBody_iff (hkind : node.kind = .classDef) : interp.EntersBody node ↔
    0 < interp.room ∧
      ∃ id opened, interp.exec (evalOpening interp.enters node) = (.ok id, opened) := by
  constructor
  · rintro ⟨opened, frame, task, inner, hentry, henter⟩
    cases hentry with
    | classBody hpath hnode hparts hfound hparent hopen =>
      subst hpath
      have hchildren := congrArg Node.children hnode
      have hhead := exec_evalHead hchildren hparts hfound hparent
      cases henter with
      | enter hroom =>
        rw [room_of_exec hopen, room_of_exec hparent, room_of_exec hfound] at hroom
        exact ⟨hroom, _, _, (exec_evalOpening_of_head hhead).trans hopen⟩
  · rintro ⟨hroom, id, opened, hopening⟩
    obtain ⟨kind, children, pos⟩ := node
    obtain rfl : kind = .classDef := hkind
    rcases hhead : interp.exec (evalHead interp.enters (.mk .classDef children pos)) with
      ⟨error | head, last⟩
    · rw [evalOpening, exec_bind, hhead] at hopening
      cases hopening
    · rw [exec_evalOpening_of_head hhead] at hopening
      obtain ⟨steps, place, superclass, body, more, mid, hchildren, hparts, hfound, hparent⟩ :=
        exec_evalHead_eq_ok hhead
      obtain rfl : children = _ := hchildren
      refine ⟨_, _, _, _, .classBody rfl rfl hparts hfound hparent hopening, .enter ?_⟩
      rw [room_of_exec hopening, room_of_exec hhead]
      exact hroom

/-- A class statement that fails before its body is entered leaves behind what its head has left.
Only if it fails because there is no room for the frame of the body, then the class has been looked
up or made before: an existing class is as it was, and otherwise one class is made and bound, and
nothing else is changed in the world. -/
theorem interpret_class_unentered (hkind : node.kind = .classDef) {error : RuntimeError}
    {after : Interpreter} (hrun : interp.interpret (some node) = (.error error, after))
    (hbody : ¬ interp.EntersBody node) :
    after = (interp.exec (evalHead interp.enters node)).2 ∨
      interp.room = 0 ∧ error.fault = .stackTooDeep interp.limit ∧
        ∃ owner name above head,
          interp.exec (evalHead interp.enters node) = (.ok ((owner, name), above), head) ∧
            after.world = head.world.withClass owner name above := by
  have hnode : interp.exec (evalNode interp.enters node) = (.error error, after) := hrun
  rw [evalNode_classDef _ hkind, exec_bind] at hnode
  rcases interp.exec_evalOpening node with ⟨failed, hopening⟩ |
    ⟨owner, name, above, head, id, opened, hhead, hopening, hworld⟩
  · rw [hopening] at hnode
    cases hnode
    exact .inl rfl
  · have hroom : interp.room = 0 := by
      refine Nat.eq_zero_of_not_pos fun hpos => hbody ?_
      exact (entersBody_iff hkind).2 ⟨hpos, id, opened, hopening⟩
    have hfull : opened.room = 0 := (room_of_exec hopening).trans hroom
    rw [hopening] at hnode
    dsimp only at hnode
    rw [exec_getWorld, ← enters_of_exec hopening, exec_enters_full hfull] at hnode
    have hlimit : opened.limit = interp.limit := limit_of_exec hopening
    cases hnode
    exact .inr ⟨hroom, congrArg Fault.stackTooDeep hlimit, owner, name, above, head, hhead, hworld⟩

/-- A class statement without a body at the beginning of a text. -/
def emptyClass (name : String) (superclass : Child) : Node :=
  .mk .classDef [.node (.mk .const [.absent, .sym name] ⟨1, 7⟩), superclass, .absent] ⟨1, 1⟩

/-- A class that exists is opened with another superclass than it has. -/
theorem interpret_class_unentered_mismatch :
    let node := emptyClass "String" (.node (.mk .const [.absent, .sym "Class"] ⟨1, 16⟩))
    node.kind = .classDef ∧ ¬ (new 0 {}).EntersBody node ∧
      ∃ error after, (new 0 {}).interpret (some node) = (.error error, after) ∧
        error.fault = .superclassMismatch "String" "String" ∧
        after = ((new 0 {}).exec (evalHead (new 0 {}).enters node)).2 := by
  intro node
  have hbody : ¬ (new 0 {}).EntersBody node := by
    rw [entersBody_iff rfl]
    rintro ⟨-, id, opened, hopening⟩
    have hfails : ((new 0 {}).exec (evalOpening (new 0 {}).enters node)).1.isOk = false := by decide
    rw [hopening] at hfails
    cases hfails
  obtain ⟨error, after, hrun, hfault⟩ : ∃ error after,
      (new 0 {}).interpret (some node) = (.error error, after) ∧
        error.fault = .superclassMismatch "String" "String" := ⟨_, _, rfl, rfl⟩
  rcases interpret_class_unentered rfl hrun hbody with hsame | ⟨hroom, -⟩
  · exact ⟨rfl, hbody, error, after, hrun, hfault, hsame⟩
  · exact absurd hroom (by decide)

/-- If there is no room for the frame of its body, a statement makes the class nevertheless. -/
theorem interpret_class_full :
    let node := emptyClass "A" .absent
    let head := ((new 1 {}).exec (evalHead (new 1 {}).enters node)).2
    ∃ error after, (new 1 {}).interpret (some node) = (.error error, after) ∧
      error.fault = .stackTooDeep 1 ∧ node.kind = .classDef ∧ ¬ (new 1 {}).EntersBody node ∧
      head.world.classes.size = 4 ∧ after.world.classes.size = 5 ∧
      (head.world.classRecord .objectClass).constants.get? "A" = none ∧
      (after.world.classRecord .objectClass).constants.get? "A" = some ⟨6⟩ := by
  intro node head
  have hbody : ¬ (new 1 {}).EntersBody node := by
    rw [entersBody_iff rfl]
    exact fun h => absurd h.1 (by decide)
  exact ⟨_, _, rfl, rfl, rfl, hbody, by decide, by decide, by decide, by decide⟩

end Interpreter

end Garnet
