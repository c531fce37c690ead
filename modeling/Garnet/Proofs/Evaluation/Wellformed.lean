import Garnet.Proofs.Evaluation.Logic
import Garnet.Proofs.Object.World
import Garnet.Proofs.Tree.Scope

/-! # Well-formed trees do not go wrong

A tree that is well shaped and reads only known names is evaluated without two sorts of faults: no
node has children that its rule cannot use, and no local variable is missing. The invariant has two
parts. All method bodies of the world are well formed, so that a call finds what it needs; and the
names that are known at a place of the tree are bound in the current frame.
-/

namespace Garnet

/-- A body that can run in a frame with the given names. -/
structure WellFormedBody (names : List String) (body : Option Node) : Prop where
  optional : (Child.ofNode? body).isOptional = true
  wellShaped : (Child.ofNode? body).wellShaped = true
  known : (Child.ofNode? body).Scoped names

theorem WellFormedBody.ofChild {names : List String} {child : Child}
    (hpart : child.isOptional = true) (hshape : child.wellShaped = true)
    (hscope : child.Scoped names) : WellFormedBody names child.node? := by
  have hchild : Child.ofNode? child.node? = child := by
    cases child with
    | absent => rfl
    | node inner => rfl
    | _ => exact absurd hpart (by simp [Child.isOptional, Child.isTerm])
  refine ⟨?_, ?_, ?_⟩
  · rw [hchild]
    exact hpart
  · rw [hchild]
    exact hshape
  · rw [hchild]
    exact hscope

/-- A fault that well-formed programs can have. If it is that there is no rule for a node, the node
is of one of the kinds that programs may have and the evaluator does not know. -/
def RuntimeError.Expected (error : RuntimeError) : Prop :=
  match error.fault with
  | .malformed _ => False
  | .unboundLocal _ => False
  | .unsupported kind => kind ∈ Node.Kind.unsupported ∧ error.nodeKind = some kind
  | _ => True

/-- All given names are bound in a frame. -/
def Frame.Binds (frame : Frame) (names : List String) : Prop :=
  ∀ name ∈ names, frame.locals.contains name = true

namespace Evaluation

/-- The invariant of an evaluation at a place where the given names are known. -/
structure Sound (names : List String) (state : State) : Prop where
  bodies : state.world.AllBodies WellFormedBody
  binds : state.frame.Binds names

/-- What is left of the invariant after a fault. -/
structure Aborted (error : RuntimeError) (state : State) : Prop where
  bodies : state.world.AllBodies WellFormedBody
  expected : error.Expected

/-- A task that can run in a frame: a well-formed body whose names the frame binds, or a native
method. -/
def Task.FitsIn (frame : Frame) : Task → Prop
  | .body code => ∃ names, frame.Binds names ∧ WellFormedBody names code
  | .native _ _ => True

/-- Entering a frame for a task that fits keeps the invariant of the frame below. -/
def Enter.Sound (enter : Enter) : Prop :=
  ∀ ⦃frame site task context state names⦄, Task.FitsIn frame task → Evaluation.Sound names state →
    (enter frame site task).Ends context state (fun _ => Evaluation.Sound names) Aborted

namespace Sound

variable {names more : List String} {state : State}

theorem weaken (h : Sound more state) (hsub : names ⊆ more) : Sound names state :=
  ⟨h.bodies, fun name hname => h.binds name (hsub hname)⟩

theorem withWorld (h : Sound names state) {world : World}
    (hworld : world.AllBodies WellFormedBody) : Sound names { state with world } :=
  ⟨hworld, h.binds⟩

/-- The result of a frame is not part of the invariant. -/
theorem leave (h : Sound names state) (value : Ref) :
    Sound names { state with frame := { state.frame with result := some value } } :=
  ⟨h.bodies, h.binds⟩

theorem assign (h : Sound names state) (name : String) (value : Ref) :
    Sound (name :: names) { state with
      frame := { state.frame with locals := state.frame.locals.insert name value } } := by
  refine ⟨h.bodies, fun other hother => ?_⟩
  rw [Table.contains_insert]
  rcases List.mem_cons.1 hother with rfl | hother
  · exact .inl rfl
  · exact .inr (h.binds other hother)

theorem aborted (h : Sound names state) {error : RuntimeError} (hexpected : error.Expected) :
    Aborted error state :=
  ⟨h.bodies, hexpected⟩

end Sound

open Eval

variable {context : Context} {state : State} {names : List String}

theorem expected_ofHost (frame : Frame) (text : String) (marks : List Fault.Mark)
    (behind : Option Fault.Shown) (site : Option Node) :
    (errorAt context frame (.ofHost text marks behind) site).Expected := by
  unfold Fault.ofHost
  split
  · trivial
  · split
    · trivial
    · trivial

/-! ### Sends -/

/-- A call binds every parameter, whatever the number of arguments. -/
theorem contains_bindParams {params : List String} {args : List Ref} {name : String}
    (h : name ∈ params) : (bindParams params args).contains name = true := by
  rw [bindParams, Table.contains_ofList, List.map_fst_zip]
  · exact h
  · simp only [List.length_append, List.length_replicate]
    omega

theorem send_sound {enter : Enter} (henter : enter.Sound) (site : Option Node) (receiver : Ref)
    (name : String) (args : List Ref) (h : Sound names state) :
    (send enter site receiver name args).Ends context state (fun _ => Sound names) Aborted := by
  apply Ends.getWorld
  split
  next => exact .raise (h.aborted trivial)
  next method owner hfound =>
    apply Ends.note
    have hown := World.ownMethod?_of_findMethod hfound
    have hnoted : Sound names { state with log := state.log.push (.send name
        (state.world.inspect receiver) (state.world.classRecord owner).name args.length) } :=
      ⟨h.bodies, h.binds⟩
    split
    next => exact henter trivial hnoted
    next params body hcode =>
      refine henter ⟨params, ?_, h.bodies _ _ _ _ _ hown hcode⟩ hnoted
      intro param hparam
      simp only [Method.params, hcode]
      exact contains_bindParams hparam

theorem writeLines_sound (site : Option Node) (lines : List String) (h : Sound names state) :
    (writeLines site lines).Ends context state (fun _ => Sound names) Aborted := by
  induction lines generalizing state with
  | nil => exact .pure h
  | cons line rest ih =>
    apply Ends.write
    have hwritten : Sound names { state with sink := (state.sink.write (line ++ "\n")).2 } :=
      ⟨h.bodies, h.binds⟩
    split
    next => exact .raise (hwritten.aborted (expected_ofHost ..))
    next => exact ih hwritten

theorem runNative_sound {enter : Enter} (henter : enter.Sound) (site : Option Node)
    (args : List Ref) (native : Native) (h : Sound names state) :
    (runNative enter site args native).Ends context state (fun _ => Sound names) Aborted := by
  match native with
  | .new =>
    refine .getWorld (.getFrame ?_)
    dsimp only
    split
    next => exact .raise (h.aborted trivial)
    next id _ =>
      refine .grow (.bind (send_sound henter none _ _ args (h.withWorld ?_)) ?_)
      · exact h.bodies.newObject id
      · intro _ left hleft
        exact .pure hleft
  | .setUp => exact .pure h
  | .puts =>
    refine .getWorld (.bind (writeLines_sound site _ h) ?_)
    intro _ left hleft
    exact .pure hleft
  | .host .nothing => exact .pure h
  | .host .receiver => exact .getFrame (.pure h)
  | .host .lastArgument => exact .pure h
  | .host (.fail text marks) => exact .raise (h.aborted (expected_ofHost ..))
  | .host (.forward message note) =>
    refine .getFrame (.annotating (send_sound henter none _ _ args h) ?_)
    intro error left hleft
    exact ⟨hleft.bodies, hleft.expected⟩

/-! ### Nodes -/

theorem append_swap (first second known : List String) :
    (first ++ second) ++ known ⊆ second ++ (first ++ known) := by
  intro name hname
  simpa [or_left_comm] using hname

theorem paramNames_sound {listed : List Child} (node : Node) (h : Sound names state)
    (hadmits : Node.Kind.admits .params listed = true)
    (hshape : Child.allWellShaped listed = true) :
    (paramNames node listed).Ends context state
      (fun found left => found = Child.paramNames listed ∧ Sound names left) Aborted := by
  induction listed with
  | nil => exact .pure ⟨rfl, h⟩
  | cons first rest ih =>
    simp only [Node.Kind.admits, List.all_cons, Bool.and_eq_true] at hadmits
    simp only [Child.allWellShaped, Bool.and_eq_true] at hshape
    obtain ⟨children, pos, rfl⟩ := Child.eq_node_of_isOf hadmits.1
    have hparam : Node.Kind.admits .param children = true ∧ _ := Bool.and_eq_true_iff.1 hshape.1
    cases Node.Kind.admitted_of_admits hparam.1 with
    | param name =>
      apply Ends.bind (ih hadmits.2 hshape.2)
      rintro found left ⟨rfl, hleft⟩
      exact .pure ⟨rfl, hleft⟩

theorem openClass_sound (node : Node) (owner : ClassId) (name : String)
    (superclass : Option ClassId) (h : Sound names state) :
    (openClass node owner name superclass).Ends context state (fun _ => Sound names) Aborted := by
  apply Ends.getWorld
  dsimp only
  split
  next =>
    split
    next => exact .raise (h.aborted trivial)
    next id _ =>
      split
      next => exact .raise_bind (h.aborted trivial)
      next => exact .note (.pure ⟨h.bodies, h.binds⟩)
  next =>
    refine .grow (.getWorld (.setWorld (.note (.pure ⟨?_, h.binds⟩))))
    exact (h.bodies.newClass _ _).setConstant _ _ _

theorem defineMethod_sound (name : String) {params : List String} {body : Option Node}
    (hbody : WellFormedBody params body) (h : Sound names state) :
    (defineMethod name params body).Ends context state (fun _ => Sound names) Aborted :=
  .getWorld (.getFrame (.setWorld (.note (.leave ⟨h.bodies.setMethod hbody, h.binds⟩))))

/-- Evaluating a node keeps the invariant and binds what the node assigns. -/
def NodeSound (enter : Enter) (node : Node) : Prop :=
  ∀ ⦃context state names⦄, node.kind.isTerm = true → node.wellShaped = true → node.Scoped names →
    Sound names state →
    (evalNode enter node).Ends context state (fun _ => Sound (node.assigned ++ names)) Aborted

section Parts

variable {enter : Enter} {child : Child} {children : List Child}

theorem evalPart_sound (ih : child.Satisfies (NodeSound enter)) (owner : Node)
    (hpart : child.isOptional = true) (hshape : child.wellShaped = true)
    (hscope : child.Scoped names) (h : Sound names state) :
    (evalPart enter owner child).Ends context state
      (fun _ => Sound (child.assigned ++ names)) Aborted := by
  cases child with
  | node inner =>
    rw [evalPart]
    exact ih hpart hshape hscope h
  | absent =>
    rw [evalPart]
    exact .leave (h.leave .nil)
  | _ =>
    exact absurd hpart (by simp [Child.isOptional, Child.isTerm])

theorem evalSequence_sound (ih : ∀ child ∈ children, child.Satisfies (NodeSound enter))
    (owner : Node) (hterms : ∀ child ∈ children, child.isTerm = true)
    (hshape : Child.allWellShaped children = true) (hscope : Child.AllScoped children names)
    (h : Sound names state) :
    (evalSequence enter owner children).Ends context state
      (fun _ => Sound (Child.allAssigned children ++ names)) Aborted := by
  induction children generalizing state names with
  | nil =>
    rw [evalSequence]
    exact .leave (h.leave .nil)
  | cons first rest rec =>
    simp only [Child.allWellShaped, Bool.and_eq_true] at hshape
    have hpart := Child.isOptional_of_isTerm (hterms first List.mem_cons_self)
    have hfirst : (evalPart enter owner first).Ends context state
        (fun _ => Sound (first.assigned ++ names)) Aborted :=
      evalPart_sound (ih first List.mem_cons_self) owner hpart hshape.1 hscope.1 h
    cases rest with
    | nil =>
      rw [evalSequence, Child.allAssigned, Child.allAssigned, List.append_nil]
      exact hfirst
    | cons next more =>
      rw [evalSequence]
      · apply Ends.bind hfirst
        intro _ left hleft
        refine (rec (fun child hchild => ih child (List.mem_cons_of_mem _ hchild))
          (fun child hchild => hterms child (List.mem_cons_of_mem _ hchild)) hshape.2 hscope.2
          hleft).mono (fun _ _ hdone => hdone.weaken ?_) fun _ _ => id
        exact append_swap _ _ _
      · simp

theorem evalArgs_sound (ih : ∀ child ∈ children, child.Satisfies (NodeSound enter))
    (owner : Node) (hterms : ∀ child ∈ children, child.isTerm = true)
    (hshape : Child.allWellShaped children = true) (hscope : Child.AllScoped children names)
    (h : Sound names state) :
    (evalArgs enter owner children).Ends context state
      (fun _ => Sound (Child.allAssigned children ++ names)) Aborted := by
  induction children generalizing state names with
  | nil =>
    rw [evalArgs]
    exact .pure h
  | cons first rest rec =>
    simp only [Child.allWellShaped, Bool.and_eq_true] at hshape
    have hterm := hterms first List.mem_cons_self
    cases first with
    | node inner =>
      have hinner : NodeSound enter inner := ih _ List.mem_cons_self
      rw [evalArgs]
      apply Ends.bind (hinner hterm hshape.1 hscope.1 h)
      intro value left hleft
      refine .bind (rec (fun child hchild => ih child (List.mem_cons_of_mem _ hchild))
        (fun child hchild => hterms child (List.mem_cons_of_mem _ hchild)) hshape.2 hscope.2
        hleft) ?_
      intro values last hlast
      exact .pure (hlast.weaken (append_swap _ _ _))
    | _ =>
      exact absurd hterm (by simp [Child.isTerm])

theorem evalReceiver_sound (ih : child.Satisfies (NodeSound enter))
    (hpart : child.isOptional = true) (hshape : child.wellShaped = true)
    (hscope : child.Scoped names) (h : Sound names state) :
    (evalReceiver enter child).Ends context state
      (fun _ => Sound (child.assigned ++ names)) Aborted := by
  cases child with
  | node inner =>
    rw [evalReceiver]
    exact ih hpart hshape hscope h
  | absent =>
    rw [evalReceiver]
    · exact .getFrame (.pure h)
    · simp
  | _ =>
    exact absurd hpart (by simp [Child.isOptional, Child.isTerm])

theorem evalSuperclass_sound (ih : child.Satisfies (NodeSound enter))
    (hpart : child.isOptional = true) (hshape : child.wellShaped = true)
    (hscope : child.Scoped names) (h : Sound names state) :
    (evalSuperclass enter child).Ends context state
      (fun _ => Sound (child.assigned ++ names)) Aborted := by
  cases child with
  | node inner =>
    rw [evalSuperclass]
    apply Ends.bind (ih hpart hshape hscope h)
    intro value left hleft
    apply Ends.getWorld
    split
    next => exact .pure hleft
    next => exact .raise (hleft.aborted trivial)
  | absent =>
    rw [evalSuperclass]
    · exact .pure h
    · simp
  | _ =>
    exact absurd hpart (by simp [Child.isOptional, Child.isTerm])

theorem evalConstPath_sound (ih : ∀ child ∈ children, child.Satisfies (NodeSound enter))
    (owner : Node) (hadmits : Node.Kind.admits .const children = true)
    (hshape : Child.allWellShaped children = true) (hscope : Child.AllScoped children names)
    (h : Sound names state) :
    (evalConstPath enter owner children).Ends context state
      (fun _ => Sound (Child.allAssigned children ++ names)) Aborted := by
  cases Node.Kind.admitted_of_admits hadmits with
  | const space name hspace =>
    cases space with
    | absent =>
      rw [evalConstPath]
      exact .pure h
    | node inner =>
      have hinner : NodeSound enter inner := ih _ List.mem_cons_self
      simp only [Child.allWellShaped, Bool.and_eq_true] at hshape
      rw [evalConstPath]
      apply Ends.bind (hinner hspace hshape.1 hscope.1 h)
      intro value left hleft
      have hknown : Sound (Child.allAssigned [.node inner, .sym name] ++ names) left := by
        simpa [Child.allAssigned, Child.assigned] using hleft
      apply Ends.getWorld
      split
      next => exact .pure hknown
      next => exact .raise (hleft.aborted trivial)
    | _ =>
      exact absurd hspace (by simp [Child.isOptional, Child.isTerm])

end Parts

/-- One case for each kind of node. -/
theorem evalNode_sound {enter : Enter} (henter : enter.Sound) (node : Node) :
    NodeSound enter node := by
  refine (Node.induction (fun kind children pos below => ?_) node).1
  have ih : ∀ child ∈ children, child.Satisfies (NodeSound enter) :=
    fun child hchild => (below child hchild).mono fun _ => And.left
  intro context state names hterm hshape hscope h
  have ⟨hadmits, hchildren⟩ : kind.admits children = true ∧ Child.allWellShaped children = true :=
    Bool.and_eq_true_iff.1 hshape
  match kind with
  | .str =>
    cases Node.Kind.admitted_of_admits hadmits with
    | str text =>
      rw [evalNode]
      exact .grow (.leave ⟨h.bodies.newString text, h.binds⟩)
  | .begin =>
    rw [evalNode]
    exact evalSequence_sound ih _ (List.all_eq_true.1 hadmits) hchildren hscope h
  | .localAssign =>
    cases Node.Kind.admitted_of_admits hadmits with
    | localAssign name value hvalue =>
      simp only [Child.allWellShaped, Bool.and_eq_true] at hchildren
      rw [evalNode]
      refine .bind (evalPart_sound (ih value (by simp)) _ (Child.isOptional_of_isTerm hvalue)
        hchildren.2.1 hscope.2.1 h) ?_
      intro result left hleft
      refine .modifyFrame (.leave (((hleft.assign name result).leave result).weaken ?_))
      intro other hother
      simpa [Node.assigned, Child.allAssigned, Child.assigned, or_left_comm] using hother
  | .localRef =>
    cases Node.Kind.admitted_of_admits hadmits with
    | localRef name =>
      rw [evalNode]
      apply Ends.getFrame
      obtain ⟨value, hvalue⟩ := Table.contains_eq_true.1 (h.binds name hscope)
      rw [hvalue]
      exact .leave (h.leave value)
  | .ivarAssign =>
    cases Node.Kind.admitted_of_admits hadmits with
    | ivarAssign name value hvalue =>
      simp only [Child.allWellShaped, Bool.and_eq_true] at hchildren
      rw [evalNode]
      refine .bind (evalPart_sound (ih value (by simp)) _ (Child.isOptional_of_isTerm hvalue)
        hchildren.2.1 hscope.2.1 h) ?_
      intro result left hleft
      refine .getFrame (.getWorld (.setWorld (.leave ?_)))
      refine ⟨hleft.bodies.setIvar _ _ _, (hleft.weaken ?_).binds⟩
      simp [Node.assigned, Child.allAssigned, Child.assigned]
  | .ivarRef =>
    cases Node.Kind.admitted_of_admits hadmits with
    | ivarRef name =>
      rw [evalNode]
      exact .getFrame (.getWorld (.leave (h.leave _)))
  | .selfRef =>
    cases Node.Kind.admitted_of_admits hadmits with
    | selfRef =>
      exact .getFrame (.leave (h.leave _))
  | .nilRef =>
    cases Node.Kind.admitted_of_admits hadmits with
    | nilRef =>
      exact .leave (h.leave .nil)
  | .classDef =>
    cases Node.Kind.admitted_of_admits hadmits with
    | classDef steps place superclass body hsuper hbody =>
      simp only [Child.allWellShaped, Bool.and_eq_true] at hchildren
      have hsteps : Node.Kind.admits .const steps = true ∧ _ :=
        Bool.and_eq_true_iff.1 hchildren.1
      rw [evalNode]
      -- The path is not evaluated as a node, so the hypothesis is needed for its children.
      have hpathSteps := (below _ List.mem_cons_self).2
      rw [Child.isPart_of_isOptional hsuper, Child.isPart_of_isOptional hbody]
      apply Ends.bind (evalConstPath_sound hpathSteps _ hsteps.1 hsteps.2 hscope.1 h)
      rintro ⟨owner, name⟩ left hleft
      refine .bind (evalSuperclass_sound (ih superclass (by simp)) hsuper hchildren.2.1 hscope.2.1
        hleft) ?_
      intro parent mid hmid
      apply Ends.bind (openClass_sound _ owner name parent hmid)
      intro cls last hlast
      -- The body begins without known names, so any frame will do for it.
      have hfits (frame : Frame) : Task.FitsIn frame (.body body.node?) :=
        ⟨[], fun _ hname => absurd hname List.not_mem_nil,
          .ofChild hbody hchildren.2.2.1 hscope.2.2⟩
      refine .getWorld ((henter (hfits _) hlast).mono (fun _ _ hdone => hdone.weaken ?_)
        fun _ _ => id)
      exact append_swap _ _ _
  | .methodDef =>
    cases Node.Kind.admitted_of_admits hadmits with
    | methodDef name params place body hbody =>
      simp only [Child.allWellShaped, Bool.and_eq_true] at hchildren
      have hparams : Node.Kind.admits .params params = true ∧ _ :=
        Bool.and_eq_true_iff.1 hchildren.2.1
      rw [evalNode]
      rw [if_pos (Child.isPart_of_isOptional hbody)]
      apply Ends.bind (paramNames_sound _ h hparams.1 hparams.2)
      rintro found left ⟨rfl, hleft⟩
      exact defineMethod_sound name (.ofChild hbody hchildren.2.2.1 hscope) hleft
  | .send =>
    cases Node.Kind.admitted_of_admits hadmits with
    | send receiver name args hreceiver hargs =>
      simp only [Child.allWellShaped, Bool.and_eq_true] at hchildren
      rw [evalNode]
      rw [if_pos (Child.isPart_of_isOptional hreceiver)]
      apply Ends.bind (evalReceiver_sound (ih receiver (by simp)) hreceiver hchildren.1 hscope.1 h)
      intro target left hleft
      refine .bind (evalArgs_sound (fun arg harg => ih arg (by simp [harg])) _
        hargs hchildren.2.2 hscope.2.2 hleft) ?_
      intro values last hlast
      refine (send_sound henter _ target name values hlast).mono
        (fun _ _ hdone => hdone.weaken ?_) fun _ _ => id
      simp [Node.assigned, Child.allAssigned, Child.assigned]
  | .const =>
    rw [evalNode]
    apply Ends.bind (evalConstPath_sound ih _ hadmits hchildren hscope h)
    rintro ⟨owner, name⟩ left hleft
    apply Ends.getWorld
    dsimp only
    split
    next value _ => exact .leave (hleft.leave value)
    next => exact .raise (hleft.aborted trivial)
  | .int | .float | .sym | .trueRef | .falseRef | .singletonDef | .constAssign =>
    exact .raise (h.aborted ⟨by decide, rfl⟩)
  | .param | .params | .other _ => exact absurd hterm (by simp [Node.kind, Node.Kind.isTerm])

/-! ### Frames and trees -/

theorem runTask_sound {enter : Enter} (henter : enter.Sound) (site : Option Node) {task : Task}
    (htask : task.FitsIn state.frame) (h : Sound [] state) :
    (runTask enter site task).Ends context state (fun _ => Sound []) Aborted := by
  match task with
  | .body none => exact .leave (h.leave .nil)
  | .body (some body) =>
    obtain ⟨names, hbinds, hbody⟩ := htask
    refine (evalNode_sound henter body hbody.optional hbody.wellShaped hbody.known
      ⟨h.bodies, hbinds⟩).mono (fun _ _ hdone => hdone.weaken ?_) fun _ _ => id
    exact List.nil_subset _
  | .native native args =>
    apply Ends.bind (runNative_sound henter site args native h)
    intro value left hleft
    exact .leave (hleft.leave value)

/-- However much room there is, a task that fits its frame can be entered. -/
theorem perform_sound (room : Nat) : (perform room).Sound := by
  induction room with
  | zero =>
    intro frame site task context state names _ h
    exact .getContext (.raise (h.aborted trivial))
  | succ room ih =>
    intro frame site task context state names htask h
    -- Nothing of the entered frame is left when it is done, so no name has to be known in it.
    have hentered : Sound [] (state.entering frame (context.depth + 1)) :=
      ⟨h.bodies, fun _ hname => absurd hname List.not_mem_nil⟩
    refine .within ((runTask_sound ih site htask hentered).mono ?_ ?_)
    · intro value left hleft
      exact ⟨hleft.bodies, h.binds⟩
    · intro error left hleft
      exact ⟨hleft.bodies, hleft.expected⟩

theorem evalTree_sound (room : Nat) {tree : Option Node} {names : List String}
    (htree : WellFormedBody names tree) (h : Sound names state) :
    (evalTree room tree).Ends context state
      (fun _ => Sound ((Child.ofNode? tree).assigned ++ names)) Aborted := by
  match tree with
  | none => exact .leave (h.leave .nil)
  | some node =>
    exact evalNode_sound (perform_sound room) node htree.optional htree.wellShaped htree.known h

end Evaluation

end Garnet
