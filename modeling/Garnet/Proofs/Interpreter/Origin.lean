import Garnet.Proofs.Interpreter.Moments
import Garnet.Proofs.Interpreter.Termination

/-! # Where faults come from

A fault that ends an evaluation was raised at one of its moments, and nothing was done after that
but to leave frames: the world and the sink are those of that moment, and the frames are the lower
ones of those that were there. Along with this goes a statement about the nodes that an evaluation
meets. If the nodes of a tree and those of all method bodies are known, and the children of known
nodes are known, then faults happen at known nodes, and all method bodies stay known.
-/

namespace Garnet

open Evaluation

/-- Neither too many frames nor a failure of a native method. -/
def Fault.isPlain : Fault → Bool
  | .stackTooDeep _ | .hostMismatch _ | .host .. | .foreign _ => false
  | _ => true

theorem Child.Satisfies.node? {property : Node → Prop} {child : Child}
    (h : child.Satisfies property) : ∀ inner ∈ child.node?, property inner := by
  intro inner hinner
  cases child with
  | node found =>
    cases hinner
    exact h
  | _ => cases hinner

/-- A task of which all nodes are known. -/
def Evaluation.Task.Knows (known : Node → Prop) : Task → Prop
  | Task.body code => ∀ node ∈ code, known node
  | Task.native _ _ => True

namespace Interpreter

/-- All method bodies are known. -/
def Knows (known : Node → Prop) (interp : Interpreter) : Prop :=
  interp.world.AllBodies fun _ body => ∀ node ∈ body, known node

/-- The faults that can be raised at a moment. -/
inductive Raises (interp : Interpreter) : Activity → Fault → Prop
  | plain (activity : Activity) {fault : Fault} (h : fault.isPlain = true) :
    Raises interp activity fault
  | full {frame : Frame} {site : Option Node} {task : Task} (h : interp.room = 0) :
    Raises interp (.entry frame site task) (.stackTooDeep interp.limit)
  | notClass {site : Option Node} {args : List Ref} :
    Raises interp (.native site args .new) (.ofHost
      ("type mismatch: new called on non-class " ++ interp.inspect interp.current.self)
      [.kind .typeMismatch] none)
  | refused {site : Option Node} {refusal : Refusal} :
    Raises interp (.refused site refusal) (.ofRefusal refusal)
  | host {site : Option Node} {args : List Ref} {text : String} {marks : List Fault.Mark} :
    Raises interp (.native site args (.host (.fail text marks))) (.ofHost text marks none)

/-- A fault was raised at a moment and has left an interpreter behind. -/
structure Raised (known : Node → Prop) (moment : Interpreter) (activity : Activity)
    (error : RuntimeError) (left : Interpreter) : Prop where
  error : ∃ fault site notes, Raises moment activity fault ∧ (∀ node ∈ site, known node) ∧
    error = { errorAt moment.context moment.current fault site with notes }
  world : left.world = moment.world
  sink : left.sink = moment.sink
  stack : left.stack <:+ moment.stack

/-- What comes out on the way from a moment: all method bodies are known, and a fault was raised at
a moment that is reached. -/
structure Traced {α : Type} (known : Node → Prop) (start : Interpreter) (activity : Activity)
    (run : Except RuntimeError α × Interpreter) : Prop where
  knows : run.2.Knows known
  failed (error : RuntimeError) : run.1 = .error error →
    ∃ moment last, Reaches start activity moment last ∧ Raised known moment last error run.2

theorem exec_getWorld {α : Type} (interp : Interpreter) (next : World → Eval α) :
    interp.exec (Eval.getWorld >>= next) = interp.exec (next interp.world) := rfl

theorem exec_getFrame {α : Type} (interp : Interpreter) (next : Frame → Eval α) :
    interp.exec (Eval.getFrame >>= next) = interp.exec (next interp.current) := rfl

theorem exec_grow {α : Type} (interp : Interpreter) (change : World → Ref × World)
    (next : Ref → Eval α) :
    interp.exec (Eval.grow change >>= next) =
      (interp.grow change).2.exec (next (interp.grow change).1) := rfl

/-- Below the frame that is left, everything is as it was. -/
theorem of_pop? {interp below : Interpreter} {frame : Frame}
    (h : interp.pop? = some (frame, below)) :
    below.world = interp.world ∧ below.sink = interp.sink ∧ below.stack <:+ interp.stack := by
  unfold pop? at h
  split at h
  next => cases h
  next next outer houter =>
    cases h
    refine ⟨rfl, rfl, [interp.current], ?_⟩
    rw [stack, stack, houter]
    rfl

theorem limit_of_exec {α : Type} {interp left : Interpreter} {step : Eval α}
    {outcome : Except RuntimeError α} (h : interp.exec step = (outcome, left)) :
    left.limit = interp.limit := by
  cases h
  rfl

theorem enters_of_exec {α : Type} {interp left : Interpreter} {step : Eval α}
    {outcome : Except RuntimeError α} (h : interp.exec step = (outcome, left)) :
    left.enters = interp.enters :=
  congrArg perform (room_of_exec h)

/-- Without room for another frame, none is entered. -/
theorem exec_enters_full {interp : Interpreter} (hroom : interp.room = 0) (frame : Frame)
    (site : Option Node) (task : Task) :
    interp.exec (interp.enters frame site task) =
      (.error (errorAt interp.context interp.current (.stackTooDeep interp.limit) site),
        interp) := by
  rw [enters, hroom]
  rfl

theorem exec_enters {interp : Interpreter} (hroom : 0 < interp.room) (frame : Frame)
    (site : Option Node) (task : Task) :
    interp.exec (interp.enters frame site task) =
      interp.exec (within frame (runTask (interp.enter frame).enters site task)) := by
  obtain ⟨less, hless⟩ : ∃ less, interp.room = less + 1 := Nat.exists_eq_add_of_le' hroom
  rw [enters, enters, room_enter, hless, perform, Nat.add_sub_cancel]

namespace Traced

variable {α β : Type} {known : Node → Prop} {start interp : Interpreter} {activity : Activity}

theorem ok {value : α} {left : Interpreter} (h : left.Knows known) :
    Traced known start activity ((.ok value, left) : Except RuntimeError α × Interpreter) :=
  ⟨h, fun _ herror => by cases herror⟩

theorem bind {step : Eval α} {next : α → Eval β}
    (hstep : Traced known start activity (interp.exec step))
    (hnext : ∀ value left, interp.exec step = (.ok value, left) → left.Knows known →
      Traced known start activity (left.exec (next value))) :
    Traced known start activity (interp.exec (step >>= next)) := by
  rw [exec_bind]
  rcases hrun : interp.exec step with ⟨error | value, left⟩
  · rw [hrun] at hstep
    exact ⟨hstep.knows, fun other hother => hstep.failed other (by cases hother; rfl)⟩
  · rw [hrun] at hstep
    exact hnext value left hrun hstep.knows

theorem getWorld {next : World → Eval β}
    (h : Traced known start activity (interp.exec (next interp.world))) :
    Traced known start activity (interp.exec (Eval.getWorld >>= next)) := h

theorem getFrame {next : Frame → Eval β}
    (h : Traced known start activity (interp.exec (next interp.current))) :
    Traced known start activity (interp.exec (Eval.getFrame >>= next)) := h

theorem note {event : Event} {next : Unit → Eval β}
    (h : Traced known start activity ((interp.note event).exec (next ()))) :
    Traced known start activity (interp.exec (Eval.note event >>= next)) := h

theorem grow {change : World → Ref × World} {next : Ref → Eval β}
    (h : Traced known start activity ((interp.grow change).2.exec (next (interp.grow change).1))) :
    Traced known start activity (interp.exec (Eval.grow change >>= next)) := h

theorem write {text : String} {next : Option Refusal → Eval β}
    (h : Traced known start activity
      ((interp.writing text).exec (next (interp.sink.write text).1))) :
    Traced known start activity (interp.exec (Eval.write text >>= next)) := h

/-- What is done on the way from a later moment is done on the way from an earlier one. -/
theorem begins {moment : Interpreter} {later : Activity} {run : Except RuntimeError α × Interpreter}
    (hbegins : Begins start activity moment later) (h : Traced known moment later run) :
    Traced known start activity run where
  knows := h.knows
  failed error herror := by
    obtain ⟨reached, last, hreaches, hraised⟩ := h.failed error herror
    exact ⟨reached, last, .next hbegins hreaches, hraised⟩

theorem raise {fault : Fault} {site : Option Node} (hknows : start.Knows known)
    (hraises : Raises start activity fault) (hsite : ∀ node ∈ site, known node) :
    Traced known start activity (start.exec (Evaluation.raise fault site : Eval α)) where
  knows := hknows
  failed error herror := by
    cases herror
    exact ⟨start, activity, .refl _ _, ⟨fault, site, [], hraises, hsite, rfl⟩, rfl, rfl,
      List.suffix_rfl⟩

/-- Behind a check that may fail. -/
theorem guard {check : Prop} [Decidable check] {step : Eval α} {fault : Fault} {site : Option Node}
    (hknows : start.Knows known) (hraises : Raises start activity fault)
    (hsite : ∀ node ∈ site, known node) (h : Traced known start activity (start.exec step)) :
    Traced known start activity (start.exec
      (if check then Evaluation.raise fault site >>= fun _ : PUnit => step else step)) := by
  split
  next =>
    refine .bind (.raise hknows hraises hsite) fun _ _ hrun _ => ?_
    cases hrun
  next => exact h

theorem annotating {step : Eval α} (h : Traced known start activity (interp.exec step))
    (note : Option String) :
    Traced known start activity (interp.exec (Evaluation.annotating note step)) := by
  rw [exec_annotating]
  generalize interp.exec step = run at h ⊢
  rcases run with ⟨error | value, left⟩
  · refine ⟨h.knows, fun other hother => ?_⟩
    cases hother
    obtain ⟨moment, last, hreaches, hraised⟩ := h.failed error rfl
    obtain ⟨fault, site, notes, hraises, hsite, rfl⟩ := hraised.error
    exact ⟨moment, last, hreaches, ⟨fault, site, _, hraises, hsite, rfl⟩, hraised.world,
      hraised.sink, hraised.stack⟩
  · exact .ok h.knows

/-- A frame is left with all that was done in it, and the frames below it are as they were. -/
theorem within {frame : Frame} {site : Option Node} {task : Task} {step : Eval Ref}
    (hroom : 0 < interp.room)
    (h : Traced known (interp.enter frame) (.task site task) ((interp.enter frame).exec step)) :
    Traced known interp (.entry frame site task)
      (interp.exec (Evaluation.within frame step)) := by
  obtain ⟨popped, below, hpop, hexec⟩ := exec_within interp frame step
  rw [hexec]
  rcases hrun : (interp.enter frame).exec step with ⟨outcome, left⟩
  rw [hrun] at hpop h
  obtain ⟨hworld, hsink, hstack⟩ := of_pop? hpop
  have hknows : below.Knows known := by
    unfold Knows
    rw [hworld]
    exact h.knows
  cases outcome with
  | ok value => exact .ok hknows
  | error error =>
    refine ⟨hknows, fun other hother => ?_⟩
    cases hother
    obtain ⟨moment, last, hreaches, hraised⟩ := h.failed error rfl
    exact ⟨moment, last, .next (.enter hroom) hreaches, hraised.error,
      hworld.trans hraised.world, hsink.trans hraised.sink, hstack.trans hraised.stack⟩

end Traced

/-! ### Messages -/

section Messages

variable {known : Node → Prop} {interp : Interpreter} {site : Option Node} {room : Nat}

/-- Whatever is entered with the given room comes to a moment at which it fails, if it fails. -/
def EntriesTraced (known : Node → Prop) (room : Nat) : Prop :=
  ∀ ⦃interp : Interpreter⦄, interp.room = room → interp.Knows known → ∀ frame site task,
    (∀ node ∈ site, known node) → task.Knows known →
      Traced known interp (.entry frame site task) (interp.exec (interp.enters frame site task))

theorem send_traced (hentries : EntriesTraced known room) (hroom : interp.room = room)
    (hknows : interp.Knows known) (hsite : ∀ node ∈ site, known node) (receiver : Ref)
    (name : String) (args : List Ref) :
    Traced known interp (.message site receiver name args)
      (interp.exec (Evaluation.send interp.enters site receiver name args)) := by
  apply Traced.getWorld
  split
  next => exact .raise hknows (.plain _ rfl) hsite
  next method owner hfound =>
    have hown := World.ownMethod?_of_findMethod hfound
    have hnoted : (interp.note (.send name (interp.world.inspect receiver)
        (interp.world.classRecord owner).name args.length)).room = room := hroom
    refine .note (.begins (.answer hfound) ?_)
    obtain ⟨label, holder, code⟩ := method
    cases code with
    | native native => exact hentries hnoted hknows _ _ (.native native args) hsite trivial
    | interpreted params body =>
      exact hentries hnoted hknows _ _ (.body body) hsite (hknows _ _ _ _ _ hown rfl)

/-- The line that is refused is the last one that is tried. -/
theorem writeLines_traced (hknows : interp.Knows known) (hsite : ∀ node ∈ site, known node)
    (lines : List String) :
    Traced known interp (.lines site lines) (interp.exec (writeLines site lines)) := by
  induction lines generalizing interp with
  | nil => exact .ok hknows
  | cons line rest ih =>
    refine .write ?_
    cases hwrite : (interp.sink.write (line ++ "\n")).1 with
    | none => exact .begins (.written hwrite) (ih hknows)
    | some refusal => exact .begins (.refused hwrite) (.raise hknows .refused hsite)

theorem runNative_traced (hentries : EntriesTraced known room) (hroom : interp.room = room)
    (hknows : interp.Knows known) (hsite : ∀ node ∈ site, known node) (args : List Ref)
    (native : Native) :
    Traced known interp (.native site args native)
      (interp.exec (runNative interp.enters site args native)) := by
  have hnone : ∀ node ∈ (none : Option Node), known node := fun _ hnode => by cases hnode
  match native with
  | .new =>
    refine .getWorld (.getFrame ?_)
    dsimp only
    split
    next => exact .raise hknows .notClass hsite
    next id hclass =>
      refine .grow (.begins (.made hclass) ?_)
      have hgrown : (interp.grow (·.newObject id)).2.room = room := hroom
      have hsend := send_traced hentries hgrown hknows hnone (interp.grow (·.newObject id)).1
        "initialize" args
      exact .bind hsend fun _ _ _ hleft => .ok hleft
  | .setUp => exact .ok hknows
  | .puts =>
    refine .getWorld (.bind (.begins .puts (writeLines_traced hknows hsite _)) ?_)
    exact fun _ _ _ hleft => .ok hleft
  | .host .nothing => exact .ok hknows
  | .host .receiver => exact .ok hknows
  | .host .lastArgument => exact .ok hknows
  | .host (.fail text marks) => exact .raise hknows .host hsite
  | .host (.forward message note) =>
    refine .getFrame (.annotating (.begins .forward ?_) note)
    exact send_traced hentries hroom hknows hnone _ _ _

end Messages

/-! ### Definitions -/

section Definitions

variable {known : Node → Prop} {interp : Interpreter} {node : Node}

theorem paramNames_traced (hknows : interp.Knows known) (hnode : known node)
    {params : List Child} (hparams : ∀ child ∈ params, child.Satisfies known) :
    Traced known interp (.node node) (interp.exec (paramNames node params)) := by
  have hsite : ∀ other ∈ some node, known other := by simp [hnode]
  induction params with
  | nil => exact .ok hknows
  | cons first rest ih =>
    have hrest := ih fun child hchild => hparams child (List.mem_cons_of_mem _ hchild)
    cases first with
    | node param =>
      have hparam : known param := hparams _ List.mem_cons_self
      unfold paramNames
      refine .guard hknows (.plain _ rfl) hsite ?_
      split
      next => exact .raise hknows (.plain _ rfl) (by simp [hparam])
      next => exact .bind hrest fun _ _ _ hleft => .ok hleft
    | _ => exact .raise hknows (.plain _ rfl) hsite

theorem openClass_traced (hknows : interp.Knows known) (hnode : known node) (owner : ClassId)
    (name : String) (superclass : Option ClassId) :
    Traced known interp (.finish node)
      (interp.exec (openClass node owner name superclass)) := by
  have hsite : ∀ other ∈ some node, known other := by simp [hnode]
  apply Traced.getWorld
  dsimp only
  split
  next =>
    split
    next => exact .raise hknows (.plain _ rfl) hsite
    next => exact .guard hknows (.plain _ rfl) hsite (.ok hknows)
  next => exact .ok ((hknows.newClass _ _).setConstant _ _ _)

end Definitions

/-! ### Nodes -/

section Nodes

variable {known : Node → Prop} {interp : Interpreter} {room : Nat}

/-- A node comes to a moment at which it fails, if it fails. -/
def NodeTraced (known : Node → Prop) (room : Nat) (node : Node) : Prop :=
  known node → ∀ interp : Interpreter, interp.room = room → interp.Knows known →
    Traced known interp (.node node) (interp.exec (evalNode interp.enters node))

section Parts

variable {activity : Activity} {owner : Node} {child : Child} {children : List Child}
  (hroom : interp.room = room) (hknows : interp.Knows known) (howner : known owner)

include hroom hknows howner

theorem evalPart_traced (hchild : child.Satisfies known)
    (ih : child.Satisfies (NodeTraced known room))
    (hbegins : ∀ inner, child = .node inner → Begins interp activity interp (.node inner)) :
    Traced known interp activity (interp.exec (evalPart interp.enters owner child)) := by
  cases child with
  | node inner =>
    rw [evalPart]
    exact .begins (hbegins inner rfl) (ih hchild interp hroom hknows)
  | absent => exact .ok hknows
  | _ => exact .raise hknows (.plain _ rfl) (by simp [howner])

theorem evalSequence_traced (hchildren : ∀ child ∈ children, child.Satisfies known)
    (ih : ∀ child ∈ children, child.Satisfies (NodeTraced known room)) :
    Traced known interp (.sequence owner children)
      (interp.exec (evalSequence interp.enters owner children)) := by
  induction children generalizing interp with
  | nil => exact .ok hknows
  | cons first rest rec =>
    have hfirst : Traced known interp (.sequence owner (first :: rest))
        (interp.exec (evalPart interp.enters owner first)) := by
      refine evalPart_traced hroom hknows howner (hchildren first List.mem_cons_self)
        (ih first List.mem_cons_self) ?_
      rintro inner rfl
      exact .statement
    cases rest with
    | nil =>
      rw [evalSequence]
      exact hfirst
    | cons second more =>
      refine .bind hfirst fun value left hrun hleft => .begins (.statementsAfter hrun) ?_
      rw [← enters_of_exec hrun]
      refine rec ((room_of_exec hrun).trans hroom) hleft ?_ ?_
      · exact fun child hchild => hchildren child (List.mem_cons_of_mem _ hchild)
      · exact fun child hchild => ih child (List.mem_cons_of_mem _ hchild)

theorem evalArgs_traced (hchildren : ∀ child ∈ children, child.Satisfies known)
    (ih : ∀ child ∈ children, child.Satisfies (NodeTraced known room)) :
    Traced known interp (.args owner children)
      (interp.exec (evalArgs interp.enters owner children)) := by
  induction children generalizing interp with
  | nil => exact .ok hknows
  | cons first rest rec =>
    cases first with
    | node inner =>
      have hinner : known inner := hchildren _ List.mem_cons_self
      have hnode : NodeTraced known room inner := ih _ List.mem_cons_self
      rw [evalArgs]
      refine .bind (.begins .argument (hnode hinner interp hroom hknows)) ?_
      intro value left hrun hleft
      have hrest : Traced known left (.args owner rest)
          (left.exec (evalArgs left.enters owner rest)) := by
        refine rec ((room_of_exec hrun).trans hroom) hleft ?_ ?_
        · exact fun child hchild => hchildren child (List.mem_cons_of_mem _ hchild)
        · exact fun child hchild => ih child (List.mem_cons_of_mem _ hchild)
      rw [enters_of_exec hrun] at hrest
      exact .bind (.begins (.argumentsAfter hrun) hrest) fun _ _ _ hleft => .ok hleft
    | _ => exact .raise hknows (.plain _ rfl) (by simp [howner])

theorem evalConstPath_traced (hchildren : ∀ child ∈ children, child.Satisfies known)
    (ih : ∀ child ∈ children, child.Satisfies (NodeTraced known room)) :
    Traced known interp (.path owner children)
      (interp.exec (evalConstPath interp.enters owner children)) := by
  unfold evalConstPath
  split
  next => exact .ok hknows
  next inner name rest =>
    have hinner : known inner := hchildren _ List.mem_cons_self
    have hnode : NodeTraced known room inner := ih _ List.mem_cons_self
    refine .bind (.begins .space (hnode hinner interp hroom hknows)) ?_
    intro value left hrun hleft
    refine .begins (.spaceAfter hrun) (.getWorld ?_)
    split
    next => exact .ok hleft
    next => exact .raise hleft (.plain _ rfl) (by simp [hinner])
  next => exact .raise hknows (.plain _ rfl) (by simp [howner])

end Parts

section Parts

variable {start : Interpreter} {activity : Activity} {child : Child} (hroom : interp.room = room)
  (hknows : interp.Knows known) (hchild : child.Satisfies known)
  (ih : child.Satisfies (NodeTraced known room))
  (hbegins : ∀ inner, child = .node inner → Begins start activity interp (.node inner))

include hroom hknows hchild ih hbegins

theorem evalReceiver_traced :
    Traced known start activity (interp.exec (evalReceiver interp.enters child)) := by
  cases child with
  | node inner =>
    rw [evalReceiver]
    exact .begins (hbegins inner rfl) (ih hchild interp hroom hknows)
  | _ => exact .ok hknows

theorem evalSuperclass_traced
    (hafter : ∀ inner value left, child = .node inner →
      interp.exec (evalNode interp.enters inner) = (.ok value, left) →
        Begins start activity left (.finish inner)) :
    Traced known start activity (interp.exec (evalSuperclass interp.enters child)) := by
  cases child with
  | node inner =>
    have hinner : known inner := hchild
    rw [evalSuperclass]
    refine .bind (.begins (hbegins inner rfl) (ih hchild interp hroom hknows)) ?_
    intro value left hrun hleft
    refine .begins (hafter inner value left rfl hrun) (.getWorld ?_)
    split
    next => exact .ok hleft
    next => exact .raise hleft (.plain _ rfl) (by simp [hinner])
  | _ => exact .ok hknows

end Parts

/-- Known nodes have known children. -/
def Closed (known : Node → Prop) : Prop :=
  ∀ node, known node → ∀ child ∈ node.children, child.Satisfies known

/-- One case for each kind of node; children that do not fit the kind are a fault. -/
theorem evalNode_traced (hclosed : Closed known) (hentries : EntriesTraced known room)
    (node : Node) : NodeTraced known room node := by
  refine (Node.induction (fun kind children pos below => ?_) node).1
  intro hnode interp hroom hknows
  have ih : ∀ child ∈ children, child.Satisfies (NodeTraced known room) :=
    fun child hchild => (below child hchild).mono fun _ => And.left
  have hchildren : ∀ child ∈ children, child.Satisfies known := hclosed _ hnode
  have hfault {α : Type} {fault : Fault} (hplain : fault.isPlain = true) :
      Traced known interp (.node (.mk kind children pos))
        (interp.exec (raise fault (some (.mk kind children pos)) : Eval α)) :=
    .raise hknows (.plain _ hplain) (by simp [hnode])
  match kind with
  | .str =>
    unfold evalNode
    dsimp only
    split
    next => exact .ok hknows
    next => exact hfault rfl
  | .begin =>
    rw [evalNode]
    exact .begins (.statements rfl) (evalSequence_traced hroom hknows hnode hchildren ih)
  | .localAssign =>
    unfold evalNode
    dsimp only
    split
    next name value rest =>
      refine .bind (evalPart_traced hroom hknows hnode (hchildren value (by simp))
        (ih value (by simp)) ?_) fun _ _ _ hleft => .ok hleft
      rintro inner rfl
      exact .localValue rfl
    next => exact hfault rfl
  | .localRef =>
    unfold evalNode
    dsimp only
    split
    next =>
      apply Traced.getFrame
      split
      next => exact .ok hknows
      next => exact hfault rfl
    next => exact hfault rfl
  | .ivarAssign =>
    unfold evalNode
    dsimp only
    split
    next name value rest =>
      refine .bind (evalPart_traced hroom hknows hnode (hchildren value (by simp))
        (ih value (by simp)) ?_) fun _ _ _ hleft => .ok (hleft.setIvar _ _ _)
      rintro inner rfl
      exact .ivarValue rfl
    next => exact hfault rfl
  | .ivarRef =>
    unfold evalNode
    dsimp only
    split
    next => exact .ok hknows
    next => exact hfault rfl
  | .selfRef => exact .ok hknows
  | .nilRef => exact .ok hknows
  | .classDef =>
    unfold evalNode
    dsimp only
    split
    next steps place superclass body rest =>
      have hpath : known (.mk .const steps place) := hchildren _ List.mem_cons_self
      have hsteps := (below _ List.mem_cons_self).2
      have hbody := (hchildren body (by simp)).node?
      split
      next hparts =>
        -- The path, the superclass and the class itself, and then the body in its own frame.
        refine .bind (.begins (.className rfl rfl hparts)
          (evalConstPath_traced hroom hknows hpath (hclosed _ hpath) hsteps)) ?_
        rintro ⟨owner, name⟩ found hfound hleft
        dsimp only
        rw [← enters_of_exec hfound]
        have hroom := (room_of_exec hfound).trans hroom
        refine .bind (evalSuperclass_traced hroom hleft (hchildren superclass (by simp))
          (ih superclass (by simp)) ?_ ?_) ?_
        · rintro inner rfl
          exact .classParent rfl rfl (by simpa [Child.isPart] using hparts) hfound
        · rintro inner value left rfl hparent
          exact .classParentAfter rfl rfl (by simpa [Child.isPart] using hparts) hfound hparent
        intro above parent hparent hleft
        rw [← enters_of_exec hparent]
        have hroom := (room_of_exec hparent).trans hroom
        refine .bind (.begins (.classOpening rfl rfl hparts hfound hparent)
          (openClass_traced hleft hnode owner name above)) ?_
        intro id opened hopened hleft
        rw [← enters_of_exec hopened]
        have hroom := (room_of_exec hopened).trans hroom
        refine .getWorld (.begins (.classBody rfl rfl hparts hfound hparent hopened) ?_)
        exact hentries hroom hleft _ _ (.body body.node?) (by simp [hnode]) hbody
      next => exact hfault rfl
    next => exact hfault rfl
  | .methodDef =>
    unfold evalNode
    dsimp only
    split
    next name params place body rest =>
      have hparams := hclosed _ (hchildren (.node (.mk .params params place)) (by simp))
      have hbody := (hchildren body (by simp)).node?
      split
      next =>
        refine .bind (paramNames_traced hknows hnode hparams) fun found left _ hleft => ?_
        exact .ok (hleft.setMethod hbody)
      next => exact hfault rfl
    next => exact hfault rfl
  | .send =>
    unfold evalNode
    dsimp only
    split
    next receiver name args =>
      split
      next hpart =>
        refine .bind (evalReceiver_traced hroom hknows (hchildren receiver (by simp))
          (ih receiver (by simp)) ?_) ?_
        · rintro inner rfl
          exact .receiver rfl
        intro target found hfound hleft
        rw [← enters_of_exec hfound]
        have hroom := (room_of_exec hfound).trans hroom
        refine .bind (.begins (.arguments rfl hpart hfound) (evalArgs_traced hroom hleft hnode
          (fun arg harg => hchildren arg (by simp [harg]))
          fun arg harg => ih arg (by simp [harg]))) ?_
        intro values taken hvalues hleft
        rw [← enters_of_exec hvalues]
        have hroom := (room_of_exec hvalues).trans hroom
        exact .begins (.sending rfl hpart hfound hvalues)
          (send_traced hentries hroom hleft (by simp [hnode]) target name values)
      next => exact hfault rfl
    next => exact hfault rfl
  | .const =>
    rw [evalNode]
    refine .bind (.begins (.constant rfl) (evalConstPath_traced hroom hknows hnode hchildren ih)) ?_
    rintro ⟨owner, name⟩ left hrun hleft
    refine .begins (.constantAfter rfl hrun) (.getWorld ?_)
    dsimp only
    split
    next => exact .ok hleft
    next => exact .raise hleft (.plain _ rfl) (by simp [hnode])
  | .int | .float | .sym | .trueRef | .falseRef | .singletonDef | .constAssign | .param | .params
  | .other _ => exact hfault rfl

theorem runTask_traced (hclosed : Closed known) (hentries : EntriesTraced known room)
    (hroom : interp.room = room) (hknows : interp.Knows known) {site : Option Node}
    (hsite : ∀ node ∈ site, known node) {task : Task} (htask : task.Knows known) :
    Traced known interp (.task site task) (interp.exec (runTask interp.enters site task)) := by
  match task with
  | .body none => exact .ok hknows
  | .body (some code) =>
    exact .begins .body (evalNode_traced hclosed hentries code (htask code rfl) interp hroom hknows)
  | .native native args =>
    refine .bind (.begins .native (runNative_traced hentries hroom hknows hsite args native)) ?_
    exact fun _ _ _ hleft => .ok hleft

/-- However many frames can be entered one in the other. -/
theorem entriesTraced (hclosed : Closed known) (room : Nat) : EntriesTraced known room := by
  induction room with
  | zero =>
    intro interp hroom hknows frame site task hsite htask
    unfold enters
    rw [hroom]
    exact .raise hknows (.full hroom) hsite
  | succ room ih =>
    intro interp hroom hknows frame site task hsite htask
    have hentered : (interp.enter frame).room = room := by
      rw [room_enter, hroom, Nat.add_sub_cancel]
    have htask := runTask_traced hclosed ih hentered hknows hsite htask
    unfold enters at htask ⊢
    rw [hentered] at htask
    rw [hroom]
    exact .within (by omega) htask

end Nodes

/-- The evaluation of a tree is traced from the moment at which it begins. -/
theorem interpret_traced {known : Node → Prop} (hclosed : Closed known) {interp : Interpreter}
    (hknows : interp.Knows known) {tree : Option Node} (htree : ∀ node ∈ tree, known node) :
    Traced known interp (.task none (.body tree)) (interp.interpret tree) := by
  rw [interpret, evalTree_eq_runTask]
  exact runTask_traced hclosed (entriesTraced hclosed interp.room) rfl hknows
    (fun _ hnode => by cases hnode) htree

/-- Every fault of an evaluation was raised at one of its moments. -/
theorem exists_raised {interp : Interpreter} {tree : Option Node} {error : RuntimeError}
    (h : (interp.interpret tree).1 = .error error) :
    ∃ moment last, Reaches interp (.task none (.body tree)) moment last ∧
      Raised (fun _ => True) moment last error (interp.interpret tree).2 := by
  have hclosed : Closed fun _ => True := fun _ _ child _ => by cases child <;> trivial
  have hknows : interp.Knows fun _ => True := fun _ _ _ _ _ _ _ _ _ => trivial
  exact (interpret_traced hclosed hknows fun _ _ => trivial).failed error h

end Interpreter

end Garnet
