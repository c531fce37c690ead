import Garnet.Proofs.Evaluation.Logic
import Garnet.Proofs.Table
import Garnet.Proofs.Tree.Scope

/-! # What an evaluation does to the frame it runs in

An evaluation may end in a value or in a fault, and the tree may have any shape. In all cases the
current frame keeps its label, its receiver and its place, no local variable is lost, and only those
change that the tree assigns outside of the bodies of classes and methods. The events that are noted
in the meantime show how the stack moves: every frame that is entered is left again, and no other
frame is.
-/

namespace Garnet

/-! ### Events as movements of the stack -/

namespace Event

/-- What an event does to the frames above a stack of a given depth, of which only the labels are
listed, innermost first. Entering and leaving have to agree with the label and the depth that they
note; the frames of the stack itself cannot be left. -/
def move (depth : Nat) (above : List String) : Event → Option (List String)
  | .push label noted =>
    if noted = depth + above.length + 1 then some (label :: above) else none
  | .pop label noted =>
    match above with
    | [] => none
    | top :: below => if label = top ∧ noted = depth + below.length then some below else none
  | _ => some above

/-- What a list of events does to the frames above a stack. -/
def replay (depth : Nat) (above : List String) (events : List Event) : Option (List String) :=
  events.foldlM (move depth) above

/-- Every frame that is entered is left again, and no frame is left that was there before. -/
def Balanced (depth : Nat) (events : List Event) : Prop :=
  replay depth [] events = some []

/-- Whether an event is about something else than the stack. -/
def isStill : Event → Bool
  | .push .. | .pop .. => false
  | _ => true

theorem replay_append (depth : Nat) (above : List String) (first second : List Event) :
    replay depth above (first ++ second) =
      (replay depth above first).bind fun reached => replay depth reached second :=
  List.foldlM_append

/-- Frames that lie below those an event moves do not matter. -/
theorem move_above {depth : Nat} {above reached : List String} {event : Event}
    (low : List String) (h : move (depth + low.length) above event = some reached) :
    move depth (above ++ low) event = some (reached ++ low) := by
  cases event with
  | push label noted =>
    simp only [move, Option.ite_none_right_eq_some, Option.some.injEq] at h
    obtain ⟨hnoted, rfl⟩ := h
    apply if_pos
    rw [List.length_append]
    omega
  | pop label noted =>
    match above with
    | [] => exact absurd h (by simp [move])
    | top :: below =>
      simp only [move, Option.ite_none_right_eq_some, Option.some.injEq] at h
      obtain ⟨⟨hlabel, hnoted⟩, rfl⟩ := h
      have hdepth : noted = depth + (below ++ low).length := by
        rw [List.length_append]
        omega
      exact if_pos ⟨hlabel, hdepth⟩
  | _ =>
    cases h
    rfl

theorem replay_above {depth : Nat} {above reached : List String} {events : List Event}
    (low : List String) (h : replay (depth + low.length) above events = some reached) :
    replay depth (above ++ low) events = some (reached ++ low) := by
  induction events generalizing above with
  | nil =>
    cases h
    rfl
  | cons event rest ih =>
    rw [replay, List.foldlM_cons] at h ⊢
    obtain ⟨mid, hmove, hrest⟩ := Option.bind_eq_some_iff.1 h
    rw [move_above low hmove]
    exact ih hrest

namespace Balanced

variable {depth : Nat}

theorem nil : Balanced depth [] := rfl

theorem still {event : Event} (h : event.isStill = true) : Balanced depth [event] := by
  cases event with
  | push label noted => exact absurd h (by simp [isStill])
  | pop label noted => exact absurd h (by simp [isStill])
  | _ => rfl

theorem append {first second : List Event} (hfirst : Balanced depth first)
    (hsecond : Balanced depth second) : Balanced depth (first ++ second) := by
  unfold Balanced at *
  rw [replay_append, hfirst]
  exact hsecond

/-- What happens in a frame lies between entering and leaving it. -/
theorem enclose {inner : List Event} (h : Balanced (depth + 1) inner) (label : String) :
    Balanced depth (.push label (depth + 1) :: (inner ++ [.pop label depth])) := by
  have hinner : replay depth [label] inner = some [label] := replay_above [label] h
  have hpush : replay depth [] [.push label (depth + 1)] = some [label] := by simp [replay, move]
  have hpop : replay depth [label] [.pop label depth] = some [] := by simp [replay, move]
  unfold Balanced
  rw [← List.singleton_append, replay_append, hpush, Option.bind_some, replay_append, hinner]
  exact hpop

end Balanced

end Event

open Evaluation

/-! ### Steps -/

/-- A frame after an evaluation that may have assigned the given names. -/
structure Frame.Keeps (names : List String) (before after : Frame) : Prop where
  label : after.label = before.label
  self : after.self = before.self
  pos : after.pos = before.pos
  bound (name : String) : before.locals.contains name = true → after.locals.contains name = true
  others (name : String) : name ∉ names → after.locals.get? name = before.locals.get? name

namespace Frame.Keeps

variable {names more : List String} {first second third : Frame}

theorem refl (frame : Frame) : Frame.Keeps names frame frame :=
  ⟨rfl, rfl, rfl, fun _ h => h, fun _ _ => rfl⟩

theorem trans (h : Frame.Keeps names first second) (h' : Frame.Keeps names second third) :
    Frame.Keeps names first third where
  label := h'.label.trans h.label
  self := h'.self.trans h.self
  pos := h'.pos.trans h.pos
  bound name hname := h'.bound name (h.bound name hname)
  others name hname := (h'.others name hname).trans (h.others name hname)

theorem mono (h : Frame.Keeps names first second) (hsub : names ⊆ more) :
    Frame.Keeps more first second :=
  ⟨h.label, h.self, h.pos, h.bound, fun name hname => h.others name fun hmem => hname (hsub hmem)⟩

theorem assign (frame : Frame) {name : String} (hname : name ∈ names) (value : Ref) :
    Frame.Keeps names frame { frame with locals := frame.locals.insert name value } := by
  refine ⟨rfl, rfl, rfl, ?_, ?_⟩
  · intro other hother
    exact (Table.contains_insert ..).2 (.inr hother)
  · intro other hother
    have hne : name ≠ other := fun heq => hother (heq ▸ hname)
    rw [Table.get?_insert, if_neg hne]

end Frame.Keeps

/-- The state after an evaluation at a given depth that may have assigned the given names. -/
structure Evaluation.Kept (depth : Nat) (names : List String) (before after : State) : Prop where
  frame : before.frame.Keeps names after.frame
  events : ∃ events, after.log.toList = before.log.toList ++ events ∧ Event.Balanced depth events

namespace Evaluation.Kept

variable {depth : Nat} {names more : List String} {first second third : State}

/-- Nothing is noted. -/
theorem ofFrame (hframe : first.frame.Keeps names second.frame) (hlog : second.log = first.log) :
    Kept depth names first second :=
  ⟨hframe, [], by simp [hlog], .nil⟩

theorem refl (state : State) : Kept depth names state state :=
  .ofFrame (.refl _) rfl

theorem trans (h : Kept depth names first second) (h' : Kept depth names second third) :
    Kept depth names first third := by
  obtain ⟨hframe, events, hlog, hbalanced⟩ := h
  obtain ⟨hframe', events', hlog', hbalanced'⟩ := h'
  refine ⟨hframe.trans hframe', events ++ events', ?_, hbalanced.append hbalanced'⟩
  rw [hlog', hlog, List.append_assoc]

theorem mono (h : Kept depth names first second) (hsub : names ⊆ more) :
    Kept depth more first second :=
  ⟨h.frame.mono hsub, h.events⟩

end Evaluation.Kept

/-- Whether it fails or not, a step changes at most the given names of the frame it runs in. -/
def Eval.Keeps {α : Type} (step : Eval α) (names : List String) : Prop :=
  ∀ context state, step.Ends context state (fun _ => Kept context.depth names state)
    fun _ => Kept context.depth names state

namespace Eval.Keeps

variable {α β : Type} {names more : List String}

theorem pure (value : α) : Eval.Keeps (Pure.pure value) names :=
  fun _ state => .pure (.refl state)

theorem bind {step : Eval α} {next : α → Eval β} (hstep : step.Keeps names)
    (hnext : ∀ value, (next value).Keeps names) : (step >>= next).Keeps names := by
  intro context state
  refine (hstep context state).bind ?_
  intro value left hleft
  refine (hnext value context left).mono ?_ ?_
  · intro result after hafter
    exact hleft.trans hafter
  · intro error after hafter
    exact hleft.trans hafter

theorem mono {step : Eval α} (h : step.Keeps names) (hsub : names ⊆ more) : step.Keeps more :=
  fun context state => (h context state).mono (fun _ _ hkept => hkept.mono hsub)
    fun _ _ hkept => hkept.mono hsub

theorem raise (fault : Fault) (site : Option Node) :
    (Evaluation.raise fault site : Eval α).Keeps names :=
  fun _ state => .raise (.refl state)

/-- A step behind a check that may fail. -/
theorem guard {check : Prop} [Decidable check] {step : Eval α} (h : step.Keeps names)
    (fault : Fault) (site : Option Node) :
    (if check then Evaluation.raise fault site >>= fun _ : PUnit => step
      else step).Keeps names := by
  split
  next => exact .bind (.raise fault site) fun _ => h
  next => exact h

/-- The result of the frame is not kept. -/
theorem leave (value : Ref) : (Eval.leave value).Keeps names := by
  intro context state
  refine .leave (.ofFrame ?_ rfl)
  exact ⟨rfl, rfl, rfl, fun _ h => h, fun _ _ => rfl⟩

theorem getWorld : Eval.getWorld.Keeps names :=
  fun _ state => Kept.refl state

theorem getFrame : Eval.getFrame.Keeps names :=
  fun _ state => Kept.refl state

theorem getContext : Eval.getContext.Keeps names :=
  fun _ state => Kept.refl state

theorem setWorld (world : World) : (Eval.setWorld world).Keeps names := by
  intro context state
  have hkept : Kept context.depth names state { state with world } := .ofFrame (.refl _) rfl
  exact hkept

theorem grow (change : World → α × World) : (Eval.grow change).Keeps names := by
  intro context state
  have hkept : Kept context.depth names state { state with world := (change state.world).2 } :=
    .ofFrame (.refl _) rfl
  exact hkept

theorem write (text : String) : (Eval.write text).Keeps names := by
  intro context state
  have hkept : Kept context.depth names state { state with sink := (state.sink.write text).2 } :=
    .ofFrame (.refl _) rfl
  exact hkept

theorem note {event : Event} (h : event.isStill = true) : (Eval.note event).Keeps names := by
  intro context state
  have hkept : Kept context.depth names state { state with log := state.log.push event } :=
    ⟨.refl _, [event], by simp, .still h⟩
  exact hkept

theorem assign {name : String} (hname : name ∈ names) (value : Ref) :
    (Eval.modifyFrame fun frame =>
      { frame with locals := frame.locals.insert name value }).Keeps names := by
  intro context state
  have hkept : Kept context.depth names state { state with
      frame := { state.frame with locals := state.frame.locals.insert name value } } :=
    .ofFrame (.assign _ hname value) rfl
  exact hkept

theorem annotating {step : Eval α} (h : step.Keeps names) (note : Option String) :
    (Evaluation.annotating note step).Keeps names :=
  fun context state => .annotating (h context state) fun _ _ => id

/-- Of a step in a frame of its own, the frame below sees nothing but the value. -/
theorem within {step : Eval Ref} (h : step.Keeps more) (frame : Frame) :
    (Evaluation.within frame step).Keeps names := by
  intro context state
  have hleft : ∀ left below, Kept (context.depth + 1) more
      (state.entering frame (context.depth + 1)) left → state.frame.Keeps names below →
      Kept context.depth names state (left.leaving below frame.label context.depth) := by
    -- Of the frame that was entered nothing is left but its events.
    rintro left below ⟨-, events, hlog, hbalanced⟩ hbelow
    refine ⟨hbelow, _, ?_, hbalanced.enclose frame.label⟩
    simp [State.leaving, hlog, State.entering]
  refine .within ((h _ _).mono ?_ ?_)
  · intro value left hkept
    exact hleft left _ hkept ⟨rfl, rfl, rfl, fun _ h => h, fun _ _ => rfl⟩
  · intro error left hkept
    exact hleft left _ hkept (.refl _)

end Eval.Keeps

/-! ### Rules of the evaluator -/

namespace Evaluation

open Eval

variable {names : List String} {enter : Enter}

/-- Entering a frame leaves the one below as it is. -/
def Enter.Keeps (enter : Enter) : Prop :=
  ∀ frame site task, (enter frame site task).Keeps []

theorem send_keeps (henter : enter.Keeps) (site : Option Node) (receiver : Ref) (name : String)
    (args : List Ref) : (send enter site receiver name args).Keeps [] := by
  apply Keeps.bind .getWorld
  intro world
  split
  next => exact .raise _ _
  next =>
    apply Keeps.bind (.note rfl)
    intro _
    split
    next => exact henter _ _ _
    next => exact henter _ _ _

theorem writeLines_keeps (site : Option Node) (lines : List String) :
    (writeLines site lines).Keeps [] := by
  induction lines with
  | nil => exact .pure ()
  | cons line rest ih =>
    apply Keeps.bind (.write _)
    intro refusal
    split
    next => exact .raise _ _
    next => exact ih

theorem runNative_keeps (henter : enter.Keeps) (site : Option Node) (args : List Ref)
    (native : Native) : (runNative enter site args native).Keeps [] := by
  match native with
  | .new =>
    apply Keeps.bind .getWorld
    intro world
    apply Keeps.bind .getFrame
    intro frame
    dsimp only
    split
    next => exact .raise _ _
    next =>
      apply Keeps.bind (.grow _)
      intro made
      exact .bind (send_keeps henter _ _ _ _) fun _ => .pure made
  | .setUp => exact .pure _
  | .puts =>
    apply Keeps.bind .getWorld
    intro world
    exact .bind (writeLines_keeps site _) fun _ => .pure _
  | .host .nothing => exact .pure _
  | .host .receiver => exact .bind .getFrame fun frame => .pure _
  | .host .lastArgument => exact .pure _
  | .host (.fail text marks) => exact .raise _ _
  | .host (.forward message note) =>
    exact .bind .getFrame fun frame => .annotating (send_keeps henter _ _ _ _) note

theorem paramNames_keeps (node : Node) (listed : List Child) :
    (paramNames node listed).Keeps [] := by
  induction listed with
  | nil => exact .pure _
  | cons first rest ih =>
    cases first with
    | node param =>
      unfold paramNames
      refine .guard ?_ _ _
      split
      next => exact .raise _ _
      next => exact .bind ih fun found => .pure _
    | _ => exact .raise _ _

theorem openClass_keeps (node : Node) (owner : ClassId) (name : String)
    (superclass : Option ClassId) : (openClass node owner name superclass).Keeps [] := by
  apply Keeps.bind .getWorld
  intro world
  dsimp only
  split
  next =>
    split
    next => exact .raise _ _
    next => exact .guard (.bind (.note rfl) fun _ => .pure _) _ _
  next =>
    apply Keeps.bind (.grow _)
    intro id
    apply Keeps.bind .getWorld
    intro world
    exact .bind (.setWorld _) fun _ => .bind (.note rfl) fun _ => .pure _

theorem defineMethod_keeps (name : String) (params : List String) (body : Option Node) :
    (defineMethod name params body).Keeps [] := by
  apply Keeps.bind .getWorld
  intro world
  apply Keeps.bind .getFrame
  intro frame
  exact .bind (.setWorld _) fun _ => .bind (.note rfl) fun _ => .leave _

/-- Evaluating a node changes at most the names that the node assigns. -/
def NodeKeeps (enter : Enter) (node : Node) : Prop :=
  (evalNode enter node).Keeps node.assigned

section Parts

variable {child : Child} {children : List Child}

theorem evalPart_keeps (ih : child.Satisfies (NodeKeeps enter)) (owner : Node) :
    (evalPart enter owner child).Keeps child.assigned := by
  cases child with
  | node inner =>
    rw [evalPart]
    exact ih
  | absent =>
    rw [evalPart]
    exact .leave .nil
  | _ => exact .raise _ _

theorem evalSequence_keeps (ih : ∀ child ∈ children, child.Satisfies (NodeKeeps enter))
    (owner : Node) : (evalSequence enter owner children).Keeps (Child.allAssigned children) := by
  induction children with
  | nil =>
    rw [evalSequence]
    exact .leave .nil
  | cons first rest rec =>
    have hfirst : (evalPart enter owner first).Keeps (Child.allAssigned (first :: rest)) :=
      (evalPart_keeps (ih first List.mem_cons_self) owner).mono (List.subset_append_left _ _)
    have hrest := rec fun child hchild => ih child (List.mem_cons_of_mem _ hchild)
    cases rest with
    | nil =>
      rw [evalSequence]
      exact hfirst
    | cons next more =>
      rw [evalSequence]
      · exact .bind hfirst fun _ => hrest.mono (List.subset_append_right _ _)
      · simp

theorem evalArgs_keeps (ih : ∀ child ∈ children, child.Satisfies (NodeKeeps enter))
    (owner : Node) : (evalArgs enter owner children).Keeps (Child.allAssigned children) := by
  induction children with
  | nil =>
    rw [evalArgs]
    exact .pure []
  | cons first rest rec =>
    cases first with
    | node inner =>
      have hinner : NodeKeeps enter inner := ih _ List.mem_cons_self
      have hrest := rec fun child hchild => ih child (List.mem_cons_of_mem _ hchild)
      rw [evalArgs]
      apply Keeps.bind (hinner.mono (List.subset_append_left _ _))
      intro value
      exact .bind (hrest.mono (List.subset_append_right _ _)) fun values => .pure _
    | _ => exact .raise _ _

theorem evalReceiver_keeps (ih : child.Satisfies (NodeKeeps enter)) :
    (evalReceiver enter child).Keeps child.assigned := by
  cases child with
  | node inner =>
    rw [evalReceiver]
    exact ih
  | _ =>
    exact .bind .getFrame fun frame => .pure _

theorem evalSuperclass_keeps (ih : child.Satisfies (NodeKeeps enter)) :
    (evalSuperclass enter child).Keeps child.assigned := by
  cases child with
  | node inner =>
    rw [evalSuperclass]
    apply Keeps.bind ih
    intro value
    apply Keeps.bind .getWorld
    intro world
    split
    next => exact .pure _
    next => exact .raise _ _
  | _ => exact .pure _

theorem evalConstPath_keeps (ih : ∀ child ∈ children, child.Satisfies (NodeKeeps enter))
    (owner : Node) : (evalConstPath enter owner children).Keeps (Child.allAssigned children) := by
  unfold evalConstPath
  split
  next => exact .pure _
  next inner name rest =>
    have hinner : NodeKeeps enter inner := ih _ List.mem_cons_self
    apply Keeps.bind (hinner.mono (List.subset_append_left _ _))
    intro value
    apply Keeps.bind .getWorld
    intro world
    split
    next => exact .pure _
    next => exact .raise _ _
  next => exact .raise _ _

end Parts

/-- One case for each kind of node; children that do not fit the kind are a fault. -/
theorem evalNode_keeps (henter : enter.Keeps) (node : Node) : NodeKeeps enter node := by
  refine (Node.induction (fun kind children pos below => ?_) node).1
  have ih : ∀ child ∈ children, child.Satisfies (NodeKeeps enter) :=
    fun child hchild => (below child hchild).mono fun _ => And.left
  unfold NodeKeeps
  match kind with
  | .str =>
    unfold evalNode
    dsimp only
    split
    next => exact .bind (.grow _) fun made => .leave _
    next => exact .raise _ _
  | .begin =>
    rw [evalNode]
    exact evalSequence_keeps ih _
  | .localAssign =>
    unfold evalNode
    dsimp only
    split
    next name value rest =>
      refine .bind ((evalPart_keeps (ih value (by simp)) _).mono ?_) fun result => ?_
      · intro other hother
        simp [Node.assigned, Child.allAssigned, hother]
      · refine .bind (.assign ?_ result) fun _ => .leave _
        simp [Node.assigned]
    next => exact .raise _ _
  | .localRef =>
    unfold evalNode
    dsimp only
    split
    next =>
      apply Keeps.bind .getFrame
      intro frame
      split
      next => exact .leave _
      next => exact .raise _ _
    next => exact .raise _ _
  | .ivarAssign =>
    unfold evalNode
    dsimp only
    split
    next name value rest =>
      refine .bind ((evalPart_keeps (ih value (by simp)) _).mono ?_) fun result => ?_
      · intro other hother
        simp [Node.assigned, Child.allAssigned, hother]
      · apply Keeps.bind .getFrame
        intro frame
        apply Keeps.bind .getWorld
        intro world
        exact .bind (.setWorld _) fun _ => .leave _
    next => exact .raise _ _
  | .ivarRef =>
    unfold evalNode
    dsimp only
    split
    next => exact .bind .getFrame fun frame => .bind .getWorld fun world => .leave _
    next => exact .raise _ _
  | .selfRef => exact .bind .getFrame fun frame => .leave _
  | .nilRef => exact .leave _
  | .classDef =>
    unfold evalNode
    dsimp only
    split
    next steps place superclass body rest =>
      have hsteps := (below _ List.mem_cons_self).2
      split
      next =>
        apply Keeps.bind ((evalConstPath_keeps hsteps _).mono (List.subset_append_left _ _))
        rintro ⟨owner, name⟩
        refine .bind ((evalSuperclass_keeps (ih superclass (by simp))).mono
          (List.subset_append_right _ _)) fun parent => ?_
        apply Keeps.bind ((openClass_keeps _ _ _ _).mono (List.nil_subset _))
        intro id
        exact .bind .getWorld fun world => (henter _ _ _).mono (List.nil_subset _)
      next => exact .raise _ _
    next => exact .raise _ _
  | .methodDef =>
    unfold evalNode
    dsimp only
    split
    next =>
      split
      next => exact .bind (paramNames_keeps _ _) fun found => defineMethod_keeps _ _ _
      next => exact .raise _ _
    next => exact .raise _ _
  | .send =>
    unfold evalNode
    dsimp only
    split
    next receiver name args =>
      split
      next =>
        refine .bind ((evalReceiver_keeps (ih receiver (by simp))).mono
          (List.subset_append_left _ _)) fun target => ?_
        refine .bind ((evalArgs_keeps (fun arg harg => ih arg (by simp [harg])) _).mono
          (List.subset_append_right _ _)) fun values => ?_
        exact (send_keeps henter _ _ _ _).mono (List.nil_subset _)
      next => exact .raise _ _
    next => exact .raise _ _
  | .const =>
    rw [evalNode]
    apply Keeps.bind (evalConstPath_keeps ih _)
    rintro ⟨owner, name⟩
    apply Keeps.bind .getWorld
    intro world
    dsimp only
    split
    next => exact .leave _
    next => exact .raise _ _
  | .int | .float | .sym | .trueRef | .falseRef | .singletonDef | .constAssign | .param | .params
  | .other _ => exact .raise _ _

/-- What runs in a frame assigns names of that frame only. -/
theorem runTask_keeps (henter : enter.Keeps) (site : Option Node) (task : Task) :
    ∃ names, (runTask enter site task).Keeps names := by
  match task with
  | .body none => exact ⟨[], .leave .nil⟩
  | .body (some code) => exact ⟨_, evalNode_keeps henter code⟩
  | .native native args =>
    exact ⟨[], .bind (runNative_keeps henter site args native) fun value => .leave value⟩

theorem perform_keeps (room : Nat) : (perform room).Keeps := by
  induction room with
  | zero => exact fun _ _ _ => .bind .getContext fun _ => .raise _ _
  | succ room ih =>
    intro frame site task
    obtain ⟨names, htask⟩ := runTask_keeps ih site task
    exact .within htask frame

theorem evalTree_keeps (room : Nat) (tree : Option Node) :
    (evalTree room tree).Keeps (Child.ofNode? tree).assigned := by
  match tree with
  | none => exact .leave .nil
  | some node => exact evalNode_keeps (perform_keeps room) node

end Evaluation

end Garnet
