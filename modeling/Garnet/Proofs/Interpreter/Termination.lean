import Garnet.Proofs.Evaluation.Congruence
import Garnet.Proofs.Interpreter.Reachable
import Garnet.Proofs.Interpreter.Stack

/-! # Evaluations end

A program may call itself without end and redefine its methods meanwhile. Still an evaluation ends,
because it goes down a tree inside a frame, and every call takes one of the frames that the limit
leaves. To say this of the evaluator, frames are entered with a fuel that is spent with every frame.
What happens when the fuel is used up does not matter if there is more of it than free frames. A
message is resolved by following a chain of superclasses, which ends as well.
-/

namespace Garnet

namespace Evaluation

open Classical in
/-- Run a task in a new frame, unless the limit is reached. The fuel says how many frames can be
entered one in the other. When it is used up, or when some chain of superclasses has no end in the
world as it is, something else happens. -/
noncomputable def fuelled (otherwise : Enter) : Nat → Enter
  | 0 => otherwise
  | fuel + 1 => fun frame site task context state =>
    if state.world.ChainsEnd then
      if context.limit ≤ context.depth then raise (.stackTooDeep context.limit) site context state
      else within frame (runTask (fuelled otherwise fuel) site task) context state
    else otherwise frame site task context state

section Fuel

open World

variable {otherwise : Enter} {fuel : Nat} {context : Context} {state : State}

theorem fuelled_full (frame : Frame) (site : Option Node) (task : Task)
    (hworld : state.world.ChainsEnd) (hfull : context.limit ≤ context.depth) :
    fuelled otherwise (fuel + 1) frame site task context state =
      raise (.stackTooDeep context.limit) site context state :=
  (if_pos hworld).trans (if_pos hfull)

theorem fuelled_free (frame : Frame) (site : Option Node) (task : Task)
    (hworld : state.world.ChainsEnd) (hfree : context.depth < context.limit) :
    fuelled otherwise (fuel + 1) frame site task context state =
      within frame (runTask (fuelled otherwise fuel) site task) context state :=
  (if_pos hworld).trans (if_neg (Nat.not_le_of_lt hfree))

/-- With more fuel than free frames, the limit is always reached first. -/
theorem fuelled_entersAlike (otherwise : Enter) {room fuel : Nat} (hfuel : room < fuel)
    (context : Context) (hroom : context.limit - context.depth = room) :
    graphInvariant.EntersAlike (perform room) (fuelled otherwise fuel) context := by
  -- A frame takes one of the free ones and one unit of fuel.
  induction room generalizing fuel context with
  | zero =>
    intro frame site task state h _ _
    obtain ⟨fuel, rfl⟩ := Nat.exists_eq_add_one_of_ne_zero (Nat.ne_of_gt hfuel)
    refine ⟨?_, .getContext (.raise h.leads)⟩
    rw [fuelled_full frame site task h.world.chainsEnd (by omega)]
    rfl
  | succ room ih =>
    intro frame site task state h hframe htask
    obtain ⟨fuel, rfl⟩ := Nat.exists_eq_add_one_of_ne_zero (Nat.ne_of_gt (Nat.zero_lt_of_lt hfuel))
    have hinner : context.limit - (context.depth + 1) = room := by omega
    have hagree : graphInvariant.Agree (within frame (runTask (perform room) site task))
        (within frame (runTask (fuelled otherwise fuel) site task)) context state HasObject := by
      refine .within h hframe fun entered hentered hworld => ?_
      exact Invariant.runTask (ih (by omega) _ hinner) hentered site (hworld ▸ htask)
    refine ⟨?_, hagree.ends⟩
    rw [fuelled_free frame site task h.world.chainsEnd (by omega)]
    exact hagree.same

end Fuel

/-- A tree is evaluated like the body of a frame. -/
theorem evalTree_eq_runTask (room : Nat) (tree : Option Node) :
    evalTree room tree = runTask (perform room) none (.body tree) := by
  cases tree with
  | none => rfl
  | some node => rfl

end Evaluation

open Evaluation

/-! ### The height of the stack -/

/-- If the event is that a frame was entered, the stack was not higher than `top` then. -/
def Event.Below (top : Nat) : Event → Prop
  | .push _ depth => depth ≤ top
  | _ => True

theorem Event.Below.ofStill {event : Event} (h : event.isStill = true) (top : Nat) :
    event.Below top := by
  cases event with
  | push label depth => cases h
  | _ => trivial

/-- The stack is not higher than its highest entry says. -/
theorem Event.replay_height {depth top : Nat} {above reached : List String} {events : List Event}
    (hbelow : ∀ event ∈ events, event.Below top) (habove : depth + above.length ≤ top)
    (h : replay depth above events = some reached) : depth + reached.length ≤ top := by
  induction events generalizing above with
  | nil =>
    cases h
    exact habove
  | cons event rest ih =>
    rw [replay, List.foldlM_cons] at h
    obtain ⟨mid, hmove, hrest⟩ := Option.bind_eq_some_iff.1 h
    refine ih (fun other hother => hbelow other (List.mem_cons_of_mem _ hother)) ?_ hrest
    have hevent := hbelow event List.mem_cons_self
    cases event with
    | push label noted =>
      simp only [move, Option.ite_none_right_eq_some, Option.some.injEq] at hmove
      obtain ⟨hnoted, rfl⟩ := hmove
      have hle : noted ≤ top := hevent
      rw [List.length_cons]
      omega
    | pop label noted =>
      cases above with
      | nil => exact absurd hmove (by simp [move])
      | cons first below =>
        simp only [move, Option.ite_none_right_eq_some, Option.some.injEq] at hmove
        obtain ⟨-, rfl⟩ := hmove
        rw [List.length_cons] at habove
        omega
    | _ =>
      cases hmove
      exact habove

namespace Eval

variable {α β : Type} {depth top : Nat}

/-- At a given depth, a step enters no frame that makes the stack higher than `top`. -/
def Rises (depth top : Nat) (step : Eval α) : Prop :=
  ∀ context state, context.depth = depth → ∃ events,
    (step context state).2.log.toList = state.log.toList ++ events ∧
      ∀ event ∈ events, event.Below top

namespace Rises

/-- A step that notes nothing. -/
theorem silent {step : Eval α} (h : ∀ context state, (step context state).2.log = state.log) :
    step.Rises depth top := by
  intro context state _
  exact ⟨[], by rw [h, List.append_nil], fun _ hmem => absurd hmem List.not_mem_nil⟩

theorem bind {step : Eval α} {next : α → Eval β} (hstep : step.Rises depth top)
    (hnext : ∀ value, (next value).Rises depth top) : (step >>= next).Rises depth top := by
  intro context state hdepth
  obtain ⟨events, hlog, hbelow⟩ := hstep context state hdepth
  rw [bind_apply]
  rcases hrun : step context state with ⟨outcome, left⟩
  rw [hrun] at hlog
  cases outcome with
  | error error => exact ⟨events, hlog, hbelow⟩
  | ok value =>
    obtain ⟨more, hmore, hbelow'⟩ := hnext value context left hdepth
    refine ⟨events ++ more, ?_, ?_⟩
    · rw [← List.append_assoc, ← hlog]
      exact hmore
    · intro event hevent
      rcases List.mem_append.1 hevent with hmem | hmem
      · exact hbelow event hmem
      · exact hbelow' event hmem

theorem note {event : Event} (h : event.isStill = true) : (Eval.note event).Rises depth top := by
  intro context state _
  refine ⟨[event], Array.toList_push, fun other hother => ?_⟩
  rw [List.mem_singleton.1 hother]
  exact .ofStill h top

theorem writeLines (site : Option Node) (lines : List String) :
    (Evaluation.writeLines site lines).Rises depth top := by
  induction lines with
  | nil => exact silent fun _ _ => rfl
  | cons line rest ih =>
    refine bind (silent fun _ _ => rfl) fun refusal => ?_
    split
    next => exact silent fun _ _ => rfl
    next => exact ih

theorem annotating {step : Eval α} (note : Option String) (h : step.Rises depth top) :
    (Evaluation.annotating note step).Rises depth top := by
  intro context state hdepth
  obtain ⟨events, hlog, hbelow⟩ := h context state hdepth
  refine ⟨events, ?_, hbelow⟩
  rw [← hlog, Evaluation.annotating]
  rcases step context state with ⟨outcome, left⟩
  cases outcome with
  | ok value => rfl
  | error error => rfl

/-- The frame that is entered is one higher. -/
theorem within {step : Eval Ref} (h : step.Rises (depth + 1) top) (htop : depth < top)
    (frame : Frame) : (Evaluation.within frame step).Rises depth top := by
  intro context state hdepth
  obtain ⟨events, hlog, hbelow⟩ := h (context.entering state.frame)
    (state.entering frame (context.depth + 1)) (congrArg Nat.succ hdepth)
  refine ⟨.push frame.label (context.depth + 1) :: (events ++ [.pop frame.label context.depth]),
    ?_, ?_⟩
  · rw [within_apply]
    rcases hrun : step (context.entering state.frame)
      (state.entering frame (context.depth + 1)) with ⟨outcome, left⟩
    have hleft : left.log.toList =
        (state.log.push (.push frame.label (context.depth + 1))).toList ++ events := by
      rw [hrun] at hlog
      exact hlog
    cases outcome with
    | ok value => simp [State.leaving, hleft]
    | error error => simp [State.leaving, hleft]
  · intro event hevent
    simp only [List.mem_cons, List.mem_append, List.not_mem_nil, or_false] at hevent
    rcases hevent with rfl | hevent | rfl
    · rw [hdepth]
      exact htop
    · exact hbelow event hevent
    · trivial

end Rises

/-- To rise no higher than a bound is a statement about single steps. -/
def rising (depth top : Nat) : Congruence where
  Rel step _ := step.Rises depth top
  pure _ := .silent fun _ _ => rfl
  bind := .bind
  raise _ _ := .silent fun _ _ => rfl
  leave _ := .silent fun _ _ => rfl
  getWorld := .silent fun _ _ => rfl
  getFrame h := .bind (.silent fun _ _ => rfl) fun frame => h frame frame rfl
  setWorld _ := .silent fun _ _ => rfl
  grow _ := .silent fun _ _ => rfl
  assign _ _ := .silent fun _ _ => rfl
  note h := .note h
  writeLines := .writeLines
  annotating note h := .annotating note h

end Eval

theorem Evaluation.runTask_rises {enter : Enter} {depth top : Nat}
    (henter : ∀ frame site task, (enter frame site task).Rises depth top) (site : Option Node)
    (task : Task) : (runTask enter site task).Rises depth top := by
  have halike : ∀ frame site task, (Eval.rising depth top).Rel (enter frame site task)
      (enter frame site task) := henter
  exact (Eval.rising depth top).runTask halike site task

theorem Evaluation.perform_rises {room depth top : Nat} (htop : depth + room ≤ top) (frame : Frame)
    (site : Option Node) (task : Task) : (perform room frame site task).Rises depth top := by
  induction room generalizing depth frame site task with
  | zero => exact .bind (.silent fun _ _ => rfl) fun _ => .silent fun _ _ => rfl
  | succ room ih => exact .within (runTask_rises (ih (by omega)) site task) (by omega) frame

theorem Evaluation.evalTree_rises {room depth top : Nat} (htop : depth + room ≤ top)
    (tree : Option Node) : (evalTree room tree).Rises depth top := by
  rw [evalTree_eq_runTask]
  exact runTask_rises (perform_rises htop) none (.body tree)

/-! ### Interpreters -/

namespace Interpreter

variable {interp : Interpreter}

/-- The evaluation of a tree ends, in three respects. With more fuel than free frames it is never
used up, and any amount gives the same outcome. A message is resolved along a chain that ends: this
is part of what the fuelled evaluation checks whenever a frame is entered, and the only message that
does not enter a frame is one that is not understood, after which the world stays as it is. Whenever
a frame is entered or left, there are no more frames than the limit allows. -/
structure Terminates (interp : Interpreter) (tree : Option Node) : Prop where
  fuel (otherwise : Enter) (fuel : Nat) : interp.room < fuel →
    interp.exec (runTask (fuelled otherwise fuel) none (.body tree)) = interp.interpret tree
  chains : interp.world.ChainsEnd ∧ (interp.interpret tree).2.world.ChainsEnd
  height : interp.depth ≤ interp.limit → ∃ events,
    (interp.interpret tree).2.log.toList = interp.log.toList ++ events ∧
      ∀ first, first <+: events → ∃ above, Event.replay interp.depth [] first = some above ∧
        interp.depth + above.length ≤ interp.limit

theorem exec_fuelled (h : interp.Reachable) (tree : Option Node) (otherwise : Enter) {fuel : Nat}
    (hfuel : interp.room < fuel) :
    interp.exec (runTask (fuelled otherwise fuel) none (.body tree)) = interp.interpret tree := by
  have henter := fuelled_entersAlike otherwise hfuel interp.context rfl
  have hfits : World.graphInvariant.Fits interp.world (.body tree) :=
    fun node _ => node.namesOnly_true
  have hagree := World.Invariant.runTask henter h.sound.state none hfits
  rw [interpret, evalTree_eq_runTask, exec_eq, exec_eq, hagree.same]

/-- The events of an evaluation, replayed up to any point. -/
theorem interpret_height (tree : Option Node) (hlimit : interp.depth ≤ interp.limit) :
    ∃ events, (interp.interpret tree).2.log.toList = interp.log.toList ++ events ∧
      ∀ first, first <+: events → ∃ above, Event.replay interp.depth [] first = some above ∧
        interp.depth + above.length ≤ interp.limit := by
  have htop : interp.depth + interp.room ≤ interp.limit := by
    unfold room
    omega
  obtain ⟨events, hlog, hbelow⟩ := evalTree_rises htop tree interp.context interp.state rfl
  obtain ⟨noted, hnoted, hbalanced⟩ :=
    (exec_keeps (evalTree_keeps interp.room tree) interp).events
  -- What the events may be and how they are nested is said of the same events.
  obtain rfl : noted = events := List.append_cancel_left (hnoted.symm.trans hlog)
  refine ⟨noted, hlog, ?_⟩
  rintro first ⟨rest, rfl⟩
  unfold Event.Balanced at hbalanced
  rw [Event.replay_append] at hbalanced
  obtain ⟨above, habove, -⟩ := Option.bind_eq_some_iff.1 hbalanced
  refine ⟨above, habove, Event.replay_height ?_ ?_ habove⟩
  · exact fun event hevent => hbelow event (List.mem_append_left _ hevent)
  · exact hlimit

theorem interpret_terminates (h : interp.Reachable) (tree : Option Node) :
    interp.Terminates tree where
  fuel otherwise _ hfuel := exec_fuelled h tree otherwise hfuel
  chains := ⟨h.sound.world.chainsEnd, (h.interpret tree).sound.world.chainsEnd⟩
  height := interpret_height tree

/-- A method that calls itself without end. -/
theorem interpret_terminates_recursive :
    ((new 3 {}).run "def f\n  f\nend").2.Terminates
      (some (.mk .send [.absent, .sym "f"] .unknown)) :=
  interpret_terminates (.run (.new 3 {}) "def f\n  f\nend") _

end Interpreter

end Garnet
