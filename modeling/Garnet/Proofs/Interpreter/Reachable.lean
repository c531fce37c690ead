import Garnet.Proofs.Evaluation.Changes
import Garnet.Proofs.Interpreter.Basic
import Garnet.Proofs.Object.Graph

/-! # Reachable interpreters

An interpreter is used from outside by running texts, evaluating trees, sending messages and making
objects, in any order and whether these fail or not. What elementary changes keep of a world, all of
these keep. In particular the graph of objects and classes stays intact.
-/

namespace Garnet.Interpreter

open World

variable {interp : Interpreter} {I : World.Invariant}

/-- The invariant holds of the world, and all frames refer to objects of the world. -/
structure Sound (I : World.Invariant) (interp : Interpreter) : Prop where
  world : I.Holds interp.world
  frames : ∀ frame ∈ interp.frames, frame.HeldIn interp.world

theorem mem_frames {frame : Frame} :
    frame ∈ interp.frames ↔ frame = interp.current ∨ frame ∈ interp.outer := by
  simp [frames, or_comm]

namespace Sound

theorem closed (h : interp.Sound I) : interp.world.Closed :=
  I.closed h.world

theorem current (h : interp.Sound I) : interp.current.HeldIn interp.world :=
  h.frames _ (mem_frames.2 (.inl rfl))

theorem outer (h : interp.Sound I) {frame : Frame} (hframe : frame ∈ interp.outer) :
    frame.HeldIn interp.world :=
  h.frames frame (mem_frames.2 (.inr hframe))

theorem state (h : interp.Sound I) : I.Sound interp.state :=
  ⟨h.world, h.current⟩

/-- Another current frame above the same ones, in a larger world. -/
theorem resume (h : interp.Sound I) {left : Evaluation.State} (hleads : I.Leads interp.state left) :
    (interp.resume left).Sound I := by
  refine ⟨hleads.sound.world, fun frame hframe => ?_⟩
  rcases mem_frames.1 hframe with rfl | houter
  · exact hleads.sound.frame
  · exact (h.outer houter).mono hleads.grown

theorem exec (h : interp.Sound I) {α : Type} {step : Eval α} {post : World → α → Prop}
    (hstep : I.Agree step step interp.context interp.state post) :
    (interp.exec step).2.Sound I := by
  have hends := hstep.ends
  rw [exec_eq]
  unfold Eval.Ends at hends
  split at hends
  next value left hrun =>
    rw [hrun]
    exact h.resume hends.1
  next error left hrun =>
    rw [hrun]
    exact h.resume hends

theorem interpret (h : interp.Sound I) {tree : Option Node}
    (htree : ∀ node ∈ tree, node.NamesOnly I.allowed) : (interp.interpret tree).2.Sound I :=
  h.exec (Invariant.evalTree h.state interp.room interp.context htree)

theorem send (h : interp.Sound I) {receiver : Ref} (hreceiver : interp.world.HasObject receiver)
    (name : String) {args : List Ref} (hargs : ∀ arg ∈ args, interp.world.HasObject arg) :
    (interp.send receiver name args).2.Sound I :=
  h.exec (Invariant.send (Invariant.perform interp.room interp.context) h.state none hreceiver name
    hargs)

/-- A text that is refused changes nothing, and one that is accepted is evaluated. -/
theorem run (h : interp.Sound I) {source : String}
    (hparse : ∀ tree, parse source interp.current.locals.names = .ok tree →
      ∀ node ∈ tree, node.NamesOnly I.allowed) : (interp.run source).2.Sound I := by
  unfold Interpreter.run
  split
  next => exact h
  next tree htree =>
    -- The text is kept for code frames, which the invariant does not mention.
    have hreading : Interpreter.Sound I { interp with source } := ⟨h.world, h.frames⟩
    have hleft := hreading.interpret (hparse tree htree)
    split
    next hrun =>
      rw [hrun] at hleft
      exact hleft
    next hrun =>
      rw [hrun] at hleft
      exact hleft

theorem change (h : interp.Sound I) {world : World}
    (hchange : Change I.allowed interp.world world) : Interpreter.Sound I { interp with world } :=
  ⟨I.change h.world hchange, fun frame hframe => (h.frames frame hframe).mono hchange.extends⟩

theorem push (h : interp.Sound I) {frame : Frame} (hframe : frame.HeldIn interp.world) :
    (interp.push frame).Sound I := by
  refine ⟨h.world, fun other hother => ?_⟩
  rcases mem_frames.1 hother with rfl | hother
  · exact hframe
  · exact h.frames other (mem_frames.2 (List.mem_cons.1 hother))

theorem pop (h : interp.Sound I) {frame : Frame} {below : Interpreter}
    (hpop : interp.pop? = some (frame, below)) : below.Sound I := by
  unfold pop? at hpop
  split at hpop
  next => cases hpop
  next next outer houter =>
    cases hpop
    refine ⟨h.world, fun other hother => h.outer ?_⟩
    rw [houter]
    exact List.mem_cons.2 (mem_frames.1 hother)

end Sound

theorem sound_new (limit : Int) (sink : Sink) (h : I.Holds .initial) :
    (new limit sink).Sound I := by
  have hclosed := I.closed h
  refine ⟨h, fun frame hframe => ?_⟩
  rcases mem_frames.1 hframe with rfl | houter
  · refine ⟨hclosed.main, fun _ _ hvalue => absurd hvalue (by simp [new, Frame.toplevel]), ?_⟩
    intro value hvalue
    cases hvalue
    exact hclosed.nil
  · exact absurd houter List.not_mem_nil

/-- What can be done with an interpreter from outside. Only objects and classes of its own world can
be handed to it. Frames may also be entered and left by hand. -/
inductive Reachable : Interpreter → Prop
  | new (limit : Int) (sink : Sink) : Reachable (new limit sink)
  | run {interp : Interpreter} (h : Reachable interp) (source : String) :
    Reachable (interp.run source).2
  | interpret {interp : Interpreter} (h : Reachable interp) (tree : Option Node) :
    Reachable (interp.interpret tree).2
  | send {interp : Interpreter} (h : Reachable interp) {receiver : Ref} {args : List Ref}
    (hreceiver : interp.world.HasObject receiver) (name : String)
    (hargs : ∀ arg ∈ args, interp.world.HasObject arg) :
    Reachable (interp.send receiver name args).2
  | newObject {interp : Interpreter} (h : Reachable interp) {id : ClassId}
    (hid : interp.world.HasClass id) : Reachable (interp.grow (·.newObject id)).2
  | newString {interp : Interpreter} (h : Reachable interp) (text : String) :
    Reachable (interp.grow (·.newString text)).2
  | setIvar {interp : Interpreter} (h : Reachable interp) {ref value : Ref}
    (href : interp.world.HasObject ref) (name : String) (hvalue : interp.world.HasObject value) :
    Reachable (interp.mapWorld (·.setIvar ref name value))
  | push {interp : Interpreter} (h : Reachable interp) {frame : Frame}
    (hframe : frame.HeldIn interp.world) : Reachable (interp.push frame)
  | pop {interp below : Interpreter} (h : Reachable interp) {frame : Frame}
    (hpop : interp.pop? = some (frame, below)) : Reachable below

theorem Reachable.sound (h : interp.Reachable) : interp.Sound graphInvariant := by
  induction h with
  | new limit sink => exact sound_new limit sink graph_initial
  | run h source ih => exact ih.run fun _ _ node _ => node.namesOnly_true
  | interpret h tree ih => exact ih.interpret fun node _ => node.namesOnly_true
  | send h hreceiver name hargs ih => exact ih.send hreceiver name hargs
  | newObject h hid ih => exact ih.change (.newObject hid)
  | newString h text ih => exact ih.change (.newString text)
  | setIvar h href name hvalue ih => exact ih.change (.setIvar href hvalue name)
  | push h hframe ih => exact ih.push hframe
  | pop h hpop ih => exact ih.pop hpop

/-- The graph of objects and classes is as it should be, and no frame leads out of it. Every chain
of superclasses ends at the root class, so what that declares is found for every object. -/
structure Intact (interp : Interpreter) : Prop where
  graph : interp.world.Graph
  held : ∀ frame ∈ interp.frames, frame.HeldIn interp.world
  chain (id : ClassId) : interp.world.HasClass id →
    interp.world.Chain id (interp.world.ancestors id) ∧
      (interp.world.ancestors id).getLast? = some .objectClass
  answers (ref : Ref) : interp.world.HasObject ref → ∀ name ∈ ["initialize", "puts"],
    (interp.world.findMethod (interp.world.classOf ref) name).isSome = true

/-- Nothing that can be done with an interpreter damages the graph, whether it fails or not. -/
theorem reachable_intact (h : interp.Reachable) : interp.Intact := by
  have hgraph : interp.world.Graph := h.sound.world
  refine ⟨hgraph, h.sound.frames, ?_, ?_⟩
  · intro id hid
    obtain ⟨hchain, hlast, -⟩ := hgraph.ancestors_eq hid
    exact ⟨hchain, hlast⟩
  · intro ref href name hname
    have hclass := hgraph.classOf ref href
    rcases List.mem_cons.1 hname with rfl | hname
    · exact hgraph.findMethod_isSome hgraph.setUp _ hclass
    · rw [List.mem_singleton.1 hname]
      exact hgraph.findMethod_isSome hgraph.puts _ hclass

/-- A message after a class below the class of all classes, an instance of it and a fault. -/
theorem reachable_intact_after_fault :
    (((new 3 {}).run "class A < Class\nend\n@a = A.new(self)\nB").2.send .main "puts"
      [.nil]).2.Intact := by
  have hrun := Reachable.run (.new 3 {}) "class A < Class\nend\n@a = A.new(self)\nB"
  refine reachable_intact (hrun.send hrun.sound.closed.main "puts" fun arg harg => ?_)
  rw [List.mem_singleton.1 harg]
  exact hrun.sound.closed.nil

end Garnet.Interpreter
