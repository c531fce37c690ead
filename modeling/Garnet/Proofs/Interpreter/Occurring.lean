import Garnet.Proofs.Interpreter.Moments
import Garnet.Proofs.Interpreter.Reachable

/-! # Interpreters that occur

An interpreter occurs if it is left behind by what is done from outside, or if it is met at a moment
of that. Both keep the graph of objects and classes intact, because each step from one moment to the
next one does.
-/

namespace Garnet

open Evaluation World

/-- What is about to be done refers to objects of the world only. -/
def Activity.HeldIn (world : World) : Activity → Prop
  | .message _ receiver _ values =>
    world.HasObject receiver ∧ ∀ value ∈ values, world.HasObject value
  | .entry frame _ entered => frame.HeldIn world ∧ graphInvariant.Fits world entered
  | .task _ running => graphInvariant.Fits world running
  | .native _ values _ => ∀ value ∈ values, world.HasObject value
  | _ => True

namespace Interpreter

variable {i m n : Interpreter} {a b : Activity}

theorem fits_body (world : World) (body : Option Node) : graphInvariant.Fits world (.body body) :=
  fun node _ => node.namesOnly_true

theorem Sound.note {I : World.Invariant} (h : i.Sound I) (event : Event) : (i.note event).Sound I :=
  ⟨h.world, h.frames⟩

theorem Sound.reading {I : World.Invariant} (h : i.Sound I) (source : String) :
    (i.reading source).Sound I :=
  ⟨h.world, h.frames⟩

/-- An interpreter after something has ended with a value in its current frame. -/
structure Leads (before after : Interpreter) (found : World → Prop) : Prop where
  sound : after.Sound graphInvariant
  grown : before.world.Extends after.world
  found : found after.world

section Parts

variable (h : i.Sound graphInvariant)

include h

theorem Sound.exec_ok {α : Type} {step : Eval α} {post : World → α → Prop}
    (hstep : graphInvariant.Agree step step i.context i.state post) {value : α}
    (hrun : i.exec step = (.ok value, m)) : Leads i m (post · value) := by
  have hsound : m.Sound graphInvariant := by simpa only [hrun] using h.exec hstep
  have hends := hstep.ends
  rw [exec_eq] at hrun
  unfold Eval.Ends at hends
  split at hends
  next found left heq =>
    rw [heq] at hrun
    cases hrun
    exact ⟨hsound, hends.1.grown, hends.2⟩
  next error left heq =>
    rw [heq] at hrun
    cases hrun

omit h in
theorem satisfies_agrees (child : Child) :
    child.Satisfies (graphInvariant.NodeAgrees i.enters i.enters i.context) := by
  cases child with
  | node inner => exact Invariant.evalNode (Invariant.perform i.room _) inner
  | _ => trivial

theorem Sound.evalNode {node : Node} {value : Ref}
    (hrun : i.exec (evalNode i.enters node) = (.ok value, m)) : Leads i m (·.HasObject value) :=
  h.exec_ok (Invariant.evalNode (Invariant.perform i.room _) node node.namesOnly_true _ h.state)
    hrun

theorem Sound.evalPart {owner : Node} {child : Child} {value : Ref}
    (hrun : i.exec (evalPart i.enters owner child) = (.ok value, m)) :
    Leads i m (·.HasObject value) :=
  h.exec_ok (Invariant.evalPart h.state owner child.namesOnly_true (satisfies_agrees child)) hrun

theorem Sound.evalReceiver {child : Child} {value : Ref}
    (hrun : i.exec (evalReceiver i.enters child) = (.ok value, m)) :
    Leads i m (·.HasObject value) :=
  h.exec_ok (Invariant.evalReceiver h.state child.namesOnly_true (satisfies_agrees child)) hrun

theorem Sound.evalArgs {owner : Node} {children : List Child} {values : List Ref}
    (hrun : i.exec (evalArgs i.enters owner children) = (.ok values, m)) :
    Leads i m fun world => ∀ value ∈ values, world.HasObject value :=
  h.exec_ok (Invariant.evalArgs h.state owner (fun child _ => child.namesOnly_true)
    fun child _ => satisfies_agrees child) hrun

theorem Sound.evalSuperclass {child : Child} {above : Option ClassId}
    (hrun : i.exec (evalSuperclass i.enters child) = (.ok above, m)) :
    Leads i m fun world => ∀ id ∈ above, world.HasClass id :=
  h.exec_ok (Invariant.evalSuperclass h.state child.namesOnly_true (satisfies_agrees child)) hrun

theorem Sound.evalConstPath {owner : Node} {children : List Child} {found : ClassId × String}
    (hrun : i.exec (evalConstPath i.enters owner children) = (.ok found, m)) :
    Leads i m (·.HasClass found.1) := by
  have hleads := h.exec_ok (Invariant.evalConstPath h.state owner
    (Node.namesOnly_true (.mk .const children .unknown)) fun child _ => satisfies_agrees child) hrun
  exact ⟨hleads.sound, hleads.grown, hleads.found.1⟩

theorem Sound.openClass {node : Node} {owner : ClassId} {name : String} {above : Option ClassId}
    {id : ClassId} (howner : i.world.HasClass owner) (habove : ∀ id ∈ above, i.world.HasClass id)
    (hrun : i.exec (openClass node owner name above) = (.ok id, m)) : Leads i m (·.HasClass id) :=
  h.exec_ok (Invariant.openClass h.state node howner trivial habove) hrun

end Parts

theorem Begins.sound (h : Begins i a m b) (hi : i.Sound graphInvariant) (ha : a.HeldIn i.world) :
    m.Sound graphInvariant ∧ b.HeldIn m.world := by
  cases h with
  | statements | statement | localValue | ivarValue | constant | space | receiver | argument
  | className => exact ⟨hi, trivial⟩
  | statementsAfter hfirst => exact ⟨(hi.evalPart hfirst).sound, trivial⟩
  | constantAfter hnode hpath => exact ⟨(hi.evalConstPath hpath).sound, trivial⟩
  | spaceAfter hinner => exact ⟨(hi.evalNode hinner).sound, trivial⟩
  | arguments hnode hpart hreceiver => exact ⟨(hi.evalReceiver hreceiver).sound, trivial⟩
  | sending hnode hpart hreceiver hargs =>
    have hmid := hi.evalReceiver hreceiver
    have hlate := hmid.sound.evalArgs hargs
    exact ⟨hlate.sound, hlate.grown.hasObject hmid.found, hlate.found⟩
  | argumentsAfter hfirst => exact ⟨(hi.evalNode hfirst).sound, trivial⟩
  | classParent hpath hnode hpart hfound => exact ⟨(hi.evalConstPath hfound).sound, trivial⟩
  | classParentAfter hpath hnode hpart hfound hparent =>
    exact ⟨((hi.evalConstPath hfound).sound.evalNode hparent).sound, trivial⟩
  | classOpening hpath hnode hparts hfound hparent =>
    exact ⟨((hi.evalConstPath hfound).sound.evalSuperclass hparent).sound, trivial⟩
  | classBody hpath hnode hparts hfound hparent hopen =>
    have hmid := hi.evalConstPath hfound
    have hlate := hmid.sound.evalSuperclass hparent
    have hlast := hlate.sound.openClass (hlate.grown.hasClass hmid.found) hlate.found hopen
    have hclosed := hlast.sound.closed
    refine ⟨hlast.sound, ⟨hclosed.face _ hlast.found, fun _ _ hvalue => ?_, fun _ hvalue => ?_⟩,
      fits_body _ _⟩
    · exact absurd hvalue (by simp [opening])
    · exact Option.some.inj hvalue ▸ hclosed.nil
  | @answer site target name values method owner hfound =>
    refine ⟨hi.note _, ⟨ha.1, fun _ _ => Invariant.hasObject_bindParams hi.closed ha.2,
      fun _ hvalue => ?_⟩, ?_⟩
    · exact Option.some.inj hvalue ▸ hi.closed.nil
    · cases hcode : method.code with
      | native native => exact ha.2
      | interpreted params body => exact fits_body _ _
  | enter hroom => exact ⟨(hi.push ha.1).note _, ha.2⟩
  | body => exact ⟨hi, trivial⟩
  | native => exact ⟨hi, ha⟩
  | @made site values id hclass =>
    have hid := hi.closed.asClass? _ id hclass
    have hgrown : i.world.Extends (i.world.newObject id).2 := ⟨by simp [newObject], Nat.le_refl _⟩
    refine ⟨hi.change (.newObject hid), ?_, fun value hvalue => hgrown.hasObject (ha value hvalue)⟩
    simp [grow, newObject, HasObject, allocate]
  | forward => exact ⟨hi, hi.current.self, ha⟩
  | puts => exact ⟨hi, trivial⟩
  | written hwrite => exact ⟨⟨hi.world, hi.frames⟩, trivial⟩
  | refused hwrite => exact ⟨⟨hi.world, hi.frames⟩, trivial⟩

theorem Reaches.sound (h : Reaches i a m b) (hi : i.Sound graphInvariant)
    (ha : a.HeldIn i.world) : m.Sound graphInvariant := by
  induction h with
  | refl => exact hi
  | next h _ ih =>
    obtain ⟨hmid, hbetween⟩ := h.sound hi ha
    exact ih hmid hbetween

theorem Reaches.edits (h : Reaches i a m b) : i.world.Edits m.world :=
  h.invariant (i.world.Edits ·.world) (fun _ _ hstep hedits => hedits.trans hstep.edits)
    (fun _ _ _ hedits => hedits) .refl

theorem Reachable.edits (h : i.Reachable) : initial.Edits i.world := by
  induction h with
  | new limit sink => exact .refl
  | run _ source ih => exact ih.trans (run_edits _ source).1
  | interpret _ tree ih => exact ih.trans (interpret_edits _ tree).1
  | send _ _ name _ ih =>
    exact ih.trans (exec_edits (send_edits (enters_edits _) none _ name _) _).1
  | newObject _ _ ih => exact ih.tail (.newObject _)
  | newString _ text ih => exact ih.tail (.newString text)
  | setIvar _ _ name _ ih => exact ih.tail (.setIvar _ name _)
  | push _ _ ih => exact ih
  | pop _ hpop ih =>
    unfold pop? at hpop
    split at hpop
    next => cases hpop
    next =>
      cases hpop
      exact ih

/-- The interpreters that are met between and during all that can be done from outside. -/
inductive Occurs : Interpreter → Prop
  | between {interp : Interpreter} (h : interp.Reachable) : Occurs interp
  | evaluating {interp moment : Interpreter} (h : interp.Reachable) (source : String) {node : Node}
    {activity : Activity}
    (hreaches : Reaches (interp.reading source) (.node node) moment activity) : Occurs moment
  | sending {interp moment : Interpreter} (h : interp.Reachable) {receiver : Ref} {name : String}
    {args : List Ref} (hreceiver : interp.world.HasObject receiver)
    (hargs : ∀ arg ∈ args, interp.world.HasObject arg) {activity : Activity}
    (hreaches : Reaches interp (.message none receiver name args) moment activity) : Occurs moment

theorem Occurs.sound (h : i.Occurs) : i.Sound graphInvariant := by
  cases h with
  | between h => exact h.sound
  | evaluating h source hreaches => exact hreaches.sound (h.sound.reading source) trivial
  | sending h hreceiver hargs hreaches => exact hreaches.sound h.sound ⟨hreceiver, hargs⟩

/-- Whatever occurs, its world comes from the first world by edits. -/
theorem Occurs.edits (h : i.Occurs) : initial.Edits i.world := by
  cases h with
  | between h => exact h.edits
  | evaluating h source hreaches => exact h.edits.trans hreaches.edits
  | sending h _ _ hreaches => exact h.edits.trans hreaches.edits

end Interpreter

end Garnet
