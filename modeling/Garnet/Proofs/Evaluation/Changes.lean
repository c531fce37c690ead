import Garnet.Proofs.Evaluation.Logic
import Garnet.Proofs.Object.Change

/-! # Invariants of worlds along an evaluation

An evaluation changes the world by elementary changes only. So whatever these keep, an evaluation
keeps, whether it ends in a value or in a fault, and all values it meets are objects of the world.
This is said of two evaluations at once, with two ways to enter a frame that need to agree only on
worlds with the invariant: what an evaluation would do elsewhere does not matter.
-/

namespace Garnet

/-- All objects that a frame refers to are in the world. -/
structure Frame.HeldIn (frame : Frame) (world : World) : Prop where
  self : world.HasObject frame.self
  bound (name : String) (value : Ref) :
    frame.locals.get? name = some value → world.HasObject value
  result (value : Ref) : frame.result = some value → world.HasObject value

namespace Frame.HeldIn

variable {frame : Frame} {world after : World}

theorem mono (h : frame.HeldIn world) (hgrown : world.Extends after) : frame.HeldIn after where
  self := hgrown.hasObject h.self
  bound name value hvalue := hgrown.hasObject (h.bound name value hvalue)
  result value hvalue := hgrown.hasObject (h.result value hvalue)

theorem leave (h : frame.HeldIn world) {value : Ref} (hvalue : world.HasObject value) :
    Frame.HeldIn { frame with result := some value } world where
  self := h.self
  bound := h.bound
  result _ heq := Option.some.inj heq ▸ hvalue

theorem assign (h : frame.HeldIn world) (name : String) {value : Ref}
    (hvalue : world.HasObject value) :
    Frame.HeldIn { frame with locals := frame.locals.insert name value } world where
  self := h.self
  bound other found hfound := by
    rw [Table.get?_insert] at hfound
    split at hfound
    next => exact Option.some.inj hfound ▸ hvalue
    next => exact h.bound other found hfound
  result := h.result

end Frame.HeldIn

theorem Child.NamesOnly.node? {allowed : String → Prop} {child : Child}
    (h : child.NamesOnly allowed) : ∀ node ∈ child.node?, node.NamesOnly allowed := by
  intro node hnode
  cases child with
  | node inner =>
    cases hnode
    exact h
  | _ => cases hnode

open Evaluation Eval

namespace World.Invariant

variable (I : Invariant)

/-- The invariant holds of the world, and the current frame refers to objects of the world. -/
structure Sound (state : State) : Prop where
  world : I.Holds state.world
  frame : state.frame.HeldIn state.world

/-- The invariant holds after a step, and nothing has been removed from the world. -/
structure Leads (before after : State) : Prop where
  sound : I.Sound after
  grown : before.world.Extends after.world

variable {I}

theorem Sound.closed {state : State} (h : I.Sound state) : state.world.Closed :=
  I.closed h.world

theorem Sound.leads {state : State} (h : I.Sound state) : I.Leads state state :=
  ⟨h, .refl _⟩

theorem Leads.trans {first second third : State} (h : I.Leads first second)
    (h' : I.Leads second third) : I.Leads first third :=
  ⟨h'.sound, h.grown.trans h'.grown⟩

theorem Sound.change {state : State} (h : I.Sound state) {world : World}
    (hchange : Change I.allowed state.world world) : I.Leads state { state with world } :=
  ⟨⟨I.change h.world hchange, h.frame.mono hchange.extends⟩, hchange.extends⟩

theorem Sound.withFrame {state : State} (h : I.Sound state) {frame : Frame}
    (hframe : frame.HeldIn state.world) : I.Leads state { state with frame } :=
  ⟨⟨h.world, hframe⟩, .refl _⟩

theorem Sound.note {state : State} (h : I.Sound state) (event : Event) :
    I.Leads state { state with log := state.log.push event } :=
  ⟨⟨h.world, h.frame⟩, .refl _⟩

variable (I) in
/-- Two steps do the same in a state. If they end in a value, it is related to the world that they
leave as `post` says. -/
structure Agree {α : Type} (step step' : Eval α) (context : Context) (state : State)
    (post : World → α → Prop) : Prop where
  same : step context state = step' context state
  ends : step.Ends context state (fun value left => I.Leads state left ∧ post left.world value)
    fun _ left => I.Leads state left

namespace Agree

variable {α β : Type} {context : Context} {state : State} {post : World → α → Prop}

/-- What does not enter a frame is the same step on both sides. -/
theorem ofEnds {step : Eval α} (h : step.Ends context state
      (fun value left => I.Leads state left ∧ post left.world value)
      fun _ left => I.Leads state left) :
    I.Agree step step context state post :=
  ⟨rfl, h⟩

theorem pure {value : α} (h : I.Sound state) (hvalue : post state.world value) :
    I.Agree (Pure.pure value) (Pure.pure value) context state post :=
  .ofEnds ⟨h.leads, hvalue⟩

theorem raise (h : I.Sound state) (fault : Fault) (site : Option Node) :
    I.Agree (Evaluation.raise fault site) (Evaluation.raise fault site) context state post :=
  .ofEnds h.leads

theorem leave {value : Ref} (h : I.Sound state) (hvalue : state.world.HasObject value) :
    I.Agree (Eval.leave value) (Eval.leave value) context state World.HasObject :=
  .ofEnds ⟨h.withFrame (h.frame.leave hvalue), hvalue⟩

theorem bind {step step' : Eval α} {next next' : α → Eval β} {mid : World → α → Prop}
    {post : World → β → Prop} (hstep : I.Agree step step' context state mid)
    (hnext : ∀ value left, I.Leads state left → mid left.world value →
      I.Agree (next value) (next' value) context left post) :
    I.Agree (step >>= next) (step' >>= next') context state post := by
  constructor
  · have hends := hstep.ends
    unfold Ends at hends
    rw [bind_apply, bind_apply, ← hstep.same]
    rcases hrun : step context state with ⟨outcome, left⟩
    rw [hrun] at hends
    cases outcome with
    | ok value => exact (hnext value left hends.1 hends.2).same
    | error error => rfl
  · refine hstep.ends.bind fun value left hmid => ?_
    refine (hnext value left hmid.1 hmid.2).ends.mono ?_ ?_
    · exact fun _ _ hpost => ⟨hmid.1.trans hpost.1, hpost.2⟩
    · exact fun _ _ hleads => hmid.1.trans hleads

/-- A step that changes the state and goes on. -/
theorem after {step step' : Eval α} {left : State} (hleads : I.Leads state left)
    (h : I.Agree step step' context left post) {first first' : Eval α}
    (hfirst : first context state = step context left)
    (hfirst' : first' context state = step' context left) :
    I.Agree first first' context state post := by
  refine ⟨hfirst.trans (h.same.trans hfirst'.symm), ?_⟩
  unfold Ends
  rw [hfirst]
  exact h.ends.mono (fun _ _ hpost => ⟨hleads.trans hpost.1, hpost.2⟩)
    fun _ _ hleft => hleads.trans hleft

/-- A step behind a check that may fail. -/
theorem guard {check : Prop} [Decidable check] {step : Eval α} (hsound : I.Sound state)
    (h : I.Agree step step context state post) (fault : Fault) (site : Option Node) :
    I.Agree (if check then Evaluation.raise fault site >>= fun _ : PUnit => step else step)
      (if check then Evaluation.raise fault site >>= fun _ : PUnit => step else step) context state
      post := by
  split
  next => exact .ofEnds (.raise_bind hsound.leads)
  next => exact h

theorem getWorld {next next' : World → Eval α}
    (h : I.Agree (next state.world) (next' state.world) context state post) :
    I.Agree (Eval.getWorld >>= next) (Eval.getWorld >>= next') context state post :=
  ⟨h.same, h.ends⟩

theorem getFrame {next next' : Frame → Eval α}
    (h : I.Agree (next state.frame) (next' state.frame) context state post) :
    I.Agree (Eval.getFrame >>= next) (Eval.getFrame >>= next') context state post :=
  ⟨h.same, h.ends⟩

theorem note {event : Event} {next next' : Unit → Eval α} (hsound : I.Sound state)
    (h : ∀ left, I.Leads state left → left.world = state.world →
      I.Agree (next ()) (next' ()) context left post) :
    I.Agree (Eval.note event >>= next) (Eval.note event >>= next') context state post :=
  .after (hsound.note event) (h _ (hsound.note event) rfl) rfl rfl

theorem setWorld {world : World} {next next' : Unit → Eval α} (hsound : I.Sound state)
    (hchange : Change I.allowed state.world world)
    (h : ∀ left, I.Leads state left → I.Agree (next ()) (next' ()) context left post) :
    I.Agree (Eval.setWorld world >>= next) (Eval.setWorld world >>= next') context state post :=
  .after (hsound.change hchange) (h _ (hsound.change hchange)) rfl rfl

theorem grow {change : World → β × World} {next next' : β → Eval α} (hsound : I.Sound state)
    (hchange : Change I.allowed state.world (change state.world).2)
    (h : ∀ left, I.Leads state left → left.world = (change state.world).2 →
      I.Agree (next (change state.world).1) (next' (change state.world).1) context left post) :
    I.Agree (Eval.grow change >>= next) (Eval.grow change >>= next') context state post :=
  .after (hsound.change hchange) (h _ (hsound.change hchange) rfl) rfl rfl

theorem annotating {step step' : Eval α} (note : Option String)
    (h : I.Agree step step' context state post) :
    I.Agree (Evaluation.annotating note step) (Evaluation.annotating note step') context state
      post := by
  refine ⟨?_, h.ends.annotating fun _ _ => id⟩
  unfold Evaluation.annotating
  rw [h.same]

/-- The frame below refers to the same objects as before, and to the value. -/
theorem within {frame : Frame} {step step' : Eval Ref} (hsound : I.Sound state)
    (hframe : frame.HeldIn state.world)
    (h : ∀ entered, I.Sound entered → entered.world = state.world →
      I.Agree step step' (context.entering state.frame) entered World.HasObject) :
    I.Agree (Evaluation.within frame step) (Evaluation.within frame step') context state
      World.HasObject := by
  have hinner := h (state.entering frame (context.depth + 1)) ⟨hsound.world, hframe⟩ rfl
  refine ⟨?_, .within (hinner.ends.mono ?_ ?_)⟩
  · rw [within_apply, within_apply, hinner.same]
  · intro value left hleft
    have hbelow := hsound.frame.mono hleft.1.grown
    exact ⟨⟨⟨hleft.1.sound.world, hbelow.leave hleft.2⟩, hleft.1.grown⟩, hleft.2⟩
  · intro error left hleft
    exact ⟨⟨hleft.sound.world, hsound.frame.mono hleft.grown⟩, hleft.grown⟩

end Agree

/-! ### Sends -/

variable (I) in
/-- What a task refers to is in the world, and its constants have allowed names. -/
def Fits (world : World) : Task → Prop
  | .body body => ∀ node ∈ body, node.NamesOnly I.allowed
  | .native _ args => ∀ arg ∈ args, world.HasObject arg

variable (I) in
/-- Two ways to enter a frame from a context do the same, as long as the invariant holds. -/
def EntersAlike (enter enter' : Enter) (context : Context) : Prop :=
  ∀ frame site task state, I.Sound state → frame.HeldIn state.world → I.Fits state.world task →
    I.Agree (enter frame site task) (enter' frame site task) context state World.HasObject

/-- The arguments of a call are the values of its local variables; missing ones are nil. -/
theorem hasObject_bindParams {world : World} (h : world.Closed) {args : List Ref}
    (hargs : ∀ arg ∈ args, world.HasObject arg) {params : List String} {name : String} {value : Ref}
    (hvalue : (bindParams params args).get? name = some value) : world.HasObject value := by
  have hmem := (List.of_mem_zip (Table.mem_of_get?_ofList hvalue)).2
  rcases List.mem_append.1 hmem with harg | hnil
  · exact hargs value harg
  · rw [(List.mem_replicate.1 hnil).2]
    exact h.nil

theorem writeLines {context : Context} {state : State} (h : I.Sound state) (site : Option Node)
    (lines : List String) :
    I.Agree (Evaluation.writeLines site lines) (Evaluation.writeLines site lines) context state
      fun _ _ => True := by
  induction lines generalizing state with
  | nil => exact .pure h trivial
  | cons line rest ih =>
    have hwritten : I.Leads state { state with sink := (state.sink.write (line ++ "\n")).2 } :=
      ⟨⟨h.world, h.frame⟩, .refl _⟩
    refine .ofEnds (.write ?_)
    split
    next => exact hwritten
    next =>
      refine (ih hwritten.sound).ends.mono ?_ ?_
      · exact fun _ _ hleft => ⟨hwritten.trans hleft.1, trivial⟩
      · exact fun _ _ hleft => hwritten.trans hleft

section Frames

variable {enter enter' : Enter} {context : Context} {state : State}
variable (henter : I.EntersAlike enter enter' context)

include henter

theorem send (h : I.Sound state) (site : Option Node) {receiver : Ref}
    (hreceiver : state.world.HasObject receiver) (name : String) {args : List Ref}
    (hargs : ∀ arg ∈ args, state.world.HasObject arg) :
    I.Agree (Evaluation.send enter site receiver name args)
      (Evaluation.send enter' site receiver name args) context state World.HasObject := by
  apply Agree.getWorld
  split
  next => exact .raise h _ _
  next method owner hfound =>
    have hown := ownMethod?_of_findMethod hfound
    -- The event is noted between the look-up and the call, in the same world.
    refine .note h fun left hleads hworld => ?_
    have hheld : Frame.HeldIn
        { label := (state.world.classRecord owner).name ++ "#" ++ name
          self := receiver
          locals := bindParams method.params args
          pos := (site.map Node.pos).getD .unknown } left.world := by
      rw [hworld]
      refine ⟨hreceiver, fun _ _ => hasObject_bindParams h.closed hargs, ?_⟩
      intro value hvalue
      cases hvalue
      exact h.closed.nil
    split
    next => exact henter _ _ _ _ hleads.sound hheld (hworld ▸ hargs)
    next params body hcode =>
      exact henter _ _ _ _ hleads.sound hheld (I.bodies h.world _ _ _ _ _ hown hcode)

theorem runNative (h : I.Sound state) (site : Option Node) {args : List Ref}
    (hargs : ∀ arg ∈ args, state.world.HasObject arg) (native : Native) :
    I.Agree (Evaluation.runNative enter site args native)
      (Evaluation.runNative enter' site args native) context state World.HasObject := by
  match native with
  | .new =>
    apply Agree.getWorld
    apply Agree.getFrame
    dsimp only
    split
    next => exact .raise h _ _
    next id hid =>
      have hclass := h.closed.asClass? _ id hid
      refine .grow h (.newObject hclass) fun left hleads hworld => ?_
      -- The instance outlives its `initialize`, whatever that does to the world.
      have hmade : left.world.HasObject (state.world.newObject id).1 := by
        simp [hworld, World.newObject, HasObject, allocate]
      refine .bind (send henter hleads.sound none hmade "initialize" ?_) ?_
      · exact fun arg harg => hleads.grown.hasObject (hargs arg harg)
      · intro value last hlast hvalue
        exact .pure hlast.sound (hlast.grown.hasObject hmade)
  | .setUp => exact .pure h h.closed.nil
  | .puts =>
    apply Agree.getWorld
    refine .bind (writeLines h site _) fun _ left hleads _ => ?_
    exact .pure hleads.sound hleads.sound.closed.nil
  | .host .nothing => exact .pure h h.closed.nil
  | .host .receiver =>
    apply Agree.getFrame
    exact .pure h h.frame.self
  | .host .lastArgument =>
    refine .pure h ?_
    cases hlast : args.getLast? with
    | none => exact h.closed.nil
    | some last => exact hargs last (List.mem_of_getLast? hlast)
  | .host (.fail text marks) => exact .raise h _ _
  | .host (.forward message note) =>
    apply Agree.getFrame
    exact .annotating note (send henter h none h.frame.self message hargs)

end Frames

/-! ### Definitions -/

section Definitions

variable {context : Context} {state : State}

theorem paramNames (h : I.Sound state) (node : Node) (listed : List Child) :
    I.Agree (Evaluation.paramNames node listed) (Evaluation.paramNames node listed) context state
      fun _ _ => True := by
  induction listed with
  | nil => exact .pure h trivial
  | cons first rest ih =>
    cases first with
    | node param =>
      unfold Evaluation.paramNames
      refine .guard h ?_ _ _
      split
      next => exact .raise h _ _
      next => exact .bind ih fun found left hleft _ => .pure hleft.sound trivial
    | _ => exact .raise h _ _

/-- A class that is not there yet is defined by one change. -/
theorem openClass (h : I.Sound state) (node : Node) {owner : ClassId}
    (howner : state.world.HasClass owner) {name : String} (hname : I.allowed name)
    {superclass : Option ClassId} (hparent : ∀ id ∈ superclass, state.world.HasClass id) :
    I.Agree (Evaluation.openClass node owner name superclass)
      (Evaluation.openClass node owner name superclass) context state World.HasClass := by
  apply Agree.getWorld
  dsimp only
  split
  next existing hexisting =>
    split
    next => exact .raise h _ _
    next id hid =>
      refine .guard h ?_ _ _
      refine .note h fun left hleft _ => .pure hleft.sound ?_
      exact hleft.grown.hasClass (h.closed.asClass? existing id hid)
  next hfresh =>
    have hdefined : state.world.HasClass (superclass.getD .objectClass) := by
      cases superclass with
      | none => exact h.closed.objectClass
      | some parent => exact hparent parent rfl
    have hchange : Change I.allowed state.world
        (state.world.defineClass owner name (superclass.getD .objectClass)) :=
      .defineClass howner hdefined hname hfresh
    -- The class without its constant is a world in between, of which nothing is said.
    have hleads := h.change hchange
    have hnew : (state.world.defineClass owner name (superclass.getD .objectClass)).HasClass
        ⟨state.world.classes.size⟩ := by simp [HasClass]
    refine .ofEnds (.grow (.getWorld (.setWorld (.note (.pure ?_)))))
    exact ⟨hleads.trans (hleads.sound.note _), hnew⟩

theorem hasClass_definitionTarget {world : World} (h : world.Closed) {self : Ref}
    (hself : world.HasObject self) : world.HasClass (definitionTarget world self) := by
  unfold definitionTarget
  cases hclass : world.asClass? self with
  | none => exact h.classOf self hself
  | some id => exact h.asClass? self id hclass

theorem defineMethod (h : I.Sound state) (name : String) (params : List String)
    {body : Option Node} (hbody : ∀ node ∈ body, node.NamesOnly I.allowed) :
    I.Agree (Evaluation.defineMethod name params body) (Evaluation.defineMethod name params body)
      context state World.HasObject := by
  have htarget := hasClass_definitionTarget h.closed h.frame.self
  have hset := h.change (.setMethod htarget hbody name params)
  refine .ofEnds (.getWorld (.getFrame (.setWorld (.note (.leave ?_)))))
  have hnil := hset.sound.closed.nil
  exact ⟨⟨⟨hset.sound.world, hset.sound.frame.leave hnil⟩, hset.grown⟩, hnil⟩

end Definitions

/-! ### Nodes -/

variable (I) in
/-- A node is evaluated alike with two ways to enter a frame. -/
def NodeAgrees (enter enter' : Enter) (context : Context) (node : Node) : Prop :=
  node.NamesOnly I.allowed → ∀ state, I.Sound state →
    I.Agree (Evaluation.evalNode enter node) (Evaluation.evalNode enter' node) context state
      World.HasObject

section Parts

variable {enter enter' : Enter} {context : Context} {state : State}
variable {child : Child} {children : List Child}

theorem evalPart (h : I.Sound state) (owner : Node) (hnames : child.NamesOnly I.allowed)
    (ih : child.Satisfies (I.NodeAgrees enter enter' context)) :
    I.Agree (Evaluation.evalPart enter owner child) (Evaluation.evalPart enter' owner child) context
      state World.HasObject := by
  cases child with
  | node inner =>
    rw [Evaluation.evalPart, Evaluation.evalPart]
    exact ih hnames state h
  | absent => exact .leave h h.closed.nil
  | _ => exact .raise h _ _

theorem evalSequence (h : I.Sound state) (owner : Node)
    (hnames : ∀ child ∈ children, child.NamesOnly I.allowed)
    (ih : ∀ child ∈ children, child.Satisfies (I.NodeAgrees enter enter' context)) :
    I.Agree (Evaluation.evalSequence enter owner children)
      (Evaluation.evalSequence enter' owner children) context state World.HasObject := by
  induction children generalizing state with
  | nil => exact .leave h h.closed.nil
  | cons first rest rec =>
    have hfirst := evalPart h owner (hnames first List.mem_cons_self) (ih first List.mem_cons_self)
    cases rest with
    | nil =>
      rw [Evaluation.evalSequence, Evaluation.evalSequence]
      exact hfirst
    | cons second more =>
      refine .bind hfirst fun _ left hleads _ => ?_
      exact rec hleads.sound (fun child hchild => hnames child (List.mem_cons_of_mem _ hchild))
        fun child hchild => ih child (List.mem_cons_of_mem _ hchild)

theorem evalArgs (h : I.Sound state) (owner : Node)
    (hnames : ∀ child ∈ children, child.NamesOnly I.allowed)
    (ih : ∀ child ∈ children, child.Satisfies (I.NodeAgrees enter enter' context)) :
    I.Agree (Evaluation.evalArgs enter owner children) (Evaluation.evalArgs enter' owner children)
      context state fun world values => ∀ value ∈ values, world.HasObject value := by
  induction children generalizing state with
  | nil => exact .pure h fun _ hmem => absurd hmem List.not_mem_nil
  | cons first rest rec =>
    cases first with
    | node inner =>
      have hinner : I.NodeAgrees enter enter' context inner := ih _ List.mem_cons_self
      rw [Evaluation.evalArgs, Evaluation.evalArgs]
      refine .bind (hinner (hnames _ List.mem_cons_self) state h) fun value left hleft hvalue => ?_
      have hrest := rec hleft.sound
        (fun child hchild => hnames child (List.mem_cons_of_mem _ hchild))
        fun child hchild => ih child (List.mem_cons_of_mem _ hchild)
      refine .bind hrest fun values last hlast hvalues => ?_
      -- The first value is still there after the other arguments have been evaluated.
      refine .pure hlast.sound fun found hfound => ?_
      rcases List.mem_cons.1 hfound with rfl | hfound
      · exact hlast.grown.hasObject hvalue
      · exact hvalues found hfound
    | _ => exact .raise h _ _

theorem evalReceiver (h : I.Sound state) (hnames : child.NamesOnly I.allowed)
    (ih : child.Satisfies (I.NodeAgrees enter enter' context)) :
    I.Agree (Evaluation.evalReceiver enter child) (Evaluation.evalReceiver enter' child) context
      state World.HasObject := by
  cases child with
  | node inner =>
    rw [Evaluation.evalReceiver, Evaluation.evalReceiver]
    exact ih hnames state h
  | _ => exact .getFrame (.pure h h.frame.self)

theorem evalSuperclass (h : I.Sound state) (hnames : child.NamesOnly I.allowed)
    (ih : child.Satisfies (I.NodeAgrees enter enter' context)) :
    I.Agree (Evaluation.evalSuperclass enter child) (Evaluation.evalSuperclass enter' child) context
      state fun world found => ∀ id ∈ found, world.HasClass id := by
  cases child with
  | node inner =>
    rw [Evaluation.evalSuperclass, Evaluation.evalSuperclass]
    refine .bind (ih hnames state h) fun value left hleft _ => ?_
    apply Agree.getWorld
    split
    next id hid =>
      refine .pure hleft.sound fun found hfound => ?_
      cases hfound
      exact hleft.sound.closed.asClass? value id hid
    next => exact .raise hleft.sound _ _
  | _ => exact .pure h fun _ hmem => absurd hmem (by simp)

/-- The name of a path stands at its end, and what comes before it is a class. -/
theorem evalConstPath {pos : Pos} (h : I.Sound state) (owner : Node)
    (hnames : (Node.mk .const children pos).NamesOnly I.allowed)
    (ih : ∀ child ∈ children, child.Satisfies (I.NodeAgrees enter enter' context)) :
    I.Agree (Evaluation.evalConstPath enter owner children)
      (Evaluation.evalConstPath enter' owner children) context state
      fun world found => world.HasClass found.1 ∧ I.allowed found.2 := by
  unfold Evaluation.evalConstPath
  split
  next => exact .pure h ⟨h.closed.objectClass, hnames.const⟩
  next inner name rest =>
    have hinner : I.NodeAgrees enter enter' context inner := ih _ List.mem_cons_self
    refine .bind (hinner (hnames.child List.mem_cons_self) state h) fun value left hleft _ => ?_
    apply Agree.getWorld
    split
    next id hid => exact .pure hleft.sound ⟨hleft.sound.closed.asClass? value id hid, hnames.const⟩
    next => exact .raise hleft.sound _ _
  next => exact .raise h _ _

end Parts

section Frames

variable {enter enter' : Enter} {context : Context}
variable (henter : I.EntersAlike enter enter' context)

include henter

/-- One case for each kind of node; children that do not fit the kind are a fault on both sides. -/
theorem evalNode (node : Node) : I.NodeAgrees enter enter' context node := by
  refine (Node.induction (fun kind children pos below => ?_) node).1
  have ih : ∀ child ∈ children, child.Satisfies (I.NodeAgrees enter enter' context) :=
    fun child hchild => (below child hchild).mono fun _ => And.left
  intro hnames state h
  have hparts : ∀ child ∈ children, child.NamesOnly I.allowed := fun _ => hnames.child
  match kind with
  | .str =>
    unfold Evaluation.evalNode
    dsimp only
    split
    next text rest =>
      refine .grow h (.newString text) fun left hleft hworld => ?_
      refine .leave hleft.sound ?_
      simp [hworld, World.newString, HasObject, allocate]
    next => exact .raise h _ _
  | .begin =>
    rw [Evaluation.evalNode, Evaluation.evalNode]
    exact evalSequence h _ hparts ih
  | .localAssign =>
    unfold Evaluation.evalNode
    dsimp only
    split
    next name value rest =>
      refine .bind (evalPart h _ (hparts value (by simp)) (ih value (by simp)))
        fun result left hleft hresult => ?_
      have hassigned := hleft.sound.withFrame (hleft.sound.frame.assign name hresult)
      exact .after hassigned (.leave hassigned.sound hresult) rfl rfl
    next => exact .raise h _ _
  | .localRef =>
    unfold Evaluation.evalNode
    dsimp only
    split
    next name rest =>
      apply Agree.getFrame
      split
      next value hvalue => exact .leave h (h.frame.bound name value hvalue)
      next => exact .raise h _ _
    next => exact .raise h _ _
  | .ivarAssign =>
    unfold Evaluation.evalNode
    dsimp only
    split
    next name value rest =>
      refine .bind (evalPart h _ (hparts value (by simp)) (ih value (by simp)))
        fun result left hleft hresult => ?_
      refine .getFrame (.getWorld (.setWorld hleft.sound ?_ fun last hlast => ?_))
      · exact .setIvar hleft.sound.frame.self hresult name
      · exact .leave hlast.sound (hlast.grown.hasObject hresult)
    next => exact .raise h _ _
  | .ivarRef =>
    unfold Evaluation.evalNode
    dsimp only
    split
    next name rest => exact .getFrame (.getWorld (.leave h (h.closed.getIvar _ name)))
    next => exact .raise h _ _
  | .selfRef => exact .getFrame (.leave h h.frame.self)
  | .nilRef => exact .leave h h.closed.nil
  | .classDef =>
    unfold Evaluation.evalNode
    dsimp only
    split
    next steps place superclass body rest =>
      have hsteps := (below _ List.mem_cons_self).2
      have hpath : (Node.mk .const steps place).NamesOnly I.allowed :=
        hnames.child List.mem_cons_self
      split
      next =>
        refine .bind (evalConstPath h _ hpath hsteps) fun found left hleft hfound => ?_
        obtain ⟨owner, name⟩ := found
        refine .bind (evalSuperclass hleft.sound (hparts superclass (by simp))
          (ih superclass (by simp))) fun parent mid hmid hparent => ?_
        refine .bind (openClass hmid.sound _ (hmid.grown.hasClass hfound.1) hfound.2
          hparent) fun id last hlast hid => ?_
        apply Agree.getWorld
        have hface := hlast.sound.closed.face id hid
        refine henter _ _ _ _ hlast.sound ⟨hface, fun _ _ hvalue => ?_, fun _ hvalue => ?_⟩ ?_
        · exact absurd hvalue (by simp)
        · exact Option.some.inj hvalue ▸ hlast.sound.closed.nil
        · exact (hparts body (by simp)).node?
      next => exact .raise h _ _
    next => exact .raise h _ _
  | .methodDef =>
    unfold Evaluation.evalNode
    dsimp only
    split
    next name params place body rest =>
      split
      next =>
        refine .bind (paramNames h _ _) fun found left hleft _ => ?_
        exact defineMethod hleft.sound _ _ (hparts body (by simp)).node?
      next => exact .raise h _ _
    next => exact .raise h _ _
  | .send =>
    unfold Evaluation.evalNode
    dsimp only
    split
    next receiver name args =>
      split
      next =>
        refine .bind (evalReceiver h (hparts receiver (by simp)) (ih receiver (by simp)))
          fun target left hleft htarget => ?_
        refine .bind (evalArgs hleft.sound _ (fun arg harg => hparts arg (by simp [harg]))
          fun arg harg => ih arg (by simp [harg])) fun values last hlast hvalues => ?_
        exact I.send henter hlast.sound _ (hlast.grown.hasObject htarget) name hvalues
      next => exact .raise h _ _
    next => exact .raise h _ _
  | .const =>
    rw [Evaluation.evalNode, Evaluation.evalNode]
    refine .bind (evalConstPath h _ hnames ih) fun found left hleft _ => ?_
    obtain ⟨owner, name⟩ := found
    apply Agree.getWorld
    dsimp only
    split
    next value hvalue =>
      exact .leave hleft.sound (hleft.sound.closed.constant owner name value hvalue)
    next => exact .raise hleft.sound _ _
  | .int | .float | .sym | .trueRef | .falseRef | .singletonDef | .constAssign | .param | .params
  | .other _ => exact .raise h _ _

theorem runTask {state : State} (h : I.Sound state) (site : Option Node) {task : Task}
    (htask : I.Fits state.world task) :
    I.Agree (Evaluation.runTask enter site task) (Evaluation.runTask enter' site task) context state
      World.HasObject := by
  match task with
  | .body none => exact .leave h h.closed.nil
  | .body (some code) => exact evalNode henter code (htask code rfl) state h
  | .native native args =>
    refine .bind (runNative henter h site htask native) fun value left hleft hvalue => ?_
    exact .leave hleft.sound hvalue

end Frames

theorem perform (room : Nat) (context : Context) :
    I.EntersAlike (Evaluation.perform room) (Evaluation.perform room) context := by
  induction room generalizing context with
  | zero =>
    intro frame site task state h _ _
    exact .ofEnds (.getContext (.raise h.leads))
  | succ room ih =>
    intro frame site task state h hframe htask
    refine .within h hframe fun entered hentered hworld => ?_
    exact runTask (ih _) hentered site (hworld ▸ htask)

theorem evalTree {state : State} (h : I.Sound state) (room : Nat) (context : Context)
    {tree : Option Node} (htree : ∀ node ∈ tree, node.NamesOnly I.allowed) :
    I.Agree (Evaluation.evalTree room tree) (Evaluation.evalTree room tree) context state
      World.HasObject := by
  match tree with
  | none => exact .leave h h.closed.nil
  | some node => exact evalNode (perform room context) node (htree node rfl) state h

end World.Invariant

end Garnet
