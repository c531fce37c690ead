import Garnet.Proofs.Evaluation.Discipline
import Garnet.Proofs.Interpreter.Natives

/-! # Strings and nil

A string is an object of its class with a text, and nil is an object of its class known by its
reference. Literals and the first world make strings and nil in this way. But every class answers
`new`, and an instance that is made in this way has no text and is not nil, whatever its class. Such
an instance of one of the two classes is called hollow. There are no other exceptions: for each
hollow object the events show the message that has made it.
-/

namespace Garnet

open Evaluation

namespace World

variable {world after : World} {log : Array Event}

/-- The objects of the class of strings are those with a text, and the only object of the class of
nil is nil. -/
structure Uniform (world : World) : Prop where
  string (ref : Ref) : world.HasObject ref →
    (world.classOf ref = .stringClass ↔ (world.object ref).payload.isSome = true)
  nil (ref : Ref) : world.HasObject ref → (world.classOf ref = .nilClass ↔ ref = .nil)

/-- A string without a text, or an object of the class of nil that is not nil. -/
def Hollow (world : World) (ref : Ref) : Prop :=
  world.classOf ref = .stringClass ∧ (world.object ref).payload = none ∨
    world.classOf ref = .nilClass ∧ ref ≠ .nil

instance (world : World) (ref : Ref) : Decidable (world.Hollow ref) :=
  inferInstanceAs (Decidable (_ ∧ _ ∨ _ ∧ _))

/-! ### What all edits keep -/

/-- What the first world has and every edit keeps: the names of the classes that matter here, one
place for `new`, texts in strings only, and two objects that stand for no class. -/
structure Regular (world : World) : Prop where
  string : world.HasClass .stringClass ∧ (world.classRecord .stringClass).name = "String"
  nilClass : world.HasClass .nilClass ∧ (world.classRecord .nilClass).name = "NilClass"
  new (id : ClassId) (name : String) (method : Method) : world.ownMethod? id name = some method →
    method.code = .native .new → (world.classRecord id).name = "Class" ∧ name = "new"
  payload (ref : Ref) : (world.object ref).payload.isSome = true →
    world.classOf ref = .stringClass
  nil : world.HasObject .nil ∧ world.classOf .nil = .nilClass ∧
    (world.object .nil).payload = none ∧ world.asClass? .nil = none
  main : world.HasObject .main ∧ world.asClass? .main = none

theorem regular_initial : initial.Regular where
  string := by decide
  nilClass := by decide
  new id name method hmethod hcode := by
    obtain ⟨rfl, rfl, -⟩ | ⟨-, -, hnative⟩ | ⟨-, -, hnative⟩ := ownMethod?_initial hmethod
    · exact ⟨rfl, rfl⟩
    · cases hnative.symm.trans hcode
    · cases hnative.symm.trans hcode
  payload ref h := by
    have hnone : ∀ index < 6, (initial.object ⟨index⟩).payload.isSome = false := by decide
    by_cases href : initial.HasObject ref
    · rw [hnone ref.index href] at h
      cases h
    · rw [object_of_not_hasObject href] at h
      cases h
  nil := by decide
  main := by decide

/-- A new object has a text only if it is a string. -/
theorem Edit.payload (h : world.Edit after)
    (hworld : ∀ ref, (world.object ref).payload.isSome = true → world.classOf ref = .stringClass)
    (ref : Ref) (hpayload : (after.object ref).payload.isSome = true) :
    after.classOf ref = .stringClass := by
  cases h with
  | newString text =>
    rw [World.newString, object_allocate] at hpayload
    rw [classOf, World.newString, object_allocate]
    split
    next => rfl
    next hne =>
      rw [if_neg hne] at hpayload
      exact hworld ref hpayload
  | newObject id =>
    rw [World.newObject, object_allocate] at hpayload
    rw [classOf, World.newObject, object_allocate]
    split at hpayload
    next => cases hpayload
    next hne =>
      rw [if_neg hne]
      exact hworld ref hpayload
  | setIvar target name value =>
    obtain ⟨ivars, heq⟩ := world.object_setIvar_eq target ref name value
    rw [heq] at hpayload
    rw [classOf, heq]
    exact hworld ref hpayload
  | defineClass hfresh parent =>
    rw [object_defineClass] at hpayload
    rw [classOf, object_defineClass]
    split at hpayload
    next => cases hpayload
    next hne =>
      rw [if_neg hne]
      exact hworld ref hpayload
  | setMethod id name params body => exact hworld ref hpayload

theorem Regular.edit (h : world.Regular) (hedit : world.Edit after) : after.Regular := by
  have hkeeps := hedit.keeps
  refine ⟨?_, ?_, ?_, hedit.payload h.payload, ?_, ?_⟩
  · refine ⟨hkeeps.grown.hasClass h.string.1, ?_⟩
    rw [(hkeeps.record _ h.string.1).1, h.string.2]
  · refine ⟨hkeeps.grown.hasClass h.nilClass.1, ?_⟩
    rw [(hkeeps.record _ h.nilClass.1).1, h.nilClass.2]
  · intro id name method hmethod hcode
    have hold := hedit.ownMethod?_native hmethod hcode
    have hid : world.HasClass id := hasClass_of_ownMethod? (by rw [hold]; rfl)
    rw [(hkeeps.record id hid).1]
    exact h.new id name method hold hcode
  · obtain ⟨hclass, hpayload, hrecord⟩ := hkeeps.object _ h.nil.1
    refine ⟨hkeeps.grown.hasObject h.nil.1, ?_⟩
    rw [hclass, hpayload, hrecord]
    exact h.nil.2
  · refine ⟨hkeeps.grown.hasObject h.main.1, ?_⟩
    rw [(hkeeps.object _ h.main.1).2.2, h.main.2]

/-- An object that stands for a class is shown by the name of the class. -/
theorem Regular.inspect (h : world.Regular) {ref : Ref} {id : ClassId}
    (hid : world.asClass? ref = some id) : world.inspect ref = (world.classRecord id).name := by
  have hnil : ref ≠ .nil := by
    rintro rfl
    rw [h.nil.2.2.2] at hid
    cases hid
  have hmain : ref ≠ .main := by
    rintro rfl
    rw [h.main.2] at hid
    cases hid
  rw [World.inspect, if_neg hnil, if_neg hmain, hid]

/-! ### Hollow objects -/

/-- The classes of hollow objects. -/
theorem Hollow.hasClass {ref : Ref} (hhollow : world.Hollow ref) (h : world.Regular) :
    world.HasClass (world.classOf ref) := by
  rcases hhollow with ⟨hclass, -⟩ | ⟨hclass, -⟩
  · rw [hclass]
    exact h.string.1
  · rw [hclass]
    exact h.nilClass.1

/-- The events have a message `new` to a class. -/
def Announced (world : World) (log : Array Event) (id : ClassId) : Prop :=
  ∃ args, .send "new" (world.classRecord id).name "Class" args ∈ log

/-- The events show where hollow objects come from. -/
structure Accounted (world : World) (log : Array Event) : Prop where
  regular : world.Regular
  hollow (ref : Ref) : world.HasObject ref → world.Hollow ref →
    world.Announced log (world.classOf ref)

theorem Announced.note {id : ClassId} (h : world.Announced log id) (event : Event) :
    world.Announced (log.push event) id := by
  obtain ⟨args, hmem⟩ := h
  exact ⟨args, Array.mem_push_of_mem _ hmem⟩

theorem Accounted.note (h : world.Accounted log) (event : Event) :
    world.Accounted (log.push event) :=
  ⟨h.regular, fun ref href hhollow => (h.hollow ref href hhollow).note event⟩

/-- Objects that were there before are hollow if they were, so only a new one matters. -/
theorem Accounted.edit (h : world.Accounted log) (hedit : world.Edit after)
    (hnew : ∀ ref, ¬ world.HasObject ref → after.Hollow ref →
      after.Announced log (after.classOf ref)) : after.Accounted log := by
  have hkeeps := hedit.keeps
  refine ⟨h.regular.edit hedit, fun ref _ hhollow => ?_⟩
  by_cases href : world.HasObject ref
  · obtain ⟨hclass, hpayload, -⟩ := hkeeps.object ref href
    have hold : world.Hollow ref := by
      rw [Hollow, hclass, hpayload] at hhollow
      exact hhollow
    obtain ⟨args, hmem⟩ := h.hollow ref href hold
    refine ⟨args, ?_⟩
    rw [hclass, (hkeeps.record _ (hold.hasClass h.regular)).1]
    exact hmem
  · exact hnew ref href hhollow

/-- A reference that leads nowhere is not hollow. -/
theorem not_hollow {ref : Ref} (h : ¬ world.HasObject ref) : ¬ world.Hollow ref := by
  rw [Hollow, classOf, object_of_not_hasObject h]
  rintro (⟨hclass, -⟩ | ⟨hclass, -⟩) <;> cases hclass

theorem accounted_initial (log : Array Event) : initial.Accounted log := by
  have hnone : ∀ index < 6, ¬ initial.Hollow ⟨index⟩ := by decide
  exact ⟨regular_initial, fun ref href hhollow => absurd hhollow (hnone ref.index href)⟩

namespace Accounted

theorem newString (h : world.Accounted log) (text : String) :
    (world.newString text).2.Accounted log := by
  refine h.edit (.newString text) fun ref href hhollow => ?_
  rw [Hollow, classOf, World.newString, object_allocate] at hhollow
  split at hhollow
  next =>
    rcases hhollow with ⟨-, hpayload⟩ | ⟨hclass, -⟩
    · cases hpayload
    · cases hclass
  next => exact (not_hollow href hhollow).elim

theorem setIvar (h : world.Accounted log) (ref : Ref) (name : String) (value : Ref) :
    (world.setIvar ref name value).Accounted log := by
  refine h.edit (.setIvar ref name value) fun other href hhollow => ?_
  obtain ⟨ivars, heq⟩ := world.object_setIvar_eq ref other name value
  rw [Hollow, classOf, heq] at hhollow
  exact (not_hollow href hhollow).elim

theorem defineClass (h : world.Accounted log) {owner : ClassId} {name : String}
    (hfresh : (world.classRecord owner).constants.get? name = none) (parent : ClassId) :
    (world.defineClass owner name parent).Accounted log := by
  refine h.edit (.defineClass hfresh parent) fun ref href hhollow => ?_
  rw [Hollow, classOf, object_defineClass] at hhollow
  split at hhollow
  next =>
    rcases hhollow with ⟨hclass, -⟩ | ⟨hclass, -⟩
    · cases hclass
    · cases hclass
  next => exact (not_hollow href hhollow).elim

theorem setMethod (h : world.Accounted log) (id : ClassId) (name : String) (params : List String)
    (body : Option Node) : (world.setMethod id name (.interpreted params body)).Accounted log :=
  h.edit (.setMethod id name params body) fun _ href hhollow => (not_hollow href hhollow).elim

/-- An instance may be hollow, so the message that makes it has to be there. -/
theorem newObject (h : world.Accounted log) {id : ClassId} (hnew : world.Announced log id) :
    (world.newObject id).2.Accounted log := by
  refine h.edit (.newObject id) fun ref href hhollow => ?_
  rw [classOf, World.newObject, object_allocate]
  rw [Hollow, classOf, World.newObject, object_allocate] at hhollow
  split at hhollow
  next hlast =>
    rw [if_pos hlast]
    exact hnew
  next => exact (not_hollow href hhollow).elim

end Accounted

end World

/-! ### Steps -/

/-- The hollow objects are accounted for in a state. -/
def Evaluation.State.Accounted (state : State) : Prop :=
  state.world.Accounted state.log

namespace Eval

variable {α β : Type}

/-- However a step ends, hollow objects are accounted for. -/
abbrev EndsAccounted (step : Eval α) (context : Context) (state : State) : Prop :=
  step.Ends context state (fun _ => State.Accounted) fun _ => State.Accounted

/-- A step that accounts for the hollow objects it makes. -/
def Accounts (step : Eval α) : Prop :=
  ∀ context state, state.Accounted → step.EndsAccounted context state

namespace Accounts

theorem bind {step : Eval α} {next : α → Eval β} (hstep : step.Accounts)
    (hnext : ∀ value, (next value).Accounts) : (step >>= next).Accounts :=
  fun context state h => (hstep context state h).bind fun value left => hnext value context left

theorem storeIvar (name : String) (value : Ref) :
    (do
      let self := (← Eval.getFrame).self
      Eval.setWorld ((← Eval.getWorld).setIvar self name value)
      Eval.leave value : Eval Ref).Accounts := by
  intro context state h
  have hset : (state.world.setIvar state.frame.self name value).Accounted state.log :=
    h.setIvar _ name value
  exact .getFrame (.getWorld (.setWorld (.leave hset)))

theorem openClass (node : Node) (owner : ClassId) (name : String) (superclass : Option ClassId) :
    (Evaluation.openClass node owner name superclass).Accounts := by
  intro context state h
  apply Ends.getWorld
  dsimp only
  split
  next existing _ =>
    split
    next => exact .raise h
    next id _ =>
      split
      next => exact .raise_bind h
      next => exact .note (.pure (h.note _))
  next hfresh =>
    have hdefined := h.defineClass hfresh (superclass.getD .objectClass)
    exact .grow (.getWorld (.setWorld (.note (.pure (hdefined.note _)))))

theorem defineMethod (name : String) (params : List String) (body : Option Node) :
    (Evaluation.defineMethod name params body).Accounts := by
  intro context state h
  have hdefined : (state.world.setMethod (definitionTarget state.world state.frame.self) name
      (.interpreted params body)).Accounted state.log := h.setMethod _ name params body
  exact .getWorld (.getFrame (.setWorld (.note (.leave (hdefined.note _)))))

end Accounts

/-- Nodes make no hollow objects by themselves. -/
def accounting : Discipline where
  Fits _ := True
  Names _ := True
  child _ _ := trivial
  sym _ _ := trivial
  Holds := Accounts
  pure _ := fun _ _ h => h
  bind := .bind
  raise _ _ := fun _ _ h => h
  leave _ := fun _ _ h => h
  getWorld := fun _ _ h => h
  getFrame := fun _ _ h => h
  assign _ _ := fun _ _ h => h
  newString text := fun _ _ h => h.newString text
  storeIvar := .storeIvar
  openClass node owner name _ := .openClass node owner name
  defineMethod {name} _ params body _ := .defineMethod name params body

end Eval

namespace Evaluation

open Eval

/-- If a task is to make an instance of the receiver, the message for it is among the events. -/
def State.Expects (state : State) (self : Ref) : Task → Prop
  | .native .new _ => ∀ id, state.world.asClass? self = some id → state.world.Announced state.log id
  | _ => True

theorem State.Expects.entering {state : State} {frame : Frame} {task : Task}
    (h : state.Expects frame.self task) (depth : Nat) :
    (state.entering frame depth).Expects frame.self task := by
  unfold State.Expects at h ⊢
  split at h
  next => exact fun id hid => (h id hid).note _
  next => trivial

/-- What runs in other frames accounts for hollow objects, if it is entered after its message. -/
def Enter.Accounts (enter : Enter) : Prop :=
  ∀ frame site task context state, state.Accounted → state.Expects frame.self task →
    (enter frame site task).EndsAccounted context state

variable {enter : Enter}

/-- The message is noted before the frame is entered. -/
theorem send_accounts (henter : enter.Accounts) (site : Option Node) (receiver : Ref)
    (name : String) (args : List Ref) : (send enter site receiver name args).Accounts := by
  intro context state h
  apply Ends.getWorld
  split
  next => exact .raise h
  next method owner hfound =>
    refine .note ?_
    split
    next native hcode =>
      refine henter _ _ _ _ _ (h.note _) ?_
      cases native with
      | new =>
        intro id hid
        have hown := World.ownMethod?_of_findMethod hfound
        obtain ⟨howner, rfl⟩ := h.regular.new owner name method hown hcode
        refine ⟨args.length, ?_⟩
        dsimp only
        rw [howner, h.regular.inspect hid]
        exact Array.mem_push_self
      | _ => trivial
    next => exact henter _ _ _ _ _ (h.note _) trivial

theorem runNative_accounts (henter : enter.Accounts) (site : Option Node) (args : List Ref)
    (native : Native) {context : Context} {state : State} (h : state.Accounted)
    (hexpects : state.Expects state.frame.self (.native native args)) :
    (runNative enter site args native).EndsAccounted context state := by
  match native with
  | .new =>
    refine .getWorld (.getFrame ?_)
    dsimp only
    split
    next => exact .raise h
    next id hid =>
      refine .grow ?_
      have hmade : State.Accounted { state with world := (state.world.newObject id).2 } :=
        h.newObject (hexpects id hid)
      exact .bind (send_accounts henter none _ "initialize" args context _ hmade)
        fun _ _ hleft => hleft
  | .setUp => exact h
  | .puts =>
    have hlines := accounting.writeLines (fun _ _ _ h => h) site
      (if args.isEmpty then [""] else args.map state.world.displayText)
    exact .getWorld (.bind (hlines context state h) fun _ _ hleft => hleft)
  | .host .nothing => exact h
  | .host .receiver => exact h
  | .host .lastArgument => exact h
  | .host (.fail text marks) => exact h
  | .host (.forward message note) =>
    exact .getFrame (.annotating (send_accounts henter none _ message args context state h)
      fun _ _ hleft => hleft)

theorem evalNode_accounts (henter : enter.Accounts) (node : Node) :
    (evalNode enter node).Accounts := by
  refine accounting.evalNode ?_ (send_accounts henter) trivial
  intro frame site body _ context state h
  exact henter frame site (.body body) context state h trivial

theorem runTask_accounts (henter : enter.Accounts) (site : Option Node) (task : Task)
    {context : Context} {state : State} (h : state.Accounted)
    (hexpects : state.Expects state.frame.self task) :
    (runTask enter site task).EndsAccounted context state := by
  match task with
  | .body none => exact h
  | .body (some code) => exact evalNode_accounts henter code context state h
  | .native native args =>
    exact .bind (runNative_accounts henter site args native h hexpects) fun _ _ hleft => hleft

/-- By induction on the number of frames that can be entered one in the other. -/
theorem perform_accounts (room : Nat) : (perform room).Accounts := by
  induction room with
  | zero => exact fun _ _ _ _ _ h _ => h
  | succ room ih =>
    intro frame site task context state h hexpects
    have hentered : (state.entering frame (context.depth + 1)).Accounted := h.note _
    refine .within ((runTask_accounts ih site task hentered (hexpects.entering _)).mono ?_ ?_)
    · exact fun _ _ hleft => hleft.note _
    · exact fun _ _ hleft => hleft.note _

theorem evalTree_accounts (room : Nat) (tree : Option Node) : (evalTree room tree).Accounts := by
  match tree with
  | none => exact fun _ _ h => h
  | some node => exact evalNode_accounts (perform_accounts room) node

end Evaluation

namespace Interpreter

theorem run_accounted {interp : Interpreter} (h : interp.world.Accounted interp.log)
    (source : String) : (interp.run source).2.world.Accounted (interp.run source).2.log := by
  rcases hparse : parse source interp.current.locals.names with error | tree
  · rw [run, hparse]
    exact h
  · have hends := evalTree_accounts interp.room tree (interp.reading source).context interp.state h
    rcases hrun : evalTree interp.room tree (interp.reading source).context interp.state with
      ⟨outcome, left⟩
    have hleft := Eval.Ends.left_iff.1 hends
    rw [hrun] at hleft
    rw [run_of_parse hparse hrun]
    exact hleft

theorem runAll_accounted (limit : Int) (sink : Sink) (history : List String) :
    ((new limit sink).runAll history).world.Accounted ((new limit sink).runAll history).log := by
  suffices hstep : ∀ interp : Interpreter, interp.world.Accounted interp.log →
      (interp.runAll history).world.Accounted (interp.runAll history).log from
    hstep _ (World.accounted_initial _)
  induction history with
  | nil => exact fun _ h => h
  | cons source rest ih => exact fun interp h => ih _ (run_accounted h source)

/-- Whatever texts have run, only strings have a text, and nil is an object of its class without
one. There is a string without a text, or a second object of the class of nil, only if the class has
been sent `new`. -/
theorem runAll_values (limit : Int) (sink : Sink) (history : List String) :
    let interp := (new limit sink).runAll history
    (∀ ref, (interp.world.object ref).payload.isSome = true →
        interp.world.classOf ref = .stringClass) ∧
      (interp.world.HasObject .nil ∧ interp.world.classOf .nil = .nilClass ∧
        (interp.world.object .nil).payload = none) ∧
      (∀ ref, interp.world.HasObject ref → interp.world.classOf ref = .stringClass →
        (interp.world.object ref).payload = none →
          ∃ args, .send "new" "String" "Class" args ∈ interp.log) ∧
      (∀ ref, interp.world.HasObject ref → interp.world.classOf ref = .nilClass → ref ≠ .nil →
        ∃ args, .send "new" "NilClass" "Class" args ∈ interp.log) := by
  intro interp
  obtain ⟨hregular, hhollow⟩ := runAll_accounted limit sink history
  refine ⟨hregular.payload, ⟨hregular.nil.1, hregular.nil.2.1, hregular.nil.2.2.1⟩,
    fun ref href hclass hpayload => ?_, fun ref href hclass hne => ?_⟩
  · obtain ⟨args, hmem⟩ := hhollow ref href (.inl ⟨hclass, hpayload⟩)
    rw [hclass, hregular.string.2] at hmem
    exact ⟨args, hmem⟩
  · obtain ⟨args, hmem⟩ := hhollow ref href (.inr ⟨hclass, hne⟩)
    rw [hclass, hregular.nilClass.2] at hmem
    exact ⟨args, hmem⟩

/-- The class of strings and the class of nil can be sent `new`. -/
theorem new_not_uniform :
    ¬ ((new 0 default).runAll ["String.new"]).world.Uniform ∧
      ¬ ((new 0 default).runAll ["NilClass.new"]).world.Uniform := by
  constructor
  · intro h
    have hstring := (h.string ⟨6⟩ (by decide +kernel)).1 (by decide +kernel)
    exact absurd hstring (by decide +kernel)
  · intro h
    have hnil := (h.nil ⟨6⟩ (by decide +kernel)).1 (by decide +kernel)
    exact absurd hnil (by decide)

end Interpreter

end Garnet
