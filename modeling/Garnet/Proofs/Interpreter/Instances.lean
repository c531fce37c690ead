import Garnet.Proofs.Interpreter.Natives
import Garnet.Proofs.Interpreter.Definitions

/-! # New instances

A class makes an instance by adding an object without instance variables and sending it
`initialize`. Whatever that does, the answer is the object that was added.
-/

namespace Garnet.Interpreter

open Evaluation

variable {interp : Interpreter}

theorem Occurs.builtIn (h : interp.Occurs) : interp.world.BuiltIn :=
  World.builtIn_initial.edits h.edits

/-! ### Sends as steps of an interpreter -/

/-- A message that is understood is noted, and its method is entered. -/
theorem exec_send {enter : Enter} {site : Option Node} {receiver : Ref} {name : String}
    {args : List Ref} {method : Method} {owner : ClassId}
    (hfound : interp.world.findMethod (interp.world.classOf receiver) name =
      some (method, owner)) :
    interp.exec (Evaluation.send enter site receiver name args) =
      (interp.note (.send name (interp.world.inspect receiver)
        (interp.world.classRecord owner).name args.length)).exec
          (enter (interp.answering site receiver name args method owner) site
            (taskOf args method.code)) := by
  obtain ⟨label, holder, code⟩ := method
  rw [Evaluation.send, exec_getWorld, hfound]
  cases code with
  | native native => rfl
  | interpreted params body => rfl

/-- A new instance of a class, with the interpreter that it has been added to. -/
def instantiate (interp : Interpreter) (id : ClassId) : Ref × Interpreter :=
  interp.grow (·.newObject id)

/-- An instance is added and sent `initialize`. If that succeeds, the instance becomes the result of
the frame. -/
theorem exec_runTask_new {site : Option Node} {args : List Ref} {id : ClassId}
    (hclass : interp.world.asClass? interp.current.self = some id) :
    interp.exec (runTask interp.enters site (.native .new args)) =
      match (interp.instantiate id).2.send (interp.instantiate id).1 "initialize" args with
      | (.ok _, left) => (.ok (interp.instantiate id).1, left.setResult (interp.instantiate id).1)
      | (.error error, left) => (.error error, left) := by
  have hsend : (interp.instantiate id).2.exec (Evaluation.send interp.enters none
      (interp.instantiate id).1 "initialize" args) =
        (interp.instantiate id).2.send (interp.instantiate id).1 "initialize" args := rfl
  rw [runTask, exec_bind, runNative, exec_getWorld, exec_getFrame]
  dsimp only
  rw [hclass]
  dsimp only
  rw [exec_grow, exec_bind, ← instantiate, hsend]
  rcases (interp.instantiate id).2.send (interp.instantiate id).1 "initialize" args with
    ⟨_ | value, left⟩
  · rfl
  · rfl

/-- The frame that is left does not matter for what is below it. -/
theorem exists_pop?_setResult {value : Ref} {popped : Frame} {below : Interpreter}
    (h : (interp.setResult value).pop? = some (popped, below)) :
    interp.pop? = some (interp.current, below) := by
  unfold pop? setResult at h
  unfold pop?
  dsimp only at h
  split at h
  next => cases h
  next =>
    cases h
    rfl

/-! ### What a new instance is -/

/-- How a class makes an instance, which is added to an interpreter inside of a frame. -/
structure MakesInstance (before : World) (id : ClassId) (args : List Ref) (label : String)
    (made : Ref) (start : Interpreter) (run : Except RuntimeError Ref × Interpreter) : Prop where
  /-- The instance was not there before. -/
  fresh : ¬ before.HasObject made
  /-- It begins as an object of the class, without instance variables. -/
  bare : start.world.object made = { cls := id }
  /-- Its messages go where the class sends them at that moment. -/
  resolves (name : String) : start.world.findMethod (start.world.classOf made) name =
    before.findMethod id name
  /-- It is sent `initialize` once. The frame is left, and what `initialize` answers is dropped. -/
  ends : ∃ popped below, (start.send made "initialize" args).2.pop? = some (popped, below) ∧
    run = match (start.send made "initialize" args).1 with
      | .ok _ => (.ok made, (below.setResult made).note (.pop label below.depth))
      | .error error => (.error error, below.note (.pop label below.depth))
  /-- Whatever `initialize` does, the instance stays an object of the class, without a text and
  without a class that it stands for. -/
  answer (value : Ref) (after : Interpreter) : run = (.ok value, after) →
    value = made ∧ after.world.HasObject value ∧ after.world.classOf value = id ∧
      (after.world.object value).payload = none ∧ after.world.asClass? value = none

/-- A class makes an instance in any frame of its own. -/
theorem makesInstance {frame : Frame} {site : Option Node} {args : List Ref} {id : ClassId}
    (hclass : interp.world.asClass? frame.self = some id) :
    MakesInstance interp.world id args frame.label ((interp.enter frame).instantiate id).1
      ((interp.enter frame).instantiate id).2
      (interp.exec (within frame
        (runTask (interp.enter frame).enters site (.native .new args)))) := by
  obtain ⟨popped, below, hpop, hrun⟩ := interp.exec_within frame
    (runTask (interp.enter frame).enters site (.native .new args))
  rw [exec_runTask_new hclass] at hpop hrun
  have hfresh : ¬ interp.world.HasObject ((interp.enter frame).instantiate id).1 :=
    Nat.lt_irrefl interp.world.objects.size
  have hbare : ((interp.enter frame).instantiate id).2.world.object
      ((interp.enter frame).instantiate id).1 = { cls := id } :=
    (World.object_allocate ..).trans (if_pos rfl)
  have hhas : ((interp.enter frame).instantiate id).2.world.HasObject
      ((interp.enter frame).instantiate id).1 := by
    simp [instantiate, grow, World.newObject, World.HasObject, World.allocate]
  have hclasses : ((interp.enter frame).instantiate id).2.world.classes = interp.world.classes :=
    rfl
  generalize (interp.enter frame).instantiate id = start at hpop hrun hfresh hbare hhas hclasses ⊢
  have hresolves (name : String) : start.2.world.findMethod (start.2.world.classOf start.1) name =
      interp.world.findMethod id name := by
    rw [World.classOf, hbare]
    exact World.findMethod_of_classes_eq hclasses id name
  have hkeeps := (nothing_lost start.2).2.2 start.1 "initialize" args
  rcases hsend : start.2.send start.1 "initialize" args with ⟨error | answer, left⟩
  · rw [hsend] at hpop hrun
    refine ⟨hfresh, hbare, hresolves, ⟨popped, below, ?_, ?_⟩, fun value after hvalue => ?_⟩
    · rw [hsend]
      exact hpop
    · rw [hsend]
      exact hrun
    · rw [hrun] at hvalue
      cases hvalue
  · rw [hsend] at hpop hrun hkeeps
    have hleft := exists_pop?_setResult hpop
    refine ⟨hfresh, hbare, hresolves, ⟨left.current, below, ?_, ?_⟩, fun value after hvalue => ?_⟩
    · rw [hsend]
      exact hleft
    · rw [hsend]
      exact hrun
    · rw [hrun] at hvalue
      cases hvalue
      have hworld : below.world = left.world := (of_pop? hleft).1
      have hbelow : start.2.world.Keeps below.world := hworld ▸ hkeeps
      exact ⟨rfl, hbelow.plain hhas hbare⟩

/-- The interpreter inside of the frame that a class makes an instance in. -/
def constructing (interp : Interpreter) (site : Option Node) (cls : Ref) (args : List Ref)
    (method : Method) (owner : ClassId) : Interpreter :=
  (interp.note (.send "new" (interp.world.inspect cls) (interp.world.classRecord owner).name
    args.length)).enter (interp.answering site cls "new" args method owner)

/-- If there is room for a frame, then a class on which the message is the built-in one makes an
instance in that. -/
theorem send_new (h : interp.Occurs) {cls : Ref} {id owner : ClassId} {method : Method}
    (hclass : interp.world.asClass? cls = some id)
    (hfound : interp.world.findMethod (interp.world.classOf cls) "new" = some (method, owner))
    (hcode : method.code = .native .new) (site : Option Node) (args : List Ref) :
    (interp.constructing site cls args method owner).current.label = "Class#new" ∧
      (interp.room = 0 → ∃ error after, error.fault = .stackTooDeep interp.limit ∧
        interp.exec (Evaluation.send interp.enters site cls "new" args) =
          (.error error, after)) ∧
      (0 < interp.room →
        MakesInstance interp.world id args "Class#new"
          ((interp.constructing site cls args method owner).instantiate id).1
          ((interp.constructing site cls args method owner).instantiate id).2
          (interp.exec (Evaluation.send interp.enters site cls "new" args))) := by
  have hown := World.ownMethod?_of_findMethod hfound
  have hlabel : (interp.answering site cls "new" args method owner).label = "Class#new" :=
    (Option.some.inj (h.builtIn owner "new" method .new hown hcode)).symm
  let noted := interp.note (.send "new" (interp.world.inspect cls)
    (interp.world.classRecord owner).name args.length)
  have hentered : interp.exec (Evaluation.send interp.enters site cls "new" args) =
      noted.exec (noted.enters (interp.answering site cls "new" args method owner) site
        (.native .new args)) := by
    rw [exec_send hfound, hcode]
    rfl
  refine ⟨hlabel, fun hroom => ?_, fun hroom => ?_⟩
  · have hfull : noted.room = 0 := hroom
    exact ⟨_, _, rfl, hentered.trans (exec_enters_full hfull ..)⟩
  · have hfree : 0 < noted.room := hroom
    have hself : noted.world.asClass? (interp.answering site cls "new" args method owner).self =
        some id := hclass
    rw [hentered, exec_enters hfree, ← hlabel]
    exact makesInstance hself

/-- A definition of `initialize` for all objects, which keeps the object in itself and answers
nil. -/
def keepSelf : Node :=
  .definition "initialize" [] ⟨1, 15⟩ (.node (.mk .begin
    [.node (.mk .ivarAssign [.sym "x", .node (.mk .selfRef [] ⟨2, 8⟩)] ⟨2, 3⟩),
      .node (.mk .nilRef [] ⟨3, 3⟩)] ⟨2, 3⟩)) ⟨1, 1⟩

theorem send_new_keepSelf :
    let interp := ((new 0 {}).interpret (some keepSelf)).2
    interp.Occurs ∧ interp.world.asClass? ⟨2⟩ = some .stringClass ∧
      interp.world.findMethod (interp.world.classOf ⟨2⟩) "new" =
        some (⟨"new", .classClass, .native .new⟩, .classClass) ∧ 0 < interp.room ∧
      ∃ after, interp.exec (Evaluation.send interp.enters none ⟨2⟩ "new" [.nil]) =
          (.ok ⟨6⟩, after) ∧ ¬ interp.world.HasObject ⟨6⟩ ∧ after.world.classOf ⟨6⟩ = .stringClass ∧
        (after.world.object ⟨6⟩).payload = none ∧ after.world.asClass? ⟨6⟩ = none := by
  intro interp
  have hoccurs : interp.Occurs := .between (.interpret (.new 0 {}) (some keepSelf))
  have hclass : interp.world.asClass? ⟨2⟩ = some .stringClass := by decide +kernel
  have hfound : interp.world.findMethod (interp.world.classOf ⟨2⟩) "new" =
      some (⟨"new", .classClass, .native .new⟩, .classClass) := by
    rfl
  have hroom : 0 < interp.room := by decide +kernel
  obtain ⟨-, -, hmakes⟩ := send_new hoccurs hclass hfound rfl none [.nil]
  have hmade := hmakes hroom
  have hnew : ((interp.constructing none ⟨2⟩ [.nil] ⟨"new", .classClass, .native .new⟩
      .classClass).instantiate .stringClass).1 = ⟨6⟩ := by decide +kernel
  have hok : (interp.exec (Evaluation.send interp.enters none ⟨2⟩ "new" [.nil])).1.isOk = true := by
    decide +kernel
  rcases hrun : interp.exec (Evaluation.send interp.enters none ⟨2⟩ "new" [.nil]) with
    ⟨error | value, after⟩
  · rw [hrun] at hok
    cases hok
  · obtain ⟨rfl, -, hcls, hpayload, hrecord⟩ := hmade.answer value after hrun
    rw [hnew] at hcls hpayload hrecord
    exact ⟨hoccurs, hclass, hfound, hroom, after, by rw [hnew], hnew ▸ hmade.fresh, hcls, hpayload,
      hrecord⟩

end Garnet.Interpreter
