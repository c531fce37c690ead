import Garnet.Proofs.Interpreter.Retention
import Garnet.Proofs.Interpreter.Stack

/-! # Moments of an evaluation

An evaluation goes from one thing to do to the next: from a node to its children, from a message to
the body of a method, from a native method to the lines it writes. A moment is an interpreter with
what it is about to do. The moments follow the order of the evaluator: whatever comes before has
ended with a value, and has left the interpreter of the moment behind.
-/

namespace Garnet

open Evaluation

/-- What an evaluation can be about to do. -/
inductive Activity where
  | node (node : Node)
  /-- Finish the rule of a node, all parts of which have been evaluated. -/
  | finish (node : Node)
  | sequence (owner : Node) (children : List Child)
  | args (owner : Node) (children : List Child)
  /-- Find the namespace and the name of a constant. -/
  | path (owner : Node) (children : List Child)
  | message (site : Option Node) (receiver : Ref) (name : String) (args : List Ref)
  /-- Enter a frame for a task. -/
  | entry (frame : Frame) (site : Option Node) (task : Task)
  /-- Run a task in the frame that was entered for it. -/
  | task (site : Option Node) (task : Task)
  | native (site : Option Node) (args : List Ref) (native : Native)
  | lines (site : Option Node) (lines : List String)
  /-- Give up, because the sink has refused a write. -/
  | refused (site : Option Node) (refusal : Refusal)

namespace Interpreter

/-- How frames are entered above the current one. -/
def enters (interp : Interpreter) : Enter :=
  perform interp.room

/-- All frames, innermost first. -/
def stack (interp : Interpreter) : List Frame :=
  interp.current :: interp.outer

/-- An interpreter after a write was tried. -/
def writing (interp : Interpreter) (text : String) : Interpreter :=
  { interp with sink := (interp.sink.write text).2 }

/-- The frame that a message is answered in. -/
def answering (interp : Interpreter) (site : Option Node) (receiver : Ref) (name : String)
    (args : List Ref) (method : Method) (owner : ClassId) : Frame where
  label := (interp.world.classRecord owner).name ++ "#" ++ name
  self := receiver
  locals := bindParams method.params args
  pos := (site.map Node.pos).getD .unknown

/-- The frame that the body of a class runs in. -/
def opening (interp : Interpreter) (id : ClassId) (pos : Pos) : Frame where
  label := "<class:" ++ (interp.world.classRecord id).name ++ ">"
  self := (interp.world.classRecord id).face
  pos

/-- The task that a method runs with its arguments. -/
def taskOf (args : List Ref) : Method.Code → Task
  | .native native => .native native args
  | .interpreted _ body => .body body

/-- A step from one thing to do to the next one that is done for it. -/
inductive Begins : Interpreter → Activity → Interpreter → Activity → Prop
  | statements {i : Interpreter} {node : Node} {children : List Child} {pos : Pos}
    (hnode : node = .mk .begin children pos) :
    Begins i (.node node) i (.sequence node children)
  | statement {i : Interpreter} {owner inner : Node} {rest : List Child} :
    Begins i (.sequence owner (.node inner :: rest)) i (.node inner)
  | statementsAfter {i m : Interpreter} {owner : Node} {first second : Child} {rest : List Child}
    {value : Ref} (hfirst : i.exec (evalPart i.enters owner first) = (.ok value, m)) :
    Begins i (.sequence owner (first :: second :: rest)) m (.sequence owner (second :: rest))
  | localValue {i : Interpreter} {node inner : Node} {name : String} {more : List Child} {pos : Pos}
    (hnode : node = .mk .localAssign (.sym name :: .node inner :: more) pos) :
    Begins i (.node node) i (.node inner)
  | ivarValue {i : Interpreter} {node inner : Node} {name : String} {more : List Child} {pos : Pos}
    (hnode : node = .mk .ivarAssign (.sym name :: .node inner :: more) pos) :
    Begins i (.node node) i (.node inner)
  | constant {i : Interpreter} {node : Node} {children : List Child} {pos : Pos}
    (hnode : node = .mk .const children pos) :
    Begins i (.node node) i (.path node children)
  | constantAfter {i m : Interpreter} {node : Node} {children : List Child} {pos : Pos}
    {found : ClassId × String} (hnode : node = .mk .const children pos)
    (hpath : i.exec (evalConstPath i.enters node children) = (.ok found, m)) :
    Begins i (.node node) m (.finish node)
  | space {i : Interpreter} {owner inner : Node} {name : String} {more : List Child} :
    Begins i (.path owner (.node inner :: .sym name :: more)) i (.node inner)
  | spaceAfter {i m : Interpreter} {owner inner : Node} {name : String} {more : List Child}
    {value : Ref} (hinner : i.exec (evalNode i.enters inner) = (.ok value, m)) :
    Begins i (.path owner (.node inner :: .sym name :: more)) m (.finish inner)
  | receiver {i : Interpreter} {node inner : Node} {name : String} {args : List Child} {pos : Pos}
    (hnode : node = .mk .send (.node inner :: .sym name :: args) pos) :
    Begins i (.node node) i (.node inner)
  | arguments {i m : Interpreter} {node : Node} {receiver : Child} {name : String}
    {args : List Child} {pos : Pos} {target : Ref}
    (hnode : node = .mk .send (receiver :: .sym name :: args) pos) (hpart : receiver.isPart = true)
    (hreceiver : i.exec (evalReceiver i.enters receiver) = (.ok target, m)) :
    Begins i (.node node) m (.args node args)
  | sending {i m n : Interpreter} {node : Node} {receiver : Child} {name : String}
    {args : List Child} {pos : Pos} {target : Ref} {values : List Ref}
    (hnode : node = .mk .send (receiver :: .sym name :: args) pos) (hpart : receiver.isPart = true)
    (hreceiver : i.exec (evalReceiver i.enters receiver) = (.ok target, m))
    (hargs : m.exec (evalArgs m.enters node args) = (.ok values, n)) :
    Begins i (.node node) n (.message (some node) target name values)
  | argument {i : Interpreter} {owner inner : Node} {rest : List Child} :
    Begins i (.args owner (.node inner :: rest)) i (.node inner)
  | argumentsAfter {i m : Interpreter} {owner inner : Node} {rest : List Child} {value : Ref}
    (hfirst : i.exec (evalNode i.enters inner) = (.ok value, m)) :
    Begins i (.args owner (.node inner :: rest)) m (.args owner rest)
  | className {i : Interpreter} {node path : Node} {superclass body : Child}
    {steps more : List Child} {pos place : Pos} (hpath : path = .mk .const steps place)
    (hnode : node = .mk .classDef (.node path :: superclass :: body :: more) pos)
    (hparts : (superclass.isPart && body.isPart) = true) :
    Begins i (.node node) i (.path path steps)
  | classParent {i m : Interpreter} {node path parent : Node} {body : Child}
    {steps more : List Child} {pos place : Pos} {found : ClassId × String}
    (hpath : path = .mk .const steps place)
    (hnode : node = .mk .classDef (.node path :: .node parent :: body :: more) pos)
    (hpart : body.isPart = true)
    (hfound : i.exec (evalConstPath i.enters path steps) = (.ok found, m)) :
    Begins i (.node node) m (.node parent)
  | classParentAfter {i m n : Interpreter} {node path parent : Node} {body : Child}
    {steps more : List Child} {pos place : Pos} {found : ClassId × String} {value : Ref}
    (hpath : path = .mk .const steps place)
    (hnode : node = .mk .classDef (.node path :: .node parent :: body :: more) pos)
    (hpart : body.isPart = true)
    (hfound : i.exec (evalConstPath i.enters path steps) = (.ok found, m))
    (hparent : m.exec (evalNode m.enters parent) = (.ok value, n)) :
    Begins i (.node node) n (.finish parent)
  | classOpening {i m n : Interpreter} {node path : Node} {superclass body : Child}
    {steps more : List Child} {pos place : Pos} {found : ClassId × String} {above : Option ClassId}
    (hpath : path = .mk .const steps place)
    (hnode : node = .mk .classDef (.node path :: superclass :: body :: more) pos)
    (hparts : (superclass.isPart && body.isPart) = true)
    (hfound : i.exec (evalConstPath i.enters path steps) = (.ok found, m))
    (hparent : m.exec (evalSuperclass m.enters superclass) = (.ok above, n)) :
    Begins i (.node node) n (.finish node)
  | classBody {i m n o : Interpreter} {node path : Node} {superclass body : Child}
    {steps more : List Child} {pos place : Pos} {found : ClassId × String} {above : Option ClassId}
    {id : ClassId} (hpath : path = .mk .const steps place)
    (hnode : node = .mk .classDef (.node path :: superclass :: body :: more) pos)
    (hparts : (superclass.isPart && body.isPart) = true)
    (hfound : i.exec (evalConstPath i.enters path steps) = (.ok found, m))
    (hparent : m.exec (evalSuperclass m.enters superclass) = (.ok above, n))
    (hopen : n.exec (openClass node found.1 found.2 above) = (.ok id, o)) :
    Begins i (.node node) o (.entry (o.opening id pos) (some node) (.body body.node?))
  | answer {i : Interpreter} {site : Option Node} {target : Ref} {name : String} {args : List Ref}
    {method : Method} {owner : ClassId}
    (hfound : i.world.findMethod (i.world.classOf target) name = some (method, owner)) :
    Begins i (.message site target name args)
      (i.note (.send name (i.world.inspect target) (i.world.classRecord owner).name args.length))
      (.entry (i.answering site target name args method owner) site (taskOf args method.code))
  | enter {i : Interpreter} {frame : Frame} {site : Option Node} {task : Task}
    (hroom : 0 < i.room) :
    Begins i (.entry frame site task) (i.enter frame) (.task site task)
  | body {i : Interpreter} {site : Option Node} {node : Node} :
    Begins i (.task site (.body (some node))) i (.node node)
  | native {i : Interpreter} {site : Option Node} {native : Native} {args : List Ref} :
    Begins i (.task site (.native native args)) i (.native site args native)
  | made {i : Interpreter} {site : Option Node} {args : List Ref} {id : ClassId}
    (hclass : i.world.asClass? i.current.self = some id) :
    Begins i (.native site args .new) (i.grow (·.newObject id)).2
      (.message none (i.grow (·.newObject id)).1 "initialize" args)
  | forward {i : Interpreter} {site : Option Node} {args : List Ref} {name : String}
    {note : Option String} :
    Begins i (.native site args (.host (.forward name note))) i
      (.message none i.current.self name args)
  | puts {i : Interpreter} {site : Option Node} {args : List Ref} :
    Begins i (.native site args .puts) i
      (.lines site (if args.isEmpty then [""] else args.map i.world.displayText))
  | written {i : Interpreter} {site : Option Node} {line : String} {lines : List String}
    (hwrite : (i.sink.write (line ++ "\n")).1 = none) :
    Begins i (.lines site (line :: lines)) (i.writing (line ++ "\n")) (.lines site lines)
  | refused {i : Interpreter} {site : Option Node} {line : String} {refusal : Refusal}
    {lines : List String}
    (hwrite : (i.sink.write (line ++ "\n")).1 = some refusal) :
    Begins i (.lines site (line :: lines)) (i.writing (line ++ "\n")) (.refused site refusal)

/-- From doing the first thing, the evaluation comes to do the second. -/
inductive Reaches : Interpreter → Activity → Interpreter → Activity → Prop
  | refl (i : Interpreter) (a : Activity) : Reaches i a i a
  | next {i m n : Interpreter} {a b c : Activity} (h : Begins i a m b) (h' : Reaches m b n c) :
    Reaches i a n c

/-! ### What one step does -/

/-- An interpreter after something was done in its current frame: the limit, the text, the reasons
to refuse writes and the frames below stay, and the world is edited. -/
structure Stays (before after : Interpreter) : Prop where
  limit : after.limit = before.limit
  source : after.source = before.source
  outer : after.outer = before.outer
  refusal : after.sink.refusal = before.sink.refusal
  edits : before.world.Edits after.world

namespace Stays

variable {first second third : Interpreter}

theorem refl (interp : Interpreter) : interp.Stays interp :=
  ⟨rfl, rfl, rfl, rfl, .refl⟩

theorem trans (h : first.Stays second) (h' : second.Stays third) : first.Stays third where
  limit := h'.limit.trans h.limit
  source := h'.source.trans h.source
  outer := h'.outer.trans h.outer
  refusal := h'.refusal.trans h.refusal
  edits := h.edits.trans h'.edits

theorem exec {α : Type} {step : Eval α} {outcome : Except RuntimeError α} (hstep : step.Edits)
    (h : first.exec step = (outcome, second)) : first.Stays second := by
  obtain ⟨hedits, hrefusal⟩ := exec_edits hstep first
  rw [h] at hedits hrefusal
  cases h
  exact ⟨rfl, rfl, rfl, hrefusal, hedits⟩

end Stays

theorem enters_edits (interp : Interpreter) : interp.enters.Edits :=
  perform_edits interp.room

/-- A step stays in the current frame or enters one. -/
theorem Begins.stays_or_enters {i m : Interpreter} {a b : Activity} (h : Begins i a m b) :
    i.Stays m ∨ 0 < i.room ∧ ∃ frame, m = i.enter frame := by
  have hsteps (children : List Child) (interp : Interpreter) :
      ∀ child ∈ children, child.Satisfies (Eval.editing.OfNode interp.enters) := by
    intro child _
    cases child with
    | node inner => exact evalNode_edits interp.enters_edits inner
    | _ => trivial
  have hchild (child : Child) (interp : Interpreter) :
      child.Satisfies (Eval.editing.OfNode interp.enters) :=
    hsteps [child] interp child (List.mem_singleton_self child)
  cases h with
  | statements | statement | localValue | ivarValue | constant | space | receiver | argument
  | className | body | native | forward | puts => exact .inl (.refl i)
  | statementsAfter hfirst => exact .inl (.exec (Eval.editing.evalPart _ (hchild _ i)) hfirst)
  | constantAfter hnode hpath =>
    exact .inl (.exec (Eval.editing.evalConstPath _ (hsteps _ i)) hpath)
  | spaceAfter hinner => exact .inl (.exec (evalNode_edits i.enters_edits _) hinner)
  | arguments hnode hpart hreceiver =>
    exact .inl (.exec (Eval.editing.evalReceiver (hchild _ i)) hreceiver)
  | sending hnode hpart hreceiver hargs =>
    have hmid := Stays.exec (Eval.editing.evalReceiver (hchild _ _)) hreceiver
    exact .inl (hmid.trans (.exec (Eval.editing.evalArgs _ (hsteps _ _)) hargs))
  | argumentsAfter hfirst => exact .inl (.exec (evalNode_edits i.enters_edits _) hfirst)
  | classParent hpath hnode hpart hfound =>
    exact .inl (.exec (Eval.editing.evalConstPath _ (hsteps _ i)) hfound)
  | classParentAfter hpath hnode hpart hfound hparent =>
    have hmid := Stays.exec (Eval.editing.evalConstPath _ (hsteps _ _)) hfound
    exact .inl (hmid.trans (.exec (evalNode_edits (enters_edits _) _) hparent))
  | classOpening hpath hnode hparts hfound hparent =>
    have hmid := Stays.exec (Eval.editing.evalConstPath _ (hsteps _ _)) hfound
    exact .inl (hmid.trans (.exec (Eval.editing.evalSuperclass (hchild _ _)) hparent))
  | classBody hpath hnode hparts hfound hparent hopen =>
    have hmid := Stays.exec (Eval.editing.evalConstPath _ (hsteps _ _)) hfound
    have hlate := Stays.exec (Eval.editing.evalSuperclass (hchild _ _)) hparent
    exact .inl (hmid.trans (hlate.trans (.exec (Eval.Edits.openClass _ _ _ _) hopen)))
  | answer hfound => exact .inl ⟨rfl, rfl, rfl, rfl, .refl⟩
  | enter hroom => exact .inr ⟨hroom, _, rfl⟩
  | made hclass => exact .inl ⟨rfl, rfl, rfl, rfl, .single (.newObject _)⟩
  | written hwrite => exact .inl ⟨rfl, rfl, rfl, Sink.refusal_write _ _, .refl⟩
  | refused hwrite => exact .inl ⟨rfl, rfl, rfl, Sink.refusal_write _ _, .refl⟩

/-! ### What many steps do -/

namespace Reaches

variable {i m : Interpreter} {a b : Activity}

/-- What is kept in the current frame and when a frame is entered is kept throughout. -/
theorem invariant (property : Interpreter → Prop)
    (hstays : ∀ i m : Interpreter, i.Stays m → property i → property m)
    (henter : ∀ (i : Interpreter) (frame : Frame), 0 < i.room → property i →
      property (i.enter frame))
    (h : Reaches i a m b) (hfirst : property i) : property m := by
  induction h with
  | refl => exact hfirst
  | next h _ ih =>
    refine ih ?_
    rcases h.stays_or_enters with hstep | ⟨hroom, frame, rfl⟩
    · exact hstays _ _ hstep hfirst
    · exact henter _ frame hroom hfirst

theorem limit_eq (h : Reaches i a m b) : m.limit = i.limit :=
  h.invariant (·.limit = i.limit) (fun _ _ hstep hlimit => hstep.limit.trans hlimit)
    (fun _ _ _ hlimit => hlimit) rfl

theorem source_eq (h : Reaches i a m b) : m.source = i.source :=
  h.invariant (·.source = i.source) (fun _ _ hstep hsource => hstep.source.trans hsource)
    (fun _ _ _ hsource => hsource) rfl

/-- The sink is never exchanged. -/
theorem refusal_eq (h : Reaches i a m b) : m.sink.refusal = i.sink.refusal :=
  h.invariant (·.sink.refusal = i.sink.refusal)
    (fun _ _ hstep hrefusal => hstep.refusal.trans hrefusal) (fun _ _ _ hrefusal => hrefusal) rfl

/-- Only what writes lines comes to give up, and it does so for a reason of the sink. -/
theorem of_refused {site : Option Node} {refusal : Refusal}
    (h : Reaches i a m (.refused site refusal)) (ha : a ≠ .refused site refusal) :
    ∃ n line lines, Reaches i a n (.lines site (line :: lines)) ∧
      n.sink.refusal n.sink.attempts = some refusal ∧ m = n.writing (line ++ "\n") := by
  generalize hb : Activity.refused site refusal = b at h
  induction h with
  | refl => exact absurd hb.symm ha
  | @next i n m a c b hbegins hreaches ih =>
    subst hb
    by_cases hc : c = .refused site refusal
    · subst hc
      cases hbegins with
      | refused hwrite =>
        cases hreaches with
        | refl => exact ⟨i, _, _, .refl _ _, (Sink.fst_write _ _).symm.trans hwrite, rfl⟩
        | next hnone _ => cases hnone
    · obtain ⟨reached, line, lines, hlines, hrest⟩ := ih hc rfl
      exact ⟨reached, line, lines, .next hbegins hlines, hrest⟩

/-- A stack that the limit allows never gets too high. -/
theorem depth_le (h : Reaches i a m b) (hdepth : i.depth ≤ i.limit) : m.depth ≤ m.limit := by
  refine h.invariant (fun m => m.depth ≤ m.limit) (fun i m hstep hle => ?_)
    (fun i frame hroom hle => ?_) hdepth
  · rw [depth, hstep.outer, hstep.limit]
    exact hle
  · have hdepth : (i.enter frame).depth = i.depth + 1 := rfl
    have hlimit : (i.enter frame).limit = i.limit := rfl
    unfold room at hroom
    omega

end Reaches

end Interpreter

end Garnet
