import Garnet.Proofs.Interpreter.Output
import Garnet.Prompt.Basic

/-! # A session at the prompt

Whatever keys are pressed, the interpreter of a prompt is touched by two things only: a line for the
interpreter runs on it, and a line that asks for a reset replaces it by a new one. All that is left
of a session is therefore the list of lines that were entered.
-/

namespace Garnet

open Prompt

/-- The key that a message amounts to, if it amounts to one. -/
def Prompt.Message.key? : Message → Option Key
  | .key found => some found
  | .typed text => Key.ofName? text
  | .resize _ _ => none

namespace Prompt

/-- Lines that run on the interpreter. All others are directives to the prompt. -/
def isProgram (line : String) : Bool :=
  line.toList.head? != some ':'

/-- The first word of a line. -/
def firstWord (line : String) : String :=
  String.ofList ((Text.words line.toList).head?.getD [])

/-- Directives that ask for a new interpreter. -/
def isReset (line : String) : Bool :=
  !isProgram line && (firstWord line == ":reset" || firstWord line == ":r")

/-- The line that a message enters, if it enters one: what has been typed, without the blanks around
it, unless it is blank. -/
def entered? (prompt : Prompt) (message : Message) : Option String :=
  if message.key? = some .enter ∧ prompt.pending ≠ [] then some (String.ofList prompt.pending)
  else none

/-- The lines that are entered by messages, in order. -/
def entered (prompt : Prompt) : List Message → List String
  | [] => []
  | message :: rest =>
    (prompt.entered? message).toList ++ entered (prompt.update message).1 rest

/-- The lines after the last reset. -/
def sinceReset (lines : List String) : List String :=
  (lines.reverse.takeWhile (!isReset ·)).reverse

/-- A new interpreter after the lines that were entered since the last reset have run on it. -/
def replay (limit : Int) (lines : List String) : Interpreter :=
  (Interpreter.new limit {}).runAll ((sinceReset lines).filter isProgram)

/-- What a line does to the interpreter: it runs, or it is a directive. -/
def onLine (limit : Int) (interp : Interpreter) (line : String) : Interpreter :=
  if isProgram line then (interp.run line).2
  else if isReset line then .new limit {}
  else interp

/-! ### Lines -/

theorem not_isReset_of_isProgram {line : String} (h : isProgram line = true) :
    isReset line = false := by
  simp [isReset, h]

theorem sinceReset_append (lines : List String) (line : String) :
    sinceReset (lines ++ [line]) = if isReset line then [] else sinceReset lines ++ [line] := by
  unfold sinceReset
  rw [List.reverse_append, List.reverse_singleton, List.singleton_append, List.takeWhile_cons]
  cases isReset line with
  | true => rfl
  | false => exact List.reverse_cons

theorem replay_append (limit : Int) (lines : List String) (line : String) :
    replay limit (lines ++ [line]) = onLine limit (replay limit lines) line := by
  unfold replay onLine
  rw [sinceReset_append]
  by_cases hprogram : isProgram line = true
  · rw [if_pos hprogram, not_isReset_of_isProgram hprogram, if_neg Bool.false_ne_true,
      List.filter_append, List.filter_cons_of_pos hprogram]
    exact List.foldl_append
  · rw [if_neg hprogram]
    split
    next => rfl
    next =>
      rw [List.filter_append, List.filter_cons_of_neg hprogram, List.filter_nil, List.append_nil]

/-! ### Messages -/

section Step

variable {prompt : Prompt} {message : Message} {line : String}

theorem Directive.ofName?_eq_reset_iff {name : String} :
    Directive.ofName? name = some .reset ↔ name = ":reset" ∨ name = ":r" := by
  constructor
  · intro h
    unfold ofName? at h
    split at h <;> simp_all
  · rintro (rfl | rfl) <;> rfl

/-- What is kept by everything but lines. -/
structure Undisturbed (prompt next : Prompt) : Prop where
  interp : next.interp = prompt.interp
  commands : next.commands = prompt.commands
  limit : next.limit = prompt.limit

theorem Undisturbed.refl (prompt : Prompt) : prompt.Undisturbed prompt :=
  ⟨rfl, rfl, rfl⟩

theorem older_undisturbed (prompt : Prompt) : prompt.Undisturbed prompt.older := by
  unfold older
  split
  next => exact .refl prompt
  next => split <;> exact ⟨rfl, rfl, rfl⟩

theorem newer_undisturbed (prompt : Prompt) : prompt.Undisturbed prompt.newer := by
  unfold newer
  split
  next => exact .refl prompt
  next => split <;> exact ⟨rfl, rfl, rfl⟩

theorem complete_undisturbed (prompt : Prompt) : prompt.Undisturbed prompt.complete := by
  unfold complete
  dsimp only
  split
  next => exact .refl prompt
  next => split <;> exact ⟨rfl, rfl, rfl⟩

/-- Only lines are entered, and blank ones are not. -/
theorem press_undisturbed (key : Key) (h : key = .enter → prompt.pending = []) :
    prompt.Undisturbed (prompt.press key).1 := by
  cases key with
  | enter =>
    have hblank := h rfl
    rw [press, enter]
    split
    next => exact .refl prompt
    next hcons =>
      rw [hblank] at hcons
      cases hcons
  | older => exact older_undisturbed prompt
  | newer => exact newer_undisturbed prompt
  | complete => exact complete_undisturbed prompt
  | clear | toggleVars | toggleHelp | quit | suggest => exact ⟨rfl, rfl, rfl⟩
  | edit change => exact ⟨rfl, rfl, rfl⟩

theorem update_of_key? {key : Key} (h : message.key? = some key) :
    prompt.update message = prompt.press key := by
  cases message with
  | key found =>
    cases h
    rfl
  | typed text =>
    have hname : Key.ofName? text = some key := h
    rw [update, hname]
  | resize width height => cases h

/-- A message that enters no line. -/
theorem update_undisturbed (h : prompt.entered? message = none) :
    prompt.Undisturbed (prompt.update message).1 := by
  cases hkey : message.key? with
  | some key =>
    rw [update_of_key? hkey]
    refine press_undisturbed key fun henter => ?_
    rw [henter] at hkey
    simpa [entered?, hkey] using h
  | none =>
    cases message with
    | key found => cases hkey
    | typed text =>
      have hname : Key.ofName? text = none := hkey
      rw [update, hname]
      exact ⟨rfl, rfl, rfl⟩
    | resize width height => exact ⟨rfl, rfl, rfl⟩

/-- A message that enters a line hands it to the interpreter or to the prompt. -/
theorem update_of_entered (h : prompt.entered? message = some line) :
    ∃ after, (prompt.update message).1 =
        { after with input := after.input.setValue [], browsing := none } ∧
      after = if isProgram line then prompt.evaluate line else (prompt.direct line).1 := by
  unfold entered? at h
  split at h
  next hsome =>
    cases h
    obtain ⟨hkey, hpending⟩ := hsome
    rw [update_of_key? hkey, press, enter]
    split
    next hblank => exact absurd hblank hpending
    next first rest hcons =>
      refine ⟨_, ?_, rfl⟩
      have hfirst : isProgram (String.ofList prompt.pending) = true ↔ ¬ first = ':' := by
        simp [isProgram, hcons]
      by_cases hcolon : first = ':'
      · rw [if_neg (fun hprogram => hfirst.1 hprogram hcolon), if_pos hcolon]
      · rw [if_pos (hfirst.2 hcolon), if_neg hcolon]
  next => cases h

theorem direct_limit (prompt : Prompt) (line : String) :
    (prompt.direct line).1.limit = prompt.limit ∧
      (prompt.direct line).1.commands = prompt.commands := by
  unfold direct
  dsimp only
  split
  next directive _ => cases directive <;> exact ⟨rfl, rfl⟩
  next => exact ⟨rfl, rfl⟩

/-- Of the directives, only a reset concerns the interpreter. -/
theorem direct_interp (h : isProgram line = false) :
    (prompt.direct line).1.interp =
      if isReset line then Interpreter.new prompt.limit {} else prompt.interp := by
  have hreset : isReset line = true ↔ Directive.ofName? (firstWord line) = some .reset := by
    rw [Directive.ofName?_eq_reset_iff]
    simp [isReset, h]
  unfold direct
  dsimp only
  rw [← firstWord]
  split
  next directive hname =>
    rw [hname, Option.some.injEq] at hreset
    cases directive with
    | reset => rw [if_pos (hreset.2 rfl)]; rfl
    | _ => rw [if_neg (fun hyes => by cases hreset.1 hyes)]; rfl
  next hname =>
    rw [hname] at hreset
    rw [if_neg (fun hyes => by cases hreset.1 hyes)]
    rfl

end Step

/-! ### Sessions -/

section Session

variable {prompt : Prompt} {interp : Interpreter} {message : Message} {line : String}

/-- The prompt has the lines that were entered, and its interpreter is one on which they have run,
but for the output of earlier runs. -/
structure Mirrors (limit : Int) (lines : List String) (prompt : Prompt) : Prop where
  interp : prompt.interp.drain = (replay limit lines).drain
  commands : prompt.commands = lines.filter isProgram
  limit : prompt.limit = limit

/-- A line is entered. -/
theorem Mirrors.enter {limit : Int} {lines : List String} (h : prompt.Mirrors limit lines)
    (hline : prompt.entered? message = some line) :
    (prompt.update message).1.Mirrors limit (lines ++ [line]) := by
  obtain ⟨after, hupdate, hafter⟩ := update_of_entered hline
  rw [hupdate]
  suffices hmirrors : after.Mirrors limit (lines ++ [line]) from
    ⟨hmirrors.interp, hmirrors.commands, hmirrors.limit⟩
  by_cases hprogram : isProgram line = true
  · rw [if_pos hprogram] at hafter
    subst hafter
    refine ⟨?_, ?_, h.limit⟩
    · rw [replay_append, onLine, if_pos hprogram, ← Interpreter.drain_run h.interp]
      rfl
    · rw [List.filter_append, List.filter_cons_of_pos hprogram, ← h.commands]
      rfl
  · rw [if_neg hprogram] at hafter
    subst hafter
    obtain ⟨hlimit, hcommands⟩ := direct_limit prompt line
    refine ⟨?_, ?_, hlimit.trans h.limit⟩
    · rw [replay_append, onLine, if_neg hprogram, direct_interp (Bool.eq_false_iff.2 hprogram),
        h.limit]
      split
      next => rfl
      next => exact h.interp
    · rw [List.filter_append, List.filter_cons_of_neg hprogram, List.filter_nil, List.append_nil,
        hcommands, h.commands]

/-- A session goes on with the lines that its further messages enter. -/
theorem Mirrors.afterMessages {limit : Int} {lines : List String} (h : prompt.Mirrors limit lines)
    (messages : List Message) :
    (prompt.afterMessages messages).Mirrors limit (lines ++ prompt.entered messages) := by
  induction messages generalizing prompt lines with
  | nil =>
    rw [entered, List.append_nil]
    exact h
  | cons message rest ih =>
    have hnext : (prompt.update message).1.Mirrors limit
        (lines ++ (prompt.entered? message).toList) := by
      cases hline : prompt.entered? message with
      | some line => exact h.enter hline
      | none =>
        obtain ⟨hinterp, hcommands, hlimit⟩ := update_undisturbed hline
        rw [Option.toList_none, List.append_nil]
        exact ⟨by rw [hinterp, h.interp], hcommands.trans h.commands, hlimit.trans h.limit⟩
    rw [entered, ← List.append_assoc]
    exact ih hnext

theorem mirrors_new (limit : Int) : (new limit).Mirrors limit [] :=
  ⟨rfl, rfl, rfl⟩

/-- Whatever is true of new interpreters and stays true when a line runs, is true of the interpreter
of a prompt. -/
theorem interp_afterMessages (property : Interpreter → Prop)
    (hnew : ∀ limit, property (.new limit {}))
    (hrun : ∀ interp line, property interp → property (interp.drain.run line).2) (limit : Int)
    (messages : List Message) : property ((new limit).afterMessages messages).interp := by
  suffices hstep : ∀ prompt : Prompt, property prompt.interp →
      property (prompt.afterMessages messages).interp from hstep (new limit) (hnew limit)
  induction messages with
  | nil => exact fun _ h => h
  | cons message rest ih =>
    refine fun prompt h => ih (prompt.update message).1 ?_
    cases hline : prompt.entered? message with
    | none =>
      rw [(update_undisturbed hline).interp]
      exact h
    | some line =>
      obtain ⟨after, hupdate, hafter⟩ := update_of_entered hline
      rw [hupdate]
      change property after.interp
      by_cases hprogram : isProgram line = true
      · rw [hafter, if_pos hprogram]
        exact hrun _ line h
      · rw [hafter, if_neg hprogram, direct_interp (Bool.eq_false_iff.2 hprogram)]
        split
        next => exact hnew _
        next => exact h

/-- An entry for a line that runs on an interpreter: it has what this run writes, and its value or
the reason why there is none. -/
structure Entry.Records (entry : Entry) (interp : Interpreter) (line : String) : Prop where
  input : entry.input = line
  stdout : (interp.run line).2.sink.text = interp.sink.text ++ entry.stdout
  value (ref : Ref) : (interp.run line).1 = .ok ref →
    entry.output = (interp.run line).2.inspect ref ∧ entry.isError = false
  failure (failure : Failure) : (interp.run line).1 = .error failure →
    entry.output = failure.render ∧ entry.isError = true

/-- The entry says the same for every interpreter that differs in earlier output. -/
theorem entryOf_records (interp : Interpreter) (line : String) :
    (entryOf line (interp.drain.run line).1 (interp.drain.run line).2).Records interp line := by
  have hrun := interp.run_eq_following line
  have htext := interp.text_run line
  rcases houtcome : (interp.drain.run line).1 with failure | ref
  · refine ⟨rfl, htext, fun other hother => ?_, fun other hother => ?_⟩
    · rw [hrun, houtcome] at hother
      cases hother
    · rw [hrun, houtcome] at hother
      cases hother
      exact ⟨rfl, rfl⟩
  · refine ⟨rfl, htext, fun other hother => ?_, fun other hother => ?_⟩
    · rw [hrun, houtcome] at hother
      cases hother
      rw [hrun]
      exact ⟨rfl, rfl⟩
    · rw [hrun, houtcome] at hother
      cases hother

theorem history_of_program (hline : prompt.entered? message = some line)
    (hprogram : isProgram line = true) (hinterp : prompt.interp.drain = interp.drain) :
    ∃ entry, (prompt.update message).1.history = prompt.history ++ [entry] ∧
      entry.Records interp line := by
  obtain ⟨after, hupdate, hafter⟩ := update_of_entered hline
  rw [if_pos hprogram] at hafter
  refine ⟨_, ?_, entryOf_records interp line⟩
  rw [hupdate, hafter, ← hinterp]
  rfl

/-- Whatever messages reach a prompt, its interpreter is a new one on which the lines have run that
were entered since the last reset, but for the output of earlier runs. All lines that ran are
remembered. A message that enters another line adds one entry, with what came of the run; a message
that enters no line, and a directive that is no reset, leaves the interpreter as it is. -/
theorem afterMessages_replays (limit : Int) (messages : List Message) :
    let prompt := (new limit).afterMessages messages
    let lines := (new limit).entered messages
    prompt.interp.drain = (replay limit lines).drain ∧
      prompt.commands = lines.filter isProgram ∧
      ∀ message,
        (∀ line, prompt.entered? message = some line → isProgram line = true →
          ∃ entry, (prompt.update message).1.history = prompt.history ++ [entry] ∧
            entry.Records (replay limit lines) line) ∧
        ((∀ line, prompt.entered? message = some line →
            isProgram line = false ∧ isReset line = false) →
          (prompt.update message).1.interp = prompt.interp) := by
  intro prompt lines
  have hmirrors : prompt.Mirrors limit lines := (mirrors_new limit).afterMessages messages
  refine ⟨hmirrors.interp, hmirrors.commands, fun message => ⟨fun line hline hprogram => ?_,
    fun hother => ?_⟩⟩
  · exact history_of_program hline hprogram hmirrors.interp
  · cases hline : prompt.entered? message with
    | none => exact (update_undisturbed hline).interp
    | some line =>
      obtain ⟨hprogram, hreset⟩ := hother line hline
      obtain ⟨after, hupdate, hafter⟩ := update_of_entered hline
      rw [if_neg (by simp [hprogram])] at hafter
      have hinterp : after.interp = _ := hafter ▸ direct_interp hprogram
      rw [hreset, if_neg Bool.false_ne_true] at hinterp
      rw [hupdate]
      exact hinterp

/-- A line that fails after it has written, a reset by its short name, and a line that has not been
entered yet. -/
def interrupted : List Message :=
  [.typed "x = 'a'; puts x; y", .key .enter, .typed " :r now", .key .enter, .typed "puts 'b' "]

theorem afterMessages_replays_interrupted :
    let prompt := (new 0).afterMessages interrupted
    prompt.commands = ["x = 'a'; puts x; y"] ∧ prompt.localNames = [] ∧
      ∃ entry, (prompt.update (.key .enter)).1.history = prompt.history ++ [entry] ∧
        entry.Records (.new 0 {}) "puts 'b'" := by
  intro prompt
  have hlines : (new 0).entered interrupted = ["x = 'a'; puts x; y", ":r now"] := by decide +kernel
  have hline : prompt.entered? (.key .enter) = some "puts 'b'" := by decide +kernel
  have hreplay : replay 0 ["x = 'a'; puts x; y", ":r now"] = .new 0 {} := by
    have hsince : sinceReset ["x = 'a'; puts x; y", ":r now"] = [] := by decide +kernel
    rw [replay, hsince]
    rfl
  obtain ⟨hinterp, hcommands, hnext⟩ := afterMessages_replays 0 interrupted
  rw [hlines] at hinterp hcommands hnext
  rw [hreplay] at hinterp hnext
  refine ⟨?_, ?_, (hnext (.key .enter)).1 _ hline (by decide)⟩
  · rw [hcommands]
    decide +kernel
  · exact congrArg (fun interp => interp.current.locals.names) hinterp

end Session

end Prompt

end Garnet
