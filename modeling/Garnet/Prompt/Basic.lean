import Garnet.Prompt.Completion
import Garnet.Prompt.Key
import Garnet.Snapshot.Text
import Garnet.Text.Trim

/-! # The prompt

The prompt keeps one interpreter and feeds it the lines that are entered. Lines that begin with a
colon are directives to the prompt itself. What was entered and what came of it is shown as a list
of entries.
-/

namespace Garnet

namespace Prompt

/-- Something that was entered, and what came of it. -/
structure Entry where
  input : String := ""
  /-- What the program wrote. -/
  stdout : String := ""
  output : String := ""
  isError : Bool := false
deriving DecidableEq, Repr

/-- The size of the window. -/
structure Window where
  width : Nat
  height : Nat
deriving DecidableEq, Repr

end Prompt

/-- A prompt. -/
structure Prompt where
  input : Prompt.TextInput := {}
  interp : Interpreter
  /-- The limit on the number of frames that was asked for. -/
  limit : Int
  history : List Prompt.Entry := []
  /-- The lines for the interpreter that were entered, oldest first. -/
  commands : List String := []
  /-- Which of them is being looked at, if one is. -/
  browsing : Option Nat := none
  /-- The window, once its size is known. -/
  window : Option Prompt.Window := none
  showHelp : Bool := false
  showVars : Bool := false
  quitting : Bool := false

namespace Prompt

/-- A prompt before anything was entered. -/
def new (limit : Int) : Prompt where
  interp := .new limit {}
  limit

/-- The names of the local variables. -/
def localNames (prompt : Prompt) : List String :=
  prompt.interp.current.locals.names

/-- Add an entry. -/
def note (prompt : Prompt) (entry : Entry) : Prompt :=
  { prompt with history := prompt.history ++ [entry] }

/-! ### Directives -/

/-- What the prompt can be told to do. -/
inductive Directive where
  | help
  | clear
  | vars
  | stack
  | reset
  | quit
deriving DecidableEq, Repr

/-- The directive with a name. -/
def Directive.ofName? : String → Option Directive
  | ":help" | ":h" => some help
  | ":clear" | ":c" => some clear
  | ":vars" | ":v" => some vars
  | ":stack" | ":s" => some stack
  | ":reset" | ":r" => some reset
  | ":quit" | ":q" => some quit
  | _ => none

/-- Whether the session goes on. -/
inductive Signal where
  | stay
  | quit
deriving DecidableEq, Repr

/-- The picture of the interpreter, without its last line end. -/
def stackText (interp : Interpreter) : String :=
  String.ofList (Text.trimEnd (· == '\n') (Snapshot.ofInterpreter interp).render.toList)

/-- Follow a directive. -/
def follow (prompt : Prompt) (line : String) : Directive → Prompt × Signal
  | .help => ({ prompt with showHelp := !prompt.showHelp }, .stay)
  | .clear => ({ prompt with history := [] }, .stay)
  | .vars => ({ prompt with showVars := !prompt.showVars }, .stay)
  | .stack => (prompt.note { input := line, output := stackText prompt.interp }, .stay)
  | .reset =>
    ({ prompt with interp := .new prompt.limit {} }.note
      { input := line, output := "Interpreter reset" }, .stay)
  | .quit => ({ prompt with quitting := true }, .quit)

/-- Follow the directive in a line. Its first word names it. -/
def direct (prompt : Prompt) (line : String) : Prompt × Signal :=
  let name := String.ofList ((Text.words line.toList).head?.getD [])
  match Directive.ofName? name with
  | some directive => prompt.follow line directive
  | none =>
    (prompt.note { input := line, output := s!"Unknown command: {name}", isError := true }, .stay)

/-! ### Evaluation -/

/-- What came of running a line. -/
def entryOf (line : String) (outcome : Except Failure Ref) (interp : Interpreter) : Entry :=
  match outcome with
  | .ok value => { input := line, stdout := interp.sink.text, output := interp.inspect value }
  | .error failure =>
    { input := line, stdout := interp.sink.text, output := failure.render, isError := true }

/-- Run a line on the interpreter. -/
def evaluate (prompt : Prompt) (line : String) : Prompt :=
  let (outcome, interp) := prompt.interp.drain.run line
  { prompt with interp, commands := prompt.commands ++ [line] }.note (entryOf line outcome interp)

/-- The line that would be entered. -/
def pending (prompt : Prompt) : List Char :=
  Text.trim Text.isBlank prompt.input.value

/-- Enter the line. A line without words stays. -/
def enter (prompt : Prompt) : Prompt × Signal :=
  let line := String.ofList prompt.pending
  match prompt.pending with
  | [] => (prompt, .stay)
  | first :: _ =>
    let (prompt, signal) :=
      if first = ':' then prompt.direct line else (prompt.evaluate line, .stay)
    ({ prompt with input := prompt.input.setValue [], browsing := none }, signal)

/-! ### Looking at earlier lines -/

/-- Replace the line, with the cursor at its end. -/
def setLine (prompt : Prompt) (text : List Char) : Prompt :=
  { prompt with input := (prompt.input.setValue text).toEnd }

/-- Look at one of the lines that were entered. -/
def browse (prompt : Prompt) (index : Nat) : Prompt :=
  { prompt with browsing := some index }.setLine (prompt.commands[index]?.getD "").toList

/-- Look at the line before, starting with the latest one; the oldest is the last to be shown. -/
def older (prompt : Prompt) : Prompt :=
  if prompt.commands.isEmpty then prompt
  else match prompt.browsing with
    | none => prompt.browse (prompt.commands.length - 1)
    | some index => prompt.browse (index - 1)

/-- Look at the line after, and at an empty line behind the latest one. -/
def newer (prompt : Prompt) : Prompt :=
  match prompt.browsing with
  | none => prompt
  | some index =>
    if index + 1 < prompt.commands.length then prompt.browse (index + 1)
    else { prompt with browsing := none }.setLine []

/-! ### Completion -/

/-- Complete the last word if it can be completed in one way, else show the ways. -/
def complete (prompt : Prompt) : Prompt :=
  let text := prompt.input.value
  match (Text.words text).getLast? with
  | none => prompt
  | some word =>
    match completions prompt.interp word with
    | [] => prompt
    | [completion] => prompt.setLine (withoutEnd text word ++ completion.toList)
    | several => prompt.note { output := "Completions: " ++ ", ".intercalate several }

/-! ### Messages -/

/-- What a key does. -/
def press (prompt : Prompt) : Key → Prompt × Signal
  | .enter => prompt.enter
  | .older => (prompt.older, .stay)
  | .newer => (prompt.newer, .stay)
  | .complete => (prompt.complete, .stay)
  | .clear => ({ prompt with history := [] }, .stay)
  | .toggleVars => ({ prompt with showVars := !prompt.showVars }, .stay)
  | .toggleHelp => ({ prompt with showHelp := !prompt.showHelp }, .stay)
  | .quit => ({ prompt with quitting := true }, .quit)
  | .edit change => ({ prompt with input := prompt.input.edit change }, .stay)
  | .suggest => (prompt, .stay)

/-- What a message does. -/
def update (prompt : Prompt) : Message → Prompt × Signal
  | .key key => prompt.press key
  | .typed text =>
    match Key.ofName? text with
    | some key => prompt.press key
    | none => ({ prompt with input := prompt.input.insert text.toList }, .stay)
  | .resize width height => ({ prompt with window := some ⟨width, height⟩ }, .stay)

/-- The prompt after some messages. -/
def afterMessages (prompt : Prompt) (messages : List Message) : Prompt :=
  messages.foldl (fun prompt message => (prompt.update message).1) prompt

end Prompt

end Garnet
