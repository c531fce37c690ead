import Garnet.Prompt.Basic
import Garnet.Text.Lines

/-! # What the prompt shows

The view is plain text: a header, the latest entries, panels with variables and help, the line being
edited and a footer. All characters count as one column wide. The lines are counted with numbers
that may become negative, so drawing the view may crash, and that is the end of the session.
-/

namespace Garnet

/-- Why a session ends all at once. A fault is reported and the session goes on; after a crash
nothing comes. -/
inductive Crash where
  /-- A text was to be repeated a negative number of times. -/
  | negativeCount
  /-- A list was read at a place that it does not have. -/
  | outOfRange (place : Int) (length : Nat)
deriving DecidableEq, Repr

/-- The wording of a crash. -/
def Crash.message : Crash → String
  | negativeCount => "strings: negative Repeat count"
  | outOfRange place length =>
    if place < 0 then s!"runtime error: index out of range [{place}]"
    else s!"runtime error: index out of range [{place}] with length {length}"

end Garnet

namespace Garnet.Prompt

/-! ### Blocks of text -/

/-- The lines of a text. -/
def linesOf (text : String) : List String :=
  (Text.lines text.toList).map String.ofList

/-- Spaces. -/
def spaces (count : Nat) : String :=
  "".pushn ' ' count

/-- Fill up a text with spaces at its end. -/
def padTo (width : Nat) (text : String) : String :=
  text ++ spaces (width - text.length)

/-- The width of the widest line. -/
def widest (lines : List String) : Nat :=
  (lines.map String.length).foldl max 0

/-- Make all lines equally wide. -/
def justify (lines : List String) : List String :=
  lines.map (padTo (widest lines))

/-- A text as a block: tabs become spaces and all lines are equally wide. -/
def block (text : String) : String :=
  "\n".intercalate (justify (linesOf ((text.replace "\t" (spaces 4)).replace "\r\n" "\n")))

/-- Lines in a box with round corners. -/
def boxed (lines : List String) : String :=
  let inner := justify (lines.map fun line => " " ++ line ++ " ")
  let rule := "".pushn '─' (widest inner)
  "\n".intercalate
    (["╭" ++ rule ++ "╮"] ++ inner.map (fun line => "│" ++ line ++ "│") ++ ["╰" ++ rule ++ "╯"])

/-! ### Parts of the view -/

/-- A character as many times as a number says. -/
def repeated (c : Char) (count : Int) : Except Crash String :=
  if count < 0 then .error .negativeCount else .ok ("".pushn c count.toNat)

/-- The line below the header, with a margin at both sides. -/
def rule (width : Nat) : Except Crash String :=
  repeated '─' (min ((width : Int) - 2) 60)

/-- The lines of one entry. -/
def entryLines (entry : Entry) : List String :=
  let written := entry.stdout.toList
  let printed := if written.getLast? = some '\n' then written.dropLast else written
  (if entry.input.isEmpty then [] else ["  › " ++ entry.input]) ++
    (if entry.stdout.isEmpty then []
      else (linesOf (String.ofList printed)).map ("    " ++ ·)) ++
    ["  " ++ block ((if entry.isError then "✗ " else "→ ") ++ entry.output), ""]

/-- The names of the instance variables of the toplevel object. -/
def ivarNames (prompt : Prompt) : List String :=
  (prompt.interp.world.object .main).ivars.names

/-- The variables of the toplevel code with their values. -/
def bindings (prompt : Prompt) : List (String × String) :=
  let world := prompt.interp.world
  let locals := prompt.interp.current.locals
  prompt.localNames.map (fun name => (name, world.inspect? (locals.get? name))) ++
    prompt.ivarNames.map (fun name => (name, world.inspect (world.getIvar .main name)))

/-- The panel with the variables. -/
def varsPanel (prompt : Prompt) : String :=
  match prompt.bindings with
  | [] => boxed ["No variables defined"]
  | bindings => boxed ("Variables" :: bindings.map fun (name, value) => s!"  {name} = {value}")

/-- What the help panel explains. -/
def helpTopics : List (String × String) :=
  [("↑/↓", "Navigate command history"), ("Tab", "Autocomplete"), ("Enter", "Execute expression"),
    (":help", "Toggle this help"), (":vars", "Toggle variables panel"),
    (":stack", "Dump classes and bindings"), (":clear", "Clear history"),
    (":reset", "Reset interpreter"), (":quit", "Exit REPL")]

/-- The panel with the help. -/
def helpPanel : String :=
  boxed ("Help" :: helpTopics.map fun (key, meaning) => "  " ++ padTo 8 key ++ "  " ++ meaning)

/-- What stands in place of an empty line. -/
def placeholder : String := "type an expression..."

/-- The text of the line being edited, in a field of some width. A width that is not positive asks
for no field. -/
def inputText (input : TextInput) (width : Int) : String :=
  let field := width.toNat
  if input.value.isEmpty then
    if field = 0 then placeholder
    else padTo (field + 1) (String.ofList (placeholder.toList.take (field + 1)))
  else
    let atEnd := input.value.length ≤ input.cursor
    let filling :=
      if field = 0 ∨ field < input.value.length then 0
      else field - input.value.length + (if atEnd then 0 else 1)
    String.ofList input.value ++ (if atEnd then " " else "") ++ spaces filling

/-- The keys that are always shown. -/
def footer : String :=
  "ctrl+k help  ctrl+v vars  ctrl+l clear  ctrl+c quit"

/-- How many lines are taken by other things than entries. -/
def reservedLines (prompt : Prompt) : Nat :=
  8 + (if prompt.showHelp then 11 else 0) +
    (if prompt.showVars then prompt.localNames.length + prompt.ivarNames.length + 3 else 0)

/-- The place of the first entry that is shown, if each entry had one line. There may be fewer lines
than are taken by other things. -/
def firstShown (prompt : Prompt) (window : Window) : Int :=
  let free : Int := window.height - prompt.reservedLines
  if free < prompt.history.length then prompt.history.length - free else 0

/-- The entry at a place. -/
def entryAt (entries : List Entry) (place : Int) : Except Crash Entry :=
  if place < 0 then .error (.outOfRange place entries.length)
  else match entries[place.toNat]? with
    | some entry => .ok entry
    | none => .error (.outOfRange place entries.length)

/-- The entries from a place on, one after the other. -/
def entriesFrom (entries : List Entry) (start : Int) : Except Crash (List Entry) :=
  (List.range (entries.length - start).toNat).mapM fun (offset : Nat) =>
    entryAt entries (start + offset)

/-- The lines of the view below the rule, with some of the entries. -/
def bodyLines (prompt : Prompt) (window : Window) (entries : List Entry) : List String :=
  entries.flatMap entryLines ++
    (if prompt.showVars then [prompt.varsPanel] else []) ++
    (if prompt.showHelp then [helpPanel] else []) ++
    ["bci> " ++ inputText prompt.input ((window.width : Int) - 10), "", footer]

/-- What is shown. -/
def view (prompt : Prompt) : Except Crash String :=
  match prompt.window with
  | none => .ok "Loading..."
  | some window =>
    if prompt.quitting then .ok (block "Goodbye!\n")
    else do
      let rule ← rule window.width
      let entries ← entriesFrom prompt.history (prompt.firstShown window)
      return "\n".intercalate
        ([" bci REPL  v0.1.0", rule, ""] ++ prompt.bodyLines window entries)

/-! ### Sessions -/

/-- What a prompt is asked for. -/
inductive Request where
  /-- To take a message. -/
  | message (message : Message)
  /-- To draw the view. -/
  | view
deriving DecidableEq, Repr

/-- What comes of a request. -/
structure Reply where
  prompt : Prompt
  signal : Signal := .stay
  /-- The view, if it was asked for. -/
  shown : Option String := none

/-- Do what is asked for. -/
def serve (prompt : Prompt) : Request → Except Crash Reply
  | .message message =>
    let (prompt, signal) := prompt.update message
    .ok { prompt, signal }
  | .view => do
    let text ← prompt.view
    return { prompt, shown := some text }

/-- The replies to some requests. After a crash there are none. -/
def session (prompt : Prompt) : List Request → Except Crash (List Reply)
  | [] => .ok []
  | request :: rest => do
    let reply ← prompt.serve request
    return reply :: (← session reply.prompt rest)

end Garnet.Prompt
