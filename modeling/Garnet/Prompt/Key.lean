import Garnet.Prompt.TextInput

/-! # Keys of the prompt

Keys are named for what they do. A text that is typed at once and spells the name of a key counts as
that key.
-/

namespace Garnet.Prompt

/-- A key. -/
inductive Key where
  /-- Enter the line. -/
  | enter
  /-- Show the line that was entered before. -/
  | older
  /-- Show the line that was entered after. -/
  | newer
  /-- Complete the last word. -/
  | complete
  /-- Forget what is shown. -/
  | clear
  | toggleVars
  | toggleHelp
  | quit
  | edit (change : TextInput.Edit)
  /-- Show another suggestion, of which there are none. -/
  | suggest
deriving DecidableEq, Repr

/-- The keys by the names that a terminal has for them. -/
def Key.names : List (String × Key) :=
  [("enter", .enter), ("up", .older), ("down", .newer), ("tab", .complete), ("ctrl+l", .clear),
    ("ctrl+v", .toggleVars), ("ctrl+k", .toggleHelp), ("ctrl+c", .quit), ("ctrl+d", .quit),
    ("backspace", .edit .deleteLeft), ("ctrl+h", .edit .deleteLeft),
    ("delete", .edit .deleteRight), ("ctrl+u", .edit .deleteToStart),
    ("ctrl+w", .edit .deleteWordLeft), ("alt+backspace", .edit .deleteWordLeft),
    ("alt+d", .edit .deleteWordRight), ("alt+delete", .edit .deleteWordRight),
    ("left", .edit .left), ("ctrl+b", .edit .left), ("right", .edit .right),
    ("ctrl+f", .edit .right), ("alt+b", .edit .wordLeft), ("alt+left", .edit .wordLeft),
    ("ctrl+left", .edit .wordLeft), ("alt+f", .edit .wordRight),
    ("alt+right", .edit .wordRight), ("ctrl+right", .edit .wordRight),
    ("home", .edit .start), ("ctrl+a", .edit .start), ("end", .edit .stop),
    ("ctrl+e", .edit .stop), ("ctrl+n", .suggest), ("ctrl+p", .suggest)]

/-- The key with a name. -/
def Key.ofName? (name : String) : Option Key :=
  Key.names.lookup name

/-- What can reach the prompt from outside. -/
inductive Message where
  | key (key : Key)
  | typed (text : String)
  | resize (width height : Nat)
deriving DecidableEq, Repr

end Garnet.Prompt
