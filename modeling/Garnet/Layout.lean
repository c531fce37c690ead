import Garnet.Text.Lines
import Garnet.Text.Trim

/-! # Layout of source files

Formatting changes blanks only: line ends become line feeds, leading tabs become two spaces each,
blanks at line ends and repeated empty lines go, and the file ends with exactly one line feed. It
works on lines and knows nothing of tokens.
-/

namespace Garnet.Layout

/-- Make every line end a line feed: a carriage return with a line feed after it, or alone. -/
def unifyNewlines : List Char → List Char
  | [] => []
  | '\r' :: '\n' :: rest => '\n' :: unifyNewlines rest
  | '\r' :: rest => '\n' :: unifyNewlines rest
  | c :: rest => c :: unifyNewlines rest

/-- Blanks within a line. -/
def isLineBlank (c : Char) : Bool :=
  c == ' ' || c == '\t'

/-- Write each tab at the start of a line as two spaces. -/
def expandTabs : List Char → List Char
  | '\t' :: rest => ' ' :: ' ' :: expandTabs rest
  | line => line

/-- Lay out one line. -/
def tidyLine (line : List Char) : List Char :=
  expandTabs (Text.trimEnd isLineBlank line)

/-- Keep the first of each run of empty lines; `afterEmpty` says whether one was just kept. -/
def collapseEmpty (afterEmpty : Bool) : List (List Char) → List (List Char)
  | [] => []
  | line :: rest =>
    if line.isEmpty then
      if afterEmpty then collapseEmpty true rest else line :: collapseEmpty true rest
    else line :: collapseEmpty false rest

/-- Drop line feeds at both ends and put one at the end. -/
def closeText (text : List Char) : List Char :=
  Text.trim (· == '\n') text ++ ['\n']

/-- The laid out form of a text. -/
def formatChars (source : List Char) : List Char :=
  let tidied := (Text.lines (unifyNewlines source)).map tidyLine
  closeText (Text.unlines (collapseEmpty false tidied))

/-- The laid out form of a source text. -/
def format (source : String) : String :=
  String.ofList (formatChars source.toList)

/-- The laid out form of a file. Blanks and line ends are single bytes and no others count, so bytes
that spell no text stay as they are. -/
def formatBytes (content : List UInt8) : List UInt8 :=
  (formatChars (content.map fun byte => Char.ofNat byte.toNat)).map fun c => UInt8.ofNat c.toNat

end Garnet.Layout
