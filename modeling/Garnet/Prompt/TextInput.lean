import Garnet.Text.Blank
import Garnet.Text.Utf8

/-! # The line being edited

The prompt edits one line of limited length. A cursor stands between its characters; line ends and
tabs become spaces, and other controls never get in.
-/

namespace Garnet.Prompt

/-- A line with a cursor. -/
structure TextInput where
  value : List Char := []
  /-- How many characters stand before the cursor. -/
  cursor : Nat := 0
deriving DecidableEq, Repr

namespace TextInput

/-- The largest number of characters. -/
def limit : Nat := 500

/-- Control characters. -/
def isControl (c : Char) : Bool :=
  c.toNat < 0x20 || (0x7F ≤ c.toNat && c.toNat ≤ 0x9F)

/-- What a character from outside becomes, if it may get in. -/
def accept? (c : Char) : Option Char :=
  if c = '\t' ∨ c = '\r' ∨ c = '\n' then some ' '
  else if c = Text.replacement ∨ isControl c then none
  else some c

/-- The part of a text that may get in. -/
def clean (text : List Char) : List Char :=
  text.filterMap accept?

/-- The characters before the cursor. -/
def before (input : TextInput) : List Char :=
  input.value.take input.cursor

/-- The characters behind the cursor. -/
def behind (input : TextInput) : List Char :=
  input.value.drop input.cursor

/-- A line with these characters before and behind its cursor. -/
def around (before behind : List Char) : TextInput where
  value := before ++ behind
  cursor := before.length

/-- Move the cursor to the end. -/
def toEnd (input : TextInput) : TextInput :=
  { input with cursor := input.value.length }

/-- Replace the line. The cursor stays where it is, unless the new line is too short for that or the
old line was empty. -/
def setValue (input : TextInput) (text : List Char) : TextInput :=
  let next : TextInput := { value := (clean text).take limit, cursor := input.cursor }
  if (input.cursor = 0 ∧ input.value = []) ∨ next.value.length < input.cursor then next.toEnd
  else next

/-- Put in a text at the cursor, as much of it as there is room for. -/
def insert (input : TextInput) (text : List Char) : TextInput :=
  around (input.before ++ (clean text).take (limit - input.value.length)) input.behind

/-- A change to a line, or a move in it. -/
inductive Edit where
  | deleteLeft
  | deleteRight
  | deleteToStart
  | deleteWordLeft
  | deleteWordRight
  | left
  | right
  | wordLeft
  | wordRight
  | start
  | stop
deriving DecidableEq, Repr

/-- How many characters lie between the cursor and the far side of the next word. -/
def wordSpan (text : List Char) : Nat :=
  let blanks := text.takeWhile Text.isBlank
  blanks.length + ((text.drop blanks.length).takeWhile (!Text.isBlank ·)).length

/-- Move the cursor by a distance to the left. -/
def back (input : TextInput) (distance : Nat) : TextInput :=
  { input with cursor := input.cursor - distance }

/-- Move the cursor by a distance to the right. -/
def forth (input : TextInput) (distance : Nat) : TextInput :=
  { input with cursor := min (input.cursor + distance) input.value.length }

/-- Delete the word to the left. A single blank that would be left at the start goes too. -/
def dropWordLeft (input : TextInput) : TextInput :=
  let kept := input.cursor - wordSpan input.before.reverse
  around (input.before.take (if kept ≤ 1 then 0 else kept)) input.behind

/-- Delete the character to the right and the word behind it. -/
def dropWordRight (input : TextInput) : TextInput :=
  around input.before ((input.behind.drop 1).drop (wordSpan (input.behind.drop 1)))

/-- Edit a line. -/
def edit (input : TextInput) : Edit → TextInput
  | .deleteLeft => around input.before.dropLast input.behind
  | .deleteRight => around input.before (input.behind.drop 1)
  | .deleteToStart => around [] input.behind
  | .deleteWordLeft => input.dropWordLeft
  | .deleteWordRight => input.dropWordRight
  | .left => input.back 1
  | .right => input.forth 1
  | .wordLeft => input.back (wordSpan input.before.reverse)
  | .wordRight => input.forth (wordSpan input.behind)
  | .start => { input with cursor := 0 }
  | .stop => input.toEnd

theorem length_setValue_le (input : TextInput) (text : List Char) :
    (input.setValue text).value.length ≤ limit := by
  simp only [setValue]
  split <;> simp only [toEnd, List.length_take] <;> exact Nat.min_le_left ..

end TextInput

end Garnet.Prompt
