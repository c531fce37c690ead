import Garnet.Source.Pos
import Garnet.Text.Lines

/-! # Code frames

A code frame shows one line of a source text with a caret under one of its columns. It belongs to
an error message, so a place outside the text has no frame, while a column outside its line is
moved to the nearest end of the line.
-/

namespace Garnet

/-- The column that a frame marks in a line of the given length: one past the end at most. -/
def Pos.clampedColumn (pos : Pos) (lineLength : Nat) : Nat :=
  min (max pos.column 1).toNat (lineLength + 1)

/-- The line of a text that a position names. -/
def Pos.lineOf? (pos : Pos) (source : String) : Option (List Char) :=
  if source.isEmpty ∨ pos.line ≤ 0 then none
  else (Text.lines source.toList)[pos.line.toNat - 1]?

/-- The source line at a position with a caret under the column. -/
def codeFrame (source : String) (pos : Pos) : Option String :=
  (pos.lineOf? source).map fun line =>
    let column := pos.clampedColumn line.length
    let label := toString pos.line
    let gutter := String.ofList (List.replicate label.length ' ')
    let indent := String.ofList (List.replicate (column - 1) ' ')
    s!"  --> line {label}, column {column}\n {label} | {String.ofList line}\n {gutter} | {indent}^"

/-- There is a frame exactly when the text has the line. -/
theorem codeFrame_isSome_iff (source : String) (pos : Pos) :
    (codeFrame source pos).isSome ↔
      source ≠ "" ∧ 0 < pos.line ∧ pos.line ≤ (Text.lines source.toList).length := by
  simp only [codeFrame, Option.isSome_map, Pos.lineOf?]
  have hempty : source.isEmpty = true ↔ source = "" := String.isEmpty_iff
  split
  next h =>
    simp only [Option.isSome_none, Bool.false_eq_true, false_iff, not_and]
    intro hne hpos
    rcases h with h | h
    · exact absurd (hempty.1 h) hne
    · omega
  next h =>
    simp only [not_or] at h
    rw [hempty] at h
    rw [isSome_getElem?]
    constructor
    · intro hlt
      exact ⟨h.1, by omega, by omega⟩
    · intro ⟨_, _, hle⟩
      omega

end Garnet
