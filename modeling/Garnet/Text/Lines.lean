/-! # Lines of a text

Texts are cut at line feeds. A text always has at least one line, and joining its lines with line
feeds gives it back.
-/

namespace Garnet.Text

/-- The lines of a text, without their line feeds. -/
def lines : List Char → List (List Char)
  | [] => [[]]
  | c :: rest =>
    if c = '\n' then [] :: lines rest
    else match lines rest with
      | [] => [[c]]
      | line :: more => (c :: line) :: more

/-- Put line feeds between lines. -/
def unlines : List (List Char) → List Char
  | [] => []
  | [line] => line
  | line :: more => line ++ '\n' :: unlines more

theorem lines_ne_nil (text : List Char) : lines text ≠ [] := by
  cases text with
  | nil => simp [lines]
  | cons c rest =>
    rw [lines]
    split
    · simp
    · split <;> simp

theorem unlines_cons_cons (c : Char) (line : List Char) (more : List (List Char)) :
    unlines ((c :: line) :: more) = c :: unlines (line :: more) := by
  cases more <;> simp [unlines]

/-- No character is lost by cutting a text into lines. -/
theorem unlines_lines (text : List Char) : unlines (lines text) = text := by
  induction text with
  | nil => rfl
  | cons c rest ih =>
    rw [lines]
    split
    next hc =>
      obtain ⟨line, more, hlines⟩ := List.exists_cons_of_ne_nil (lines_ne_nil rest)
      rw [hlines] at ih ⊢
      simp [unlines, hc, ih]
    next hc =>
      split
      next hlines => exact absurd hlines (lines_ne_nil rest)
      next line more hlines => rw [unlines_cons_cons, ← hlines, ih]

/-- A line holds no line feed. -/
theorem newline_not_mem_of_mem_lines {text line : List Char} (h : line ∈ lines text) :
    '\n' ∉ line := by
  induction text generalizing line with
  | nil => simp_all [lines]
  | cons c rest ih =>
    rw [lines] at h
    split at h
    next hc =>
      rcases List.mem_cons.1 h with rfl | h
      · simp
      · exact ih h
    next hc =>
      split at h
      next hlines => exact absurd hlines (lines_ne_nil rest)
      next first more hlines =>
        rcases List.mem_cons.1 h with rfl | h
        · simp only [List.mem_cons, not_or]
          exact ⟨fun e => hc e.symm, ih (by rw [hlines]; simp)⟩
        · exact ih (by rw [hlines]; simp [h])

end Garnet.Text
