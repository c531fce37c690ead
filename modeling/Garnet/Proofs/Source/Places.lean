import Garnet.Proofs.Token.Pieces
import Garnet.Source.CodeFrame

/-! # Places and lines of a text

The place of a character is found by counting the line ends in front of it and the characters since
the last of them. A code frame counts again, by cutting the text into lines; for a place that was
found in the text it shows the line around this place, with the column as it is.
-/

namespace Garnet

/-- What stands behind the last line end of a text. -/
def Text.lastLine : List Char → List Char
  | [] => []
  | c :: rest => if '\n' ∈ c :: rest then lastLine rest else c :: rest

namespace Text

theorem lastLine_of_not_mem {text : List Char} (h : '\n' ∉ text) : lastLine text = text := by
  cases text with
  | nil => rfl
  | cons c rest => rw [lastLine, if_neg h]

/-- The first line of a text. -/
theorem head?_lines (text : List Char) :
    (lines text).head? = some (text.takeWhile (· != '\n')) := by
  induction text with
  | nil => rfl
  | cons c rest ih =>
    obtain ⟨line, more, hlines⟩ := List.exists_cons_of_ne_nil (lines_ne_nil rest)
    rw [hlines] at ih
    have hline : line = rest.takeWhile (· != '\n') := Option.some.inj ih
    rw [lines, hlines]
    by_cases hc : c = '\n'
    · simp [hc]
    · simp [hc, hline]

/-- The line around a place has a part before the place and a part behind it. -/
theorem getElem?_lines_append (before behind : List Char) :
    (lines (before ++ behind))[before.count '\n']? =
      some (lastLine before ++ behind.takeWhile (· != '\n')) := by
  induction before with
  | nil =>
    rw [List.count_nil, ← List.head?_eq_getElem?]
    exact head?_lines behind
  | cons c rest ih =>
    obtain ⟨line, more, hlines⟩ := List.exists_cons_of_ne_nil (lines_ne_nil (rest ++ behind))
    rw [List.cons_append, lines, List.count_cons, lastLine]
    by_cases hc : c = '\n'
    · rw [if_pos hc, if_pos (beq_iff_eq.2 hc), if_pos (by simp [hc]), List.getElem?_cons_succ, ih]
    · rw [if_neg hc, if_neg (by simpa using hc), hlines]
      rw [hlines] at ih
      by_cases hrest : '\n' ∈ rest
      · -- The place lies on a later line, which the first character does not belong to.
        obtain ⟨count, hcount⟩ := Nat.exists_eq_succ_of_ne_zero
          (Nat.ne_of_gt (List.count_pos_iff.2 hrest))
        rw [hcount] at ih ⊢
        rw [if_pos (List.mem_cons_of_mem _ hrest)]
        exact ih
      · have hmem : '\n' ∉ c :: rest := by
          simp only [List.mem_cons, not_or]
          exact ⟨Ne.symm hc, hrest⟩
        rw [List.count_eq_zero.2 hrest] at ih ⊢
        rw [lastLine_of_not_mem hrest] at ih
        rw [if_neg hmem]
        exact congrArg (Option.map (c :: ·)) ih

end Text

namespace Pos

/-- The place behind a text, counted in the text. -/
def behind (text : List Char) : Pos where
  line := 1 + text.count '\n'
  column := 1 + (Text.lastLine text).length

theorem column_after (pos : Pos) (text : List Char) :
    (pos.after text).column =
      if '\n' ∈ text then 1 + ((Text.lastLine text).length : Int)
      else pos.column + text.length := by
  induction text generalizing pos with
  | nil => simp
  | cons c rest ih =>
    rw [after_cons, ih, Text.lastLine]
    by_cases hrest : '\n' ∈ rest
    · simp [hrest]
    · rw [if_neg hrest, next]
      by_cases hc : c = '\n'
      · simp [hc, Text.lastLine_of_not_mem hrest]
      · simp only [if_neg hc, List.mem_cons, Ne.symm hc, hrest, or_self, if_false,
          List.length_cons, Int.natCast_add, Int.natCast_one]
        omega

theorem eq_nil_of_after_eq {pos : Pos} {text : List Char} (h : pos.after text = pos) :
    text = [] := by
  have hline := congrArg Pos.line h
  have hcolumn := congrArg Pos.column h
  rw [line_after] at hline
  have hnone : '\n' ∉ text := List.count_eq_zero.1 (by omega)
  rw [column_after, if_neg hnone] at hcolumn
  exact List.length_eq_zero_iff.1 (by omega)

/-- No two places in a text are the same. -/
theorem eq_of_after_eq {pos : Pos} {front front' text : List Char} (hfront : front <+: text)
    (hfront' : front' <+: text) (h : pos.after front = pos.after front') : front = front' := by
  rcases List.prefix_or_prefix_of_prefix hfront hfront' with ⟨more, rfl⟩ | ⟨more, rfl⟩
  · rw [after_append] at h
    rw [eq_nil_of_after_eq h.symm, List.append_nil]
  · rw [after_append] at h
    rw [eq_nil_of_after_eq h, List.append_nil]

/-- Going through a text from its start comes to the place that is counted. -/
theorem after_start (text : List Char) : start.after text = behind text := by
  have hline : (start.after text).line = 1 + text.count '\n' := line_after start text
  have hcolumn : (start.after text).column = 1 + ((Text.lastLine text).length : Int) := by
    rw [column_after]
    split
    next => rfl
    next hnone => rw [Text.lastLine_of_not_mem hnone, start]
  calc start.after text = ⟨(start.after text).line, (start.after text).column⟩ := rfl
    _ = behind text := by rw [hline, hcolumn, behind]

theorem behind_append (before text : List Char) :
    (behind before).after text = behind (before ++ text) := by
  rw [← after_start, ← after_start, after_append]

end Pos

/-- The text of a code frame: a place, a line, and a caret below the column of the place. -/
def frameText (pos : Pos) (line : List Char) : String :=
  let label := toString pos.line
  let gutter := String.ofList (List.replicate label.length ' ')
  let blank := String.ofList (List.replicate (pos.column - 1).toNat ' ')
  s!"  --> line {label}, column {pos.column}\n {label} | {String.ofList line}\n {gutter} | {blank}^"

/-- The code frame of a place in a text. The column lies in the line or just behind it, so it is not
moved. -/
theorem codeFrame_behind {source : String} (hne : source ≠ "") {before after : List Char}
    (hsource : source.toList = before ++ after) :
    codeFrame source (.behind before) = some (frameText (.behind before)
      (Text.lastLine before ++ after.takeWhile (· != '\n'))) := by
  have hline : (Pos.behind before).lineOf? source =
      some (Text.lastLine before ++ after.takeWhile (· != '\n')) := by
    have hindex : (1 + (before.count '\n' : Int)).toNat - 1 = before.count '\n' := by omega
    unfold Pos.lineOf? Pos.behind
    dsimp only
    rw [if_neg (by simp [hne]; omega), hsource, hindex, Text.getElem?_lines_append]
  have hcolumn : (Pos.behind before).clampedColumn
      (Text.lastLine before ++ after.takeWhile (· != '\n')).length =
        1 + (Text.lastLine before).length := by
    unfold Pos.clampedColumn Pos.behind
    rw [List.length_append]
    dsimp only
    omega
  have hindent : ((Pos.behind before).column - 1).toNat =
      1 + (Text.lastLine before).length - 1 := by
    unfold Pos.behind
    dsimp only
    omega
  unfold codeFrame frameText
  rw [hline, Option.map_some]
  dsimp only
  rw [hcolumn, hindent]
  rfl

end Garnet
