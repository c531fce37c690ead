import Garnet.Proofs.Layout.Pieces
import Mathlib.Data.List.Chain

/-! # The normal form of a layout

Whether a text is laid out can be seen from its characters and lines. Every text gets this form when
it is formatted, only blanks and line ends change on the way, and a text that has the form already
is left as it is.
-/

namespace Garnet

namespace Text

/-- A line end cuts a text into the lines in front of it and those behind it. -/
theorem lines_append_newline (front back : List Char) :
    lines (front ++ '\n' :: back) = lines front ++ lines back := by
  induction front with
  | nil => rfl
  | cons c rest ih =>
    rw [List.cons_append, lines, lines, ih]
    split
    next => rfl
    next =>
      obtain ⟨line, more, hlines⟩ := List.exists_cons_of_ne_nil (lines_ne_nil rest)
      rw [hlines]
      rfl

theorem lines_of_newline_not_mem {line : List Char} (h : '\n' ∉ line) : lines line = [line] := by
  induction line with
  | nil => rfl
  | cons c rest ih =>
    obtain ⟨hc, hrest⟩ := not_or.1 (List.mem_cons.not.1 h)
    rw [lines, if_neg (Ne.symm hc), ih hrest]

theorem unlines_cons (line : List Char) {more : List (List Char)} (h : more ≠ []) :
    unlines (line :: more) = line ++ '\n' :: unlines more := by
  cases more with
  | nil => exact absurd rfl h
  | cons second rest => rfl

/-- Lines that have been joined are found again. -/
theorem lines_unlines {found : List (List Char)} (hne : found ≠ [])
    (h : ∀ line ∈ found, '\n' ∉ line) : lines (unlines found) = found := by
  induction found with
  | nil => exact absurd rfl hne
  | cons line rest ih =>
    obtain ⟨hline, hrest⟩ := List.forall_mem_cons.1 h
    by_cases hmore : rest = []
    · rw [hmore]
      exact lines_of_newline_not_mem hline
    · rw [unlines_cons line hmore, lines_append_newline, lines_of_newline_not_mem hline,
        ih hmore hrest]
      rfl

/-- Joining lines adds line ends only. -/
theorem mem_unlines {found : List (List Char)} {c : Char} (h : c ∈ unlines found) :
    c = '\n' ∨ ∃ line ∈ found, c ∈ line := by
  induction found with
  | nil => exact absurd h List.not_mem_nil
  | cons line rest ih =>
    by_cases hmore : rest = []
    · rw [hmore] at h
      exact .inr ⟨line, List.mem_cons_self, h⟩
    · rw [unlines_cons line hmore, List.mem_append, List.mem_cons] at h
      rcases h with hline | rfl | hrest
      · exact .inr ⟨line, List.mem_cons_self, hline⟩
      · exact .inl rfl
      · refine (ih hrest).imp_right ?_
        rintro ⟨other, hother, hc⟩
        exact ⟨other, List.mem_cons_of_mem _ hother, hc⟩

theorem mem_unlines_of_mem {found : List (List Char)} {line : List Char} {c : Char}
    (hline : line ∈ found) (hc : c ∈ line) : c ∈ unlines found := by
  induction found with
  | nil => exact absurd hline List.not_mem_nil
  | cons first rest ih =>
    by_cases hmore : rest = []
    · rw [hmore] at hline ⊢
      rw [List.mem_singleton.1 hline] at hc
      exact hc
    · rw [unlines_cons first hmore, List.mem_append, List.mem_cons]
      rcases List.mem_cons.1 hline with rfl | hrest
      · exact .inl hc
      · exact .inr (.inr (ih hrest))

/-- An empty last line is a line end behind the others. -/
theorem unlines_append_empty {found : List (List Char)} (h : found ≠ []) :
    unlines (found ++ [[]]) = unlines found ++ ['\n'] := by
  induction found with
  | nil => exact absurd rfl h
  | cons line rest ih =>
    by_cases hmore : rest = []
    · rw [hmore]
      rfl
    · rw [List.cons_append, unlines_cons line (by simp), unlines_cons line hmore, ih hmore,
        List.append_assoc, List.cons_append]

/-- The last line of a text that does not end with a line end is not empty. -/
theorem ne_nil_of_getLast?_lines {text line : List Char} (hne : text ≠ [])
    (hend : text.getLast? ≠ some '\n') (hline : (lines text).getLast? = some line) :
    line ≠ [] := by
  rintro rfl
  obtain ⟨front, hfront⟩ := List.getLast?_eq_some_iff.1 hline
  have htext := unlines_lines text
  rw [hfront] at htext
  by_cases hnil : front = []
  · rw [hnil] at htext
    exact hne htext.symm
  · rw [unlines_append_empty hnil] at htext
    rw [← htext] at hend
    exact hend List.getLast?_concat

theorem getLast?_trimEnd (p : Char → Bool) (text : List Char) :
    ∀ c ∈ (trimEnd p text).getLast?, p c = false := by
  intro c hc
  rw [trimEnd, List.getLast?_reverse] at hc
  have hhead := List.head?_dropWhile_not p text.reverse
  rw [hc] at hhead
  exact hhead

theorem trimEnd_eq_self {p : Char → Bool} {text : List Char}
    (h : ∀ c ∈ text.getLast?, p c = false) : trimEnd p text = text := by
  rcases List.eq_nil_or_concat text with rfl | ⟨front, c, rfl⟩
  · rfl
  · rw [List.concat_eq_append] at h ⊢
    rw [trimEnd_append_singleton, h c List.getLast?_concat]
    rfl

theorem head?_trim (p : Char → Bool) (text : List Char) :
    ∀ c ∈ (trim p text).head?, p c = false := by
  intro c hc
  obtain ⟨rest, hrest⟩ := List.head?_eq_some_iff.1 hc
  obtain ⟨blanks, heq, -⟩ := exists_eq_trimEnd_append p (text.dropWhile p)
  have hhead := List.head?_dropWhile_not p text
  rw [trim] at hrest
  rw [heq, hrest] at hhead
  exact hhead

/-- Dropping line ends at the ends of a text drops lines at its ends. -/
theorem isInfix_lines_trim (text : List Char) : lines (trim (· == '\n') text) <:+: lines text := by
  have hfront : lines (text.dropWhile (· == '\n')) <:+ lines text := by
    induction text with
    | nil => exact List.suffix_refl _
    | cons c rest ih =>
      rw [List.dropWhile_cons]
      split
      next hc =>
        rw [lines, if_pos (beq_iff_eq.1 hc)]
        exact ih.trans (List.suffix_cons _ _)
      next => exact List.suffix_refl _
  obtain ⟨ends, heq, hends⟩ := exists_eq_trimEnd_append (· == '\n') (text.dropWhile (· == '\n'))
  have hback : lines (trim (· == '\n') text) <+: lines (text.dropWhile (· == '\n')) := by
    cases ends with
    | nil =>
      rw [List.append_nil] at heq
      rw [trim, ← heq]
    | cons c more =>
      rw [heq, beq_iff_eq.1 (hends c List.mem_cons_self), lines_append_newline]
      exact List.prefix_append _ _
  exact hback.isInfix.trans hfront.isInfix

end Text

namespace Layout

open Token

/-- Of two lines in a row, one is not empty. -/
def NoRun (lines : List (List Char)) : Prop :=
  lines.IsChain fun line next => line ≠ [] ∨ next ≠ []

instance (lines : List (List Char)) : Decidable (NoRun lines) :=
  inferInstanceAs (Decidable (List.IsChain _ lines))

/-- A text in normal form: no carriage returns, no blanks at line ends, no tabs at the start of
lines, no two empty lines in a row, and exactly one line feed at the end. Only the text of a single
line feed begins with one. -/
structure IsNormal (text : List Char) : Prop where
  noReturn : '\r' ∉ text
  noTrailing : ∀ line ∈ Text.lines text, ∀ c ∈ line.getLast?, isLineBlank c = false
  noTab : ∀ line ∈ Text.lines text, line.head? ≠ some '\t'
  /-- What stands behind the last line feed is not a line. -/
  noRun : NoRun (Text.lines text).dropLast
  ends : text.getLast? = some '\n'
  endsOnce : text.dropLast.getLast? ≠ some '\n'
  start : text = ['\n'] ∨ text.head? ≠ some '\n'

theorem isNormal_iff (text : List Char) : IsNormal text ↔
    '\r' ∉ text ∧ (∀ line ∈ Text.lines text, ∀ c ∈ line.getLast?, isLineBlank c = false) ∧
      (∀ line ∈ Text.lines text, line.head? ≠ some '\t') ∧
      NoRun (Text.lines text).dropLast ∧ text.getLast? = some '\n' ∧
      text.dropLast.getLast? ≠ some '\n' ∧ (text = ['\n'] ∨ text.head? ≠ some '\n') :=
  ⟨fun ⟨h₁, h₂, h₃, h₄, h₅, h₆, h₇⟩ => ⟨h₁, h₂, h₃, h₄, h₅, h₆, h₇⟩,
    fun ⟨h₁, h₂, h₃, h₄, h₅, h₆, h₇⟩ => ⟨h₁, h₂, h₃, h₄, h₅, h₆, h₇⟩⟩

instance (text : List Char) : Decidable (IsNormal text) :=
  -- Looking at the last character only, not at all characters that there are.
  have (line : List Char) : Decidable (∀ c ∈ line.getLast?, isLineBlank c = false) :=
    Option.decidableForallMem line.getLast?
  decidable_of_iff _ (isNormal_iff text).symm

/-! ### Line ends -/

theorem unifyNewlines_eq_self {text : List Char} (h : '\r' ∉ text) : unifyNewlines text = text := by
  fun_induction unifyNewlines text with
  | case1 => rfl
  | case2 rest ih => exact absurd List.mem_cons_self h
  | case3 rest _ ih => exact absurd List.mem_cons_self h
  | case4 c rest _ _ ih => rw [ih fun hmem => h (List.mem_cons_of_mem _ hmem)]

theorem mem_unifyNewlines {text : List Char} {c : Char} (h : c ∈ unifyNewlines text) :
    c = '\n' ∨ c ∈ text ∧ c ≠ '\r' := by
  fun_induction unifyNewlines text with
  | case1 => exact absurd h List.not_mem_nil
  | case2 rest ih =>
    rcases List.mem_cons.1 h with rfl | h
    · exact .inl rfl
    · exact (ih h).imp_right fun hc => ⟨by simp [hc.1], hc.2⟩
  | case3 rest _ ih =>
    rcases List.mem_cons.1 h with rfl | h
    · exact .inl rfl
    · exact (ih h).imp_right fun hc => ⟨by simp [hc.1], hc.2⟩
  | case4 d rest hpair hlone ih =>
    rcases List.mem_cons.1 h with rfl | h
    · exact .inr ⟨List.mem_cons_self, hlone⟩
    · exact (ih h).imp_right fun hc => ⟨by simp [hc.1], hc.2⟩

/-! ### Single lines -/

/-- The last character of a line is no tab that is expanded. -/
theorem getLast?_expandTabs {line : List Char}
    (h : ∀ c ∈ line.getLast?, isLineBlank c = false) :
    (expandTabs line).getLast? = line.getLast? := by
  fun_induction expandTabs line with
  | case1 rest ih =>
    have hrest : rest ≠ [] := by
      rintro rfl
      exact absurd (h '\t' rfl) (by decide)
    have hlast := List.getLast?_eq_some_getLast hrest
    rw [List.getLast?_cons, hlast, Option.getD_some] at h
    rw [List.getLast?_cons, List.getLast?_cons, List.getLast?_cons, ih (hlast ▸ h), hlast]
    rfl
  | case2 line _ => rfl

theorem getLast?_tidyLine (line : List Char) :
    ∀ c ∈ (tidyLine line).getLast?, isLineBlank c = false := by
  rw [tidyLine, getLast?_expandTabs (Text.getLast?_trimEnd isLineBlank line)]
  exact Text.getLast?_trimEnd isLineBlank line

theorem head?_tidyLine (line : List Char) : (tidyLine line).head? ≠ some '\t' := by
  rw [tidyLine]
  generalize Text.trimEnd isLineBlank line = trimmed
  fun_cases expandTabs trimmed with
  | case1 rest => simp
  | case2 _ hhead =>
    intro htab
    obtain ⟨rest, hrest⟩ := List.head?_eq_some_iff.1 htab
    exact hhead rest hrest

theorem mem_tidyLine {line : List Char} {c : Char} (h : c ∈ tidyLine line) :
    c = ' ' ∨ c ∈ line := by
  have htabs (text : List Char) (hc : c ∈ expandTabs text) : c = ' ' ∨ c ∈ text := by
    fun_induction expandTabs text with
    | case1 rest ih =>
      simp only [List.mem_cons] at hc ⊢
      rcases hc with rfl | rfl | hc
      · exact .inl rfl
      · exact .inl rfl
      · exact (ih hc).imp_right .inr
    | case2 text _ => exact .inr hc
  obtain ⟨blanks, hline, -⟩ := Text.exists_eq_trimEnd_append isLineBlank line
  refine (htabs _ h).imp_right fun hc => ?_
  rw [hline]
  exact List.mem_append_left _ hc

theorem tidyLine_eq_self {line : List Char} (hlast : ∀ c ∈ line.getLast?, isLineBlank c = false)
    (htab : line.head? ≠ some '\t') : tidyLine line = line := by
  rw [tidyLine, Text.trimEnd_eq_self hlast]
  fun_cases expandTabs line with
  | case1 rest => exact absurd rfl htab
  | case2 => rfl

/-! ### Empty lines -/

/-- Behind a line that was kept, and behind an empty line. -/
theorem noRun_collapseEmpty (lines : List (List Char)) :
    NoRun (collapseEmpty false lines) ∧ NoRun ([] :: collapseEmpty true lines) := by
  induction lines with
  | nil => exact ⟨.nil, .singleton _⟩
  | cons line rest ih =>
    cases line with
    | nil => exact ⟨ih.2, ih.2⟩
    | cons c line =>
      have hline : NoRun ((c :: line) :: collapseEmpty false rest) :=
        List.isChain_cons.2 ⟨fun _ _ => .inl (List.cons_ne_nil c line), ih.1⟩
      exact ⟨hline, List.isChain_cons_cons.2 ⟨.inr (List.cons_ne_nil c line), hline⟩⟩

theorem collapseEmpty_subset (afterEmpty : Bool) (lines : List (List Char)) :
    collapseEmpty afterEmpty lines ⊆ lines := by
  fun_induction collapseEmpty afterEmpty lines with
  | case1 => exact List.Subset.refl _
  | case2 line rest _ ih => exact List.subset_cons_of_subset _ ih
  | case3 afterEmpty line rest _ _ ih => exact List.cons_subset_cons _ ih
  | case4 afterEmpty line rest _ ih => exact List.cons_subset_cons _ ih

theorem collapseEmpty_eq_self {lines : List (List Char)} (h : NoRun lines) :
    collapseEmpty false lines = lines := by
  -- After an empty line the next one is not empty.
  suffices hboth : (NoRun lines → collapseEmpty false lines = lines) ∧
      (NoRun ([] :: lines) → collapseEmpty true lines = lines) from hboth.1 h
  clear h
  induction lines with
  | nil => exact ⟨fun _ => rfl, fun _ => rfl⟩
  | cons line rest ih =>
    cases line with
    | nil =>
      refine ⟨fun h => congrArg ([] :: ·) (ih.2 h), fun h => ?_⟩
      have hfirst := (List.isChain_cons_cons.1 h).1
      simp at hfirst
    | cons c line =>
      have hrest (h : NoRun ((c :: line) :: rest)) : collapseEmpty false rest = rest :=
        ih.1 (List.isChain_cons.1 h).2
      exact ⟨fun h => congrArg ((c :: line) :: ·) (hrest h),
        fun h => congrArg ((c :: line) :: ·) (hrest (List.isChain_cons.1 h).2)⟩

/-! ### Whole texts -/

/-- The lines that are written out, with what is taken off the ends of the text. -/
theorem lines_formatChars (source : List Char) : ∃ body,
    formatChars source = body ++ ['\n'] ∧ body.head? ≠ some '\n' ∧ body.getLast? ≠ some '\n' ∧
      Text.lines body <:+:
        collapseEmpty false ((Text.lines (unifyNewlines source)).map tidyLine) := by
  have hne := Text.lines_ne_nil (unifyNewlines source)
  generalize hkept :
    collapseEmpty false ((Text.lines (unifyNewlines source)).map tidyLine) = kept
  have hkeptNe : kept ≠ [] := hkept ▸ collapseEmpty_ne_nil (by simpa using hne)
  have hlines : Text.lines (Text.unlines kept) = kept := by
    refine Text.lines_unlines hkeptNe fun line hline hnewline => ?_
    obtain ⟨found, hfound, rfl⟩ := List.mem_map.1 (collapseEmpty_subset _ _ (hkept ▸ hline))
    have hmem := (mem_tidyLine hnewline).resolve_left (by decide)
    exact Text.newline_not_mem_of_mem_lines hfound hmem
  refine ⟨Text.trim (· == '\n') (Text.unlines kept), by rw [formatChars, hkept]; rfl, ?_, ?_, ?_⟩
  · exact fun hc => absurd (Text.head?_trim (· == '\n') _ _ hc) (by decide)
  · exact fun hc => absurd (Text.getLast?_trimEnd (· == '\n') _ _ hc) (by decide)
  · have htrimmed := Text.isInfix_lines_trim (Text.unlines kept)
    rwa [hlines] at htrimmed

/-- No other characters get into a text than spaces and line ends, and no carriage returns stay. -/
theorem mem_formatChars {source : List Char} {c : Char} (h : c ∈ formatChars source) :
    c = ' ' ∨ c = '\n' ∨ c ∈ source ∧ c ≠ '\r' := by
  obtain ⟨body, heq, -, -, hkept⟩ := lines_formatChars source
  rw [heq, List.mem_append, List.mem_singleton] at h
  rcases h with hbody | rfl
  · rw [← Text.unlines_lines body] at hbody
    rcases Text.mem_unlines hbody with rfl | ⟨line, hline, hc⟩
    · exact .inr (.inl rfl)
    · obtain ⟨found, hfound, rfl⟩ :=
        List.mem_map.1 (collapseEmpty_subset _ _ (hkept.subset hline))
      refine (mem_tidyLine hc).imp_right fun hmem => mem_unifyNewlines ?_
      rw [← Text.unlines_lines (unifyNewlines source)]
      exact Text.mem_unlines_of_mem hfound hmem
  · exact .inr (.inl rfl)

/-- The lines of a text with one more line end. -/
theorem lines_concat_newline (body : List Char) :
    Text.lines (body ++ ['\n']) = Text.lines body ++ [[]] :=
  Text.lines_append_newline body []

theorem isNormal_formatChars (source : List Char) : IsNormal (formatChars source) := by
  have hreturn : '\r' ∉ formatChars source := fun hmem => by
    simpa using mem_formatChars hmem
  obtain ⟨body, heq, hhead, hlast, hkept⟩ := lines_formatChars source
  rw [heq] at hreturn ⊢
  have hlines := lines_concat_newline body
  -- Each line is a tidy one, or it is the empty one at the end.
  have htidy : ∀ line ∈ Text.lines (body ++ ['\n']), ∃ found, line = tidyLine found := by
    intro line hline
    rw [hlines, List.mem_append, List.mem_singleton] at hline
    rcases hline with hmem | rfl
    · obtain ⟨found, -, hfound⟩ :=
        List.mem_map.1 (collapseEmpty_subset _ _ (hkept.subset hmem))
      exact ⟨found, hfound.symm⟩
    · exact ⟨[], rfl⟩
  refine ⟨hreturn, fun line hline => ?_, fun line hline => ?_, ?_, List.getLast?_concat, ?_, ?_⟩
  · obtain ⟨found, rfl⟩ := htidy line hline
    exact getLast?_tidyLine found
  · obtain ⟨found, rfl⟩ := htidy line hline
    exact head?_tidyLine found
  · rw [hlines, List.dropLast_concat]
    obtain ⟨front, back, hfront⟩ := hkept
    have hrun := (noRun_collapseEmpty ((Text.lines (unifyNewlines source)).map tidyLine)).1
    rw [← hfront] at hrun
    exact hrun.left_of_append.right_of_append
  · rwa [List.dropLast_concat]
  · cases body with
    | nil => exact .inl rfl
    | cons c rest => exact .inr hhead

theorem formatChars_of_isNormal {text : List Char} (h : IsNormal text) :
    formatChars text = text := by
  have hreturn := unifyNewlines_eq_self h.noReturn
  have htidy : (Text.lines text).map tidyLine = Text.lines text := by
    refine (List.map_congr_left fun line hline => ?_).trans (List.map_id _)
    exact tidyLine_eq_self (h.noTrailing line hline) (h.noTab line hline)
  obtain ⟨body, rfl⟩ := List.getLast?_eq_some_iff.1 h.ends
  have hends := h.endsOnce
  rw [List.dropLast_concat] at hends
  by_cases hbody : body = []
  · rw [hbody]
    decide
  have hrun : NoRun (Text.lines (body ++ ['\n'])) := by
    have hlines := h.noRun
    rw [lines_concat_newline, List.dropLast_concat] at hlines
    rw [lines_concat_newline]
    refine List.isChain_append.2 ⟨hlines, .singleton _, fun line hline _ _ => .inl ?_⟩
    exact Text.ne_nil_of_getLast?_lines hbody hends hline
  have hhead : (body ++ ['\n']).head? ≠ some '\n' := by
    refine h.start.resolve_left fun heq => hbody ?_
    exact List.append_left_eq_self.1 heq
  have hstart : (body ++ ['\n']).dropWhile (· == '\n') = body ++ ['\n'] := by
    cases body with
    | nil => exact absurd rfl hbody
    | cons c rest =>
      have hc : c ≠ '\n' := fun hc => hhead (congrArg some hc)
      simp [hc]
  have hlast : ∀ c ∈ body.getLast?, (c == '\n') = false := by
    intro c hc
    rw [beq_eq_false_iff_ne]
    rintro rfl
    exact hends hc
  rw [formatChars, hreturn, htidy, collapseEmpty_eq_self hrun, Text.unlines_lines, closeText,
    Text.trim, hstart, Text.trimEnd_append_singleton, Text.trimEnd_eq_self hlast]
  rfl

theorem formatChars_eq_self_iff (text : List Char) : formatChars text = text ↔ IsNormal text := by
  refine ⟨fun h => ?_, formatChars_of_isNormal⟩
  rw [← h]
  exact isNormal_formatChars text

/-! ### What is not blank -/

/-- A text without its blanks and line ends. -/
def solid (text : List Char) : List Char :=
  text.filter fun c => !isGapBlank c

theorem solid_unifyNewlines (text : List Char) : solid (unifyNewlines text) = solid text := by
  fun_induction unifyNewlines text with
  | case1 => rfl
  | case2 rest ih => exact ih
  | case3 rest _ ih => exact ih
  | case4 c rest _ _ ih =>
    unfold solid at ih ⊢
    rw [List.filter_cons, List.filter_cons, ih]

theorem solid_of_reflow {start : Bool} {x y : List Char} (h : Reflow start x y) :
    solid y = solid x := by
  induction h with
  | done | final => rfl
  | keep c rest ih =>
    unfold solid at ih ⊢
    rw [List.filter_cons, List.filter_cons, ih]
  | trailing hc hend rest ih =>
    rw [ih]
    rcases hc with rfl | rfl | rfl
    all_goals rfl
  | lone hend rest ih => exact ih
  | tab rest ih => exact ih
  | empty hend rest ih => exact ih

theorem solid_dropWhile_newline (text : List Char) :
    solid (text.dropWhile (· == '\n')) = solid text := by
  induction text with
  | nil => rfl
  | cons c rest ih =>
    rw [List.dropWhile_cons]
    split
    next hc =>
      rw [ih, beq_iff_eq.1 hc]
      rfl
    next => rfl

/-- Only blanks and line ends change. -/
theorem solid_formatChars (source : List Char) : solid (formatChars source) = solid source := by
  have hlines := Text.lines_ne_nil (unifyNewlines source)
  have htidy : (Text.lines (unifyNewlines source)).map tidyLine ≠ [] := by simpa using hlines
  have hled {found : List (List Char)} (h : found ≠ []) :
      solid (led found) = solid (Text.unlines found) := by
    rw [led_eq h]
    rfl
  calc solid (formatChars source)
      = solid (Text.unlines
          (collapseEmpty false ((Text.lines (unifyNewlines source)).map tidyLine))) := by
        rw [formatChars, closeText, Text.trim, solid_of_reflow (reflow_closing _ false),
          solid_dropWhile_newline]
    _ = solid (led ((Text.lines (unifyNewlines source)).map tidyLine)) := by
        rw [← hled (collapseEmpty_ne_nil htidy), solid_of_reflow (reflow_collapseEmpty _ false).1]
    _ = solid (unifyNewlines source) := by
        rw [solid_of_reflow (reflow_tidyLines _ false), hled hlines, Text.unlines_lines]
    _ = solid source := solid_unifyNewlines source

end Layout

end Garnet
