import Garnet.Token.Lexer

/-! # Tokens of joined texts

A line end separates lexemes: no lexeme that is closed in front of it goes on behind it. The tokens
of two texts with a line end between them are therefore those of the first text, followed by those
of the second one some lines further down. An unclosed string would swallow the line end, and U+0000
would hide it, so neither may stand in the first text.
-/

namespace Garnet

/-! ### Places further down -/

/-- The place a number of lines further down. -/
def Pos.down (k : Int) (pos : Pos) : Pos :=
  ⟨pos.line + k, pos.column⟩

/-- The token a number of lines further down. -/
def Token.down (k : Int) (token : Token) : Token :=
  { token with pos := token.pos.down k }

namespace Pos

theorem down_zero : Pos.down 0 = id := by
  funext pos
  simp [Pos.down]

theorem next_down (k : Int) (pos : Pos) (c : Char) : (pos.down k).next c = (pos.next c).down k := by
  unfold next down
  split
  next => exact congrArg (Pos.mk · 1) (Int.add_right_comm _ _ _)
  next => rfl

theorem after_down (k : Int) (pos : Pos) (text : List Char) :
    (pos.down k).after text = (pos.after text).down k := by
  induction text generalizing pos with
  | nil => rfl
  | cons c rest ih => rw [after_cons, after_cons, next_down, ih]

theorem line_le_next (pos : Pos) (c : Char) : pos.line ≤ (pos.next c).line := by
  unfold next
  split
  next => exact Int.le_add_one (Int.le_refl _)
  next => exact Int.le_refl _

theorem line_le_after (pos : Pos) (text : List Char) : pos.line ≤ (pos.after text).line := by
  induction text generalizing pos with
  | nil => exact Int.le_refl _
  | cons c rest ih => exact Int.le_trans (line_le_next pos c) (ih _)

/-- Behind a line end, places count as from the first line. -/
theorem next_newline (pos : Pos) : pos.next '\n' = start.down pos.line := by
  simp [next, start, down, Int.add_comm]

end Pos

namespace Token

/-! ### Gaps -/

theorem gapLength_le (inComment : Bool) (text : List Char) :
    gapLength inComment text ≤ text.length := by
  induction text generalizing inComment with
  | nil => simp [gapLength]
  | cons c rest ih =>
    have htrue := ih true
    have hfalse := ih false
    unfold gapLength
    simp only [List.length_cons]
    split
    · omega
    · split
      · omega
      · split <;> omega

/-- A character belongs to the gap or ends it, whatever follows. -/
theorem gapLength_cons (inComment : Bool) (c : Char) :
    c ≠ nul ∧ (∃ still, ∀ rest, gapLength inComment (c :: rest) = gapLength still rest + 1) ∨
      isGapBlank c = false ∧ ∀ rest, gapLength inComment (c :: rest) = 0 := by
  by_cases hcomment : (inComment && c != '\n' && c != nul) = true
  · have hc : c ≠ nul := by simpa using (Bool.and_eq_true_iff.1 hcomment).2
    exact .inl ⟨hc, true, fun rest => by rw [gapLength, if_pos hcomment]⟩
  · by_cases hblank : isGapBlank c = true
    · have hc : c ≠ nul := by
        rintro rfl
        exact absurd hblank (by decide)
      exact .inl ⟨hc, false, fun rest => by rw [gapLength, if_neg hcomment, if_pos hblank]⟩
    · by_cases hsign : (c == '#') = true
      · have hc : c ≠ nul := by
          rintro rfl
          exact absurd hsign (by decide)
        exact .inl ⟨hc, true, fun rest => by
          rw [gapLength, if_neg hcomment, if_neg hblank, if_pos hsign]⟩
      · exact .inr ⟨Bool.eq_false_iff.2 hblank, fun rest => by
          rw [gapLength, if_neg hcomment, if_neg hblank, if_neg hsign]⟩

/-- Of what follows a gap only the first character counts, and nothing may follow instead. -/
theorem gapLength_congr {inComment : Bool} {gap behind behind' : List Char}
    (h : gapLength inComment (gap ++ behind) = gap.length)
    (hhead : ∀ c ∈ behind'.head?, c ∈ behind.head?) :
    gapLength inComment (gap ++ behind') = gap.length := by
  induction gap generalizing inComment with
  | nil =>
    cases behind' with
    | nil => rfl
    | cons c more' =>
      obtain ⟨more, rfl⟩ := List.head?_eq_some_iff.1 (hhead c rfl)
      rcases gapLength_cons inComment c with ⟨-, still, hskip⟩ | ⟨-, hstop⟩
      · rw [List.nil_append, hskip] at h
        cases h
      · exact hstop more'
  | cons c gap ih =>
    rcases gapLength_cons inComment c with ⟨-, still, hskip⟩ | ⟨-, hstop⟩
    · rw [List.cons_append, hskip, List.length_cons] at h ⊢
      rw [ih (Nat.succ.inj h)]
    · rw [List.cons_append, hstop] at h
      cases h

/-- There is no end mark in a gap. -/
theorem nul_not_mem_of_gapLength {inComment : Bool} {gap behind : List Char}
    (h : gapLength inComment (gap ++ behind) = gap.length) : nul ∉ gap := by
  induction gap generalizing inComment with
  | nil => exact List.not_mem_nil
  | cons c gap ih =>
    rcases gapLength_cons inComment c with ⟨hc, still, hskip⟩ | ⟨-, hstop⟩
    · rw [List.cons_append, hskip, List.length_cons] at h
      simp only [List.mem_cons, not_or]
      exact ⟨hc.symm, ih (Nat.succ.inj h)⟩
    · rw [List.cons_append, hstop] at h
      cases h

/-- A gap that ends inside of a text does not depend on what follows the text. -/
theorem gapLength_append {inComment : Bool} {text : List Char}
    (h : gapLength inComment text < text.length) (more : List Char) :
    gapLength inComment (text ++ more) = gapLength inComment text := by
  induction text generalizing inComment with
  | nil => exact absurd h (by simp)
  | cons c rest ih =>
    rw [gapLength, List.length_cons] at h
    rw [List.cons_append, gapLength, gapLength]
    split at h
    next hcomment => rw [if_pos hcomment, if_pos hcomment, ih (by omega)]
    next hcomment =>
      rw [if_neg hcomment, if_neg hcomment]
      split at h
      next hblank => rw [if_pos hblank, if_pos hblank, ih (by omega)]
      next hblank =>
        rw [if_neg hblank, if_neg hblank]
        split at h
        next hsign => rw [if_pos hsign, if_pos hsign, ih (by omega)]
        next hsign => rw [if_neg hsign, if_neg hsign]

/-- A gap that fills a text goes on behind a line end, out of any comment. -/
theorem gapLength_append_newline {inComment : Bool} {text : List Char}
    (h : gapLength inComment text = text.length) (tail : List Char) :
    gapLength inComment (text ++ '\n' :: tail) = text.length + 1 + gapLength false tail := by
  induction text generalizing inComment with
  | nil =>
    rw [List.nil_append, gapLength, if_neg (by simp), if_pos (by decide)]
    simp only [List.length_nil]
    omega
  | cons c rest ih =>
    rw [gapLength, List.length_cons] at h
    rw [List.cons_append, gapLength, List.length_cons]
    split at h
    next hcomment =>
      rw [if_pos hcomment, ih (by omega)]
      omega
    next hcomment =>
      rw [if_neg hcomment]
      split at h
      next hblank =>
        rw [if_pos hblank, ih (by omega)]
        omega
      next hblank =>
        rw [if_neg hblank]
        split at h
        next hsign =>
          rw [if_pos hsign, ih (by omega)]
          omega
        next => exact absurd h (by omega)

/-- The blanks of a gap. -/
theorem eq_of_isGapBlank {c : Char} (h : isGapBlank c = true) :
    c = ' ' ∨ c = '\t' ∨ c = '\r' ∨ c = '\n' := by
  simpa [isGapBlank, or_assoc] using h

/-- Characters in front of which every lexeme ends that is no string literal: blanks, and the quotes
that open a literal. -/
def separates (c : Char) : Bool :=
  isGapBlank c || c == '"' || c == '\''

theorem separates_of_isGapBlank {c : Char} (h : isGapBlank c = true) : separates c = true := by
  simp [separates, h]

theorem eq_of_separates {c : Char} (h : separates c = true) :
    c = ' ' ∨ c = '\t' ∨ c = '\r' ∨ c = '\n' ∨ c = '"' ∨ c = '\'' := by
  simpa [separates, isGapBlank, or_assoc] using h

theorem isNameChar_of_separates {c : Char} (h : separates c = true) : isNameChar c = false := by
  rcases eq_of_separates h with rfl | rfl | rfl | rfl | rfl | rfl <;> decide

theorem isNameStart_of_separates {c : Char} (h : separates c = true) : isNameStart c = false := by
  rcases eq_of_separates h with rfl | rfl | rfl | rfl | rfl | rfl <;> decide

theorem isDigit_of_separates {c : Char} (h : separates c = true) : Text.isDigit c = false := by
  rcases eq_of_separates h with rfl | rfl | rfl | rfl | rfl | rfl <;> decide

/-! ### Names -/

theorem takeWhile_isNameChar_append {sep : Char} (hsep : separates sep = true)
    (rest tail : List Char) :
    (rest ++ sep :: tail).takeWhile isNameChar = rest.takeWhile isNameChar := by
  induction rest with
  | nil => simp [List.takeWhile, isNameChar_of_separates hsep]
  | cons c rest ih =>
    rw [List.cons_append, List.takeWhile_cons, List.takeWhile_cons, ih]

theorem nameTail_append {sep : Char} (hsep : separates sep = true) (rest tail : List Char) :
    nameTail (rest ++ sep :: tail) = nameTail rest := by
  have hle : (rest.takeWhile isNameChar).length ≤ rest.length :=
    (List.takeWhile_sublist _).length_le
  unfold nameTail
  rw [takeWhile_isNameChar_append hsep]
  dsimp only
  rw [List.drop_append_of_le_length hle]
  cases rest.drop (rest.takeWhile isNameChar).length with
  | nil => rcases eq_of_separates hsep with rfl | rfl | rfl | rfl | rfl | rfl <;> rfl
  | cons mark more =>
    rw [List.cons_append]
    dsimp only
    cases more with
    | nil => rcases eq_of_separates hsep with rfl | rfl | rfl | rfl | rfl | rfl <;> rfl
    | cons => rfl

theorem length_nameTail_le (rest : List Char) : (nameTail rest).length ≤ rest.length := by
  have hle : (rest.takeWhile isNameChar).length ≤ rest.length :=
    (List.takeWhile_sublist _).length_le
  unfold nameTail
  dsimp only
  split
  next => exact hle
  next mark more hdrop =>
    have hlength := congrArg List.length hdrop
    rw [List.length_drop, List.length_cons] at hlength
    split
    next =>
      rw [List.length_append, List.length_singleton]
      omega
    next => exact hle

/-! ### Numbers -/

theorem numberTail_append {sep : Char} (hsep : separates sep = true) (fractional : Bool)
    (rest tail : List Char) :
    numberTail fractional (rest ++ sep :: tail) = numberTail fractional rest := by
  have hdigit := isDigit_of_separates hsep
  fun_induction numberTail fractional rest with
  | case1 fractional =>
    rcases eq_of_separates hsep with rfl | rfl | rfl | rfl | rfl | rfl <;>
      cases tail <;> simp [numberTail, hdigit]
  | case2 fractional c rest hc ih =>
    rw [List.cons_append, numberTail.eq_def]
    dsimp only
    rw [if_pos hc, ih]
  | case3 fractional c hc => simp [numberTail, hc, hdigit]
  | case4 fractional c hc d more hseparator ih =>
    rw [List.cons_append, List.cons_append, numberTail, if_neg hc, if_pos hseparator, ih]
  | case5 fractional c hc d more hseparator hpoint ih =>
    rw [List.cons_append, List.cons_append, numberTail, if_neg hc, if_neg hseparator,
      if_pos hpoint, ih]
  | case6 fractional c hc d more hseparator hpoint =>
    rw [List.cons_append, List.cons_append, numberTail, if_neg hc, if_neg hseparator,
      if_neg hpoint]

theorem length_numberTail_le (fractional : Bool) (rest : List Char) :
    (numberTail fractional rest).length ≤ rest.length := by
  fun_induction numberTail fractional rest <;> simp_all [NumberTail.extend]

/-! ### Strings -/

theorem stringTail_nul (quote : Char) (rest : List Char) :
    stringTail quote (nul :: rest) = ⟨[], 0, false⟩ := by
  rw [stringTail.eq_def]
  rfl

theorem stringTail_quote {quote : Char} (hnul : quote ≠ nul) (rest : List Char) :
    stringTail quote (quote :: rest) = ⟨[], 1, true⟩ := by
  rw [stringTail.eq_def]
  dsimp only
  rw [if_neg hnul, if_pos rfl]

theorem stringTail_plain {quote c : Char} (hnul : c ≠ nul) (hquote : c ≠ quote) (hslash : c ≠ '\\')
    (rest : List Char) : stringTail quote (c :: rest) = (stringTail quote rest).extend c 1 := by
  rw [stringTail.eq_def]
  dsimp only
  rw [if_neg hnul, if_neg hquote, if_neg hslash]

theorem stringTail_escaped (c : Char) (rest : List Char) :
    stringTail '"' ('\\' :: c :: rest) = (stringTail '"' rest).extend (escapedChar c) 2 := by
  rw [stringTail.eq_def]
  rfl

theorem stringTail_append {quote : Char} {rest : List Char}
    (h : (stringTail quote rest).closed = true) (more : List Char) :
    stringTail quote (rest ++ more) = stringTail quote rest := by
  fun_induction stringTail quote rest with
  | case1 => exact absurd h (by simp)
  | case2 => exact absurd h (by simp)
  | case3 rest hnul => rw [List.cons_append, stringTail_quote hnul]
  | case4 => exact absurd h (by simp)
  | case5 e rest hsingle hspecial hnul hquote ih =>
    rw [List.cons_append, List.cons_append, stringTail.eq_def]
    dsimp only
    rw [if_neg hnul, if_neg hquote, if_pos rfl, if_pos hsingle, if_pos hspecial, ih h]
  | case6 e rest hsingle hspecial hnul hquote ih =>
    have hrest : stringTail quote (e :: (rest ++ more)) = stringTail quote (e :: rest) := ih h
    rw [List.cons_append, List.cons_append, stringTail.eq_def]
    dsimp only
    rw [if_neg hnul, if_neg hquote, if_pos rfl, if_pos hsingle, if_neg hspecial, hrest]
  | case7 e rest hdouble hnul hquote ih =>
    rw [List.cons_append, List.cons_append, stringTail.eq_def]
    dsimp only
    rw [if_neg hnul, if_neg hquote, if_pos rfl, if_neg hdouble, ih h]
  | case8 c rest hnul hquote hslash ih =>
    rw [List.cons_append, stringTail_plain hnul hquote hslash, ih h]

theorem length_stringTail_le {quote : Char} {rest : List Char} :
    (stringTail quote rest).length ≤ rest.length := by
  fun_induction stringTail quote rest <;> simp_all [StringTail.extend]

/-- A literal without end takes the rest of the text, up to an end mark. -/
theorem head?_drop_of_open {quote : Char} {rest : List Char}
    (h : (stringTail quote rest).closed = false) :
    ∀ c ∈ (rest.drop (stringTail quote rest).length).head?, c = nul := by
  fun_induction stringTail quote rest with
  | case1 => simp
  | case2 => simp
  | case3 => exact absurd h (by simp)
  | case4 => simp
  | case5 c rest hsingle hspecial hc hquote ih => exact ih h
  | case6 c rest hsingle hspecial hc hquote ih => exact ih h
  | case7 c rest hdouble hc hquote ih => exact ih h
  | case8 c rest hc hquote hslash ih => exact ih h

/-! ### Lexemes -/

theorem withEquals_append {sep : Char} (hsep : separates sep = true)
    (rest tail : List Char) (both alone : Lexeme) :
    withEquals (rest ++ sep :: tail) both alone = withEquals rest both alone := by
  cases rest with
  | nil => rcases eq_of_separates hsep with rfl | rfl | rfl | rfl | rfl | rfl <;> rfl
  | cons => rfl

/-- The rest of a string literal is closed unless the literal is illegal. -/
theorem closed_of_kind {c : Char} {rest : List Char} (h : (lexeme c rest).kind ≠ .illegal)
    (hquote : c = '"' ∨ c = '\'') : (stringTail c rest).closed = true := by
  refine Decidable.byContradiction fun hopen => h ?_
  rcases hquote with rfl | rfl
  · simp [lexeme, hopen]
  · simp [lexeme, hopen]

theorem lexeme_of_open {c : Char} {rest : List Char} (hquote : c = '"' ∨ c = '\'')
    (h : (stringTail c rest).closed = false) :
    lexeme c rest = ⟨.illegal, "unterminated string", (stringTail c rest).length⟩ := by
  rcases hquote with rfl | rfl
  · simp [lexeme, h]
  · simp [lexeme, h]

/-- A lexeme in front of a separator does not depend on what follows it, unless it is a string
literal that is not closed. -/
theorem lexeme_append_of_separates {c sep : Char} {rest : List Char}
    (hclosed : c = '"' ∨ c = '\'' → (stringTail c rest).closed = true)
    (hsep : separates sep = true) (tail : List Char) :
    lexeme c (rest ++ sep :: tail) = lexeme c rest := by
  have hstart := isNameStart_of_separates hsep
  have hcolon : sep ≠ ':' := by
    rintro rfl
    exact absurd hsep (by decide)
  unfold lexeme
  dsimp only
  split
  case h_11 =>
    cases rest with
    | nil => simp [hstart, hcolon]
    | cons d more => simp only [List.cons_append, nameTail_append hsep]
  case h_16 =>
    cases rest with
    | nil => simp [hstart]
    | cons d more => simp only [List.cons_append, nameTail_append hsep]
  case h_17 =>
    rw [nameTail_append hsep, numberTail_append hsep]
    split
    next hquote => rw [stringTail_append (hclosed hquote)]
    next => rfl
  -- All others are fixed characters, some of them with an equals sign.
  all_goals first | rfl | exact withEquals_append hsep ..

theorem lexeme_append {c blank : Char} {rest : List Char}
    (hclosed : c = '"' ∨ c = '\'' → (stringTail c rest).closed = true)
    (hblank : isGapBlank blank = true) (tail : List Char) :
    lexeme c (rest ++ blank :: tail) = lexeme c rest :=
  lexeme_append_of_separates hclosed (separates_of_isGapBlank hblank) tail

theorem further_withEquals_le {rest : List Char} {both alone : Lexeme} (hboth : both.further ≤ 1)
    (halone : alone.further = 0) : (withEquals rest both alone).further ≤ rest.length := by
  unfold withEquals
  split
  next hhead =>
    cases rest with
    | nil => exact absurd hhead (by simp)
    | cons => exact Nat.le_trans hboth (by simp)
  next => simp [halone]

/-- A lexeme lies inside of its text. -/
theorem further_le (c : Char) (rest : List Char) : (lexeme c rest).further ≤ rest.length := by
  unfold lexeme
  dsimp only
  split
  case h_11 =>
    cases rest with
    | nil => exact Nat.le_refl _
    | cons d more =>
      have hname := length_nameTail_le more
      dsimp only
      split
      next =>
        have hscope : (Lexeme.plain .scope "::").further = 1 := by decide
        simp [hscope]
      next =>
        split
        next => simpa using hname
        next => exact Nat.zero_le _
  case h_16 =>
    cases rest with
    | nil => exact Nat.le_refl _
    | cons d more =>
      have hname := length_nameTail_le more
      dsimp only
      split
      next => simpa using hname
      next => exact Nat.zero_le _
  case h_17 =>
    split
    next =>
      split
      next => exact length_stringTail_le
      next => exact length_stringTail_le
    next =>
      split
      next => exact length_nameTail_le rest
      next =>
        split
        next => exact length_numberTail_le false rest
        next => exact Nat.zero_le _
  all_goals first | exact Nat.zero_le _ | exact further_withEquals_le (by decide) (by decide)

theorem nameKind_ne_eof (name : String) : nameKind name ≠ .eof := by
  unfold nameKind
  split
  next => simp
  next => split <;> simp

theorem withEquals_kind_ne_eof {rest : List Char} {both alone : Lexeme} (hboth : both.kind ≠ .eof)
    (halone : alone.kind ≠ .eof) : (withEquals rest both alone).kind ≠ .eof := by
  unfold withEquals
  split
  next => exact hboth
  next => exact halone

/-- No lexeme stands for the end of a text. -/
theorem lexeme_kind_ne_eof (c : Char) (rest : List Char) : (lexeme c rest).kind ≠ .eof := by
  unfold lexeme
  dsimp only
  split
  case h_11 =>
    split
    next => simp
    next =>
      split
      next => simp [Lexeme.plain]
      next => split <;> simp
  case h_16 =>
    split
    next => simp
    next => split <;> simp
  case h_17 =>
    split
    next => split <;> simp
    next =>
      split
      next => exact nameKind_ne_eof _
      next =>
        split
        next => dsimp only; split <;> simp
        next => simp
  all_goals first | exact withEquals_kind_ne_eof (by decide) (by decide) | decide

/-! ### Texts -/

/-- One step of the reading: a gap, and the lexeme behind it. -/
theorem scan_eq (pos : Pos) (text : List Char) :
    scan pos text =
      match text.drop (gapLength false text) with
      | [] => ([], none)
      | c :: rest =>
        let here := pos.after (text.take (gapLength false text))
        if c = nul then ([], some here)
        else
          let piece := lexeme c rest
          let more := scan (here.after (c :: rest.take piece.further)) (rest.drop piece.further)
          (⟨piece.kind, piece.literal, here⟩ :: more.1, more.2) := by
  rw [scan]
  split
  next hdrop => rw [hdrop]
  next c rest hdrop => rw [hdrop]

/-- An induction over the pieces of a text. -/
theorem scan_induction {motive : Pos → List Char → Prop}
    (step : ∀ pos text, (∀ c rest, text.drop (gapLength false text) = c :: rest → c ≠ nul →
      motive ((pos.after (text.take (gapLength false text))).after
        (c :: rest.take (lexeme c rest).further)) (rest.drop (lexeme c rest).further)) →
      motive pos text) (pos : Pos) (text : List Char) : motive pos text := by
  generalize hlength : text.length = length
  induction length using Nat.strongRecOn generalizing pos text with
  | ind length ih =>
    refine step pos text fun c rest hdrop _ => ih _ ?_ _ _ rfl
    have hcut := congrArg List.length hdrop
    rw [List.length_drop, List.length_cons] at hcut
    rw [List.length_drop]
    omega

theorem scan_down (k : Int) (pos : Pos) (text : List Char) :
    scan (pos.down k) text =
      ((scan pos text).1.map (Token.down k), (scan pos text).2.map (Pos.down k)) := by
  induction pos, text using scan_induction with
  | step pos text ih =>
    rw [scan_eq, scan_eq pos]
    split
    next => rfl
    next c rest hdrop =>
      dsimp only
      rw [Pos.after_down]
      split
      next => rfl
      next hnul =>
        rw [Pos.after_down, ih c rest hdrop hnul]
        rfl

/-- A token is read from the first lexeme of the text, or from what follows this lexeme. -/
theorem mem_scan_cases {pos : Pos} {text : List Char} {token : Token}
    (h : token ∈ (scan pos text).1) :
    ∃ gap c rest, text = gap ++ c :: rest ∧ gapLength false text = gap.length ∧ c ≠ nul ∧
      (token = ⟨(lexeme c rest).kind, (lexeme c rest).literal, pos.after gap⟩ ∨
        token ∈ (scan ((pos.after gap).after (c :: rest.take (lexeme c rest).further))
          (rest.drop (lexeme c rest).further)).1) := by
  rw [scan_eq] at h
  split at h
  next => exact absurd h (by simp)
  next c rest hdrop =>
    dsimp only at h
    split at h
    next => exact absurd h (by simp)
    next hnul =>
      refine ⟨text.take (gapLength false text), c, rest, ?_, ?_, hnul, List.mem_cons.1 h⟩
      · rw [← hdrop, List.take_append_drop]
      · rw [List.length_take, Nat.min_eq_left (gapLength_le false text)]

/-- What every lexeme has, every token has. -/
theorem forall_mem_scan (property : Kind → String → Prop)
    (hlexeme : ∀ c rest, property (lexeme c rest).kind (lexeme c rest).literal) {pos : Pos}
    {text : List Char} {token : Token} (h : token ∈ (scan pos text).1) :
    property token.kind token.literal := by
  induction pos, text using scan_induction with
  | step pos text ih =>
    obtain ⟨gap, c, rest, rfl, hgap, hnul, rfl | hmem⟩ := mem_scan_cases h
    · exact hlexeme c rest
    · rw [hgap, List.take_left, List.drop_left] at ih
      exact ih c rest rfl hnul hmem

theorem kind_ne_eof_of_mem_scan {pos : Pos} {text : List Char} {token : Token}
    (h : token ∈ (scan pos text).1) : token.kind ≠ .eof :=
  forall_mem_scan (fun kind _ => kind ≠ .eof) lexeme_kind_ne_eof h

/-- The tokens of a text stand in the text. -/
theorem exists_prefix_of_mem_scan {pos : Pos} {text : List Char} {token : Token}
    (h : token ∈ (scan pos text).1) : ∃ front, front <+: text ∧ token.pos = pos.after front := by
  induction pos, text using scan_induction with
  | step pos text ih =>
    obtain ⟨gap, c, rest, rfl, hgap, hnul, rfl | hmem⟩ := mem_scan_cases h
    · exact ⟨gap, List.prefix_append _ _, rfl⟩
    · rw [hgap, List.take_left, List.drop_left] at ih
      obtain ⟨front, ⟨behind, hfront⟩, hpos⟩ := ih c rest rfl hnul hmem
      refine ⟨gap ++ (c :: rest.take (lexeme c rest).further ++ front), ⟨behind, ?_⟩, ?_⟩
      · rw [List.append_assoc, List.append_assoc, hfront, List.cons_append, List.take_append_drop]
      · rw [hpos, Pos.after_append, Pos.after_append]

/-- The tokens of a text stand on the lines of the text. -/
theorem line_of_mem_scan {pos : Pos} {text : List Char} {token : Token}
    (h : token ∈ (scan pos text).1) :
    pos.line ≤ token.pos.line ∧ token.pos.line ≤ (pos.after text).line := by
  obtain ⟨front, ⟨behind, rfl⟩, hpos⟩ := exists_prefix_of_mem_scan h
  rw [hpos, Pos.after_append]
  exact ⟨pos.line_le_after front, Pos.line_le_after _ behind⟩

/-- What stands in front of the first lexeme only matters for the place. -/
theorem scan_append_gap {pos : Pos} {gap text : List Char}
    (h : gapLength false (gap ++ text) = gap.length + gapLength false text) :
    scan pos (gap ++ text) = scan (pos.after gap) text := by
  rw [scan_eq, scan_eq (pos.after gap), h, List.drop_length_add_append,
    List.take_length_add_append, Pos.after_append]

/-- The tokens of two texts with a line end between them. -/
theorem scan_append_newline {pos : Pos} {text : List Char} (hnul : nul ∉ text)
    (hlegal : ∀ token ∈ (scan pos text).1, token.kind ≠ .illegal) (tail : List Char) :
    scan pos (text ++ '\n' :: tail) =
      ((scan pos text).1 ++ (scan ((pos.after text).next '\n') tail).1,
        (scan ((pos.after text).next '\n') tail).2) := by
  induction pos, text using scan_induction with
  | step pos text ih =>
    cases hdrop : text.drop (gapLength false text) with
    | nil =>
      -- Only a gap is left; the line end belongs to it, and the second text begins behind it.
      have hgap : gapLength false text = text.length :=
        Nat.le_antisymm (gapLength_le _ _) (List.drop_eq_nil_iff.1 hdrop)
      have hempty : scan pos text = ([], none) := by rw [scan_eq, hdrop]
      have hjoined : gapLength false ((text ++ ['\n']) ++ tail) =
          (text ++ ['\n']).length + gapLength false tail := by
        rw [List.append_assoc, List.singleton_append, gapLength_append_newline hgap]
        simp
      rw [hempty, ← List.singleton_append, ← List.append_assoc, scan_append_gap hjoined,
        Pos.after_append]
      rfl
    | cons c rest =>
      -- A lexeme that is not illegal ends in front of the line end, so both texts have it.
      have hgap : gapLength false text < text.length := by
        have hcut := congrArg List.length hdrop
        rw [List.length_drop, List.length_cons] at hcut
        omega
      have hsub : c :: rest ⊆ text := hdrop ▸ List.drop_subset _ _
      have hc : c ≠ nul := fun heq => hnul (heq ▸ hsub List.mem_cons_self)
      have hscan := scan_eq pos text
      rw [hdrop] at hscan
      dsimp only at hscan
      rw [if_neg hc] at hscan
      rw [hscan] at hlegal ⊢
      have hkind : (lexeme c rest).kind ≠ .illegal := hlegal _ List.mem_cons_self
      have hfurther := further_le c rest
      have htext : pos.after text = ((pos.after (text.take (gapLength false text))).after
          (c :: rest.take (lexeme c rest).further)).after (rest.drop (lexeme c rest).further) := by
        rw [← Pos.after_append, List.cons_append, List.take_append_drop, ← hdrop,
          ← Pos.after_append, List.take_append_drop]
      have hmore := ih c rest hdrop hc
        (fun hmem => hnul (hsub (List.mem_cons_of_mem _ (List.mem_of_mem_drop hmem))))
        (fun token htoken => hlegal token (List.mem_cons_of_mem _ htoken))
      rw [scan_eq, gapLength_append hgap, List.drop_append_of_le_length (Nat.le_of_lt hgap), hdrop,
        List.take_append_of_le_length (Nat.le_of_lt hgap)]
      dsimp only [List.cons_append]
      rw [if_neg hc, lexeme_append (closed_of_kind hkind) (by decide),
        List.take_append_of_le_length hfurther, List.drop_append_of_le_length hfurther, hmore,
        htext]

/-! ### Sources -/

/-- The line that a source text ends on. -/
def lastLine (source : String) : Int :=
  (Pos.start.after source.toList).line

theorem toList_joined (first second : String) :
    (first ++ "\n" ++ second).toList = first.toList ++ '\n' :: second.toList := by
  simp

theorem ofLast_joined (first : String) {second : String} (h : second ≠ "") :
    Pos.ofLast (first ++ "\n" ++ second).toList =
      (Pos.ofLast second.toList).down (lastLine first) := by
  have hne : second.toList ≠ [] := by simpa using h
  have hlast : (first.toList ++ '\n' :: second.toList).dropLast =
      first.toList ++ '\n' :: second.toList.dropLast := by
    rw [List.dropLast_append_of_ne_nil (by simp), List.dropLast_cons_of_ne_nil hne]
  rw [toList_joined, Pos.ofLast, Pos.ofLast, if_neg (by simp), if_neg (by simpa using hne), hlast,
    Pos.after_append, Pos.after_cons, Pos.next_newline, Pos.after_down]
  rfl

/-- The tokens of two sources with a line end between them. -/
theorem ofSource_joined {first second : String} (hnul : nul ∉ first.toList)
    (hlegal : ∀ token ∈ (Stream.ofSource first).tokens, token.kind ≠ .illegal)
    (hne : second ≠ "") :
    (Stream.ofSource (first ++ "\n" ++ second)).tokens = (Stream.ofSource first).tokens ++
        (Stream.ofSource second).tokens.map (Token.down (lastLine first)) ∧
      (Stream.ofSource (first ++ "\n" ++ second)).endPos =
        (Stream.ofSource second).endPos.down (lastLine first) := by
  have hscan : scan .start (first ++ "\n" ++ second).toList =
      ((scan .start first.toList).1 ++
        (scan .start second.toList).1.map (Token.down (lastLine first)),
        (scan .start second.toList).2.map (Pos.down (lastLine first))) := by
    rw [toList_joined, scan_append_newline hnul hlegal, Pos.next_newline, scan_down]
    rfl
  refine ⟨congrArg Prod.fst hscan, ?_⟩
  have hstop := congrArg Prod.snd hscan
  change ((scan .start (first ++ "\n" ++ second).toList).2.getD _) = _
  rw [hstop, ofLast_joined first hne]
  change _ = ((scan .start second.toList).2.getD _).down _
  cases (scan .start second.toList).2 with
  | none => rfl
  | some pos => rfl

theorem line_le_lastLine {source : String} {token : Token}
    (h : token ∈ (Stream.ofSource source).tokens) : token.pos.line ≤ lastLine source :=
  (line_of_mem_scan h).2

theorem one_le_line {source : String} {token : Token}
    (h : token ∈ (Stream.ofSource source).tokens) : 1 ≤ token.pos.line :=
  (line_of_mem_scan h).1

end Token

end Garnet
