import Garnet.Proofs.Source.Places
import Garnet.Proofs.Token.Reflow
import Garnet.Proofs.Token.Spelling

/-! # A text is tiled by gaps and lexemes

Reading a text loses nothing: between two tokens there are only blanks and comments, and each token
can be told from the characters it was read from. What the lexer counts as the place of a token is
the place of the first of these characters.
-/

namespace Garnet.Token

/-! ### What gaps and lexemes look like -/

/-- Gaps in front of a given text hold blanks and comments. A comment runs to the end of its line,
or of the text. -/
inductive Gap (behind : List Char) : List Char → Prop
  | nil : Gap behind []
  | blank {c : Char} {gap : List Char} (hc : isGapBlank c = true) (h : Gap behind gap) :
    Gap behind (c :: gap)
  | comment {body gap : List Char} (hbody : '\n' ∉ body)
    (hend : ∀ c ∈ (gap ++ behind).head?, c = '\n') (h : Gap behind gap) :
    Gap behind ('#' :: body ++ gap)

/-- A numeral with separators, and the same numeral without them. A separator is a single underscore
between two digits. -/
inductive Separated : List Char → List Char → Prop
  | nil : Separated [] []
  | char {c : Char} {text plain : List Char} (hc : c ≠ '_') (h : Separated text plain) :
    Separated (c :: text) (c :: plain)
  | underscore {c d : Char} {text plain : List Char} (hc : Text.isDigit c = true)
    (hd : Text.isDigit d = true) (h : Separated (d :: text) plain) :
    Separated (c :: '_' :: d :: text) (c :: plain)

/-- What stands between two quotes, and the text that is denoted by it. -/
inductive Quoted (quote : Char) : List Char → List Char → Prop
  | nil : Quoted quote [] []
  | plain {c : Char} {body text : List Char} (hquote : c ≠ quote) (hslash : c ≠ '\\')
    (h : Quoted quote body text) : Quoted quote (c :: body) (c :: text)
  | escaped {c : Char} {body text : List Char} (hdouble : quote ≠ '\'')
    (h : Quoted quote body text) : Quoted quote ('\\' :: c :: body) (escapedChar c :: text)
  | special {c : Char} {body text : List Char} (hsingle : quote = '\'') (hc : c = '\'' ∨ c = '\\')
    (h : Quoted quote body text) : Quoted quote ('\\' :: c :: body) (c :: text)
  | backslash {c : Char} {body text : List Char} (hsingle : quote = '\'')
    (hc : ¬ (c = '\'' ∨ c = '\\')) (h : Quoted quote (c :: body) text) :
    Quoted quote ('\\' :: c :: body) ('\\' :: text)

/-- How a token is written, by its category. What follows it in the text matters only for a string
literal without end, which is illegal and takes all of it. -/
def Kind.Written (literal : String) (text behind : List Char) : Kind → Prop
  | .eof => False
  | .symbol => text = ':' :: literal.toList
  | .int | .float => Separated text literal.toList
  | .string => ∃ quote body, (quote = '"' ∨ quote = '\'') ∧ text = quote :: body ++ [quote] ∧
      Quoted quote body literal.toList
  | .illegal => text = literal.toList ∧ text.length = 1 ∨
      literal = "unterminated string" ∧ behind = [] ∧
        ∃ quote body, (quote = '"' ∨ quote = '\'') ∧ text = quote :: body
  | _ => text = literal.toList

/-- The category and the literal that a text has if all of it is one lexeme. -/
def alone? : List Char → Option (Kind × String)
  | [] => none
  | c :: rest =>
    let found := lexeme c rest
    if found.further = rest.length then some (found.kind, found.literal) else none

/-- A text that consists of tokens with gaps around them. Of what comes before the text, the places
of the tokens depend on it. -/
inductive Tiles : (before : List Char) → List Token → List Char → Prop
  | done {before gap : List Char} (hgap : Gap [] gap) : Tiles before [] gap
  | next {before gap text rest : List Char} {token : Token} {tokens : List Token}
    (hgap : Gap (text ++ rest) gap) (hpos : token.pos = .behind (before ++ gap))
    (halone : alone? text = some (token.kind, token.literal))
    (hwritten : token.kind.Written token.literal text rest)
    (h : Tiles (before ++ gap ++ text) tokens rest) :
    Tiles before (token :: tokens) (gap ++ text ++ rest)

/-! ### Gaps -/

/-- What is skipped is a gap, behind the rest of a comment if the reading starts in one. In front of
an end mark the gap ends like at the end of the text. -/
theorem gap_of_length (behind : List Char) {inComment : Bool} {skipped rest : List Char}
    (h : gapLength inComment (skipped ++ rest) = skipped.length)
    (hbehind : ∀ c ∈ behind.head?, c ∈ rest.head? ∧ c ≠ nul) :
    ∃ body gap, skipped = body ++ gap ∧ '\n' ∉ body ∧ (inComment = false → body = []) ∧
      (inComment = true → ∀ c ∈ (gap ++ behind).head?, c = '\n') ∧ Gap behind gap := by
  induction skipped generalizing inComment with
  | nil =>
    refine ⟨[], [], rfl, List.not_mem_nil, fun _ => rfl, ?_, .nil⟩
    rintro rfl c hc
    obtain ⟨hrest, hnul⟩ := hbehind c hc
    obtain ⟨more, rfl⟩ := List.head?_eq_some_iff.1 hrest
    -- A comment would go on with any other character.
    by_contra hline
    rw [List.nil_append, gapLength, if_pos (by simp [hline, hnul])] at h
    cases h
  | cons c skipped ih =>
    rw [List.cons_append, gapLength, List.length_cons] at h
    by_cases hcomment : (inComment && c != '\n' && c != nul) = true
    · rw [if_pos hcomment] at h
      obtain ⟨body, gap, rfl, hbody, -, hend, hgap⟩ := ih (Nat.succ.inj h)
      simp only [Bool.and_eq_true, bne_iff_ne, ne_eq] at hcomment
      obtain ⟨⟨rfl, hline⟩, -⟩ := hcomment
      refine ⟨c :: body, gap, rfl, ?_, fun hfalse => (by cases hfalse), hend, hgap⟩
      simp only [List.mem_cons, not_or]
      exact ⟨Ne.symm hline, hbody⟩
    · rw [if_neg hcomment] at h
      by_cases hblank : isGapBlank c = true
      · rw [if_pos hblank] at h
        obtain ⟨body, gap, rfl, -, hempty, -, hgap⟩ := ih (Nat.succ.inj h)
        rw [hempty rfl, List.nil_append]
        refine ⟨[], c :: gap, rfl, List.not_mem_nil, fun _ => rfl, ?_, .blank hblank hgap⟩
        rintro rfl d hd
        obtain rfl : c = d := Option.some.inj hd
        have hnul : c ≠ nul := by
          rintro rfl
          exact absurd hblank (by decide)
        simpa [hnul] using hcomment
      · rw [if_neg hblank] at h
        by_cases hsign : c = '#'
        · rw [if_pos (beq_iff_eq.2 hsign)] at h
          obtain ⟨body, gap, rfl, hbody, -, hend, hgap⟩ := ih (Nat.succ.inj h)
          subst hsign
          refine ⟨[], '#' :: body ++ gap, rfl, List.not_mem_nil, fun _ => rfl, ?_,
            .comment hbody (hend rfl) hgap⟩
          rintro rfl
          exact absurd hcomment (by decide)
        · rw [if_neg (by simpa using hsign)] at h
          cases h

/-! ### Names -/

/-- A name ends with its last name character or with a mark behind it. -/
theorem nameTail_cases (rest : List Char) :
    nameTail rest = rest.takeWhile isNameChar ∨
      ∃ mark, (mark = '?' ∨ mark = '!') ∧ nameTail rest = rest.takeWhile isNameChar ++ [mark] ∧
        nameTail rest <+: rest := by
  have hbody := List.prefix_iff_eq_append.1 (List.takeWhile_prefix isNameChar (l := rest))
  unfold nameTail
  dsimp only
  split
  next => exact .inl rfl
  next mark more hdrop =>
    split
    next hmark =>
      simp only [Bool.and_eq_true, Bool.or_eq_true, beq_iff_eq] at hmark
      refine .inr ⟨mark, hmark.1, rfl, more, ?_⟩
      rw [List.append_assoc, List.singleton_append, ← hdrop, hbody]
    next => exact .inl rfl

theorem take_nameTail (rest : List Char) : rest.take (nameTail rest).length = nameTail rest := by
  have hprefix : nameTail rest <+: rest := by
    rcases nameTail_cases rest with hname | ⟨mark, -, -, hprefix⟩
    · rw [hname]
      exact List.takeWhile_prefix _
    · exact hprefix
  exact (List.prefix_iff_eq_take.1 hprefix).symm

/-- A name is found again if nothing follows it. -/
theorem nameTail_nameTail (rest : List Char) : nameTail (nameTail rest) = nameTail rest := by
  have hall : ∀ c ∈ rest.takeWhile isNameChar, isNameChar c = true :=
    List.all_eq_true.1 List.all_takeWhile
  rcases nameTail_cases rest with hname | ⟨mark, hmark, hname, -⟩
  · have hself : (rest.takeWhile isNameChar).takeWhile isNameChar = rest.takeWhile isNameChar := by
      simpa using @List.takeWhile_append_of_pos _ isNameChar _ [] hall
    rw [hname, nameTail, hself, List.drop_length]
  · have hplain : isNameChar mark = false := by rcases hmark with rfl | rfl <;> decide
    have hself : (rest.takeWhile isNameChar ++ [mark]).takeWhile isNameChar =
        rest.takeWhile isNameChar := by
      rw [List.takeWhile_append_of_pos hall, List.takeWhile_cons_of_neg (by simp [hplain]),
        List.append_nil]
    rw [hname, nameTail, hself, List.drop_left]
    rcases hmark with rfl | rfl <;> rfl

/-! ### Numbers -/

/-- A number is found again if nothing follows it. -/
theorem numberTail_take (fractional : Bool) (rest : List Char) :
    numberTail fractional (rest.take (numberTail fractional rest).length) =
      numberTail fractional rest := by
  fun_induction numberTail fractional rest with
  | case1 | case3 | case6 => rfl
  | case2 fractional c rest hc ih =>
    rw [NumberTail.extend, List.take_succ_cons, numberTail.eq_def]
    dsimp only
    rw [if_pos hc, ih]
    rfl
  | case4 fractional c hc d more hseparator ih =>
    rw [NumberTail.extend, List.take_succ_cons, List.take_succ_cons, numberTail, if_neg hc,
      if_pos hseparator, ih]
    rfl
  | case5 fractional c hc d more hseparator hpoint ih =>
    rw [NumberTail.extend, List.take_succ_cons, List.take_succ_cons, numberTail, if_neg hc,
      if_neg hseparator, if_pos hpoint, ih]
    rfl

theorem separated_numberTail (fractional : Bool) (rest : List Char) {c : Char}
    (hc : Text.isDigit c = true) :
    Separated (c :: rest.take (numberTail fractional rest).length)
      (c :: (numberTail fractional rest).literal) := by
  have hplain {d : Char} (hd : Text.isDigit d = true) : d ≠ '_' := by
    rintro rfl
    exact absurd hd (by decide)
  fun_induction numberTail fractional rest generalizing c with
  | case1 | case3 | case6 => exact .char (hplain hc) .nil
  | case2 fractional d rest hd ih => exact .char (hplain hc) (ih hd)
  | case4 fractional sign _ d more hseparator ih =>
    obtain ⟨hsign, hd⟩ := Bool.and_eq_true_iff.1 hseparator
    rw [beq_iff_eq.1 hsign]
    exact .underscore hc hd (ih hd)
  | case5 fractional sign _ d more _ hpoint ih =>
    obtain ⟨hsign, hd⟩ := Bool.and_eq_true_iff.1 hpoint
    rw [beq_iff_eq.1 (Bool.and_eq_true_iff.1 hsign).1]
    exact .char (hplain hc) (.char (by decide) (ih hd))

/-! ### Strings -/

/-- A literal is taken with the quote that closes it. -/
theorem take_closing {quote : Char} {rest body behind : List Char} {length : Nat}
    (h : rest = body ++ quote :: behind) (hlength : length = body.length + 1) :
    rest.take length = body ++ [quote] := by
  rw [hlength, h, List.take_length_add_append]
  rfl

/-- What stands in a closed literal denotes its text. -/
theorem quoted_stringTail {quote : Char} {rest : List Char}
    (h : (stringTail quote rest).closed = true) :
    ∃ body behind, rest = body ++ quote :: behind ∧
      (stringTail quote rest).length = body.length + 1 ∧
      Quoted quote body (stringTail quote rest).text := by
  fun_induction stringTail quote rest with
  | case1 | case2 | case4 => exact absurd h (by simp)
  | case3 rest hnul => exact ⟨[], rest, rfl, rfl, .nil⟩
  | case5 c rest hsingle hspecial hnul hquote ih =>
    obtain ⟨body, behind, rfl, hlength, hquoted⟩ := ih h
    exact ⟨'\\' :: c :: body, behind, rfl, by simp [StringTail.extend, hlength],
      .special hsingle hspecial hquoted⟩
  | case6 c rest hsingle hspecial hnul hquote ih =>
    obtain ⟨body, behind, heq, hlength, hquoted⟩ := ih h
    cases body with
    | nil =>
      -- The quote itself would have been escaped.
      obtain ⟨rfl, -⟩ := List.cons.inj heq
      exact absurd (.inl hsingle) hspecial
    | cons d body =>
      obtain rfl : c = d := (List.cons.inj heq).1
      exact ⟨'\\' :: c :: body, behind, congrArg ('\\' :: ·) heq,
        by simp [StringTail.extend, hlength], .backslash hsingle hspecial hquoted⟩
  | case7 c rest hdouble hnul hquote ih =>
    obtain ⟨body, behind, rfl, hlength, hquoted⟩ := ih h
    exact ⟨'\\' :: c :: body, behind, rfl, by simp [StringTail.extend, hlength],
      .escaped hdouble hquoted⟩
  | case8 c rest hnul hquote hslash ih =>
    obtain ⟨body, behind, rfl, hlength, hquoted⟩ := ih h
    exact ⟨c :: body, behind, rfl, by simp [StringTail.extend, hlength],
      .plain hquote hslash hquoted⟩

/-- A closed literal is found again if nothing follows it. -/
theorem stringTail_take {quote : Char} {rest : List Char}
    (h : (stringTail quote rest).closed = true) :
    stringTail quote (rest.take (stringTail quote rest).length) = stringTail quote rest := by
  obtain ⟨body, behind, heq, hlength, htail⟩ := exists_body h
  rw [take_closing heq hlength, htail]

/-- A literal without end has none in what it takes. -/
theorem stringTail_take_of_open {quote : Char} {rest : List Char}
    (h : (stringTail quote rest).closed = false) :
    (stringTail quote (rest.take (stringTail quote rest).length)).closed = false ∧
      (stringTail quote (rest.take (stringTail quote rest).length)).length =
        (stringTail quote rest).length := by
  fun_induction stringTail quote rest with
  | case1 => exact ⟨rfl, rfl⟩
  | case2 => exact ⟨rfl, rfl⟩
  | case3 => exact absurd h (by simp)
  | case4 hnul hquote => simp [stringTail, hnul, hquote]
  | case5 c rest hsingle hspecial hc hquote ih =>
    obtain ⟨hopen, hlength⟩ := ih h
    rw [StringTail.extend, List.take_succ_cons, List.take_succ_cons, stringTail.eq_def]
    simp only [if_neg hc, if_neg hquote, if_pos hsingle, if_pos hspecial]
    exact ⟨hopen, congrArg (· + 2) hlength⟩
  | case6 c rest hsingle hspecial hc hquote ih =>
    obtain ⟨hopen, hlength⟩ := ih h
    rw [StringTail.extend, List.take_succ_cons]
    cases hcut : (stringTail quote (c :: rest)).length with
    | zero => simp [stringTail, hc, hquote]
    | succ length =>
      rw [hcut, List.take_succ_cons] at hopen hlength
      rw [List.take_succ_cons, stringTail.eq_def]
      simp only [if_neg hc, if_neg hquote, if_pos hsingle, if_neg hspecial]
      exact ⟨hopen, congrArg (· + 1) hlength⟩
  | case7 c rest hdouble hc hquote ih =>
    obtain ⟨hopen, hlength⟩ := ih h
    rw [StringTail.extend, List.take_succ_cons, List.take_succ_cons, stringTail.eq_def]
    simp only [if_neg hc, if_neg hquote, if_neg hdouble]
    exact ⟨hopen, congrArg (· + 2) hlength⟩
  | case8 c rest hc hquote hslash ih =>
    obtain ⟨hopen, hlength⟩ := ih h
    rw [StringTail.extend, List.take_succ_cons, stringTail_plain hc hquote hslash]
    exact ⟨hopen, congrArg (· + 1) hlength⟩

/-! ### Lexemes -/

theorem withEquals_take {rest : List Char} {both alone : Lexeme} (hboth : both.further = 1)
    (halone : alone.further = 0) :
    withEquals (rest.take (withEquals rest both alone).further) both alone =
      withEquals rest both alone := by
  unfold withEquals
  cases rest with
  | nil => simp
  | cons d more =>
    by_cases hd : d = '='
    · simp [hd, hboth]
    · simp [hd, halone]

theorem lexeme_colon (d : Char) (more : List Char) :
    lexeme ':' (d :: more) =
      if d = ':' then .plain .scope "::"
      else if isNameStart d then
        ⟨.symbol, String.ofList (d :: nameTail more), (nameTail more).length + 1⟩
      else ⟨.illegal, ":", 0⟩ :=
  rfl

theorem lexeme_at (d : Char) (more : List Char) :
    lexeme '@' (d :: more) =
      if isNameStart d then
        ⟨.ivar, String.ofList ('@' :: d :: nameTail more), (nameTail more).length + 1⟩
      else ⟨.illegal, "@", 0⟩ :=
  rfl

theorem lexeme_colon_take (rest : List Char) :
    lexeme ':' (rest.take (lexeme ':' rest).further) = lexeme ':' rest := by
  cases rest with
  | nil => rfl
  | cons d more =>
    rw [lexeme_colon]
    by_cases hcolon : d = ':'
    · rw [if_pos hcolon, hcolon]
      rfl
    · rw [if_neg hcolon]
      by_cases hstart : isNameStart d = true
      · rw [if_pos hstart, List.take_succ_cons, lexeme_colon, if_neg hcolon, if_pos hstart,
          take_nameTail, nameTail_nameTail]
      · rw [if_neg hstart]
        rfl

theorem lexeme_at_take (rest : List Char) :
    lexeme '@' (rest.take (lexeme '@' rest).further) = lexeme '@' rest := by
  cases rest with
  | nil => rfl
  | cons d more =>
    rw [lexeme_at]
    by_cases hstart : isNameStart d = true
    · rw [if_pos hstart, List.take_succ_cons, lexeme_at, if_pos hstart, take_nameTail,
        nameTail_nameTail]
    · rw [if_neg hstart]
      rfl

/-- A lexeme is found again if nothing follows it. One case for each first character. -/
theorem lexeme_take (c : Char) (rest : List Char) :
    lexeme c (rest.take (lexeme c rest).further) = lexeme c rest := by
  unfold lexeme
  dsimp only
  split
  case h_11 => exact lexeme_colon_take rest
  case h_16 => exact lexeme_at_take rest
  case h_12 | h_13 | h_14 | h_15 => exact withEquals_take (by decide) (by decide)
  case h_17 =>
    by_cases hquote : c = '"' ∨ c = '\''
    · simp only [if_pos hquote]
      by_cases hclosed : (stringTail c rest).closed = true
      · simp only [if_pos hclosed, stringTail_take hclosed]
      · obtain ⟨hopen, hlength⟩ := stringTail_take_of_open (Bool.eq_false_iff.2 hclosed)
        simp only [if_neg hclosed, hopen, hlength, Bool.false_eq_true, if_false]
    · simp only [if_neg hquote]
      by_cases hstart : isNameStart c = true
      · simp only [if_pos hstart, take_nameTail, nameTail_nameTail]
      · simp only [if_neg hstart]
        by_cases hdigit : Text.isDigit c = true
        · simp only [if_pos hdigit, numberTail_take]
        · simp only [if_neg hdigit]
  all_goals rfl

theorem written_nameKind (name : String) (behind : List Char) :
    (nameKind name).Written name name.toList behind := by
  unfold nameKind
  split
  next => rfl
  next => split <;> rfl

theorem written_withEquals {c : Char} {rest behind : List Char} {both alone : Lexeme}
    (hboth : both.further = 1) (halone : alone.further = 0)
    (hpair : both.kind.Written both.literal [c, '='] behind)
    (hsingle : alone.kind.Written alone.literal [c] behind) :
    (withEquals rest both alone).kind.Written (withEquals rest both alone).literal
      (c :: rest.take (withEquals rest both alone).further) behind := by
  unfold withEquals
  split
  next hhead =>
    obtain ⟨more, rfl⟩ := List.head?_eq_some_iff.1 hhead
    rw [hboth]
    exact hpair
  next =>
    rw [halone]
    exact hsingle

theorem written_colon (rest behind : List Char) :
    (lexeme ':' rest).kind.Written (lexeme ':' rest).literal
      (':' :: rest.take (lexeme ':' rest).further) behind := by
  cases rest with
  | nil => exact .inl ⟨rfl, rfl⟩
  | cons d more =>
    rw [lexeme_colon]
    split
    next hcolon =>
      rw [hcolon]
      rfl
    next =>
      split
      next =>
        rw [List.take_succ_cons, take_nameTail, Kind.Written, String.toList_ofList]
      next => exact .inl ⟨rfl, rfl⟩

theorem written_at (rest behind : List Char) :
    (lexeme '@' rest).kind.Written (lexeme '@' rest).literal
      ('@' :: rest.take (lexeme '@' rest).further) behind := by
  cases rest with
  | nil => exact .inl ⟨rfl, rfl⟩
  | cons d more =>
    rw [lexeme_at]
    split
    next =>
      rw [List.take_succ_cons, take_nameTail]
      exact String.toList_ofList.symm
    next => exact .inl ⟨rfl, rfl⟩

/-- A lexeme is written as its category asks. What is behind it counts for a string literal without
end only. One case for each first character. -/
theorem written_lexeme {c : Char} {rest behind : List Char}
    (hopen : c = '"' ∨ c = '\'' → (stringTail c rest).closed = false → behind = []) :
    (lexeme c rest).kind.Written (lexeme c rest).literal (c :: rest.take (lexeme c rest).further)
      behind := by
  unfold lexeme
  dsimp only
  split
  case h_11 => exact written_colon rest behind
  case h_16 => exact written_at rest behind
  case h_12 => exact written_withEquals (by decide) (by decide) rfl (.inl ⟨rfl, rfl⟩)
  case h_13 | h_14 | h_15 => exact written_withEquals (by decide) (by decide) rfl rfl
  case h_17 =>
    by_cases hquote : c = '"' ∨ c = '\''
    · simp only [if_pos hquote]
      by_cases hclosed : (stringTail c rest).closed = true
      · obtain ⟨body, behind, heq, hlength, hquoted⟩ := quoted_stringTail hclosed
        simp only [if_pos hclosed, Kind.Written, String.toList_ofList, take_closing heq hlength]
        exact ⟨c, body, hquote, rfl, hquoted⟩
      · have hbehind := hopen hquote (Bool.eq_false_iff.2 hclosed)
        simp only [if_neg hclosed]
        exact .inr ⟨rfl, hbehind, c, _, hquote, rfl⟩
    · simp only [if_neg hquote]
      by_cases hstart : isNameStart c = true
      · simp only [if_pos hstart, take_nameTail]
        have hname := written_nameKind (String.ofList (c :: nameTail rest)) behind
        rwa [String.toList_ofList] at hname
      · simp only [if_neg hstart]
        by_cases hdigit : Text.isDigit c = true
        · have hnumber := separated_numberTail false rest hdigit
          simp only [if_pos hdigit]
          split
          next => rwa [Kind.Written, String.toList_ofList]
          next => rwa [Kind.Written, String.toList_ofList]
        · simp only [if_neg hdigit]
          exact .inl ⟨by simp, rfl⟩
  all_goals rfl

theorem alone?_lexeme (c : Char) (rest : List Char) :
    alone? (c :: rest.take (lexeme c rest).further) =
      some ((lexeme c rest).kind, (lexeme c rest).literal) := by
  unfold alone?
  dsimp only
  rw [lexeme_take, List.length_take, Nat.min_eq_left (further_le c rest), if_pos rfl]

/-! ### End marks -/

theorem Separated.count_nul {text plain : List Char} (h : Separated text plain) :
    text.count nul = plain.count nul := by
  induction h with
  | nil => rfl
  | char _ _ ih => rw [List.count_cons, List.count_cons, ih]
  | underscore _ _ _ ih =>
    rw [List.count_cons, List.count_cons, ih, List.count_cons]
    rfl

theorem Quoted.count_nul {quote : Char} {body text : List Char} (h : Quoted quote body text) :
    body.count nul = text.count nul := by
  have hslash (rest : List Char) : ('\\' :: rest).count nul = rest.count nul :=
    List.count_cons_of_ne (by decide)
  induction h with
  | nil => rfl
  | plain _ _ _ ih => rw [List.count_cons, List.count_cons, ih]
  | @escaped c _ _ _ _ ih =>
    have hchar : (escapedChar c == nul) = (c == nul) := by
      unfold escapedChar
      by_cases hn : c = 'n'
      · simp [hn, nul]
      · by_cases ht : c = 't'
        · simp [ht, nul]
        · rw [if_neg hn, if_neg ht]
    rw [hslash, List.count_cons, List.count_cons, ih, hchar]
  | special _ _ _ ih => rw [hslash, List.count_cons, List.count_cons, ih]
  | backslash _ _ _ ih => rw [hslash, hslash, ih]

/-- The end marks in a lexeme are those of its literal. -/
theorem Kind.Written.count_nul {kind : Kind} {literal : String} {text behind : List Char}
    (h : kind.Written literal text behind) (hlegal : kind ≠ .illegal) :
    text.count nul = literal.toList.count nul := by
  cases kind with
  | illegal => exact absurd rfl hlegal
  | eof => exact h.elim
  | symbol =>
    obtain rfl : text = ':' :: literal.toList := h
    exact List.count_cons_of_ne (by decide)
  | int => exact Separated.count_nul h
  | float => exact Separated.count_nul h
  | string =>
    obtain ⟨quote, body, hquote, rfl, hquoted⟩ := h
    have hplain : nul ≠ quote := by rcases hquote with rfl | rfl <;> decide
    rw [List.count_append, List.count_cons_of_ne hplain.symm, hquoted.count_nul,
      List.count_singleton]
    simp [hplain.symm]
  | _ =>
    obtain rfl : text = literal.toList := h
    rfl

/-! ### Texts -/

/-- How far a text is read: what was read is tiled by the tokens, and an end mark begins what is
left. All end marks that were read belong to literals, unless there are illegal tokens. -/
structure ReadsUpTo (before : List Char) (found : List Token × Option Pos)
    (read rest : List Char) : Prop where
  tiles : Tiles before found.1 read
  head_eq : ∀ c ∈ rest.head?, c = nul
  stop_eq : found.2 = if rest = [] then none else some (.behind (before ++ read))
  count_eq : (∀ token ∈ found.1, token.kind ≠ .illegal) →
    read.count nul = (found.1.flatMap (·.literal.toList)).count nul

/-- The gap at the front of a text, in front of which nothing was skipped. -/
theorem gapLength_take_append_drop (text : List Char) :
    gapLength false (text.take (gapLength false text) ++ text.drop (gapLength false text)) =
      (text.take (gapLength false text)).length := by
  rw [List.take_append_drop, List.length_take, Nat.min_eq_left (gapLength_le false text)]

/-- A text without tokens is a gap up to its end mark. -/
theorem readsUpTo_gap (before text : List Char)
    (hhead : ∀ c ∈ (text.drop (gapLength false text)).head?, c = nul) :
    ReadsUpTo before (scan (.behind before) text) (text.take (gapLength false text))
      (text.drop (gapLength false text)) := by
  have hlength := gapLength_take_append_drop text
  have hcount : (text.take (gapLength false text)).count nul = 0 :=
    List.count_eq_zero.2 (nul_not_mem_of_gapLength hlength)
  obtain ⟨body, gap, hgap, -, hbody, -, hskipped⟩ :=
    gap_of_length [] hlength (fun _ hc => by cases hc)
  rw [hbody rfl, List.nil_append] at hgap
  rw [← hgap] at hskipped
  rw [scan_eq]
  cases hdrop : text.drop (gapLength false text) with
  | nil => exact ⟨.done hskipped, fun _ hc => (by cases hc), rfl, fun _ => hcount⟩
  | cons c rest =>
    rw [hdrop] at hhead
    dsimp only
    rw [if_pos (hhead c rfl)]
    refine ⟨.done hskipped, hhead, ?_, fun _ => hcount⟩
    rw [if_neg (by simp), Pos.behind_append]

theorem readsUpTo_nothing (before : List Char) {text : List Char}
    (hhead : ∀ c ∈ text.head?, c = nul) :
    ReadsUpTo before (scan (.behind before) text) [] text := by
  have hgap : gapLength false text = 0 := by
    cases text with
    | nil => rfl
    | cons c rest =>
      rw [hhead c rfl]
      rfl
  have hreads := readsUpTo_gap before text
  rw [hgap] at hreads
  exact hreads hhead

/-- A gap and a lexeme in front of what is read. -/
theorem ReadsUpTo.next {before gap rest read left : List Char} {c : Char}
    {more : List Token × Option Pos} (hgap : gapLength false (gap ++ c :: rest) = gap.length)
    (hc : c ≠ nul) (hopen : c = '"' ∨ c = '\'' → (stringTail c rest).closed = false → read = [])
    (h : ReadsUpTo (before ++ gap ++ c :: rest.take (lexeme c rest).further) more read left) :
    ReadsUpTo before
      (⟨(lexeme c rest).kind, (lexeme c rest).literal, .behind (before ++ gap)⟩ :: more.1, more.2)
      (gap ++ c :: rest.take (lexeme c rest).further ++ read) left := by
  have hwritten := written_lexeme hopen
  obtain ⟨body, skipped, hsplit, -, hbody, -, hskipped⟩ := gap_of_length
    (c :: rest.take (lexeme c rest).further ++ read) hgap
    (fun d hd => ⟨hd, Option.some.inj hd ▸ hc⟩)
  rw [hbody rfl, List.nil_append] at hsplit
  rw [← hsplit] at hskipped
  constructor
  · exact .next hskipped rfl (alone?_lexeme c rest) hwritten h.tiles
  · exact h.head_eq
  · rw [h.stop_eq]
    simp only [List.append_assoc]
  · intro hlegal
    obtain ⟨hfirst, hrest⟩ := List.forall_mem_cons.1 hlegal
    have hnone := List.count_eq_zero.2 (nul_not_mem_of_gapLength hgap)
    rw [List.count_append, List.count_append, hnone, hwritten.count_nul hfirst, h.count_eq hrest,
      List.flatMap_cons, List.count_append, Nat.zero_add]

/-- Every text is read to its end or to an end mark. -/
theorem exists_readsUpTo (before text : List Char) :
    ∃ read rest, text = read ++ rest ∧
      ReadsUpTo before (scan (.behind before) text) read rest := by
  generalize hpos : Pos.behind before = pos
  induction pos, text using scan_induction generalizing before with
  | step pos text ih =>
    subst hpos
    by_cases hend : ∀ c ∈ (text.drop (gapLength false text)).head?, c = nul
    · exact ⟨_, _, (List.take_append_drop _ _).symm, readsUpTo_gap before text hend⟩
    · have hlength := gapLength_take_append_drop text
      have hsplit := List.take_append_drop (gapLength false text) text
      rw [scan_eq]
      cases hdrop : text.drop (gapLength false text) with
      | nil => simp [hdrop] at hend
      | cons c rest =>
        have hc : c ≠ nul := by simpa [hdrop] using hend
        have hmore := ih c rest hdrop hc
        rw [hdrop] at hlength hsplit
        generalize text.take (gapLength false text) = gap at hlength hsplit hmore ⊢
        dsimp only
        rw [if_neg hc]
        simp only [Pos.behind_append] at hmore ⊢
        -- A literal without end is followed by nothing, or by an end mark.
        obtain ⟨read, left, hleft, hopen, hreads⟩ : ∃ read left,
            rest.drop (lexeme c rest).further = read ++ left ∧
            (c = '"' ∨ c = '\'' → (stringTail c rest).closed = false → read = []) ∧
            ReadsUpTo (before ++ gap ++ c :: rest.take (lexeme c rest).further)
              (scan (.behind (before ++ gap ++ c :: rest.take (lexeme c rest).further))
                (rest.drop (lexeme c rest).further)) read left := by
          by_cases hopen : (c = '"' ∨ c = '\'') ∧ (stringTail c rest).closed = false
          · refine ⟨[], _, rfl, fun _ _ => rfl, readsUpTo_nothing _ ?_⟩
            rw [lexeme_of_open hopen.1 hopen.2]
            exact head?_drop_of_open hopen.2
          · obtain ⟨read, left, hleft, hreads⟩ := hmore _ rfl
            exact ⟨read, left, hleft, fun hquote hclosed => absurd ⟨hquote, hclosed⟩ hopen, hreads⟩
        refine ⟨_, left, ?_, hreads.next hlength hc hopen⟩
        rw [List.append_assoc, ← hleft, List.append_assoc, List.cons_append, List.take_append_drop,
          hsplit]

/-- The reading of a text without end marks tiles it, and goes on to its end. -/
theorem tiles_scan {text : List Char} (hnul : nul ∉ text) (before : List Char) :
    Tiles before (scan (.behind before) text).1 text ∧ (scan (.behind before) text).2 = none := by
  obtain ⟨read, rest, htext, hreads⟩ := exists_readsUpTo before text
  have hrest : rest = [] := by
    cases rest with
    | nil => rfl
    | cons c more =>
      rw [htext, hreads.head_eq c rfl] at hnul
      simp at hnul
  rw [hrest, List.append_nil] at htext
  have htiles := hreads.tiles
  have hstop := hreads.stop_eq
  rw [← htext] at htiles
  rw [if_pos hrest] at hstop
  exact ⟨htiles, hstop⟩

/-- A tiled text has, for each of its tokens, a place that the token is at. -/
theorem Tiles.split {before text : List Char} {tokens : List Token} (h : Tiles before tokens text)
    {token : Token} (hmem : token ∈ tokens) :
    ∃ front behind, before ++ text = front ++ behind ∧ token.pos = .behind front := by
  induction h with
  | done => cases hmem
  | @next before gap text rest first tokens _ hpos _ _ _ ih =>
    rcases List.mem_cons.1 hmem with rfl | hmem
    · exact ⟨before ++ gap, text ++ rest, by simp only [List.append_assoc], hpos⟩
    · obtain ⟨front, behind, hsplit, hplace⟩ := ih hmem
      exact ⟨front, behind, by rw [← hsplit]; simp only [List.append_assoc], hplace⟩

/-- The end of a text that is not empty counts as the place of its last character. -/
theorem ofLast_eq_behind {text : List Char} (h : text ≠ []) :
    Pos.ofLast text = .behind text.dropLast := by
  rw [Pos.ofLast, if_neg (by simpa using h), Pos.after_start]

/-- A source without end marks is tiled by its tokens. If it is not empty, there is a code frame for
each of them and for the end: it has the place as it is and the line around this place. -/
theorem ofSource_tiles {source : String} (hnul : nul ∉ source.toList) :
    Tiles [] (Stream.ofSource source).tokens source.toList ∧
      (source ≠ "" → ∀ token ∈ (Stream.ofSource source).listing, ∃ before behind,
        source.toList = before ++ behind ∧ token.pos = .behind before ∧
        codeFrame source token.pos =
          some (frameText token.pos (Text.lastLine before ++ behind.takeWhile (· != '\n')))) := by
  obtain ⟨htiles, hstop⟩ : Tiles [] (scan .start source.toList).1 source.toList ∧
      (scan .start source.toList).2 = none := tiles_scan hnul []
  refine ⟨htiles, fun hne token hmem => ?_⟩
  obtain ⟨before, behind, hsource, hpos⟩ :
      ∃ before behind, source.toList = before ++ behind ∧ token.pos = .behind before := by
    rcases List.mem_append.1 hmem with hmem | hmem
    · exact htiles.split hmem
    · have hlist : source.toList ≠ [] := by simpa using hne
      refine ⟨source.toList.dropLast, [source.toList.getLast hlist],
        (List.dropLast_append_getLast hlist).symm, ?_⟩
      have hend : (Stream.ofSource source).endPos = Pos.ofLast source.toList := by
        change (scan .start source.toList).2.getD (.ofLast source.toList) = _
        rw [hstop, Option.getD_none]
      rw [List.mem_singleton.1 hmem, eof, hend, ofLast_eq_behind hlist]
  refine ⟨before, behind, hsource, hpos, ?_⟩
  rw [hpos]
  exact codeFrame_behind hne hsource

/-- A text with a comment, a separator in a number, an escaped quote, a symbol and a literal without
end. -/
def unclosedSample : String := "x = 1_000 # sum\n  y.z? \"a\\\"b\" :k ! 'open"

theorem ofSource_tiles_unclosedSample :
    (Stream.ofSource unclosedSample).listing.map
        (fun token => (token.kind, token.literal, token.pos)) =
        [(.ident, "x", ⟨1, 1⟩), (.assign, "=", ⟨1, 3⟩), (.int, "1000", ⟨1, 5⟩),
          (.ident, "y", ⟨2, 3⟩), (.dot, ".", ⟨2, 4⟩), (.ident, "z?", ⟨2, 5⟩),
          (.string, "a\"b", ⟨2, 8⟩),
          (.symbol, "k", ⟨2, 15⟩), (.illegal, "!", ⟨2, 18⟩),
          (.illegal, "unterminated string", ⟨2, 20⟩), (.eof, "", ⟨2, 24⟩)] ∧
      nul ∉ unclosedSample.toList ∧ unclosedSample ≠ "" ∧
      Tiles [] (Stream.ofSource unclosedSample).tokens unclosedSample.toList ∧
      (∀ token ∈ (Stream.ofSource unclosedSample).listing, ∃ before behind,
        unclosedSample.toList = before ++ behind ∧ token.pos = .behind before ∧
        codeFrame unclosedSample token.pos =
          some (frameText token.pos (Text.lastLine before ++ behind.takeWhile (· != '\n')))) := by
  have hnul : nul ∉ unclosedSample.toList := by decide +kernel
  have hne : unclosedSample ≠ "" := by decide +kernel
  obtain ⟨htiles, hframes⟩ := ofSource_tiles hnul
  exact ⟨by decide +kernel, hnul, hne, htiles, hframes hne⟩

end Garnet.Token
