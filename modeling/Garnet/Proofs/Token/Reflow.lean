import Garnet.Proofs.Token.Pieces
import Mathlib.Data.List.Infix

/-! # Texts that differ in blanks

The lexer gives meaning to blanks inside of string literals only. Here is a relation between two
texts that allows to change blanks where a line begins and where it ends, and to drop empty lines.
If no string literal has blanks of the kinds that may change, the two texts have the same pieces.
-/

namespace Garnet.Token

/-- A line ends in front of the text, or the text does. -/
def AtLineEnd (text : List Char) : Prop :=
  ∀ c ∈ text.head?, c = '\n'

/-- Up to the next line end there are only blanks. -/
def EndsLine : List Char → Prop
  | [] => True
  | c :: rest => c = '\n' ∨ (c = ' ' ∨ c = '\t' ∨ c = '\r') ∧ EndsLine rest

instance decidableEndsLine : (text : List Char) → Decidable (EndsLine text)
  | [] => .isTrue trivial
  | c :: rest =>
    have := decidableEndsLine rest
    inferInstanceAs (Decidable (c = '\n' ∨ (c = ' ' ∨ c = '\t' ∨ c = '\r') ∧ EndsLine rest))

/-- `Reflow start x y`: the text `y` is the text `x` after changes of its blanks. Blanks in front of
a line end may be dropped, and a carriage return there may become a line end; tabs at the start of a
line may become spaces, of several line ends in a row all but two may go, and the last line may get
an end. `start` says whether a line starts here. -/
inductive Reflow : Bool → List Char → List Char → Prop
  | done {start} : Reflow start [] []
  | final {start} : Reflow start [] ['\n']
  | keep {start x y} (c : Char) (rest : Reflow (c == '\n') x y) : Reflow start (c :: x) (c :: y)
  | trailing {start x y} {c : Char} (hc : c = ' ' ∨ c = '\t' ∨ c = '\r') (hend : AtLineEnd y)
      (rest : Reflow false x y) : Reflow start (c :: x) y
  | lone {start x y} (hend : EndsLine x) (rest : Reflow true x y) :
      Reflow start ('\r' :: x) ('\n' :: y)
  | tab {x y} (rest : Reflow true x y) : Reflow true ('\t' :: x) (' ' :: ' ' :: y)
  | empty {start x y} (hend : AtLineEnd y) (rest : Reflow true x ('\n' :: y)) :
      Reflow start ('\n' :: x) ('\n' :: y)

/-! ### Gaps -/

/-- What a gap does with one more character in front. -/
structure SkipsTo (inComment : Bool) (c : Char) (rest : List Char) (still : Bool) : Prop where
  afterGap_eq : afterGap inComment (c :: rest) = afterGap still rest
  breaks_eq : breaks inComment (c :: rest) = (c == '\n' || breaks still rest)

theorem SkipsTo.of_length {inComment still : Bool} {c : Char} {rest : List Char}
    (h : gapLength inComment (c :: rest) = gapLength still rest + 1) :
    SkipsTo inComment c rest still := by
  constructor
  · rw [afterGap, h]
    rfl
  · rw [breaks, h, List.take_succ_cons, List.contains_cons, Bool.beq_comm]
    rfl

/-- A character belongs to the gap, or the gap ends in front of it. -/
theorem skipsTo_or (inComment : Bool) (c : Char) :
    (∃ still, ∀ rest, SkipsTo inComment c rest still) ∨
      isGapBlank c = false ∧ ∀ rest, afterGap inComment (c :: rest) = c :: rest ∧
        breaks inComment (c :: rest) = false := by
  rcases gapLength_cons inComment c with ⟨-, still, hskip⟩ | ⟨hblank, hstop⟩
  · exact .inl ⟨still, fun rest => .of_length (hskip rest)⟩
  · refine .inr ⟨hblank, fun rest => ?_⟩
    rw [afterGap, breaks, hstop rest]
    exact ⟨rfl, rfl⟩

/-- A gap does not end in front of a blank. -/
theorem isGapBlank_afterGap (inComment : Bool) (text : List Char) :
    ∀ c ∈ (afterGap inComment text).head?, isGapBlank c = false := by
  induction text generalizing inComment with
  | nil => exact fun _ h => by cases h
  | cons c rest ih =>
    rcases skipsTo_or inComment c with ⟨still, hskip⟩ | ⟨hblank, hstop⟩
    · rw [(hskip rest).afterGap_eq]
      exact ih still
    · rw [(hstop rest).1]
      intro d hd
      cases hd
      exact hblank

theorem skipsTo_blank {c : Char} (hc : c = ' ' ∨ c = '\t' ∨ c = '\r') (inComment : Bool)
    (rest : List Char) : SkipsTo inComment c rest inComment := by
  apply SkipsTo.of_length
  cases inComment <;> rcases hc with rfl | rfl | rfl <;> rfl

theorem skipsTo_newline (inComment : Bool) (rest : List Char) :
    SkipsTo inComment '\n' rest false := by
  apply SkipsTo.of_length
  cases inComment <;> rfl

/-- Comments end with the line, and so does the line that a gap starts on. -/
theorem EndsLine.gap {x : List Char} (h : EndsLine x) (inComment : Bool) :
    afterGap inComment x = afterGap false x ∧
      (afterGap inComment x ≠ [] → breaks inComment x = true) := by
  induction x with
  | nil => exact ⟨rfl, fun hne => absurd rfl hne⟩
  | cons c rest ih =>
    rcases h with rfl | ⟨hc, hrest⟩
    · have hskip := skipsTo_newline inComment rest
      have hskip' := skipsTo_newline false rest
      rw [hskip.afterGap_eq, hskip'.afterGap_eq, hskip.breaks_eq]
      exact ⟨rfl, fun _ => rfl⟩
    · have hskip := skipsTo_blank hc inComment rest
      have hskip' := skipsTo_blank hc false rest
      obtain ⟨hafter, hbreaks⟩ := ih hrest
      rw [hskip.afterGap_eq, hskip'.afterGap_eq, hskip.breaks_eq]
      exact ⟨hafter, fun hne => by rw [hbreaks hne, Bool.or_true]⟩

/-- The gaps in front of two such texts end together, and a line ends in both of them or in none,
unless there is nothing behind them. -/
theorem Reflow.gap {start : Bool} {x y : List Char} (h : Reflow start x y) (inComment : Bool) :
    (∃ start', Reflow start' (afterGap inComment x) (afterGap inComment y)) ∧
      (afterGap inComment x ≠ [] → breaks inComment x = breaks inComment y) := by
  induction h generalizing inComment with
  | @done start => exact ⟨⟨start, .done⟩, fun _ => rfl⟩
  | @final start =>
    refine ⟨⟨start, ?_⟩, fun hne => absurd rfl hne⟩
    rw [(skipsTo_newline inComment []).afterGap_eq]
    exact .done
  | @keep start x y c rest ih =>
    rcases skipsTo_or inComment c with ⟨still, hskip⟩ | ⟨-, hstop⟩
    · rw [(hskip x).afterGap_eq, (hskip y).afterGap_eq, (hskip x).breaks_eq, (hskip y).breaks_eq]
      obtain ⟨hrest, hbreaks⟩ := ih still
      exact ⟨hrest, fun hne => congrArg (c == '\n' || ·) (hbreaks hne)⟩
    · rw [(hstop x).1, (hstop y).1, (hstop x).2, (hstop y).2]
      exact ⟨⟨start, .keep c rest⟩, fun _ => rfl⟩
  | @trailing start x y c hc _ _ ih =>
    have hskip := skipsTo_blank hc inComment x
    have hne : (c == '\n') = false := by rcases hc with rfl | rfl | rfl <;> rfl
    rw [hskip.afterGap_eq, hskip.breaks_eq, hne, Bool.false_or]
    exact ih inComment
  | @lone start x y hend _ ih =>
    have hskip := skipsTo_blank (.inr (.inr rfl)) inComment x
    have hline := skipsTo_newline inComment y
    obtain ⟨hafter, hbreaks⟩ := hend.gap inComment
    rw [hskip.afterGap_eq, hskip.breaks_eq, hline.afterGap_eq, hline.breaks_eq]
    refine ⟨?_, hbreaks⟩
    rw [hafter]
    exact (ih false).1
  | @tab x y _ ih =>
    have hskip := skipsTo_blank (.inr (.inl rfl)) inComment x
    have hfirst := skipsTo_blank (.inl rfl) inComment (' ' :: y)
    have hsecond := skipsTo_blank (.inl rfl) inComment y
    rw [hskip.afterGap_eq, hskip.breaks_eq, hfirst.afterGap_eq, hfirst.breaks_eq,
      hsecond.afterGap_eq, hsecond.breaks_eq]
    exact ih inComment
  | @empty start x y _ _ ih =>
    have hfirst := skipsTo_newline inComment x
    have hsecond := skipsTo_newline inComment y
    have hthird := skipsTo_newline false y
    obtain ⟨hrest, -⟩ := ih false
    rw [hthird.afterGap_eq] at hrest
    rw [hfirst.afterGap_eq, hfirst.breaks_eq, hsecond.afterGap_eq, hsecond.breaks_eq]
    exact ⟨hrest, fun _ => rfl⟩

/-! ### Lexemes -/

/-- A text in front of which a lexeme other than a string literal ends. -/
def BlankHead (text : List Char) : Prop :=
  ∀ c ∈ text.head?, isGapBlank c = true

theorem beq_newline_of_solid {c : Char} (h : isGapBlank c = false) : (c == '\n') = false := by
  rw [beq_eq_false_iff_ne]
  rintro rfl
  exact absurd h (by decide)

/-- Such texts begin with the same characters up to the first blank. -/
theorem Reflow.front {start : Bool} {x y : List Char} (h : Reflow start x y)
    (hstart : start = false) : ∃ front xs ys, x = front ++ xs ∧ y = front ++ ys ∧
      (∀ c ∈ front, isGapBlank c = false) ∧ BlankHead xs ∧ BlankHead ys ∧ Reflow false xs ys := by
  induction h with
  | done => exact ⟨[], [], [], rfl, rfl, by simp, by simp [BlankHead], by simp [BlankHead], .done⟩
  | final =>
    refine ⟨[], [], ['\n'], rfl, rfl, by simp, by simp [BlankHead], ?_, .final⟩
    simp [BlankHead, isGapBlank]
  | @keep _ x y c rest ih =>
    by_cases hc : isGapBlank c = true
    · exact ⟨[], c :: x, c :: y, rfl, rfl, by simp, by simp [BlankHead, hc],
        by simp [BlankHead, hc], .keep c rest⟩
    · have hsolid : isGapBlank c = false := by simpa using hc
      obtain ⟨front, xs, ys, rfl, rfl, hfront, hxs, hys, hrest⟩ := ih (beq_newline_of_solid hsolid)
      refine ⟨c :: front, xs, ys, rfl, rfl, ?_, hxs, hys, hrest⟩
      exact List.forall_mem_cons.2 ⟨hsolid, hfront⟩
  | @trailing _ x y c hc hend rest _ =>
    refine ⟨[], c :: x, y, rfl, rfl, by simp, ?_, ?_, .trailing hc hend rest⟩
    · rcases hc with rfl | rfl | rfl <;> simp [BlankHead, isGapBlank]
    · intro d hd
      rw [hend d hd]
      rfl
  | @lone _ x y hend rest _ =>
    exact ⟨[], '\r' :: x, '\n' :: y, rfl, rfl, by simp, by simp [BlankHead, isGapBlank],
      by simp [BlankHead, isGapBlank], .lone hend rest⟩
  | tab => cases hstart
  | @empty _ x y hend rest _ =>
    exact ⟨[], '\n' :: x, '\n' :: y, rfl, rfl, by simp, by simp [BlankHead, isGapBlank],
      by simp [BlankHead, isGapBlank], .empty hend rest⟩

theorem Reflow.append {front xs ys : List Char} (hfront : ∀ c ∈ front, isGapBlank c = false)
    (h : Reflow false xs ys) : Reflow false (front ++ xs) (front ++ ys) := by
  induction front with
  | nil => exact h
  | cons c front ih =>
    refine .keep c ?_
    rw [beq_newline_of_solid (hfront c List.mem_cons_self)]
    exact ih fun d hd => hfront d (List.mem_cons_of_mem _ hd)

theorem lexeme_append_blank {c : Char} {front more : List Char}
    (hquote : ¬ (c = '"' ∨ c = '\'')) (hmore : BlankHead more) :
    lexeme c (front ++ more) = lexeme c front := by
  cases more with
  | nil => rw [List.append_nil]
  | cons blank more => exact lexeme_append (fun h => absurd h hquote) (hmore blank rfl) more

/-- What the lexer finds behind a first character: the same lexeme, of the same characters, and
behind it two such texts again. -/
structure SameLexeme (c : Char) (x y : List Char) : Prop where
  lexeme_eq : lexeme c y = lexeme c x
  text : y.take (lexeme c x).further = x.take (lexeme c x).further
  rest : Reflow false (x.drop (lexeme c x).further) (y.drop (lexeme c x).further)

theorem Reflow.sameLexeme {c : Char} {x y : List Char} (h : Reflow false x y)
    (hquote : ¬ (c = '"' ∨ c = '\'')) : SameLexeme c x y := by
  obtain ⟨front, xs, ys, rfl, rfl, hfront, hxs, hys, hrest⟩ := h.front rfl
  have hle := further_le c front
  constructor
  · rw [lexeme_append_blank hquote hys, lexeme_append_blank hquote hxs]
  · rw [lexeme_append_blank hquote hxs, List.take_append_of_le_length hle,
      List.take_append_of_le_length hle]
  · rw [lexeme_append_blank hquote hxs, List.drop_append_of_le_length hle,
      List.drop_append_of_le_length hle]
    exact .append (fun d hd => hfront d (List.mem_of_mem_drop hd)) hrest

/-! ### String literals -/

/-- Blanks that are not touched wherever they stand: there is no carriage return, no other blank in
front of a line end, no tab behind one, and there are no three line ends in a row. -/
structure Steady (text : List Char) : Prop where
  noReturn : '\r' ∉ text
  noSpace : ¬ [' ', '\n'] <:+: text
  noTrailingTab : ¬ ['\t', '\n'] <:+: text
  noTab : ¬ ['\n', '\t'] <:+: text
  noRun : ¬ ['\n', '\n', '\n'] <:+: text

instance decidableSteady (text : List Char) : Decidable (Steady text) :=
  decidable_of_iff ('\r' ∉ text ∧ ¬ [' ', '\n'] <:+: text ∧ ¬ ['\t', '\n'] <:+: text ∧
      ¬ ['\n', '\t'] <:+: text ∧ ¬ ['\n', '\n', '\n'] <:+: text)
    ⟨fun ⟨hreturn, hspace, htrailing, htab, hrun⟩ => ⟨hreturn, hspace, htrailing, htab, hrun⟩,
      fun h => ⟨h.noReturn, h.noSpace, h.noTrailingTab, h.noTab, h.noRun⟩⟩

theorem Steady.tail {c : Char} {text : List Char} (h : Steady (c :: text)) : Steady text where
  noReturn hmem := h.noReturn (List.mem_cons_of_mem _ hmem)
  noSpace hpart := h.noSpace (hpart.trans (List.suffix_cons c text).isInfix)
  noTrailingTab hpart := h.noTrailingTab (hpart.trans (List.suffix_cons c text).isInfix)
  noTab hpart := h.noTab (hpart.trans (List.suffix_cons c text).isInfix)
  noRun hpart := h.noRun (hpart.trans (List.suffix_cons c text).isInfix)

theorem infix_cons_of_head? {c d : Char} {text : List Char} (h : text.head? = some d) :
    [c, d] <:+: c :: text := by
  obtain ⟨rest, rfl⟩ := List.head?_eq_some_iff.1 h
  exact ⟨[], rest, rfl⟩

/-- A character that is no blank is kept. -/
theorem Reflow.solid {start : Bool} {c : Char} {x y : List Char} (h : Reflow start (c :: x) y)
    (hc : isGapBlank c = false) : ∃ y', y = c :: y' ∧ Reflow false x y' := by
  cases h with
  | @keep _ _ y _ rest =>
    rw [beq_newline_of_solid hc] at rest
    exact ⟨y, rfl, rest⟩
  | trailing hblank => rcases hblank with rfl | rfl | rfl <;> exact absurd hc (by decide)
  | lone => exact absurd hc (by decide)
  | tab => exact absurd hc (by decide)
  | empty => exact absurd hc (by decide)

/-- A literal with steady blanks is the same in two such texts, up to its closing quote. -/
theorem Reflow.literal {start : Bool} {body xs y : List Char} {quote : Char}
    (h : Reflow start (body ++ quote :: xs) y) (hsteady : Steady (body ++ [quote]))
    (hquote : isGapBlank quote = false)
    (hstart : start = true → (body ++ [quote]).head? ≠ some '\t') :
    ∃ ys, y = body ++ quote :: ys ∧ Reflow false xs ys := by
  -- A literal that a line end comes first in goes on behind it.
  have hfirst (body ys : List Char) (hend : AtLineEnd (body ++ quote :: ys)) :
      ∃ rest, body = '\n' :: rest := by
    cases body with
    | nil =>
      rw [hend quote rfl] at hquote
      exact absurd hquote (by decide)
    | cons c rest => exact ⟨rest, by rw [hend c rfl]⟩
  induction body generalizing start y with
  | nil => exact h.solid hquote
  | cons c body ih =>
    rw [List.cons_append] at h hsteady hstart
    have htab : c = '\n' → (body ++ [quote]).head? ≠ some '\t' := by
      rintro rfl htab
      exact hsteady.noTab (infix_cons_of_head? htab)
    cases h with
    | keep _ rest =>
      obtain ⟨ys, rfl, hrest⟩ := ih rest hsteady.tail fun hline => htab (beq_iff_eq.1 hline)
      exact ⟨ys, rfl, hrest⟩
    | trailing hc hend rest =>
      obtain ⟨ys, rfl, -⟩ := ih rest hsteady.tail (fun hfalse => by cases hfalse)
      obtain ⟨more, rfl⟩ := hfirst body ys hend
      rcases hc with rfl | rfl | rfl
      · exact absurd (infix_cons_of_head? rfl) hsteady.noSpace
      · exact absurd (infix_cons_of_head? rfl) hsteady.noTrailingTab
      · exact absurd List.mem_cons_self hsteady.noReturn
    | lone => exact absurd List.mem_cons_self hsteady.noReturn
    | tab => exact absurd rfl (hstart rfl)
    | @empty _ _ y hend rest =>
      obtain ⟨ys, heq, -⟩ := ih rest hsteady.tail fun _ => htab rfl
      obtain ⟨second, rfl⟩ := hfirst body ys (heq ▸ fun _ h => (Option.some.inj h).symm)
      obtain rfl : y = second ++ quote :: ys := (List.cons.inj heq).2
      obtain ⟨third, rfl⟩ := hfirst second ys hend
      exact absurd ⟨[], third ++ [quote], rfl⟩ hsteady.noRun

/-- A closed literal up to its closing quote, behind which anything may stand. -/
theorem exists_body {quote : Char} {x : List Char} (h : (stringTail quote x).closed = true) :
    ∃ body xs, x = body ++ quote :: xs ∧ (stringTail quote x).length = body.length + 1 ∧
      stringTail quote (body ++ [quote]) = stringTail quote x := by
  fun_induction stringTail quote x with
  | case1 => exact absurd h (by simp)
  | case2 => exact absurd h (by simp)
  | case3 rest hnul =>
    refine ⟨[], rest, rfl, rfl, ?_⟩
    rw [List.nil_append, stringTail_quote hnul]
  | case4 => exact absurd h (by simp)
  | case5 e rest hsingle hspecial hnul hquote ih =>
    obtain ⟨body, xs, rfl, hlength, htail⟩ := ih h
    refine ⟨'\\' :: e :: body, xs, rfl, by simp [StringTail.extend, hlength], ?_⟩
    rw [List.cons_append, List.cons_append, stringTail.eq_def]
    dsimp only
    rw [if_neg hnul, if_neg hquote, if_pos rfl, if_pos hsingle, if_pos hspecial, htail]
  | case6 e rest hsingle hspecial hnul hquote ih =>
    obtain ⟨body, xs, heq, hlength, htail⟩ := ih h
    cases body with
    | nil =>
      -- The quote itself would have been escaped.
      obtain ⟨rfl, -⟩ := List.cons.inj heq
      exact absurd (.inl hsingle) hspecial
    | cons d body =>
      obtain rfl : e = d := (List.cons.inj heq).1
      refine ⟨'\\' :: e :: body, xs, congrArg ('\\' :: ·) heq,
        by simp [StringTail.extend, hlength], ?_⟩
      rw [List.cons_append, List.cons_append, stringTail.eq_def]
      dsimp only
      rw [if_neg hnul, if_neg hquote, if_pos rfl, if_pos hsingle, if_neg hspecial,
        ← List.cons_append, htail]
  | case7 e rest hdouble hnul hquote ih =>
    obtain ⟨body, xs, rfl, hlength, htail⟩ := ih h
    refine ⟨'\\' :: e :: body, xs, rfl, by simp [StringTail.extend, hlength], ?_⟩
    rw [List.cons_append, List.cons_append, stringTail.eq_def]
    dsimp only
    rw [if_neg hnul, if_neg hquote, if_pos rfl, if_neg hdouble, htail]
  | case8 c rest hnul hquote hslash ih =>
    obtain ⟨body, xs, rfl, hlength, htail⟩ := ih h
    refine ⟨c :: body, xs, rfl, by simp [StringTail.extend, hlength], ?_⟩
    rw [List.cons_append, stringTail_plain hnul hquote hslash, htail]

theorem lexeme_of_closed {quote : Char} {x : List Char} (hquote : quote = '"' ∨ quote = '\'')
    (h : (stringTail quote x).closed = true) :
    lexeme quote x =
      ⟨.string, String.ofList (stringTail quote x).text, (stringTail quote x).length⟩ := by
  rcases hquote with rfl | rfl
  · simp [lexeme, h]
  · simp [lexeme, h]

theorem Reflow.sameLiteral {quote : Char} {x y : List Char} (h : Reflow false x y)
    (hquote : quote = '"' ∨ quote = '\'') (hclosed : (stringTail quote x).closed = true)
    (hsteady : Steady (x.take (lexeme quote x).further)) : SameLexeme quote x y := by
  have hblank : isGapBlank quote = false := by rcases hquote with rfl | rfl <;> decide
  obtain ⟨body, xs, rfl, hlength, htail⟩ := exists_body hclosed
  have hclosed' : (stringTail quote (body ++ [quote])).closed = true := by rw [htail, hclosed]
  -- What follows the closing quote does not count.
  have hsame (ys : List Char) : stringTail quote (body ++ quote :: ys) =
      stringTail quote (body ++ quote :: xs) := by
    rw [← htail, ← stringTail_append hclosed' ys, List.append_assoc, List.singleton_append]
  have hlexeme := lexeme_of_closed hquote hclosed
  have hfurther : (lexeme quote (body ++ quote :: xs)).further = (body ++ [quote]).length := by
    rw [hlexeme, hlength, List.length_append, List.length_singleton]
  have hsplit (ys : List Char) : body ++ quote :: ys = (body ++ [quote]) ++ ys := by
    rw [List.append_assoc, List.singleton_append]
  rw [hfurther, hsplit xs, List.take_left] at hsteady
  obtain ⟨ys, rfl, hrest⟩ := h.literal hsteady hblank (fun hfalse => by cases hfalse)
  constructor
  · rw [lexeme_of_closed hquote (by rw [hsame, hclosed]), hlexeme, hsame]
  · rw [hfurther, hsplit ys, hsplit xs, List.take_left, List.take_left]
  · rw [hfurther, hsplit ys, hsplit xs, List.drop_left, List.drop_left]
    exact hrest

/-! ### String literals without end -/

section Closed

variable {quote c : Char} {x y : List Char}

theorem closed_cons (hslash : c ≠ '\\') :
    (stringTail quote (c :: x)).closed =
      if c = nul then false else if c = quote then true else (stringTail quote x).closed := by
  by_cases hnul : c = nul
  · rw [if_pos hnul, hnul, stringTail_nul]
  · rw [if_neg hnul]
    by_cases hquote : c = quote
    · rw [if_pos hquote, hquote, stringTail_quote (hquote ▸ hnul)]
    · rw [stringTail_plain hnul hquote hslash, if_neg hquote]
      rfl

/-- Between single quotes an end mark counts behind a backslash, too. -/
theorem closed_backslash_cons (hquote : quote = '"' ∨ quote = '\'') :
    (stringTail quote ('\\' :: c :: x)).closed =
      if quote = '\'' ∧ c = nul then false else (stringTail quote x).closed := by
  have hslash : '\\' ≠ nul ∧ '\\' ≠ quote := by rcases hquote with rfl | rfl <;> decide
  rw [stringTail.eq_def]
  dsimp only
  rw [if_neg hslash.1, if_neg hslash.2, if_pos rfl]
  by_cases hsingle : quote = '\''
  · rw [if_pos hsingle]
    by_cases hspecial : c = '\'' ∨ c = '\\'
    · have hnul : c ≠ nul := by rcases hspecial with rfl | rfl <;> decide
      rw [if_pos hspecial, if_neg fun h => hnul h.2]
      rfl
    · obtain ⟨hother, hplain⟩ := not_or.1 hspecial
      rw [if_neg hspecial, StringTail.extend]
      dsimp only
      simp only [closed_cons hplain, hsingle, if_neg hother, true_and]
  · rw [if_neg hsingle, if_neg fun h => hsingle h.1]
    rfl

theorem closed_backslash_nil (hquote : quote = '"' ∨ quote = '\'') :
    (stringTail quote ['\\']).closed = false := by
  rcases hquote with rfl | rfl <;> rfl

/-- A blank closes no literal, and with a backslash in front of it neither. -/
theorem closed_blank (hquote : quote = '"' ∨ quote = '\'') (hblank : isGapBlank c = true) :
    (stringTail quote (c :: x)).closed = (stringTail quote x).closed ∧
      (stringTail quote ('\\' :: c :: x)).closed = (stringTail quote x).closed := by
  obtain ⟨hslash, hnul, hother⟩ : c ≠ '\\' ∧ c ≠ nul ∧ c ≠ quote := by
    rcases eq_of_isGapBlank hblank with rfl | rfl | rfl | rfl <;>
      rcases hquote with rfl | rfl <;> decide
  constructor
  · rw [closed_cons hslash, if_neg hnul, if_neg hother]
  · rw [closed_backslash_cons hquote, if_neg fun h => hnul h.2]

/-- A backslash in front of a line end does not count. -/
theorem AtLineEnd.closed_backslash (h : AtLineEnd y) (hquote : quote = '"' ∨ quote = '\'') :
    (stringTail quote ('\\' :: y)).closed = (stringTail quote y).closed := by
  cases y with
  | nil => exact closed_backslash_nil hquote
  | cons c rest =>
    have hblank : isGapBlank c = true := by
      rw [h c rfl]
      rfl
    rw [(closed_blank hquote hblank).1, (closed_blank hquote hblank).2]

/-- A literal is closed in both of two such texts or in none. A blank may get lost behind a
backslash, so the texts are compared with a backslash in front of them, too. -/
theorem Reflow.closed_eq {start : Bool} (h : Reflow start x y)
    (hquote : quote = '"' ∨ quote = '\'') :
    (stringTail quote y).closed = (stringTail quote x).closed ∧
      (stringTail quote ('\\' :: y)).closed = (stringTail quote ('\\' :: x)).closed := by
  have hskip {c : Char} {text : List Char} (hblank : isGapBlank c = true) :=
    closed_blank (x := text) hquote hblank
  have hnewline : isGapBlank '\n' = true := rfl
  induction h with
  | done => exact ⟨rfl, rfl⟩
  | final =>
    rw [(hskip hnewline).1, (hskip hnewline).2, closed_backslash_nil hquote]
    exact ⟨rfl, rfl⟩
  | keep c _ ih =>
    constructor
    · by_cases hslash : c = '\\'
      · rw [hslash, ih.2]
      · rw [closed_cons hslash, closed_cons hslash, ih.1]
    · rw [closed_backslash_cons hquote, closed_backslash_cons hquote, ih.1]
  | @trailing _ _ _ c hc hend _ ih =>
    have hblank : isGapBlank c = true := by rcases hc with rfl | rfl | rfl <;> rfl
    rw [(hskip hblank).1, (hskip hblank).2, hend.closed_backslash hquote, ih.1]
    exact ⟨rfl, rfl⟩
  | lone _ _ ih =>
    have hreturn : isGapBlank '\r' = true := rfl
    rw [(hskip hreturn).1, (hskip hreturn).2, (hskip hnewline).1, (hskip hnewline).2, ih.1]
    exact ⟨rfl, rfl⟩
  | tab _ ih =>
    have htab : isGapBlank '\t' = true := rfl
    have hspace : isGapBlank ' ' = true := rfl
    rw [(hskip htab).1, (hskip htab).2, (hskip hspace).1, (hskip hspace).2, (hskip hspace).1, ih.1]
    exact ⟨rfl, rfl⟩
  | empty _ _ ih =>
    obtain ⟨hrest, -⟩ := ih
    rw [(hskip hnewline).1] at hrest
    rw [(hskip hnewline).1, (hskip hnewline).2, (hskip hnewline).1, (hskip hnewline).2, hrest]
    exact ⟨rfl, rfl⟩

end Closed

/-! ### Pieces -/

/-- A string literal without end. -/
def Piece.unclosed (broken : Bool) (text : List Char) : Piece :=
  ⟨broken, text, .illegal, "unterminated string"⟩

/-- Pieces that are the same, except for what the last one consists of if it is a literal without
end. -/
inductive SamePieces : List Piece → List Piece → Prop
  | nil : SamePieces [] []
  | unclosed (broken : Bool) (text text' : List Char) :
    SamePieces [.unclosed broken text] [.unclosed broken text']
  | cons {found found' : List Piece} (piece : Piece) (h : SamePieces found found') :
    SamePieces (piece :: found) (piece :: found')

namespace SamePieces

variable {found found' found'' : List Piece}

theorem refl (found : List Piece) : SamePieces found found := by
  induction found with
  | nil => exact .nil
  | cons piece found ih => exact .cons piece ih

theorem trans (h : SamePieces found found') (h' : SamePieces found' found'') :
    SamePieces found found'' := by
  induction h generalizing found'' with
  | nil => exact h'
  | unclosed broken text text' =>
    cases h' with
    | unclosed _ _ text'' => exact .unclosed broken text text''
    | cons _ h' =>
      cases h'
      exact .unclosed broken text text'
  | @cons found found' piece h ih =>
    cases h' with
    | unclosed broken _ text'' =>
      cases h
      exact .unclosed broken _ text''
    | cons _ h' => exact .cons piece (ih h')

/-- The grammar sees no difference. -/
theorem layout_eq (h : SamePieces found found') : Piece.layout found' = Piece.layout found := by
  induction h with
  | nil => rfl
  | unclosed => rfl
  | @cons found found' piece h ih =>
    have hbroken : found'.head?.map Piece.broken = found.head?.map Piece.broken := by
      cases h <;> rfl
    have hnext (pieces : List Piece) :
        (pieces.head?.any fun next => !piece.text.contains '\n' && !next.broken) =
          (pieces.head?.map Piece.broken).any fun broken =>
            !piece.text.contains '\n' && !broken := by
      cases pieces <;> rfl
    rw [Piece.layout, Piece.layout, ih, hnext, hnext, hbroken]

theorem eq_of_legal (h : SamePieces found found')
    (hlegal : ∀ piece ∈ found, piece.kind ≠ .illegal) : found' = found := by
  induction h with
  | nil => rfl
  | unclosed => exact absurd rfl (hlegal _ List.mem_cons_self)
  | cons piece _ ih => rw [ih fun other hmem => hlegal other (List.mem_cons_of_mem _ hmem)]

/-- What every string literal has in the one list, it has in the other. -/
theorem strings (h : SamePieces found found') {property : List Char → Prop}
    (hall : ∀ piece ∈ found, piece.kind = .string → property piece.text) :
    ∀ piece ∈ found', piece.kind = .string → property piece.text := by
  induction h with
  | nil => exact hall
  | unclosed broken text text' =>
    intro piece hmem hstring
    rw [List.mem_singleton.1 hmem] at hstring
    cases hstring
  | cons first _ ih =>
    obtain ⟨hfirst, hrest⟩ := List.forall_mem_cons.1 hall
    exact List.forall_mem_cons.2 ⟨hfirst, ih hrest⟩

end SamePieces

/-- A token of the language. If it is a string literal, its blanks are steady. -/
structure Piece.Settled (piece : Piece) : Prop where
  legal : piece.kind ≠ .illegal
  steady : piece.kind = .string → Steady piece.text

/-- There are no pieces where a text ends or has an end mark. -/
theorem pieces_of_head {text : List Char} (h : ∀ c ∈ text.head?, c = nul) : pieces text = [] := by
  cases text with
  | nil => exact pieces_nil rfl
  | cons c rest =>
    rw [h c rfl]
    exact pieces_nul rfl

/-- A literal without end is the last piece. -/
theorem pieces_of_open {text rest : List Char} {quote : Char} (hquote : quote = '"' ∨ quote = '\'')
    (hdrop : afterGap false text = quote :: rest) (hopen : (stringTail quote rest).closed = false) :
    pieces text = [.unclosed (breaks false text)
      (quote :: rest.take (stringTail quote rest).length)] := by
  have hnul : quote ≠ nul := by rcases hquote with rfl | rfl <;> decide
  have hrest := pieces_of_head (head?_drop_of_open hopen)
  rw [pieces_cons hdrop hnul, lexeme_of_open hquote hopen, hrest]
  rfl

/-- Two such texts have the same pieces, if the blanks of all literals are steady. -/
theorem Reflow.samePieces {start : Bool} {x y : List Char} (h : Reflow start x y)
    (hsteady : ∀ piece ∈ pieces x, piece.kind = .string → Steady piece.text) :
    SamePieces (pieces x) (pieces y) := by
  have pos : Pos := .start
  induction pos, x using scan_induction generalizing start y with
  | step pos x ih =>
    obtain ⟨⟨start', hgap⟩, hbreaks⟩ := h.gap false
    cases hdrop : afterGap false x with
    | nil =>
      have hnone : afterGap false y = [] := by
        rw [hdrop] at hgap
        cases hafter : afterGap false y with
        | nil => rfl
        | cons d more =>
          have hsolid := isGapBlank_afterGap false y d (by simp [hafter])
          rw [hafter] at hgap
          cases hgap
          exact absurd hsolid (by decide)
      rw [pieces_nil hdrop, pieces_nil hnone]
      exact .nil
    | cons c rest =>
      have hsolid := isGapBlank_afterGap false x c (by simp [hdrop])
      rw [hdrop] at hgap hbreaks
      obtain ⟨rest', hdrop', hrest⟩ := hgap.solid hsolid
      by_cases hnul : c = nul
      · rw [hnul] at hdrop hdrop'
        rw [pieces_nul hdrop, pieces_nul hdrop']
        exact .nil
      · by_cases hopen : (c = '"' ∨ c = '\'') ∧ (stringTail c rest).closed = false
        · obtain ⟨hquote, hopen⟩ := hopen
          have hopen' := (hrest.closed_eq hquote).1.trans hopen
          rw [pieces_of_open hquote hdrop hopen, pieces_of_open hquote hdrop' hopen',
            hbreaks (by simp)]
          exact .unclosed _ _ _
        · have hx := pieces_cons hdrop hnul
          have hy := pieces_cons hdrop' hnul
          rw [hx] at hsteady
          obtain ⟨hfirst, hmore⟩ := List.forall_mem_cons.1 hsteady
          have hpiece : SameLexeme c rest rest' := by
            by_cases hquote : c = '"' ∨ c = '\''
            · have hclosed : (stringTail c rest).closed = true := by simpa [hquote] using hopen
              have hstring : (lexeme c rest).kind = .string := by
                rw [lexeme_of_closed hquote hclosed]
              exact hrest.sameLiteral hquote hclosed (hfirst hstring).tail
            · exact hrest.sameLexeme hquote
          rw [hx, hy, hpiece.lexeme_eq, hpiece.text, hbreaks (by simp)]
          exact .cons _ (ih c rest hdrop hnul hpiece.rest hmore)

end Garnet.Token
