import Garnet.Proofs.Token.Joining

/-! # The pieces of a text

What the grammar can see of a text are its tokens and, for any two neighbours, whether they start on
one line. Both can be read off the pieces that the lexer cuts the text into, without counting lines:
two neighbours are on one line if there is no line end from the start of the one to the other.
-/

namespace Garnet

/-- What the grammar can see of a token: not its place, but whether the next token starts on the
same line. After the last token there is none. -/
structure Token.Outline where
  kind : Token.Kind
  literal : String
  close : Bool
deriving DecidableEq

/-- What the grammar can see of a list of tokens. -/
def Token.layout : List Token → List Token.Outline
  | [] => []
  | token :: rest =>
    ⟨token.kind, token.literal, rest.head?.any fun next => token.pos.line == next.pos.line⟩ ::
      layout rest

theorem Token.map_kind_layout (tokens : List Token) :
    (layout tokens).map Outline.kind = tokens.map Token.kind := by
  induction tokens with
  | nil => rfl
  | cons token rest ih => exact congrArg (token.kind :: ·) ih

theorem Token.length_layout (tokens : List Token) : (layout tokens).length = tokens.length := by
  have hkinds := congrArg List.length (map_kind_layout tokens)
  rwa [List.length_map, List.length_map] at hkinds

namespace Token

/-- A lexeme where it stands. -/
structure Piece where
  /-- Whether a line ends in the gap in front of it. -/
  broken : Bool
  /-- The characters it consists of. -/
  text : List Char
  kind : Kind
  literal : String
deriving DecidableEq

/-- The pieces of a text. -/
def pieces (text : List Char) : List Piece :=
  let gap := gapLength false text
  match _hrest : text.drop gap with
  | [] => []
  | c :: rest =>
    if c = nul then []
    else
      let found := lexeme c rest
      ⟨(text.take gap).contains '\n', c :: rest.take found.further, found.kind, found.literal⟩ ::
        pieces (rest.drop found.further)
termination_by text.length
decreasing_by
  have hlength := congrArg List.length _hrest
  simp only [List.length_drop, List.length_cons] at hlength ⊢
  omega

/-- What follows the gap at the front of a text. -/
def afterGap (inComment : Bool) (text : List Char) : List Char :=
  text.drop (gapLength inComment text)

/-- Whether a line ends in the gap at the front of a text. -/
def breaks (inComment : Bool) (text : List Char) : Bool :=
  (text.take (gapLength inComment text)).contains '\n'

section Step

variable {text rest : List Char} {c : Char}

theorem pieces_nil (h : afterGap false text = []) : pieces text = [] := by
  rw [pieces]
  split
  next => rfl
  next c rest hdrop =>
    rw [afterGap, hdrop] at h
    cases h

/-- An end mark hides what follows it. -/
theorem pieces_nul (h : afterGap false text = nul :: rest) : pieces text = [] := by
  rw [pieces]
  split
  next => rfl
  next c more hdrop =>
    rw [afterGap, hdrop] at h
    cases h
    rw [if_pos rfl]

/-- One step of the reading: a gap, and the lexeme behind it. -/
theorem pieces_cons (h : afterGap false text = c :: rest) (hnul : c ≠ nul) :
    pieces text =
      ⟨breaks false text, c :: rest.take (lexeme c rest).further, (lexeme c rest).kind,
        (lexeme c rest).literal⟩ :: pieces (rest.drop (lexeme c rest).further) := by
  rw [pieces]
  split
  next hdrop =>
    rw [afterGap, hdrop] at h
    cases h
  next hdrop =>
    rw [afterGap, hdrop] at h
    cases h
    rw [if_neg hnul]
    rfl

end Step

/-- What the grammar can see of a list of pieces. -/
def Piece.layout : List Piece → List Outline
  | [] => []
  | piece :: rest =>
    ⟨piece.kind, piece.literal,
      rest.head?.any fun next => !piece.text.contains '\n' && !next.broken⟩ :: layout rest

theorem Piece.map_kind_layout (pieces : List Piece) :
    (layout pieces).map Outline.kind = pieces.map Piece.kind := by
  induction pieces with
  | nil => rfl
  | cons piece rest ih => exact congrArg (piece.kind :: ·) ih

end Token

theorem Pos.line_after (pos : Pos) (text : List Char) :
    (pos.after text).line = pos.line + text.count '\n' := by
  induction text generalizing pos with
  | nil => simp
  | cons c rest ih =>
    rw [after_cons, ih, List.count_cons]
    by_cases hc : c = '\n'
    · rw [next, if_pos hc, if_pos (beq_iff_eq.2 hc)]
      dsimp only
      omega
    · rw [next, if_neg hc, if_neg (by simpa using hc)]
      simp

/-- The line is the same unless a line ends in between. -/
theorem Pos.line_beq_after (pos : Pos) (text : List Char) :
    (pos.line == (pos.after text).line) = !text.contains '\n' := by
  have hcount : text.count '\n' = 0 ↔ '\n' ∉ text := List.count_eq_zero
  rw [line_after, Bool.eq_iff_iff, beq_iff_eq, Bool.not_eq_true', ← Bool.not_eq_true,
    List.contains_iff_mem, ← hcount]
  omega

namespace Token

/-- The first token of a text is the first piece, behind a gap. -/
theorem scan_pieces (pos : Pos) (text : List Char) :
    (scan pos text).1 = [] ∧ pieces text = [] ∨
      ∃ token tokens piece rest gap, (scan pos text).1 = token :: tokens ∧
        pieces text = piece :: rest ∧ token.pos = pos.after gap ∧
          piece.broken = gap.contains '\n' := by
  rw [scan_eq]
  cases hdrop : text.drop (gapLength false text) with
  | nil => exact .inl ⟨rfl, pieces_nil hdrop⟩
  | cons c rest =>
    dsimp only
    split
    next hnul => exact .inl ⟨rfl, pieces_nul (hnul ▸ hdrop)⟩
    next hnul => exact .inr ⟨_, _, _, _, _, rfl, pieces_cons hdrop hnul, rfl, rfl⟩

theorem layout_scan (pos : Pos) (text : List Char) :
    layout (scan pos text).1 = Piece.layout (pieces text) := by
  induction pos, text using scan_induction with
  | step pos text ih =>
    rw [scan_eq]
    cases hdrop : text.drop (gapLength false text) with
    | nil =>
      rw [pieces_nil hdrop]
      rfl
    | cons c rest =>
      dsimp only
      split
      next hnul =>
        rw [pieces_nul (hnul ▸ hdrop)]
        rfl
      next hnul =>
        have hrest := ih c rest hdrop hnul
        rw [pieces_cons hdrop hnul]
        rcases scan_pieces ((pos.after (text.take (gapLength false text))).after
          (c :: rest.take (lexeme c rest).further)) (rest.drop (lexeme c rest).further) with
          ⟨htokens, hpieces⟩ | ⟨token, tokens, piece, more, gap, htokens, hpieces, hpos, hbroken⟩
        · rw [htokens, hpieces]
          rfl
        · rw [htokens, hpieces] at hrest ⊢
          rw [layout, Piece.layout, hrest, List.head?_cons, List.head?_cons, Option.any_some,
            Option.any_some, hpos, ← Pos.after_append, Pos.line_beq_after, hbroken,
            List.contains_append, Bool.not_or]

theorem layout_tokens (source : String) :
    layout (Stream.ofSource source).tokens = Piece.layout (pieces source.toList) :=
  layout_scan .start source.toList

/-- The kinds of the pieces are the kinds of the tokens. -/
theorem map_kind_pieces (pos : Pos) (text : List Char) :
    (pieces text).map Piece.kind = (scan pos text).1.map Token.kind := by
  rw [← Piece.map_kind_layout, ← layout_scan pos, map_kind_layout]

end Token

end Garnet
