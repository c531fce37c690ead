import Garnet.Proofs.Layout.Pieces
import Garnet.Proofs.Parse.Joining
import Garnet.Proofs.Parse.Layout
import Garnet.Proofs.Token.Tiling

/-! # Line ends inside of string literals

A line end in a double-quoted literal can be written as it is or with a backslash and a letter, and
the literal denotes the same text. The grammar asks whether two tokens start on one line, though,
not whether a line ends between them. So a line end inside of a literal separates what follows the
literal from it, as if it stood behind the closing quote.
-/

namespace Garnet

namespace Token

/-! ### What stands in front of a literal -/

/-- No token begins where a text ends or has an end mark. -/
theorem scan_of_head (pos : Pos) {text : List Char} (h : ∀ c ∈ text.head?, c = nul) :
    (scan pos text).1 = [] := by
  rcases scan_pieces pos text with ⟨hscan, -⟩ | ⟨_, _, _, _, _, -, hpieces, -⟩
  · exact hscan
  · rw [pieces_of_head h] at hpieces
    cases hpieces

/-- A lexeme that other tokens follow does not depend on what stands behind a later quote. -/
theorem lexeme_before_quote {c : Char} {rest front tail : List Char} {pos : Pos}
    (hdrop : rest.drop (lexeme c rest).further = front ++ '"' :: tail)
    (hnext : (scan pos (front ++ '"' :: tail)).1 ≠ []) (tail' : List Char) :
    lexeme c (rest.take (lexeme c rest).further ++ (front ++ '"' :: tail')) = lexeme c rest := by
  have hclosed (hquote : c = '"' ∨ c = '\'') :
      (stringTail c (rest.take (lexeme c rest).further ++ front)).closed = true := by
    by_cases hend : (stringTail c rest).closed = true
    · have hagain : (stringTail c (rest.take (lexeme c rest).further)).closed = true := by
        rw [lexeme_of_closed hquote hend, stringTail_take hend, hend]
      rw [stringTail_append hagain, hagain]
    · -- Nothing follows a literal without end.
      have hopen : (stringTail c rest).closed = false := Bool.eq_false_iff.2 hend
      have hhead := head?_drop_of_open hopen
      rw [lexeme_of_open hquote hopen] at hdrop
      rw [hdrop] at hhead
      exact absurd (scan_of_head pos hhead) hnext
  have hrest : rest.take (lexeme c rest).further ++ front ++ '"' :: tail = rest := by
    rw [List.append_assoc, ← hdrop, List.take_append_drop]
  have hquote : separates '"' = true := rfl
  have hsame := lexeme_append_of_separates hclosed hquote tail
  rw [hrest] at hsame
  rw [← List.append_assoc, lexeme_append_of_separates hclosed hquote, ← hsame]

/-- A gap, and the lexeme behind it. -/
theorem pieces_of_gap {gap rest : List Char} {c : Char}
    (hgap : gapLength false (gap ++ c :: rest) = gap.length) (hnul : c ≠ nul) :
    pieces (gap ++ c :: rest) =
      ⟨gap.contains '\n', c :: rest.take (lexeme c rest).further, (lexeme c rest).kind,
        (lexeme c rest).literal⟩ :: pieces (rest.drop (lexeme c rest).further) := by
  have hafter : afterGap false (gap ++ c :: rest) = c :: rest := by
    rw [afterGap, hgap, List.drop_left]
  rw [pieces_cons hafter hnul, breaks, hgap, List.take_left]

/-- A token behind the first lexeme has this lexeme in front of it. -/
theorem exists_front_of_mem_rest {pos : Pos} {gap rest front tail : List Char} {c : Char}
    {token : Token} (htext : front ++ tail = gap ++ c :: rest) (hpos : token.pos = pos.after front)
    (h : token ∈ (scan ((pos.after gap).after (c :: rest.take (lexeme c rest).further))
      (rest.drop (lexeme c rest).further)).1) :
    ∃ later, front = gap ++ c :: (rest.take (lexeme c rest).further ++ later) ∧
      later ++ tail = rest.drop (lexeme c rest).further ∧
      token.pos = ((pos.after gap).after (c :: rest.take (lexeme c rest).further)).after later := by
  obtain ⟨later, ⟨behind, hlater⟩, hplace⟩ := exists_prefix_of_mem_scan h
  have hcut : rest.take (lexeme c rest).further ++ (later ++ behind) = rest := by
    rw [hlater, List.take_append_drop]
  have hprefix : gap ++ c :: (rest.take (lexeme c rest).further ++ later) <+: gap ++ c :: rest := by
    refine ⟨behind, ?_⟩
    rw [List.append_assoc, List.cons_append, List.append_assoc, hcut]
  have hsame : pos.after front =
      pos.after (gap ++ c :: (rest.take (lexeme c rest).further ++ later)) := by
    rw [← hpos, hplace, ← List.cons_append, Pos.after_append, Pos.after_append]
  obtain rfl := Pos.eq_of_after_eq ⟨_, htext⟩ hprefix hsame
  refine ⟨later, rfl, ?_, hplace⟩
  rw [List.append_assoc, List.cons_append, List.append_assoc] at htext
  have hrest := (List.cons.inj (List.append_cancel_left htext)).2
  rw [← hlater]
  exact List.append_cancel_left (hrest.trans hcut.symm)

/-- The pieces in front of a double-quoted literal do not depend on the literal and on what follows
it. -/
theorem exists_pieces_before_literal {pos : Pos} {front tail : List Char} {token : Token}
    (h : token ∈ (scan pos (front ++ '"' :: tail)).1) (hpos : token.pos = pos.after front) :
    token.kind = (lexeme '"' tail).kind ∧ ∃ found broken, ∀ tail', pieces (front ++ '"' :: tail') =
      found ++ ⟨broken, '"' :: tail'.take (lexeme '"' tail').further, (lexeme '"' tail').kind,
        (lexeme '"' tail').literal⟩ :: pieces (tail'.drop (lexeme '"' tail').further) := by
  generalize htext : front ++ '"' :: tail = text at h
  induction pos, text using scan_induction generalizing front with
  | step pos text ih =>
    obtain ⟨gap, c, rest, rfl, hgap, hnul, hcase⟩ := mem_scan_cases h
    rw [hgap, List.take_left, List.drop_left] at ih
    rcases hcase with rfl | hmem
    · -- The token itself: what is skipped in front of it is all that stands in front.
      obtain rfl : gap = front :=
        Pos.eq_of_after_eq (List.prefix_append _ _) ⟨_, htext⟩ hpos
      obtain ⟨rfl, rfl⟩ := List.cons.inj (List.append_cancel_left htext)
      refine ⟨rfl, [], gap.contains '\n', fun tail' => ?_⟩
      exact pieces_of_gap (gapLength_congr hgap (by simp)) hnul
    · -- A later token: the first lexeme stands in front, too.
      obtain ⟨later, rfl, hlater, hplace⟩ := exists_front_of_mem_rest htext hpos hmem
      obtain ⟨hkind, found, broken, hfound⟩ := ih c rest rfl hnul hplace hlater hmem
      rw [← hlater] at hmem
      have hlexeme := lexeme_before_quote hlater.symm (List.ne_nil_of_mem hmem)
      have hlength : (rest.take (lexeme c rest).further).length = (lexeme c rest).further := by
        rw [List.length_take, Nat.min_eq_left (further_le c rest)]
      refine ⟨hkind, ⟨gap.contains '\n', c :: rest.take (lexeme c rest).further,
        (lexeme c rest).kind, (lexeme c rest).literal⟩ :: found, broken, fun tail' => ?_⟩
      rw [List.append_assoc, List.cons_append, List.append_assoc,
        pieces_of_gap (gapLength_congr hgap (by simp)) hnul, hlexeme, List.take_left' hlength,
        List.drop_left' hlength, hfound, List.cons_append]

/-- What the grammar can see of the pieces in front of another one. -/
theorem Piece.exists_layout_append (found : List Piece) (broken : Bool) :
    ∃ before, ∀ piece rest, piece.broken = broken →
      layout (found ++ piece :: rest) = before ++ layout (piece :: rest) := by
  induction found with
  | nil => exact ⟨[], fun _ _ _ => rfl⟩
  | cons first found ih =>
    obtain ⟨before, hbefore⟩ := ih
    cases found with
    | nil =>
      refine ⟨⟨first.kind, first.literal, !first.text.contains '\n' && !broken⟩ :: before,
        fun piece rest hpiece => ?_⟩
      rw [List.cons_append, layout, hbefore piece rest hpiece, ← hpiece]
      rfl
    | cons second found =>
      refine ⟨⟨first.kind, first.literal, !first.text.contains '\n' && !second.broken⟩ :: before,
        fun piece rest hpiece => ?_⟩
      rw [List.cons_append, layout, hbefore piece rest hpiece]
      rfl

/-- What the grammar can see of a text with a double-quoted literal. -/
theorem exists_layout_before_literal {pos : Pos} {front tail : List Char} {token : Token}
    (h : token ∈ (scan pos (front ++ '"' :: tail)).1) (hpos : token.pos = pos.after front) :
    token.kind = (lexeme '"' tail).kind ∧ ∃ before, ∀ body literal behind,
      lexeme '"' (body ++ '"' :: behind) = ⟨.string, literal, body.length + 1⟩ →
        Piece.layout (pieces (front ++ '"' :: (body ++ '"' :: behind))) =
          before ++ ⟨.string, literal,
            (pieces behind).head?.any fun next => !body.contains '\n' && !next.broken⟩ ::
              Piece.layout (pieces behind) := by
  obtain ⟨hkind, found, broken, hpieces⟩ := exists_pieces_before_literal h hpos
  obtain ⟨before, hbefore⟩ := Piece.exists_layout_append found broken
  refine ⟨hkind, before, fun body literal behind hlexeme => ?_⟩
  have hdrop : (body ++ '"' :: behind).drop (body.length + 1) = behind := by
    rw [List.drop_length_add_append]
    rfl
  rw [hpieces, hlexeme, take_closing rfl rfl, hdrop, hbefore _ _ rfl, Piece.layout]
  simp

/-! ### What a literal denotes -/

theorem lexeme_of_stringTail {rest text : List Char} {length : Nat}
    (h : stringTail '"' rest = ⟨text, length, true⟩) :
    lexeme '"' rest = ⟨.string, String.ofList text, length⟩ := by
  rw [lexeme_of_closed (.inl rfl) (congrArg StringTail.closed h), h]

/-- What was read of a closed literal is read again whatever follows. -/
theorem Quoted.stringTail_append {body text tail : List Char} (h : Quoted '"' body text)
    (hclosed : (stringTail '"' (body ++ tail)).closed = true) (tail' : List Char) :
    stringTail '"' (body ++ tail') =
      ⟨text ++ (stringTail '"' tail').text, body.length + (stringTail '"' tail').length,
        (stringTail '"' tail').closed⟩ := by
  induction h with
  | nil => simp
  | @plain c body text hc hslash _ ih =>
    have hnul : c ≠ nul := by
      -- An end mark would end the literal without closing it.
      rintro rfl
      rw [List.cons_append, stringTail_nul] at hclosed
      cases hclosed
    rw [List.cons_append, stringTail_plain hnul hc hslash] at hclosed ⊢
    rw [ih hclosed, StringTail.extend]
    simp [Nat.add_right_comm]
  | @escaped c body text _ _ ih =>
    rw [List.cons_append, List.cons_append, stringTail_escaped] at hclosed ⊢
    rw [ih hclosed, StringTail.extend]
    simp [Nat.add_right_comm]
  | special hsingle => exact absurd hsingle (by decide)
  | backslash hsingle => exact absurd hsingle (by decide)

/-- A literal with a line end in it, and the same with an escape for the line end: both are closed
by the same quote and denote the same text. -/
theorem Quoted.exists_lexemes {inner outer text : List Char} (h : Quoted '"' inner text)
    (hclosed : (stringTail '"' (inner ++ '\n' :: outer)).closed = true) :
    ∃ close closeText behind literal, outer = close ++ '"' :: behind ∧ Quoted '"' close closeText ∧
      ∀ behind',
        lexeme '"' (inner ++ '\n' :: close ++ '"' :: behind') =
          ⟨.string, literal, (inner ++ '\n' :: close).length + 1⟩ ∧
        lexeme '"' (inner ++ '\\' :: 'n' :: close ++ '"' :: behind') =
          ⟨.string, literal, (inner ++ '\\' :: 'n' :: close).length + 1⟩ := by
  have hread := h.stringTail_append hclosed
  have hnewline (rest : List Char) :
      stringTail '"' ('\n' :: rest) = (stringTail '"' rest).extend '\n' 1 :=
    stringTail_plain (by decide) (by decide) (by decide) rest
  have houter : (stringTail '"' outer).closed = true := by
    rw [hread, hnewline] at hclosed
    exact hclosed
  obtain ⟨close, behind, rfl, -, hclose⟩ := quoted_stringTail houter
  generalize (stringTail '"' (close ++ '"' :: behind)).text = closeText at hclose
  refine ⟨close, closeText, behind, String.ofList (text ++ '\n' :: closeText), rfl, hclose,
    fun behind' => ?_⟩
  have hrest : stringTail '"' (close ++ '"' :: behind') = ⟨closeText, close.length + 1, true⟩ := by
    rw [hclose.stringTail_append houter, stringTail_quote (by decide), List.append_nil]
  constructor
  · apply lexeme_of_stringTail
    rw [List.append_assoc, List.cons_append, hread, hnewline, hrest, StringTail.extend]
    simp [Nat.add_assoc]
  · apply lexeme_of_stringTail
    rw [List.append_assoc, List.cons_append, List.cons_append, hread, stringTail_escaped, hrest,
      StringTail.extend]
    simp [escapedChar, Nat.add_assoc]

end Token

/-! ### Both spellings -/

namespace Parse

open Token

/-- A line end inside of a closed double-quoted literal of a source. In front of it in the literal
stands `inner`, which is read to its end, so that no backslash takes the line end. -/
structure LineEndInLiteral (source : String) (front inner outer : List Char) : Prop where
  source_eq : source.toList = front ++ '"' :: (inner ++ '\n' :: outer)
  literal : ∃ token ∈ (Stream.ofSource source).tokens,
    token.kind = .string ∧ token.pos = .behind front
  quoted : ∃ text, Quoted '"' inner text

/-- The source with an escape in place of the line end. -/
def respelled (front inner outer : List Char) : String :=
  String.ofList (front ++ '"' :: (inner ++ '\\' :: 'n' :: outer))

/-- What the grammar can see of the source, of the source with the escape, and of the latter with
the line end behind the literal. -/
theorem LineEndInLiteral.exists_layouts {source : String} {front inner outer : List Char}
    (h : LineEndInLiteral source front inner outer) :
    ∃ close behind text, outer = close ++ '"' :: behind ∧ Quoted '"' close text ∧
      ∃ before after literal near,
        layout (Stream.ofSource source).tokens = before ++ ⟨.string, literal, false⟩ :: after ∧
        layout (Stream.ofSource (respelled front inner outer)).tokens =
          before ++ ⟨.string, literal, near⟩ :: after ∧
        layout (Stream.ofSource (respelled front inner (close ++ '"' :: '\n' :: behind))).tokens =
          before ++ ⟨.string, literal, false⟩ :: after := by
  obtain ⟨hsource, ⟨token, hmem, hkind, hpos⟩, innerText, hinner⟩ := h
  have hscan : token ∈ (scan .start source.toList).1 := hmem
  rw [hsource] at hscan
  rw [← Pos.after_start] at hpos
  obtain ⟨hfirst, before, hlayout⟩ := exists_layout_before_literal hscan hpos
  have hclosed : (stringTail '"' (inner ++ '\n' :: outer)).closed = true := by
    refine closed_of_kind ?_ (.inl rfl)
    rw [← hfirst, hkind]
    decide
  obtain ⟨close, closeText, behind, literal, rfl, hclose, hlexemes⟩ :=
    hinner.exists_lexemes hclosed
  have hraw := hlayout _ _ _ (hlexemes behind).1
  have hescaped := hlayout _ _ _ (hlexemes behind).2
  have hmoved := hlayout _ _ _ (hlexemes ('\n' :: behind)).2
  simp only [List.append_assoc, List.cons_append] at hraw hescaped hmoved
  refine ⟨close, behind, closeText, rfl, hclose, before, Piece.layout (pieces behind), literal,
    (pieces behind).head?.any fun next =>
      !(inner ++ '\\' :: 'n' :: close).contains '\n' && !next.broken, ?_, ?_, ?_⟩
  · -- There is a line end in the literal.
    have hfar : ((pieces behind).head?.any fun next =>
        !(inner ++ '\n' :: close).contains '\n' && !next.broken) = false := by
      simp
    rw [layout_tokens, hsource, hraw, hfar]
  · rw [layout_tokens, respelled, String.toList_ofList, hescaped]
  · -- There is a line end behind the literal.
    have hfar : ((pieces ('\n' :: behind)).head?.any fun next =>
        !(inner ++ '\\' :: 'n' :: close).contains '\n' && !next.broken) = false := by
      rw [pieces_newline]
      cases pieces behind <;> simp
    rw [hfar, Piece.layout_newline] at hmoved
    rw [layout_tokens, respelled, String.toList_ofList, hmoved]

end Parse

open Parse

/-- A line end in a literal counts as if it stood behind the literal. A source with an escape in its
place is read like the source itself if behind the literal there is a line end anyway, or
nothing. -/
theorem parse_respelled {source : String} {front inner outer : List Char}
    (h : LineEndInLiteral source front inner outer) :
    ∃ close behind text, outer = close ++ '"' :: behind ∧ Token.Quoted '"' close text ∧
      ∃ before after literal near,
        Token.layout (Token.Stream.ofSource source).tokens =
          before ++ ⟨.string, literal, false⟩ :: after ∧
        Token.layout (Token.Stream.ofSource (respelled front inner outer)).tokens =
          before ++ ⟨.string, literal, near⟩ :: after ∧
        ∀ locals,
          SameResult (parse source locals)
            (parse (respelled front inner (close ++ '"' :: '\n' :: behind)) locals) ∧
          (near = false →
            SameResult (parse source locals) (parse (respelled front inner outer) locals)) := by
  obtain ⟨close, behind, text, houter, hclose, before, after, literal, near, hraw, hescaped,
    hmoved⟩ := h.exists_layouts
  refine ⟨close, behind, text, houter, hclose, before, after, literal, near, hraw, hescaped,
    fun locals => ⟨?_, ?_⟩⟩
  · exact .of_layout (hmoved.trans hraw.symm) fun _ => rfl
  · rintro rfl
    exact .of_layout (hescaped.trans hraw.symm) fun _ => rfl

/-- A call with a line end in its argument, behind an escaped quote, and another call on the next
line. -/
def spanningCall : String := "puts \"a\\\"\nb\" # c\nputs 'd'"

theorem parse_respelled_spanningCall :
    respelled "puts ".toList "a\\\"".toList "b\" # c\nputs 'd'".toList =
        "puts \"a\\\"\\nb\" # c\nputs 'd'" ∧
      LineEndInLiteral spanningCall "puts ".toList "a\\\"".toList "b\" # c\nputs 'd'".toList ∧
      ∀ locals, SameResult (parse spanningCall locals)
        (parse (respelled "puts ".toList "a\\\"".toList "b\" # c\nputs 'd'".toList) locals) := by
  have hliteral :
      LineEndInLiteral spanningCall "puts ".toList "a\\\"".toList "b\" # c\nputs 'd'".toList := by
    refine ⟨by decide +kernel, ⟨⟨.string, "a\"\nb", ⟨1, 6⟩⟩, by decide +kernel⟩, ['a', '"'], ?_⟩
    exact .plain (by decide) (by decide) (.escaped (by decide) .nil)
  obtain ⟨_, _, _, -, -, before, after, literal, near, hraw, hescaped, hresults⟩ :=
    parse_respelled hliteral
  have hsame : before ++ ⟨.string, literal, near⟩ :: after =
      before ++ ⟨.string, literal, false⟩ :: after := by
    rw [← hescaped, ← hraw]
    decide +kernel
  have hnear : near = false :=
    (Token.Outline.mk.inj (List.cons.inj (List.append_cancel_left hsame)).1).2.2
  exact ⟨by decide +kernel, hliteral, fun locals => (hresults locals).2 hnear⟩

/-- The spelling of a line end in a literal decides whether a text is accepted: behind a literal
with a line end two statements need no separator, and an operator does not go on with the
expression. -/
theorem parse_respelled_differs :
    (LineEndInLiteral "\"a\nb\" 'c'" [] ['a'] "b\" 'c'".toList ∧
      (∃ tree, parse "\"a\nb\" 'c'" [] = .ok tree) ∧
      ∃ error, parse (respelled [] ['a'] "b\" 'c'".toList) [] = .error error) ∧
    LineEndInLiteral "\"a\nb\" + 'c'" [] ['a'] "b\" + 'c'".toList ∧
      (∃ error, parse "\"a\nb\" + 'c'" [] = .error error) ∧
      ∃ tree, parse (respelled [] ['a'] "b\" + 'c'".toList) [] = .ok tree := by
  have hquoted : ∃ text, Token.Quoted '"' ['a'] text := ⟨_, .plain (by decide) (by decide) .nil⟩
  have haccepted {source text : String}
      (h : (parse source []).toOption.map Node.textOf = some text) :
      ∃ tree, parse source [] = .ok tree := by
    obtain ⟨tree, hparse, -⟩ := exists_of_parse_map h
    exact ⟨tree, hparse⟩
  have hrefused {source : String} (h : (parse source []).toOption.map Node.textOf = none) :
      ∃ error, parse source [] = .error error := by
    cases hparse : parse source [] with
    | error error => exact ⟨error, rfl⟩
    | ok tree =>
      rw [hparse] at h
      cases h
  have hstatements : (parse "\"a\nb\" 'c'" []).toOption.map Node.textOf =
      some "(begin (str \"a\\nb\") (str \"c\"))" := by decide +kernel
  have hoperation : (parse (respelled [] ['a'] "b\" + 'c'".toList) []).toOption.map Node.textOf =
      some "(send (str \"a\\nb\") :+ (str \"c\"))" := by decide +kernel
  refine ⟨⟨⟨by decide +kernel, ⟨⟨.string, "a\nb", .start⟩, by decide +kernel⟩, hquoted⟩,
    haccepted hstatements, hrefused (by decide +kernel)⟩,
    ⟨by decide +kernel, ⟨⟨.string, "a\nb", .start⟩, by decide +kernel⟩, hquoted⟩,
    hrefused (by decide +kernel), haccepted hoperation⟩

end Garnet
