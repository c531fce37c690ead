import Garnet.Proofs.Layout.Meaning
import Garnet.Proofs.Token.Tiling

/-! # Formatting keeps the tokens

Whether a text is accepted or not, the grammar cannot tell it from its laid out form, as long as
carriage returns come with line feeds and string literals stay on their lines. A literal without end
is no exception: it goes on to the end of the text, over lines that are laid out like all others,
but none of the blanks that change there can close it.
-/

namespace Garnet

namespace Layout

open Token

/-- Each carriage return has a line feed behind it. -/
def ReturnsPaired : List Char → Prop
  | [] => True
  | c :: rest => (c = '\r' → rest.head? = some '\n') ∧ ReturnsPaired rest

instance decidableReturnsPaired : (text : List Char) → Decidable (ReturnsPaired text)
  | [] => .isTrue trivial
  | c :: rest =>
    have := decidableReturnsPaired rest
    inferInstanceAs (Decidable ((c = '\r' → rest.head? = some '\n') ∧ ReturnsPaired rest))

namespace ReturnsPaired

theorem returnsEndLines {text : List Char} (h : ReturnsPaired text) : ReturnsEndLines text := by
  induction text with
  | nil => trivial
  | cons c rest ih =>
    refine ⟨fun hc => ?_, ih h.2⟩
    obtain ⟨more, rfl⟩ := List.head?_eq_some_iff.1 (h.1 hc)
    exact .inl rfl

theorem of_append {front rest : List Char} (h : ReturnsPaired (front ++ rest)) :
    ReturnsPaired rest := by
  induction front with
  | nil => exact h
  | cons c front ih => exact ih h.2

/-- Without line ends there are no carriage returns, unless the last character is one. -/
theorem not_mem {body behind : List Char} {last : Char} (h : ReturnsPaired (body ++ last :: behind))
    (hlast : last ≠ '\n') (hbody : '\n' ∉ body) : '\r' ∉ body := by
  induction body with
  | nil => exact List.not_mem_nil
  | cons c body ih =>
    obtain ⟨hc, hrest⟩ := not_or.1 (List.mem_cons.not.1 hbody)
    rw [List.mem_cons, not_or]
    refine ⟨?_, ih h.2 hrest⟩
    rintro rfl
    have hnext := h.1 rfl
    cases body with
    | nil => exact hlast (Option.some.inj hnext)
    | cons d body => exact hrest (Option.some.inj hnext ▸ List.mem_cons_self)

end ReturnsPaired

end Layout

namespace Token

/-- A piece stands in its text, and it is written as its category asks. -/
theorem written_of_mem_pieces {text : List Char} {piece : Piece} (h : piece ∈ pieces text) :
    (∃ front behind, text = front ++ (piece.text ++ behind)) ∧
      piece.kind.Written piece.literal piece.text [] := by
  have pos : Pos := .start
  induction pos, text using scan_induction with
  | step pos text ih =>
    have hsplit := List.take_append_drop (gapLength false text) text
    cases hdrop : afterGap false text with
    | nil =>
      rw [pieces_nil hdrop] at h
      cases h
    | cons c rest =>
      by_cases hnul : c = nul
      · rw [pieces_nul (hnul ▸ hdrop)] at h
        cases h
      · rw [pieces_cons hdrop hnul] at h
        rw [afterGap] at hdrop
        rw [hdrop] at hsplit
        rcases List.mem_cons.1 h with rfl | hmem
        · refine ⟨⟨text.take (gapLength false text), rest.drop (lexeme c rest).further, ?_⟩,
            written_lexeme fun _ _ => rfl⟩
          rw [List.cons_append, List.take_append_drop, hsplit]
        · obtain ⟨⟨front, behind, heq⟩, hwritten⟩ := ih c rest hdrop hnul hmem
          refine ⟨⟨text.take (gapLength false text) ++
            (c :: rest.take (lexeme c rest).further ++ front), behind, ?_⟩, hwritten⟩
          rw [List.append_assoc, List.append_assoc, ← heq, List.cons_append, List.take_append_drop,
            hsplit]

/-- A literal that stays on its line is steady, if carriage returns are paired. -/
theorem steady_of_newline_not_mem {text : List Char} {piece : Piece} (h : piece ∈ pieces text)
    (hreturns : Layout.ReturnsPaired text) (hstring : piece.kind = .string)
    (hline : '\n' ∉ piece.text) : Steady piece.text := by
  obtain ⟨⟨front, behind, rfl⟩, hwritten⟩ := written_of_mem_pieces h
  rw [hstring] at hwritten
  obtain ⟨quote, body, hquote, htext, -⟩ := hwritten
  obtain ⟨hnewline, hreturn⟩ : quote ≠ '\n' ∧ '\r' ≠ quote := by
    rcases hquote with rfl | rfl <;> decide
  have hpaired := hreturns.of_append
  rw [htext, List.append_assoc, List.singleton_append] at hpaired
  have hbody : '\r' ∉ quote :: body := by
    refine hpaired.not_mem hnewline fun hmem => hline ?_
    rw [htext]
    exact List.mem_append_left _ hmem
  constructor
  · rw [htext, List.mem_append, List.mem_singleton, not_or]
    exact ⟨hbody, hreturn⟩
  all_goals exact fun hpart => hline (hpart.subset (by simp))

end Token

/-- The grammar cannot tell any text from its laid out form, if each carriage return has a line feed
behind it and no string literal has a line end. -/
theorem layout_format {source : String} (hreturns : Layout.ReturnsPaired source.toList)
    (hlines : ∀ piece ∈ Token.pieces source.toList, piece.kind = .string → '\n' ∉ piece.text) :
    Token.layout (Token.Stream.ofSource (Layout.format source)).tokens =
      Token.layout (Token.Stream.ofSource source).tokens := by
  have hsame := Layout.samePieces_formatChars hreturns.returnsEndLines fun piece hmem hstring =>
    Token.steady_of_newline_not_mem hmem hreturns hstring (hlines piece hmem hstring)
  rw [Token.layout_ofSource, Token.layout_ofSource, Layout.format, String.toList_ofList,
    hsame.layout_eq]

/-- Tabs, carriage returns, blanks at line ends, empty lines, a comment, a character that begins no
token, and a literal that is never closed: a quote of the other kind and an escaped quote stand on
its further lines, and a backslash at the end of one. -/
def Layout.ragged : String :=
  "\r\n\tx.y? $ \t\r\n\r\n\n\n\t\tz 'a\t' # b \r\n\n\"c\t\r\n\n\n\td 'e' \\ \t\n\t\\\"f \n\n"

theorem layout_format_ragged :
    Layout.format Layout.ragged =
        "  x.y? $\n\n    z 'a\t' # b\n\n\"c\n\n  d 'e' \\\n  \\\"f\n" ∧
      Token.layout (Token.Stream.ofSource (Layout.format Layout.ragged)).tokens =
        [⟨.ident, "x", true⟩, ⟨.dot, ".", true⟩, ⟨.ident, "y?", true⟩, ⟨.illegal, "$", false⟩,
          ⟨.ident, "z", true⟩, ⟨.string, "a\t", false⟩,
          ⟨.illegal, "unterminated string", false⟩] := by
  have htokens : Token.layout (Token.Stream.ofSource Layout.ragged).tokens =
      [⟨.ident, "x", true⟩, ⟨.dot, ".", true⟩, ⟨.ident, "y?", true⟩, ⟨.illegal, "$", false⟩,
        ⟨.ident, "z", true⟩, ⟨.string, "a\t", false⟩,
        ⟨.illegal, "unterminated string", false⟩] := by decide +kernel
  refine ⟨by decide +kernel, ?_⟩
  rw [layout_format (by decide +kernel) (by decide +kernel), htokens]

end Garnet
