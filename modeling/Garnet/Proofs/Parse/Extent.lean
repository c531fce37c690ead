import Garnet.Proofs.Parse.Joining
import Garnet.Proofs.Token.Tiling

/-! # How much of a text is read

The lexer takes the character U+0000 for the end of the text. It is an ordinary character behind a
backslash in a double-quoted literal only; wherever else the lexer comes to it, the reading ends
there without a fault, and whatever follows is lost. An accepted text is read to its end exactly if
all its end marks are found again in the literals of its tokens.
-/

namespace Garnet

open Token

/-- All tokens of an accepted text are tokens of the language. -/
theorem legal_tokens_of_parse {source : String} {locals : List String} {tree : Option Node}
    (h : parse source locals = .ok tree) :
    ∀ token ∈ (Stream.ofSource source).tokens, token.kind ≠ .illegal := by
  obtain ⟨nodes, t, -, hderives⟩ := derives_of_parse h
  exact (hderives.tokens_of_program fun _ => kind_ne_eof_of_mem_scan).2

/-- What is left of a text that is read up to an end mark can be told from the number of marks. -/
theorem Token.ReadsUpTo.rest_eq_nil_iff {before read rest : List Char}
    {found : List Token × Option Pos} (h : ReadsUpTo before found read rest)
    (hlegal : ∀ token ∈ found.1, token.kind ≠ .illegal) :
    rest = [] ↔ (read ++ rest).count nul = (found.1.flatMap (·.literal.toList)).count nul := by
  rw [List.count_append, h.count_eq hlegal]
  constructor
  · rintro rfl
    rfl
  · intro hcount
    have hnone : nul ∉ rest := List.count_eq_zero.1 (Nat.add_eq_left.1 hcount)
    cases rest with
    | nil => rfl
    | cons c more =>
      rw [h.head_eq c rfl] at hnone
      exact absurd List.mem_cons_self hnone

/-- Every source is tiled by its tokens up to its end or up to an end mark, where its end is then
reported. If the source is accepted, nothing is left exactly if the literals of the tokens have all
of its end marks. -/
theorem parse_extent (source : String) :
    ∃ read rest, source.toList = read ++ rest ∧ Tiles [] (Stream.ofSource source).tokens read ∧
      (∀ c ∈ rest.head?, c = nul) ∧
      (rest ≠ [] → (Stream.ofSource source).endPos = .behind read) ∧
      ∀ locals tree, parse source locals = .ok tree →
        (rest = [] ↔ source.toList.count nul =
          ((Stream.ofSource source).tokens.flatMap (·.literal.toList)).count nul) := by
  obtain ⟨read, rest, hsource, hreads⟩ : ∃ read rest, source.toList = read ++ rest ∧
      ReadsUpTo [] (scan .start source.toList) read rest := exists_readsUpTo [] source.toList
  refine ⟨read, rest, hsource, hreads.tiles, hreads.head_eq, fun hne => ?_, fun locals tree h => ?_⟩
  · have hstop := hreads.stop_eq
    rw [if_neg hne] at hstop
    change (scan .start source.toList).2.getD (.ofLast source.toList) = .behind read
    rw [hstop, Option.getD_some, List.nil_append]
  · rw [hsource]
    exact hreads.rest_eq_nil_iff (legal_tokens_of_parse h)

/-- A call with an end mark in its argument, and one behind it that hides an error. -/
def cutSample : String := "puts \"a\\\x00b\" # c\x00 )"

theorem parse_extent_cutSample :
    (parse cutSample []).toOption.map Node.textOf =
        some "(send nil :puts (str \"a\\x00b\"))" ∧
      ∃ read rest, cutSample.toList = read ++ rest ∧
        Tiles [] (Stream.ofSource cutSample).tokens read ∧ rest.head? = some nul ∧
        (Stream.ofSource cutSample).endPos = .behind read := by
  have htext : (parse cutSample []).toOption.map Node.textOf =
      some "(send nil :puts (str \"a\\x00b\"))" := by decide +kernel
  obtain ⟨tree, hparse, -⟩ := exists_of_parse_map htext
  obtain ⟨read, rest, hsource, htiles, hhead, hend, hextent⟩ := parse_extent cutSample
  have hne : rest ≠ [] := by
    intro hnil
    exact absurd ((hextent [] tree hparse).1 hnil) (by decide +kernel)
  obtain ⟨c, more, rfl⟩ := List.exists_cons_of_ne_nil hne
  exact ⟨htext, read, c :: more, hsource, htiles, congrArg some (hhead c rfl), hend hne⟩

/-- A gap begins with a blank or a comment. -/
theorem Token.Gap.head {behind gap : List Char} (h : Gap behind gap) :
    ∀ c ∈ gap.head?, isGapBlank c = true ∨ c = '#' := by
  intro c hc
  cases h with
  | nil => cases hc
  | blank hblank => exact .inl (Option.some.inj hc ▸ hblank)
  | comment => exact .inr (Option.some.inj hc).symm

/-- An accepted text need not be read to its end: here a parenthesis that nothing opens is lost. -/
theorem parse_cut_by_nul :
    ∃ tree, parse "a\x00)" [] = .ok tree ∧
      ¬ Tiles [] (Stream.ofSource "a\x00)").tokens "a\x00)".toList := by
  have htext : (parse "a\x00)" []).toOption.map Node.textOf = some "(send nil :a)" := by
    decide +kernel
  obtain ⟨tree, hparse, -⟩ := exists_of_parse_map htext
  refine ⟨tree, hparse, ?_⟩
  have htokens : (Stream.ofSource "a\x00)").tokens = [⟨.ident, "a", .start⟩] := by decide +kernel
  rw [htokens]
  generalize hsource : "a\x00)".toList = text
  intro htiles
  cases htiles with
  | @next _ gap text rest _ _ hgap _ _ hwritten hrest =>
    obtain rfl : text = ['a'] := hwritten
    cases gap with
    | cons c gap =>
      -- The name would have to belong to a gap.
      obtain rfl : 'a' = c := (List.cons.inj hsource).1
      exact absurd (hgap.head 'a' rfl) (by decide)
    | nil =>
      obtain rfl : [nul, ')'] = rest := (List.cons.inj hsource).2
      cases hrest with
      | done hgap => exact absurd (hgap.head nul rfl) (by decide)

end Garnet
