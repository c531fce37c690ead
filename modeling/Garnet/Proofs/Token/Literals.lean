import Garnet.Proofs.Token.Reflow

/-! # Writing literals

A text can be written as a string literal if a backslash stands in front of the characters that
would end the literal and in front of each backslash. Between double quotes this includes the end
mark, so every text can be written there. Between single quotes no backslash protects an end mark.
-/

namespace Garnet.Token

variable {quote : Char} {body text : List Char}

/-! ### What a piece of a literal denotes -/

/-- Between quotes, a piece of source is read as a text, whatever follows it. -/
def Denotes (quote : Char) (body text : List Char) : Prop :=
  ∀ rest, stringTail quote (body ++ rest) =
    ⟨text ++ (stringTail quote rest).text, body.length + (stringTail quote rest).length,
      (stringTail quote rest).closed⟩

namespace Denotes

theorem nil : Denotes quote [] [] := by
  intro rest
  simp

theorem append {more moreText : List Char} (h : Denotes quote body text)
    (hmore : Denotes quote more moreText) : Denotes quote (body ++ more) (text ++ moreText) := by
  intro rest
  rw [List.append_assoc, h, hmore]
  simp [Nat.add_assoc]

theorem plain {c : Char} (hnul : c ≠ nul) (hquote : c ≠ quote) (hslash : c ≠ '\\') :
    Denotes quote [c] [c] := by
  intro rest
  rw [List.singleton_append, stringTail_plain hnul hquote hslash, StringTail.extend]
  simp [Nat.add_comm]

/-- Between double quotes a backslash takes the next character, whatever it is. -/
theorem escaped (c : Char) : Denotes '"' ['\\', c] [escapedChar c] := by
  intro rest
  rw [List.cons_append, List.singleton_append, stringTail_escaped, StringTail.extend]
  simp [Nat.add_comm]

theorem special {c : Char} (hc : c = '\'' ∨ c = '\\') : Denotes '\'' ['\\', c] [c] := by
  intro rest
  rw [List.cons_append, List.singleton_append, stringTail.eq_def]
  simp [hc, nul, StringTail.extend, Nat.add_comm]

/-- A text that is written character by character. -/
theorem flatMap {write read : Char → List Char} (h : ∀ c ∈ text, Denotes quote (write c) (read c)) :
    Denotes quote (text.flatMap write) (text.flatMap read) := by
  induction text with
  | nil => exact nil
  | cons c rest ih =>
    obtain ⟨hfirst, hrest⟩ := List.forall_mem_cons.1 h
    exact hfirst.append (ih hrest)

/-- The closing quote ends the literal. -/
theorem stringTail_closing (h : Denotes quote body text) (hnul : quote ≠ nul) :
    stringTail quote (body ++ [quote]) = ⟨text, body.length + 1, true⟩ := by
  rw [h, stringTail_quote hnul, List.append_nil]

end Denotes

theorem ne_nul_of_quote (hquote : quote = '"' ∨ quote = '\'') : quote ≠ nul := by
  rcases hquote with rfl | rfl <;> decide

/-- A source that is one literal has one token. -/
theorem Denotes.ofSource (h : Denotes quote body text) (hquote : quote = '"' ∨ quote = '\'') :
    Stream.ofSource (String.ofList (quote :: body ++ [quote])) =
      ⟨[⟨.string, String.ofList text, .start⟩], .ofLast (quote :: body ++ [quote])⟩ := by
  have hnul : quote ≠ nul := ne_nul_of_quote hquote
  have htail := h.stringTail_closing hnul
  have hlexeme : lexeme quote (body ++ [quote]) =
      ⟨.string, String.ofList text, body.length + 1⟩ := by
    rw [lexeme_of_closed hquote (congrArg StringTail.closed htail), htail]
  have hgap : gapLength false (quote :: (body ++ [quote])) = 0 := by
    rcases hquote with rfl | rfl <;> rfl
  have hnothing (pos : Pos) : scan pos [] = ([], none) := by
    rw [scan_eq]
    rfl
  have hscan : scan .start (quote :: (body ++ [quote])) =
      ([⟨.string, String.ofList text, .start⟩], none) := by
    rw [scan_eq, hgap, List.drop_zero]
    dsimp only
    rw [if_neg hnul, hlexeme, List.drop_eq_nil_of_le (by simp), hnothing]
    rfl
  rw [Stream.ofSource, String.toList_ofList, List.cons_append, hscan]
  rfl

/-! ### Every text has a literal -/

/-- How a character is written between quotes: behind a backslash if it would otherwise end the
literal or take the next character. -/
def writtenChar (quote c : Char) : List Char :=
  if c = quote ∨ c = '\\' ∨ quote = '"' ∧ c = nul then ['\\', c] else [c]

/-- A text between quotes. -/
def asLiteral (quote : Char) (text : String) : String :=
  String.ofList (quote :: text.toList.flatMap (writtenChar quote) ++ [quote])

theorem denotes_double (c : Char) : Denotes '"' (writtenChar '"' c) [c] := by
  unfold writtenChar
  split
  next hspecial =>
    have hchar : escapedChar c = c := by
      obtain rfl | rfl | ⟨-, rfl⟩ := hspecial <;> rfl
    have hescaped := Denotes.escaped c
    rwa [hchar] at hescaped
  next hplain =>
    simp only [not_or, true_and] at hplain
    exact .plain hplain.2.2 hplain.1 hplain.2.1

theorem denotes_single {c : Char} (hnul : c ≠ nul) : Denotes '\'' (writtenChar '\'' c) [c] := by
  unfold writtenChar
  split
  next hspecial => exact .special (by simpa using hspecial)
  next hplain =>
    rw [not_or, not_or] at hplain
    exact .plain hnul hplain.1 hplain.2.1

/-- A literal denotes the text it was written for. -/
theorem denotes_literal (hquote : quote = '"' ∨ quote = '\'' ∧ nul ∉ text) :
    Denotes quote (text.flatMap (writtenChar quote)) text := by
  have hchars : ∀ c ∈ text, Denotes quote (writtenChar quote c) [c] := by
    intro c hc
    rcases hquote with rfl | ⟨rfl, hnul⟩
    · exact denotes_double c
    · exact denotes_single fun heq => hnul (heq ▸ hc)
  have htext := Denotes.flatMap hchars
  rwa [List.flatMap_singleton'] at htext

end Garnet.Token
