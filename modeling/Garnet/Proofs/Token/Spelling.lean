import Garnet.Proofs.Token.Joining

/-! # The spelling of tokens

The category of a name is decided by its spelling, and an operator has only one spelling. So for
these tokens either of category and text is as good as both, and a text that is spelled like a name
is never spelled like an operator.
-/

namespace Garnet

/-- The operator with a given spelling. -/
def Operator.ofText? (text : String) : Option Operator :=
  [add, sub, mul, div, rem, lt, gt, le, ge, eq, ne].find? (·.text == text)

theorem Operator.ofText?_text (operator : Operator) : ofText? operator.text = some operator := by
  cases operator <;> decide +kernel

theorem Keyword.text_of_ofText? {text : String} {word : Keyword} (h : ofText? text = some word) :
    word.text = text := by
  simpa using List.find?_some h

namespace Token

/-- Texts that the lexer reads as one name. -/
def IsName (text : String) : Prop :=
  ∃ c rest, isNameStart c = true ∧ text = String.ofList (c :: nameTail rest)

/-- A name goes on with letters, digits and underscores, and may end in a mark. -/
theorem not_mem_nameTail {c : Char} (hchar : isNameChar c = false) (hmark : c ≠ '?' ∧ c ≠ '!')
    (rest : List Char) : c ∉ nameTail rest := by
  have hbody : c ∉ rest.takeWhile isNameChar := by
    intro hmem
    rw [List.all_eq_true.1 List.all_takeWhile c hmem] at hchar
    cases hchar
  unfold nameTail
  dsimp only
  split
  next => exact hbody
  next mark more _ =>
    split
    next hend =>
      intro hmem
      rcases List.mem_append.1 hmem with hmem | hmem
      · exact hbody hmem
      · rw [← List.mem_singleton.1 hmem] at hend
        simp [hmark] at hend
    next => exact hbody

namespace IsName

variable {text : String}

theorem not_mem (h : IsName text) {c : Char} (hchar : isNameChar c = false)
    (hmark : c ≠ '?' ∧ c ≠ '!') : c ∉ text.toList := by
  obtain ⟨first, rest, hstart, rfl⟩ := h
  rw [String.toList_ofList, List.mem_cons, not_or]
  refine ⟨?_, not_mem_nameTail hchar hmark rest⟩
  rintro rfl
  unfold isNameStart at hstart
  unfold isNameChar at hchar
  cases hletter : Text.isLetter c <;> simp_all

theorem ne_empty (h : IsName text) : text ≠ "" := by
  obtain ⟨first, rest, -, rfl⟩ := h
  intro hempty
  have hlist := congrArg String.toList hempty
  rw [String.toList_ofList] at hlist
  cases hlist

/-- No operator begins like a name. -/
theorem ofText?_append (h : IsName text) (more : String) :
    Operator.ofText? (text ++ more) = none := by
  obtain ⟨first, rest, hstart, rfl⟩ := h
  refine List.find?_eq_none.2 fun operator _ hsame => ?_
  have hlist : operator.text.toList = first :: (nameTail rest ++ more.toList) := by
    rw [beq_iff_eq.1 hsame, String.toList_append, String.toList_ofList]
    rfl
  have hfirst : operator.text.toList.head?.any isNameStart = false := by
    cases operator <;> decide +kernel
  rw [hlist, List.head?_cons, Option.any_some, hstart] at hfirst
  cases hfirst

end IsName

/-- The text that a token of a category may have, as far as it is fixed. -/
def Kind.Spells (text : String) : Kind → Prop
  | .ident => IsName text ∧ nameKind text = .ident
  | .constant => IsName text ∧ nameKind text = .constant
  | .keyword word => IsName text ∧ nameKind text = .keyword word
  | .op operator => text = operator.text
  | _ => True

theorem text_of_nameKind {text : String} {word : Keyword}
    (h : nameKind text = .keyword word) : text = word.text := by
  unfold nameKind at h
  split at h
  next found hfound =>
    cases h
    exact (Keyword.text_of_ofText? hfound).symm
  next => split at h <;> cases h

theorem spells_nameKind {text : String} (h : IsName text) : (nameKind text).Spells text := by
  cases hkind : nameKind text with
  | ident => exact ⟨h, hkind⟩
  | constant => exact ⟨h, hkind⟩
  | keyword word => exact ⟨h, hkind⟩
  | op operator =>
    unfold nameKind at hkind
    split at hkind
    next => cases hkind
    next => split at hkind <;> cases hkind
  | _ => trivial

theorem spells_withEquals {rest : List Char} {both alone : Lexeme}
    (hboth : both.kind.Spells both.literal) (halone : alone.kind.Spells alone.literal) :
    (withEquals rest both alone).kind.Spells (withEquals rest both alone).literal := by
  unfold withEquals
  split
  next => exact hboth
  next => exact halone

/-- One case for each first character. -/
theorem spells_lexeme (c : Char) (rest : List Char) :
    (lexeme c rest).kind.Spells (lexeme c rest).literal := by
  unfold lexeme
  dsimp only
  split
  case h_11 =>
    split
    next => trivial
    next =>
      split
      next => trivial
      next => split <;> trivial
  case h_16 =>
    split
    next => trivial
    next => split <;> trivial
  case h_17 =>
    split
    next => split <;> trivial
    next =>
      split
      next hstart => exact spells_nameKind ⟨c, rest, hstart, rfl⟩
      next =>
        split
        next =>
          dsimp only
          split <;> trivial
        next => trivial
  case h_12 => exact spells_withEquals rfl trivial
  case h_13 => exact spells_withEquals rfl trivial
  case h_14 => exact spells_withEquals rfl rfl
  case h_15 => exact spells_withEquals rfl rfl
  all_goals trivial

theorem spells_of_mem_scan {pos : Pos} {text : List Char} {token : Token}
    (h : token ∈ (scan pos text).1) : token.kind.Spells token.literal :=
  forall_mem_scan (fun kind literal => kind.Spells literal) spells_lexeme h

end Token

end Garnet
