import Garnet.Text.Blank

/-! # Words of a text

Words are the longest pieces of a text without white space.
-/

namespace Garnet.Text

/-- Cut a text at every character of a class. -/
def segments (p : Char → Bool) : List Char → List (List Char)
  | [] => [[]]
  | c :: rest =>
    if p c then [] :: segments p rest
    else match segments p rest with
      | [] => [[c]]
      | segment :: more => (c :: segment) :: more

/-- The words of a text. -/
def words (text : List Char) : List (List Char) :=
  (segments isBlank text).filter (!·.isEmpty)

theorem segments_ne_nil (p : Char → Bool) (text : List Char) : segments p text ≠ [] := by
  cases text with
  | nil => simp [segments]
  | cons c rest =>
    rw [segments]
    split
    · simp
    · split <;> simp

/-- No segment holds a character of the class. -/
theorem not_of_mem_segments {p : Char → Bool} {text segment : List Char} {c : Char}
    (hsegment : segment ∈ segments p text) (hc : c ∈ segment) : p c = false := by
  induction text generalizing segment c with
  | nil => simp_all [segments]
  | cons d rest ih =>
    rw [segments] at hsegment
    split at hsegment
    next =>
      rcases List.mem_cons.1 hsegment with rfl | h
      · simp at hc
      · exact ih h hc
    next hd =>
      split at hsegment
      next h => exact absurd h (segments_ne_nil p rest)
      next first more h =>
        rcases List.mem_cons.1 hsegment with rfl | hmore
        · rcases List.mem_cons.1 hc with rfl | hc
          · simpa using hd
          · exact ih (by rw [h]; simp) hc
        · exact ih (by rw [h]; simp [hmore]) hc

/-- A word is not empty and holds no white space. -/
theorem of_mem_words {text word : List Char} (h : word ∈ words text) :
    word ≠ [] ∧ ∀ c ∈ word, isBlank c = false := by
  obtain ⟨hsegment, hne⟩ := List.mem_filter.1 h
  exact ⟨by simpa using hne, fun c hc => not_of_mem_segments hsegment hc⟩

end Garnet.Text
