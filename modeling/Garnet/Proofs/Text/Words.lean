import Garnet.Text.Words
import Mathlib.Data.List.Induction

/-! # The last word of a text

A blank separates the words in front of it from those behind it. So the last word of a text is what
stands in front of the blanks at its end, back to the blank before that, and a word that is put
behind a blank is the last one.
-/

namespace Garnet.Text

variable {text front word tail rest : List Char} {c : Char} {p : Char → Bool}

/-- A text is cut at a separator, whatever stands around it. -/
theorem segments_append_cons (hc : p c = true) (front rest : List Char) :
    segments p (front ++ c :: rest) = segments p front ++ segments p rest := by
  induction front with
  | nil => simp [segments, hc]
  | cons d more ih =>
    rw [List.cons_append, segments, segments, ih]
    split
    next => rfl
    next =>
      cases hmore : segments p more with
      | nil => exact absurd hmore (segments_ne_nil p more)
      | cons first others => rfl

theorem segments_of_none (h : ∀ c ∈ word, p c = false) : segments p word = [word] := by
  induction word with
  | nil => rfl
  | cons c more ih =>
    obtain ⟨hc, hmore⟩ := List.forall_mem_cons.1 h
    simp [segments, hc, ih hmore]

theorem words_append_cons (hc : isBlank c = true) (front rest : List Char) :
    words (front ++ c :: rest) = words front ++ words rest := by
  rw [words, segments_append_cons hc, List.filter_append]
  rfl

theorem words_of_none (hne : word ≠ []) (h : ∀ c ∈ word, isBlank c = false) :
    words word = [word] := by
  simp [words, segments_of_none h, hne]

theorem words_of_blank (h : ∀ c ∈ tail, isBlank c = true) : words tail = [] := by
  induction tail with
  | nil => rfl
  | cons c more ih =>
    obtain ⟨hc, hmore⟩ := List.forall_mem_cons.1 h
    exact (words_append_cons hc [] more).trans (ih hmore)

/-- Blanks at the end make no difference. -/
theorem words_append_blank (front : List Char) (h : ∀ c ∈ tail, isBlank c = true) :
    words (front ++ tail) = words front := by
  cases tail with
  | nil => rw [List.append_nil]
  | cons c more =>
    obtain ⟨hc, hmore⟩ := List.forall_mem_cons.1 h
    rw [words_append_cons hc, words_of_blank hmore, List.append_nil]

/-- A word behind a blank, or alone, is a word of its own. -/
theorem words_append_word (hfront : ∀ c, front.getLast? = some c → isBlank c = true)
    (hne : word ≠ []) (hword : ∀ c ∈ word, isBlank c = false) :
    words (front ++ word) = words front ++ [word] := by
  rcases List.eq_nil_or_concat front with rfl | ⟨before, c, rfl⟩
  · exact words_of_none hne hword
  · rw [List.concat_eq_append] at hfront ⊢
    have hc : isBlank c = true := hfront c List.getLast?_concat
    have hbefore : words (before ++ [c]) = words before :=
      words_append_blank before fun d hd => List.mem_singleton.1 hd ▸ hc
    rw [hbefore, List.append_assoc, List.singleton_append, words_append_cons hc,
      words_of_none hne hword]

/-- The end of a text whose characters are all of a class, as long as possible. -/
theorem exists_end (p : Char → Bool) (text : List Char) :
    ∃ front tail, text = front ++ tail ∧ (∀ c ∈ tail, p c = true) ∧
      ∀ c, front.getLast? = some c → p c = false := by
  induction text using List.reverseRecOn with
  | nil => exact ⟨[], [], rfl, by simp, by simp⟩
  | append_singleton before c ih =>
    by_cases hc : p c = true
    · obtain ⟨front, tail, rfl, htail, hfront⟩ := ih
      refine ⟨front, tail ++ [c], List.append_assoc .., fun d hd => ?_, hfront⟩
      rcases List.mem_append.1 hd with hd | hd
      · exact htail d hd
      · exact List.mem_singleton.1 hd ▸ hc
    · refine ⟨before ++ [c], [], (List.append_nil _).symm, by simp, fun d hd => ?_⟩
      rw [List.getLast?_concat] at hd
      exact Option.some.inj hd ▸ Bool.eq_false_iff.2 hc

/-- The last word stands in front of the blanks at the end. -/
theorem exists_last_word (h : (words text).getLast? = some word) :
    ∃ front tail, text = front ++ word ++ tail ∧ (∀ c ∈ tail, isBlank c = true) ∧
      (∀ c, front.getLast? = some c → isBlank c = true) ∧ words text = words front ++ [word] := by
  obtain ⟨body, tail, rfl, htail, hbody⟩ := exists_end isBlank text
  obtain ⟨front, last, rfl, hlast, hfront⟩ := exists_end (!isBlank ·) body
  have hplain : ∀ c ∈ last, isBlank c = false := fun c hc => by simpa using hlast c hc
  have hbefore : ∀ c, front.getLast? = some c → isBlank c = true :=
    fun c hc => by simpa using hfront c hc
  have hne : last ≠ [] := by
    rintro rfl
    -- The character in front of the blanks would be a blank itself.
    have hempty : front = [] := by
      rw [List.append_nil] at hbody
      refine List.getLast?_eq_none_iff.1 (Option.eq_none_iff_forall_ne_some.2 fun c hc => ?_)
      exact Bool.false_ne_true ((hbody c hc).symm.trans (hbefore c hc))
    rw [words_append_blank _ htail, hempty] at h
    cases h
  have hwords := words_append_word hbefore hne hplain
  rw [words_append_blank _ htail, hwords, List.getLast?_concat] at h
  cases h
  exact ⟨front, tail, rfl, htail, hbefore, (words_append_blank _ htail).trans hwords⟩

end Garnet.Text
