import Garnet.Prompt.TextInput

/-! # What a line can hold

Whatever is put into the line being edited, it only ever holds characters that may get in, and never
more of them than there is room for. A text of that sort is taken as it is.
-/

namespace Garnet.Prompt.TextInput

variable {input : TextInput} {text other : List Char}

/-- A character gets in as one that gets in as it is. -/
theorem accept?_of_accept? {c d : Char} (h : accept? c = some d) : accept? d = some d := by
  unfold accept? at h
  split at h
  next =>
    cases h
    rfl
  next hspace =>
    split at h
    next => cases h
    next hkept =>
      cases h
      rw [accept?, if_neg hspace, if_neg hkept]

/-- A text that the line takes as it is. -/
structure Enterable (text : List Char) : Prop where
  accepted : ∀ c ∈ text, accept? c = some c
  length_le : text.length ≤ limit

theorem accepted_clean (text : List Char) : ∀ c ∈ clean text, accept? c = some c := by
  intro c hc
  obtain ⟨d, -, hd⟩ := List.mem_filterMap.1 hc
  exact accept?_of_accept? hd

theorem clean_eq_self (h : ∀ c ∈ text, accept? c = some c) : clean text = text := by
  induction text with
  | nil => rfl
  | cons c rest ih =>
    obtain ⟨hc, hrest⟩ := List.forall_mem_cons.1 h
    rw [clean, List.filterMap_cons_some hc]
    exact congrArg (c :: ·) (ih hrest)

theorem Enterable.sublist (h : Enterable text) (hsub : other.Sublist text) : Enterable other where
  accepted c hc := h.accepted c (hsub.subset hc)
  length_le := Nat.le_trans hsub.length_le h.length_le

theorem value_setValue (input : TextInput) (text : List Char) :
    (input.setValue text).value = (clean text).take limit := by
  unfold setValue
  dsimp only
  split <;> rfl

theorem enterable_setValue (input : TextInput) (text : List Char) :
    Enterable (input.setValue text).value := by
  rw [value_setValue]
  exact ⟨fun c hc => accepted_clean text c (List.mem_of_mem_take hc), List.length_take_le _ _⟩

/-- With the cursor put behind it, a line is the same whatever it was before. -/
theorem toEnd_setValue (input : TextInput) (text : List Char) :
    (input.setValue text).toEnd =
      { value := (clean text).take limit, cursor := ((clean text).take limit).length } := by
  unfold toEnd
  rw [value_setValue]

theorem Enterable.take_clean (h : Enterable text) : (clean text).take limit = text := by
  rw [clean_eq_self h.accepted, List.take_of_length_le h.length_le]

/-! ### Typing and editing -/

/-- What is typed gets in as far as there is room. -/
theorem Enterable.insert (h : Enterable input.value) (text : List Char) :
    Enterable (input.insert text).value := by
  have hparts : input.before ++ input.behind = input.value := List.take_append_drop _ _
  have hlength := congrArg List.length hparts
  rw [List.length_append] at hlength
  refine ⟨fun c hc => ?_, ?_⟩
  · simp only [TextInput.insert, around, List.append_assoc, List.mem_append] at hc
    rcases hc with hbefore | htyped | hbehind
    · exact h.accepted c (hparts ▸ List.mem_append_left _ hbefore)
    · exact accepted_clean text c (List.mem_of_mem_take htyped)
    · exact h.accepted c (hparts ▸ List.mem_append_right _ hbehind)
  · have hroom := h.length_le
    simp only [TextInput.insert, around, List.length_append, List.length_take]
    omega

/-- What is left around the cursor was in the line before. -/
theorem around_sublist {front back : List Char} (hfront : front.Sublist input.before)
    (hback : back.Sublist input.behind) : (around front back).value.Sublist input.value := by
  have hparts : input.before ++ input.behind = input.value := List.take_append_drop _ _
  rw [← hparts]
  exact hfront.append hback

/-- Edits put nothing in. -/
theorem edit_sublist (input : TextInput) (change : Edit) :
    (input.edit change).value.Sublist input.value := by
  cases change with
  | deleteLeft => exact around_sublist (List.dropLast_sublist _) (List.Sublist.refl _)
  | deleteRight => exact around_sublist (List.Sublist.refl _) (List.drop_sublist _ _)
  | deleteToStart => exact around_sublist (List.nil_sublist _) (List.Sublist.refl _)
  | deleteWordLeft => exact around_sublist (List.take_sublist _ _) (List.Sublist.refl _)
  | deleteWordRight =>
    have hrest := (List.drop_sublist (wordSpan (input.behind.drop 1)) (input.behind.drop 1)).trans
      (List.drop_sublist 1 input.behind)
    exact around_sublist (List.Sublist.refl _) hrest
  | left | right | wordLeft | wordRight | start | stop => exact List.Sublist.refl _

end Garnet.Prompt.TextInput
