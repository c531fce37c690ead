import Garnet.Proofs.Interpreter.Spelling
import Garnet.Proofs.Prompt.Session
import Garnet.Proofs.Prompt.TextInput
import Garnet.Proofs.Text.Words

/-! # Completing the last word

The last word of a line is found by cutting the line at its blanks, and it is replaced at the end of
the line. The two agree as long as the line does not end in a blank. Behind a blank the completion
becomes a word of its own. In any case it is taken as it is, because names have no blanks in them
and no characters that the line leaves out.
-/

namespace Garnet.Prompt

open TextInput Token

/-! ### Names in a line -/

/-- Whether no code point is in both of two tables. -/
def apart (ranges others : Text.Ranges) : Bool :=
  ranges.all fun (low, high) => others.all fun (first, last) => high.blt first || last.blt low

theorem contains_eq_false_of_apart {ranges others : Text.Ranges} (h : apart ranges others = true)
    {codePoint : Nat} (hin : ranges.contains codePoint = true) :
    others.contains codePoint = false := by
  obtain ⟨range, hrange, hlow, hhigh⟩ := Text.Ranges.contains_iff.1 hin
  refine Bool.eq_false_iff.2 fun hother => ?_
  obtain ⟨other, hmem, hfirst, hlast⟩ := Text.Ranges.contains_iff.1 hother
  have hpair := List.all_eq_true.1 (List.all_eq_true.1 h range hrange) other hmem
  simp only [Bool.or_eq_true, Nat.blt_eq] at hpair
  omega

/-- Blanks from U+0080 on, and characters from there on that a line leaves out. -/
def strangers : Text.Ranges :=
  [(0x80, 0x9F), (0xFFFD, 0xFFFD)] ++ Text.blankRanges

/-- From U+0080 on, only letters and digits are characters of words. -/
theorem contains_of_isWordChar {c : Char} (hhigh : ¬ c.toNat < 0x80) (h : isWordChar c = true) :
    Text.Ranges.contains (Text.letterRanges ++ Text.digitRanges) c.toNat = true := by
  have hmarks : ('_' :: "?!@=+-*/%<>".toList).all (fun mark => mark.toNat < 0x80) = true := by
    decide
  have hno (mark : Char) (hmem : mark ∈ '_' :: "?!@=+-*/%<>".toList) : c ≠ mark :=
    fun heq => hhigh (heq ▸ of_decide_eq_true (List.all_eq_true.1 hmarks mark hmem))
  simp only [isWordChar, isNameChar, Text.isLetter, Text.isDigit, if_neg hhigh, Bool.or_eq_true,
    beq_iff_eq, List.contains_iff_mem] at h
  rw [Text.Ranges.contains, List.any_append, Bool.or_eq_true]
  rcases h with (h | hunderscore) | hlisted
  · exact h
  · exact absurd hunderscore (hno '_' (by simp))
  · exact absurd rfl (hno c (List.mem_cons_of_mem _ hlisted))

/-- The characters of words are no blanks, and a line takes them as they are. -/
theorem plain_of_isWordChar {c : Char} (h : isWordChar c = true) :
    Text.isBlank c = false ∧ accept? c = some c := by
  by_cases hlow : c.toNat < 0x80
  · have hascii : ∀ n < 0x80, isWordChar (Char.ofNat n) = true →
        Text.isBlank (Char.ofNat n) = false ∧ accept? (Char.ofNat n) = some (Char.ofNat n) := by
      decide +kernel
    have hplain := hascii c.toNat hlow
    rw [Char.ofNat_toNat] at hplain
    exact hplain h
  · have hapart : apart (Text.letterRanges ++ Text.digitRanges) strangers = true := by
      decide +kernel
    have hout := contains_eq_false_of_apart hapart (contains_of_isWordChar hlow h)
    simp only [strangers, Text.Ranges.contains, List.any_append, List.any_cons, List.any_nil,
      Bool.or_false, Bool.or_eq_false_iff, Bool.and_eq_false_iff, decide_eq_false_iff_not] at hout
    obtain ⟨⟨hcontrol, hmark⟩, hblank⟩ := hout
    have hspace : ¬ (c = '\t' ∨ c = '\r' ∨ c = '\n') := by
      rintro (rfl | rfl | rfl) <;> simp at hlow
    have hkept : ¬ (c = Text.replacement ∨ isControl c = true) := by
      rintro (rfl | hin)
      · simp [Text.replacement] at hmark
      · simp [isControl] at hin
        omega
    rw [Text.isBlank, if_neg hlow, accept?, if_neg hspace, if_neg hkept]
    exact ⟨hblank, rfl⟩

/-- All that a word can be completed to is made of the characters of names and operators. -/
theorem wordlike_candidates {interp : Interpreter} (h : interp.WellSpelled) :
    ∀ candidate ∈ candidates interp, Wordlike candidate := by
  intro candidate hmem
  have hkeywords : ∀ word ∈ ["class", "def", "end", "self", "nil"], Wordlike word := by
    decide +kernel
  simp only [candidates, List.mem_append, or_assoc] at hmem
  rcases hmem with hword | hlocal | hmethod | hconstant
  · exact hkeywords candidate hword
  · exact h.locals candidate hlocal
  · exact h.world.methods .objectClass candidate hmethod
  · exact h.world.constants .objectClass candidate hconstant

/-! ### Completions -/

/-- A word can be completed in one way only. -/
structure OnlyCompletion (interp : Interpreter) (word : List Char) (candidate : String) : Prop where
  mem : candidate ∈ candidates interp
  begins : word <+: candidate.toList
  unique (other : String) : other ∈ candidates interp → word <+: other.toList → other = candidate

theorem eraseDups_eq_singleton_iff {list : List String} {text : String} :
    list.eraseDups = [text] ↔ text ∈ list ∧ ∀ other ∈ list, other = text := by
  constructor
  · intro h
    refine ⟨List.mem_eraseDups.1 (h ▸ List.mem_singleton_self text), fun other hother => ?_⟩
    exact List.mem_singleton.1 (h ▸ List.mem_eraseDups.2 hother)
  · rintro ⟨hmem, hsame⟩
    cases list with
    | nil => cases hmem
    | cons first rest =>
      obtain ⟨rfl, hrest⟩ := List.forall_mem_cons.1 hsame
      have hnone : rest.filter (fun other => !other == first) = [] :=
        List.filter_eq_nil_iff.2 fun other hother => by simp [hrest other hother]
      rw [List.eraseDups_cons, hnone]
      rfl

theorem completions_eq_singleton_iff {interp : Interpreter} {word : List Char}
    {candidate : String} :
    completions interp word = [candidate] ↔ OnlyCompletion interp word candidate := by
  have hfound (other : String) :
      other ∈ (candidates interp).filter (fun found => word.isPrefixOf found.toList) ↔
        other ∈ candidates interp ∧ word <+: other.toList := by
    rw [List.mem_filter, List.isPrefixOf_iff_prefix]
  rw [completions, eraseDups_eq_singleton_iff, hfound]
  constructor
  · rintro ⟨⟨hmem, hbegins⟩, hsame⟩
    exact ⟨hmem, hbegins, fun other hother hword => hsame other ((hfound other).2 ⟨hother, hword⟩)⟩
  · intro h
    refine ⟨⟨h.mem, h.begins⟩, fun other hother => ?_⟩
    obtain ⟨hmem, hbegins⟩ := (hfound other).1 hother
    exact h.unique other hmem hbegins

/-- Whatever begins with the completion begins with the word. -/
theorem OnlyCompletion.self {interp : Interpreter} {word : List Char} {candidate : String}
    (h : OnlyCompletion interp word candidate) :
    OnlyCompletion interp candidate.toList candidate where
  mem := h.mem
  begins := List.prefix_refl _
  unique other hmem hbegins := h.unique other hmem (h.begins.trans hbegins)

/-! ### What stays of a line -/

/-- Whether a text ends in a blank. -/
def endsInBlank (text : List Char) : Bool :=
  text.getLast?.any Text.isBlank

theorem endsInBlank_append (front : List Char) {back : List Char} (hne : back ≠ []) :
    endsInBlank (front ++ back) = Text.isBlank (back.getLast hne) := by
  rw [endsInBlank, List.getLast?_append_of_ne_nil _ hne, List.getLast?_eq_some_getLast hne]
  rfl

theorem withoutEnd_append (front ending : List Char) :
    withoutEnd (front ++ ending) ending = front := by
  have hsuffix : ending.isSuffixOf (front ++ ending) = true :=
    List.isSuffixOf_iff_suffix.2 (List.suffix_append front ending)
  rw [withoutEnd, if_pos hsuffix, List.length_append, Nat.add_sub_cancel, List.take_left]

/-- In front of a completion all words are kept, or all but the last one. -/
theorem withoutEnd_spec {text word : List Char} (h : (Text.words text).getLast? = some word) :
    (text = withoutEnd text word ++ if endsInBlank text then [] else word) ∧
      (∀ c, (withoutEnd text word).getLast? = some c → Text.isBlank c = true) ∧
      Text.words (withoutEnd text word) =
        if endsInBlank text then Text.words text else (Text.words text).dropLast := by
  obtain ⟨hne, hword⟩ := Text.of_mem_words (List.mem_of_getLast? h)
  have hplain (front : List Char) : endsInBlank (front ++ word) = false :=
    (endsInBlank_append front hne).trans (hword _ (List.getLast_mem hne))
  obtain ⟨front, tail, htext, htail, hfront, hwords⟩ := Text.exists_last_word h
  by_cases hend : tail = []
  · rw [hend, List.append_nil] at htext
    subst htext
    rw [withoutEnd_append, hwords, hplain, if_neg Bool.false_ne_true, if_neg Bool.false_ne_true,
      List.dropLast_concat]
    exact ⟨rfl, hfront, rfl⟩
  · have hblank : endsInBlank text = true := by
      rw [htext, endsInBlank_append _ hend]
      exact htail _ (List.getLast_mem hend)
    have hkept : withoutEnd text word = text := by
      refine if_neg fun hsuffix => ?_
      obtain ⟨before, hbefore⟩ := List.isSuffixOf_iff_suffix.1 hsuffix
      rw [← hbefore, hplain] at hblank
      cases hblank
    rw [hkept, hblank, if_pos rfl, if_pos rfl]
    refine ⟨(List.append_nil text).symm, fun c hc => ?_, rfl⟩
    rw [endsInBlank, hc] at hblank
    exact hblank

/-! ### The key -/

section Complete

variable {prompt : Prompt} {word : List Char} {candidate : String}

theorem complete_of_only (hlast : (Text.words prompt.input.value).getLast? = some word)
    (h : OnlyCompletion prompt.interp word candidate) :
    prompt.complete =
      prompt.setLine (withoutEnd prompt.input.value word ++ candidate.toList) := by
  unfold Prompt.complete
  dsimp only
  rw [hlast]
  dsimp only
  rw [completions_eq_singleton_iff.2 h]

/-- Without exactly one completion the line stays as it is. -/
theorem input_complete (h : ∀ word candidate,
      (Text.words prompt.input.value).getLast? = some word →
        ¬ OnlyCompletion prompt.interp word candidate) :
    prompt.complete.input = prompt.input := by
  unfold Prompt.complete
  dsimp only
  split
  next => rfl
  next word hlast =>
    split
    next => rfl
    next candidate hone =>
      exact absurd (completions_eq_singleton_iff.1 hone) (h word candidate hlast)
    next => rfl

theorem setLine_setLine (prompt : Prompt) (text other : List Char) :
    (prompt.setLine text).setLine other = prompt.setLine other := by
  simp only [setLine, toEnd_setValue]

/-- The line that completes a word, as far as there is room for it. -/
theorem complete_spec (hspelled : prompt.interp.WellSpelled) (hinput : Enterable prompt.input.value)
    (hlast : (Text.words prompt.input.value).getLast? = some word)
    (h : OnlyCompletion prompt.interp word candidate) :
    ∃ kept, (prompt.input.value = kept ++ if endsInBlank prompt.input.value then [] else word) ∧
      prompt.complete.input.value = (kept ++ candidate.toList).take TextInput.limit ∧
      ((kept ++ candidate.toList).length ≤ TextInput.limit →
        Text.words prompt.complete.input.value =
          (if endsInBlank prompt.input.value then Text.words prompt.input.value
            else (Text.words prompt.input.value).dropLast) ++ [candidate.toList] ∧
        prompt.complete.complete = prompt.complete) := by
  obtain ⟨hkept, hblank, hwords⟩ := withoutEnd_spec hlast
  rw [complete_of_only hlast h]
  generalize withoutEnd prompt.input.value word = kept at hkept hblank hwords ⊢
  have hcandidate := wordlike_candidates hspelled candidate h.mem
  have hne : candidate.toList ≠ [] := fun hempty =>
    (Text.of_mem_words (List.mem_of_getLast? hlast)).1 (List.prefix_nil.1 (hempty ▸ h.begins))
  have hclean : clean (kept ++ candidate.toList) = kept ++ candidate.toList := by
    refine clean_eq_self fun c hc => ?_
    rcases List.mem_append.1 hc with hold | hnew
    · exact hinput.accepted c (hkept ▸ List.mem_append_left _ hold)
    · exact (plain_of_isWordChar (hcandidate c hnew)).2
  have hvalue : (prompt.setLine (kept ++ candidate.toList)).input.value =
      (kept ++ candidate.toList).take TextInput.limit := by
    rw [setLine, toEnd_setValue, hclean]
  refine ⟨kept, hkept, hvalue, fun hroom => ?_⟩
  rw [List.take_of_length_le hroom] at hvalue
  have hnext := Text.words_append_word hblank hne
    fun c hc => (plain_of_isWordChar (hcandidate c hc)).1
  refine ⟨by rw [hvalue, hnext, hwords], ?_⟩
  -- The completion is now the last word, and the only one it can be completed to.
  have hagain : (Text.words (prompt.setLine (kept ++ candidate.toList)).input.value).getLast? =
      some candidate.toList := by
    rw [hvalue, hnext, List.getLast?_concat]
  rw [complete_of_only hagain h.self, hvalue, withoutEnd_append, setLine_setLine]

end Complete

/-- Whatever messages have reached a prompt and whatever line is edited, completion leaves the line
as it is unless its last word can be completed in one way only. Then the completion is put at the
end: in place of the last word, or behind it if there are blanks behind it. As long as there is room
for the completion, nothing changes when the key is pressed again. -/
theorem afterMessages_completes (limit : Int) (messages : List Message) (text : List Char) :
    let met := (new limit).afterMessages messages
    let prompt := { met with input := met.input.setValue text }
    let value := prompt.input.value
    let next := (prompt.update (.key .complete)).1
    let again := (next.update (.key .complete)).1
    ((∀ word candidate, (Text.words value).getLast? = some word →
        ¬ OnlyCompletion prompt.interp word candidate) →
      next.input = prompt.input ∧ again.input = next.input) ∧
    ∀ word candidate, (Text.words value).getLast? = some word →
      OnlyCompletion prompt.interp word candidate →
      ∃ kept, (value = kept ++ if endsInBlank value then [] else word) ∧
        next.input.value = (kept ++ candidate.toList).take TextInput.limit ∧
        ((kept ++ candidate.toList).length ≤ TextInput.limit →
          Text.words next.input.value =
            (if endsInBlank value then Text.words value else (Text.words value).dropLast) ++
              [candidate.toList] ∧
          again = next) := by
  intro met prompt value next again
  have hspelled : prompt.interp.WellSpelled :=
    interp_afterMessages Interpreter.WellSpelled
      (fun limit => Interpreter.wellSpelled_new limit {})
      (fun interp line h => h.drain.run line) limit messages
  refine ⟨fun hnone => ?_, fun word candidate hlast honly => ?_⟩
  · have hnext : next.input = prompt.input := input_complete hnone
    have hinterp : next.interp = prompt.interp := (complete_undisturbed prompt).interp
    refine ⟨hnext, input_complete fun word candidate hlast honly => ?_⟩
    rw [hnext] at hlast
    rw [hinterp] at honly
    exact hnone word candidate hlast honly
  · exact complete_spec hspelled (enterable_setValue met.input text) hlast honly

/-- A local variable is completed behind two blanks. -/
theorem afterMessages_completes_greeting :
    let met := (new 0).afterMessages [.typed "greeting = 'hi'", .key .enter]
    let prompt := { met with input := met.input.setValue "puts  gree".toList }
    let next := (prompt.update (.key .complete)).1
    Text.words next.input.value = ["puts".toList, "greeting".toList] ∧
      (next.update (.key .complete)).1 = next := by
  intro met prompt next
  have hlast : (Text.words prompt.input.value).getLast? = some "gree".toList := by decide +kernel
  have honly : completions prompt.interp "gree".toList = ["greeting"] := by decide +kernel
  obtain ⟨kept, hkept, -, hroom⟩ := (afterMessages_completes 0
    [.typed "greeting = 'hi'", .key .enter] "puts  gree".toList).2 _ _ hlast
      (completions_eq_singleton_iff.1 honly)
  have hlength : kept.length ≤ 10 := (hkept ▸ List.prefix_append kept _).length_le
  obtain ⟨hwords, hagain⟩ := hroom (by
    rw [List.length_append]
    exact Nat.le_trans (Nat.add_le_add_right hlength 8) (by decide))
  refine ⟨hwords.trans ?_, hagain⟩
  decide +kernel

/-- Behind a blank, a completion does not replace the word. -/
theorem completes_behind_blank :
    let prompt := { new 0 with input := (new 0).input.setValue "cla ".toList }
    let next := (prompt.update (.key .complete)).1
    (Text.words prompt.input.value).getLast? = some "cla".toList ∧
      OnlyCompletion prompt.interp "cla".toList "class" ∧
      Text.words next.input.value = ["cla".toList, "class".toList] := by
  intro prompt next
  have honly : completions prompt.interp "cla".toList = ["class"] := by decide +kernel
  exact ⟨by decide +kernel, completions_eq_singleton_iff.1 honly, by decide +kernel⟩

end Garnet.Prompt
