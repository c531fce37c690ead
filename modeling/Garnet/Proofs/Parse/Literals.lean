import Garnet.Proofs.Parse.Completeness
import Garnet.Proofs.Text.Quoted
import Garnet.Proofs.Token.Literals

/-! # Literals as programs

A source that is one literal is accepted, and its tree is one leaf. In particular the form in which
a text is shown is accepted. It is read as the text itself if everything in the text is printable, a
line end or a tab; of all other characters only the backslash is lost, which leaves a letter in
their place.
-/

namespace Garnet

open Parse Token

/-- A source that is one literal is accepted, whatever locals are known. -/
theorem Token.Denotes.parse {quote : Char} {body text : List Char} (h : Denotes quote body text)
    (hquote : quote = '"' ∨ quote = '\'') (locals : List String) :
    parse (String.ofList (quote :: body ++ [quote])) locals =
      .ok (some (.mk .str [.str (String.ofList text)] .start)) := by
  have hsource := h.ofSource hquote
  generalize hstart :
    State.initial (.ofSource (String.ofList (quote :: body ++ [quote]))) locals = s
  rw [hsource] at hstart
  have hcurrent : s.current = ⟨.string, String.ofList text, .start⟩ := hstart ▸ rfl
  have hpeek : s.peek.kind = .eof := hstart ▸ rfl
  have hleaf : leaf? s.current = some (.mk .str [.str (String.ofList text)] .start) := by
    rw [hcurrent]
    rfl
  have hstop : s.continues 0 = false := by
    rw [State.continues, hpeek]
    rfl
  have hbegins : beginsExpression s.current.kind = true := by
    rw [hcurrent]
    rfl
  have hstatement : Derives (.statement (.mk .str [.str (String.ofList text)] .start)) s s := by
    refine .simple ?_ ?_ (.expression hbegins (.leaf hleaf) (.done hstop))
    · simp [hcurrent]
    · simp [hcurrent]
  have hend : s.next.current.kind = .eof := hpeek
  have hnothing : Derives (.statements none (some s.current.pos.line) []) s.next s.next :=
    .noStatement (by simp [hend]) (.inl hend)
  have hprogram : Derives (.statements none none [.mk .str [.str (String.ofList text)] .start]) s
      s.next := by
    refine .nextStatement ?_ ?_ ?_ ?_ hstatement hnothing
    all_goals simp [hcurrent]
  rw [← hstart, ← hsource] at hprogram
  exact parse_of_derives hprogram

/-! ### Texts as they are shown -/

namespace Text

/-- What is shown in such a way that it is read again. -/
def IsReread (c : Char) : Prop :=
  isPrintable c = true ∨ c = '\n' ∨ c = '\t'

instance (c : Char) : Decidable (IsReread c) :=
  inferInstanceAs (Decidable (_ ∨ _))

/-- What the form of a character is read as. -/
def reread (c : Char) : List Char :=
  if IsReread c then [c] else (escape c).tail

/-- A character that is not read again is shown with a letter behind the backslash, and with
hexadecimal digits behind the letter. -/
theorem escape_of_not_isReread {c : Char} (h : ¬ IsReread c) :
    ∃ mark places, escape c = '\\' :: mark :: places ∧ isPrintable mark = true ∧
      escapedChar mark = mark ∧ ∀ place ∈ places, ∃ value < 16, place = Nat.digitChar value := by
  have hshown := shown_escape c
  generalize escape c = form at hshown
  cases hshown with
  | plain hprint => exact absurd (.inl hprint) h
  | special hspecial =>
    rcases hspecial with rfl | rfl
    · exact absurd (.inl (by decide)) h
    · exact absurd (.inl (by decide)) h
  | @letter mark hprint hmark =>
    have hletters : ∀ entry ∈ letters, IsReread entry.1 ∨
        isPrintable entry.2 = true ∧ escapedChar entry.2 = entry.2 := by
      decide
    obtain ⟨hvisible, hsame⟩ := (hletters _ hmark).resolve_left h
    exact ⟨mark, [], rfl, hvisible, hsame, by simp⟩
  | @code mark width hprint hletter hmark hwidth =>
    have hmarks : ∀ entry ∈ marks, isPrintable entry.1 = true ∧ escapedChar entry.1 = entry.1 := by
      decide
    obtain ⟨hvisible, hsame⟩ := hmarks _ hmark
    exact ⟨mark, _, rfl, hvisible, hsame, fun place => mem_hexPlaces⟩

theorem denotes_escape (c : Char) : Denotes '"' (escape c) (reread c) := by
  unfold reread
  split
  next hreread =>
    have hshown := shown_escape c
    generalize escape c = form at hshown
    cases hshown with
    | plain hprint hquote hslash =>
      refine .plain ?_ hquote hslash
      rintro rfl
      exact absurd hprint (by decide)
    | special hspecial =>
      rcases hspecial with rfl | rfl
      · exact .escaped _
      · exact .escaped _
    | @letter mark hprint hmark =>
      have hletters : ∀ entry ∈ letters, IsReread entry.1 → escapedChar entry.2 = entry.1 := by
        decide
      have hescaped := Denotes.escaped mark
      rwa [hletters _ hmark hreread] at hescaped
    | code hprint hletter hmark hwidth =>
      have hline : ('\n', 'n') ∈ letters ∧ ('\t', 't') ∈ letters := by decide
      rcases hreread with hvisible | rfl | rfl
      · rw [hprint] at hvisible
        cases hvisible
      · exact absurd hline.1 (hletter _)
      · exact absurd hline.2 (hletter _)
  next hreread =>
    obtain ⟨mark, places, hform, -, hsame, hplaces⟩ := escape_of_not_isReread hreread
    have hdigits : Denotes '"' (places.flatMap fun place => [place])
        (places.flatMap fun place => [place]) := by
      refine .flatMap fun place hplace => ?_
      have hplain : ∀ value < 16, Nat.digitChar value ≠ nul ∧ Nat.digitChar value ≠ '"' ∧
          Nat.digitChar value ≠ '\\' := by
        decide
      obtain ⟨value, hvalue, rfl⟩ := hplaces place hplace
      obtain ⟨hnul, hquote, hslash⟩ := hplain value hvalue
      exact .plain hnul hquote hslash
    rw [List.flatMap_singleton'] at hdigits
    have hescaped := (Denotes.escaped mark).append hdigits
    rw [hsame] at hescaped
    rw [hform]
    exact hescaped

/-- Only what is read again leaves itself alone. -/
theorem reread_eq_singleton_iff {c : Char} : reread c = [c] ↔ IsReread c := by
  unfold reread
  split
  next hreread => exact iff_of_true rfl hreread
  next hreread =>
    obtain ⟨mark, places, hform, hvisible, -⟩ := escape_of_not_isReread hreread
    refine iff_of_false ?_ hreread
    rw [hform, List.tail_cons]
    intro hsame
    -- The letter would be the character itself, but letters are printable.
    exact hreread (.inl ((List.cons.inj hsame).1 ▸ hvisible))

theorem reread_ne_nil (c : Char) : reread c ≠ [] := by
  unfold reread
  split
  next => simp
  next hreread =>
    obtain ⟨mark, places, hform, -⟩ := escape_of_not_isReread hreread
    simp [hform]

/-- Nothing gets shorter, so a text that is left alone is left alone everywhere. -/
theorem flatMap_reread_eq_iff (text : List Char) :
    text.flatMap reread = text ↔ ∀ c ∈ text, IsReread c := by
  have hlength (text : List Char) : text.length ≤ (text.flatMap reread).length := by
    induction text with
    | nil => exact Nat.le_refl 0
    | cons c rest ih =>
      have hfirst := List.length_pos_iff.2 (reread_ne_nil c)
      rw [List.flatMap_cons, List.length_append, List.length_cons]
      omega
  induction text with
  | nil => simp
  | cons c rest ih =>
    rw [List.flatMap_cons, List.forall_mem_cons, ← reread_eq_singleton_iff]
    constructor
    · intro hsame
      have hcut : (reread c).length = [c].length := by
        have htotal := congrArg List.length hsame
        have hfirst := List.length_pos_iff.2 (reread_ne_nil c)
        have hrest := hlength rest
        rw [List.length_append, List.length_cons] at htotal
        rw [List.length_singleton]
        omega
      have happend : reread c ++ rest.flatMap reread = [c] ++ rest := hsame
      obtain ⟨hfirst, hrest⟩ := List.append_inj happend hcut
      exact ⟨hfirst, ih.1 hrest⟩
    · rintro ⟨hfirst, hrest⟩
      rw [hfirst, ih.2 hrest]
      rfl

end Text

/-- The form of a text is accepted as one literal, which denotes the text exactly if everything in
the text is printable, a line end or a tab. -/
theorem parse_quote (text : String) (locals : List String) :
    ∃ found, parse (Text.quote text) locals = .ok (some (.mk .str [.str found] .start)) ∧
      (found = text ↔ ∀ c ∈ text.toList, Text.IsReread c) := by
  have hdenotes : Denotes '"' (text.toList.flatMap Text.escape)
      (text.toList.flatMap Text.reread) :=
    .flatMap fun c _ => Text.denotes_escape c
  refine ⟨String.ofList (text.toList.flatMap Text.reread), hdenotes.parse (.inl rfl) locals, ?_⟩
  rw [← Text.flatMap_reread_eq_iff, ← String.toList_inj, String.toList_ofList]

end Garnet
