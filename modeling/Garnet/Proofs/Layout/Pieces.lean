import Garnet.Layout
import Garnet.Proofs.Token.Reflow

/-! # Formatting keeps the pieces of a text

Formatting is done in steps, and each of them only changes blanks where lines begin and end. To
treat the first line like the others, texts are looked at with a line end in front of them.
-/

namespace Garnet

/-- What is trimmed off the end of a text are characters of the class. -/
theorem Text.exists_eq_trimEnd_append (p : Char → Bool) (text : List Char) :
    ∃ blanks, text = Text.trimEnd p text ++ blanks ∧ ∀ c ∈ blanks, p c = true := by
  refine ⟨(text.reverse.takeWhile p).reverse, ?_, fun c hc => ?_⟩
  · rw [trimEnd, ← List.reverse_append, List.takeWhile_append_dropWhile, List.reverse_reverse]
  · exact List.all_eq_true.1 List.all_takeWhile c (List.mem_reverse.1 hc)

namespace Token

/-- A line end in front of a text. -/
theorem pieces_newline (text : List Char) :
    pieces ('\n' :: text) =
      match pieces text with
      | [] => []
      | piece :: rest => { piece with broken := true } :: rest := by
  have hskip := skipsTo_newline false text
  cases hdrop : afterGap false text with
  | nil => rw [pieces_nil hdrop, pieces_nil (hskip.afterGap_eq.trans hdrop)]
  | cons c rest =>
    by_cases hnul : c = nul
    · rw [hnul] at hdrop
      rw [pieces_nul hdrop, pieces_nul (hskip.afterGap_eq.trans hdrop)]
    · rw [pieces_cons hdrop hnul, pieces_cons (hskip.afterGap_eq.trans hdrop) hnul,
        hskip.breaks_eq]
      rfl

/-- The grammar does not see a line end in front of the first token. -/
theorem Piece.layout_newline (text : List Char) :
    layout (pieces ('\n' :: text)) = layout (pieces text) := by
  rw [pieces_newline]
  cases pieces text <;> rfl

/-- A line end in front changes neither the kinds nor the characters of the pieces. -/
theorem forall_mem_pieces_newline (property : Kind → List Char → Prop) {text : List Char}
    (h : ∀ piece ∈ pieces text, property piece.kind piece.text) :
    ∀ piece ∈ pieces ('\n' :: text), property piece.kind piece.text := by
  rw [pieces_newline]
  cases hpieces : pieces text with
  | nil => simp
  | cons piece rest =>
    rw [hpieces] at h
    exact List.forall_mem_cons.2 (List.forall_mem_cons.1 h)

/-- Line ends at the start of a text do not count behind another one. -/
theorem pieces_dropWhile_newline (text : List Char) :
    pieces ('\n' :: text.dropWhile (· == '\n')) = pieces ('\n' :: text) := by
  induction text with
  | nil => rfl
  | cons c rest ih =>
    rw [List.dropWhile_cons]
    split
    next hc =>
      rw [ih, beq_iff_eq.1 hc, pieces_newline ('\n' :: rest), pieces_newline rest]
      cases pieces rest <;> rfl
    next => rfl

namespace Reflow

variable {x y : List Char}

/-- Characters that are kept in front of texts that are related wherever they stand. -/
theorem keepAll (h : ∀ start, Reflow start x y) (front : List Char) (start : Bool) :
    Reflow start (front ++ x) (front ++ y) := by
  induction front generalizing start with
  | nil => exact h start
  | cons c front ih => exact .keep c (ih _)

/-- Blanks in front of a line end. -/
theorem dropBlanks (h : ∀ start, Reflow start x y) (hend : AtLineEnd y) {blanks : List Char}
    (hblanks : ∀ c ∈ blanks, Layout.isLineBlank c = true) (start : Bool) :
    Reflow start (blanks ++ x) y := by
  induction blanks generalizing start with
  | nil => exact h start
  | cons c blanks ih =>
    have hc : c = ' ' ∨ c = '\t' ∨ c = '\r' := by
      have hblank := hblanks c List.mem_cons_self
      simp only [Layout.isLineBlank, Bool.or_eq_true, beq_iff_eq] at hblank
      exact hblank.imp_right .inl
    exact .trailing hc hend (ih (fun d hd => hblanks d (List.mem_cons_of_mem _ hd)) false)

theorem expandTabs (h : ∀ start, Reflow start x y) (line : List Char) :
    Reflow true (line ++ x) (Layout.expandTabs line ++ y) := by
  fun_induction Layout.expandTabs line with
  | case1 rest ih => exact .tab ih
  | case2 line => exact keepAll h line true

/-- One line, in front of a line end. -/
theorem tidyLine (h : ∀ start, Reflow start x y) (hend : AtLineEnd y) (line : List Char) :
    Reflow true (line ++ x) (Layout.tidyLine line ++ y) := by
  obtain ⟨blanks, hline, hblanks⟩ := Text.exists_eq_trimEnd_append Layout.isLineBlank line
  have htrimmed := expandTabs (dropBlanks h hend hblanks) (Text.trimEnd Layout.isLineBlank line)
  rw [← List.append_assoc, ← hline] at htrimmed
  exact htrimmed

end Reflow

end Token

namespace Layout

open Token

/-- Carriage returns stand at the ends of lines only. -/
def ReturnsEndLines : List Char → Prop
  | [] => True
  | c :: rest => (c = '\r' → EndsLine rest) ∧ ReturnsEndLines rest

instance decidableReturnsEndLines : (text : List Char) → Decidable (ReturnsEndLines text)
  | [] => .isTrue trivial
  | c :: rest =>
    have := decidableReturnsEndLines rest
    inferInstanceAs (Decidable ((c = '\r' → EndsLine rest) ∧ ReturnsEndLines rest))

theorem reflow_unifyNewlines {text : List Char} (h : ReturnsEndLines text) (start : Bool) :
    Reflow start text (unifyNewlines text) := by
  fun_induction unifyNewlines text generalizing start with
  | case1 => exact .done
  | case2 rest ih =>
    have hend : AtLineEnd ('\n' :: unifyNewlines rest) := fun _ hc => (Option.some.inj hc).symm
    exact .trailing (.inr (.inr rfl)) hend (.keep '\n' (ih h.2.2 _))
  | case3 rest _ ih => exact .lone (h.1 rfl) (ih h.2 _)
  | case4 c rest _ _ ih => exact .keep c (ih h.2 _)

/-- Lines with a line end in front of each. -/
def led (lines : List (List Char)) : List Char :=
  lines.flatMap ('\n' :: ·)

theorem led_eq {lines : List (List Char)} (h : lines ≠ []) :
    led lines = '\n' :: Text.unlines lines := by
  induction lines with
  | nil => exact absurd rfl h
  | cons line rest ih =>
    cases rest with
    | nil => simp [led, Text.unlines]
    | cons second rest =>
      rw [led, List.flatMap_cons, ← led, ih (by simp)]
      rfl

theorem atLineEnd_led (lines : List (List Char)) : AtLineEnd (led lines) := by
  cases lines with
  | nil => exact fun _ hc => by cases hc
  | cons line rest => exact fun _ hc => (Option.some.inj hc).symm

theorem reflow_tidyLines (lines : List (List Char)) (start : Bool) :
    Reflow start (led lines) (led (lines.map tidyLine)) := by
  induction lines generalizing start with
  | nil => exact .done
  | cons line rest ih => exact .keep '\n' (.tidyLine ih (atLineEnd_led _) line)

/-- Behind a line that was kept, and behind an empty line. -/
theorem reflow_collapseEmpty (lines : List (List Char)) (start : Bool) :
    Reflow start (led lines) (led (collapseEmpty false lines)) ∧
      Reflow start ('\n' :: led lines) ('\n' :: led (collapseEmpty true lines)) := by
  induction lines generalizing start with
  | nil => exact ⟨.done, .keep '\n' .done⟩
  | cons line rest ih =>
    cases line with
    | nil =>
      -- The first empty line stays, and each further one is dropped with its line end.
      exact ⟨(ih start).2, .empty (atLineEnd_led _) (ih true).2⟩
    | cons c line =>
      have hline (start : Bool) : Reflow start (led ((c :: line) :: rest))
          (led ((c :: line) :: collapseEmpty false rest)) :=
        .keepAll (fun start => (ih start).1) ('\n' :: c :: line) start
      exact ⟨hline start, .keep '\n' (hline _)⟩

theorem collapseEmpty_ne_nil {lines : List (List Char)} (h : lines ≠ []) :
    collapseEmpty false lines ≠ [] := by
  cases lines with
  | nil => exact absurd rfl h
  | cons line rest => cases line <;> simp [collapseEmpty]

theorem reflow_closing (text : List Char) (start : Bool) :
    Reflow start text (Text.trimEnd (· == '\n') text ++ ['\n']) := by
  obtain ⟨ends, htext, hends⟩ := Text.exists_eq_trimEnd_append (· == '\n') text
  have hlast (start : Bool) : Reflow start ends ['\n'] := by
    clear htext
    induction ends generalizing start with
    | nil => exact .final
    | cons c ends ih =>
      obtain rfl : c = '\n' := beq_iff_eq.1 (hends c List.mem_cons_self)
      refine .empty (fun _ hc => by cases hc) (ih ?_ true)
      exact fun d hd => hends d (List.mem_cons_of_mem _ hd)
  have hall := Reflow.keepAll hlast (Text.trimEnd (· == '\n') text) start
  rwa [← htext] at hall

/-- A text and its laid out form have the same pieces up to a literal without end, if carriage
returns stand at the ends of lines only and the blanks of all other string literals are steady. -/
theorem samePieces_formatChars {source : List Char} (hreturns : ReturnsEndLines source)
    (hsteady : ∀ piece ∈ pieces source, piece.kind = .string → Steady piece.text) :
    SamePieces (pieces ('\n' :: source)) (pieces ('\n' :: formatChars source)) := by
  have hlines := Text.lines_ne_nil (unifyNewlines source)
  have htidy : (Text.lines (unifyNewlines source)).map tidyLine ≠ [] := by simpa using hlines
  have hfirst := forall_mem_pieces_newline
    (fun kind text => kind = .string → Steady text) hsteady
  -- The blanks stay steady from step to step, because the literals stay the same.
  have hstep {x y : List Char} (hx : SamePieces (pieces ('\n' :: source)) (pieces x))
      (h : Reflow true x y) : SamePieces (pieces ('\n' :: source)) (pieces y) :=
    hx.trans (h.samePieces (hx.strings hfirst))
  have hunified := hstep (.refl _) (.keep '\n' (reflow_unifyNewlines hreturns _))
  rw [← Text.unlines_lines (unifyNewlines source), ← led_eq hlines] at hunified
  have htidied := hstep hunified (reflow_tidyLines _ _)
  have hcollapsed := hstep htidied (reflow_collapseEmpty _ _).1
  rw [led_eq (collapseEmpty_ne_nil htidy),
    ← pieces_dropWhile_newline (Text.unlines _)] at hcollapsed
  exact hstep hcollapsed (.keep '\n' (reflow_closing _ _))

/-- A text and its laid out form have the same pieces, if carriage returns stand at the ends of
lines only and the blanks of all string literals are steady. -/
theorem pieces_formatChars {source : List Char} (hreturns : ReturnsEndLines source)
    (hsettled : ∀ piece ∈ pieces source, piece.Settled) :
    pieces ('\n' :: formatChars source) = pieces ('\n' :: source) := by
  have hlegal := forall_mem_pieces_newline (fun kind _ => kind ≠ .illegal)
    fun piece hmem => (hsettled piece hmem).legal
  have hsame := samePieces_formatChars hreturns fun piece hmem => (hsettled piece hmem).steady
  exact hsame.eq_of_legal hlegal

end Layout

end Garnet
