import Garnet.Text.Quoted
import Mathlib.Tactic.Ring

/-! # Quoted texts are unambiguous

The quoted form of a character is the character itself, a backslash with one more character, or a
backslash with a mark and as many hexadecimal places as the mark asks for. So the characters of a
text can be read off its quoted form one by one, and the closing quote is found again in whatever
stands behind the text.
-/

namespace Garnet.Text

/-! ### Hexadecimal places -/

/-- The value of a hexadecimal digit in lower case. -/
def hexDigit (c : Char) : Nat :=
  if c.isDigit then c.toNat - '0'.toNat else c.toNat - 'a'.toNat + 10

theorem hexDigit_digitChar : ∀ value < 16, hexDigit (Nat.digitChar value) = value := by
  decide

/-- The number that hexadecimal places stand for, behind the places of another number. -/
def hexValue (before : Nat) (places : List Char) : Nat :=
  places.foldl (fun value place => value * 16 + hexDigit place) before

theorem hexPlaces_succ (width n : Nat) :
    hexPlaces (width + 1) n = Nat.digitChar (n / 16 ^ width % 16) :: hexPlaces width n := by
  rw [hexPlaces, List.range_succ, List.reverse_append, List.reverse_singleton,
    List.singleton_append, List.map_cons]
  rfl

theorem hexValue_hexPlaces (width before n : Nat) :
    hexValue before (hexPlaces width n) = before * 16 ^ width + n % 16 ^ width := by
  induction width generalizing before with
  | zero => simp [hexPlaces, hexValue, Nat.mod_one]
  | succ width ih =>
    have hdigit := hexDigit_digitChar (n / 16 ^ width % 16) (Nat.mod_lt _ (by decide))
    rw [hexPlaces_succ, hexValue, List.foldl_cons, hdigit, ← hexValue, ih, Nat.mod_pow_succ,
      Nat.pow_succ]
    ring

theorem mem_hexPlaces {width n : Nat} {c : Char} (h : c ∈ hexPlaces width n) :
    ∃ value < 16, c = Nat.digitChar value := by
  obtain ⟨place, -, rfl⟩ := List.mem_map.1 h
  exact ⟨_, Nat.mod_lt _ (by decide), rfl⟩

/-! ### The form of a character -/

/-- The characters that have a letter of their own. -/
def letters : List (Char × Char) :=
  [('\x07', 'a'), ('\x08', 'b'), ('\t', 't'), ('\n', 'n'), ('\x0B', 'v'), ('\x0C', 'f'),
    ('\r', 'r')]

/-- The marks in front of code points, with the number of places behind them. -/
def marks : List (Char × Nat) :=
  [('x', 2), ('u', 4), ('U', 8)]

/-- The forms that a character can have between quotes. -/
inductive Shown (c : Char) : List Char → Prop
  | plain (hprint : isPrintable c = true) (hquote : c ≠ '"') (hslash : c ≠ '\\') : Shown c [c]
  | special (hspecial : c = '"' ∨ c = '\\') : Shown c ['\\', c]
  | letter {mark : Char} (hprint : isPrintable c = false) (hmark : (c, mark) ∈ letters) :
    Shown c ['\\', mark]
  | code {mark : Char} {width : Nat} (hprint : isPrintable c = false)
    (hletter : ∀ mark, (c, mark) ∉ letters) (hmark : (mark, width) ∈ marks)
    (hwidth : c.toNat < 16 ^ width) : Shown c ('\\' :: mark :: hexPlaces width c.toNat)

theorem eq_of_toNat {c d : Char} (h : c.toNat = d.toNat) : c = d :=
  Char.toNat_inj.1 h

theorem not_mem_letters {c : Char} (h : c.toNat < 7 ∨ 13 < c.toNat) (mark : Char) :
    (c, mark) ∉ letters := by
  intro hmem
  have hcode : ∀ entry ∈ letters, 7 ≤ entry.1.toNat ∧ entry.1.toNat ≤ 13 := by decide
  have hbounds := hcode _ hmem
  dsimp only at hbounds
  omega

theorem shown_escape (c : Char) : Shown c (escape c) := by
  unfold escape
  split
  next hspecial => exact .special hspecial
  next hspecial =>
    rw [not_or] at hspecial
    split
    next hprint => exact .plain hprint hspecial.1 hspecial.2
    next hprint =>
      have hprint : isPrintable c = false := Bool.eq_false_iff.2 hprint
      have hbound : c.toNat < 0x110000 := by
        rcases c.valid with hlow | ⟨-, hhigh⟩
        · exact Nat.lt_trans hlow (by decide)
        · exact hhigh
      have hletter {d : Char} (hcode : c.toNat = d.toNat) {mark : Char}
          (hmark : (d, mark) ∈ letters) : Shown c ['\\', mark] :=
        .letter hprint (eq_of_toNat hcode ▸ hmark)
      split
      next hcode => exact hletter (d := '\x07') hcode (by decide)
      next hcode => exact hletter (d := '\x08') hcode (by decide)
      next hcode => exact hletter (d := '\t') hcode (by decide)
      next hcode => exact hletter (d := '\n') hcode (by decide)
      next hcode => exact hletter (d := '\x0B') hcode (by decide)
      next hcode => exact hletter (d := '\x0C') hcode (by decide)
      next hcode => exact hletter (d := '\r') hcode (by decide)
      next h₁ h₂ h₃ h₄ h₅ h₆ h₇ =>
        have hnone := not_mem_letters (c := c) (by grind)
        split
        next => exact .code hprint hnone (by decide) (by omega)
        next =>
          split
          next => exact .code hprint hnone (by decide) (by omega)
          next => exact .code hprint hnone (by decide) (by omega)

/-! ### Reading it back -/

/-- Read the first character of a quoted text. At the closing quote there is none. -/
def unescape? : List Char → Option (Char × List Char)
  | '\\' :: mark :: rest =>
    match marks.lookup mark with
    | some width => some (Char.ofNat (hexValue 0 (rest.take width)), rest.drop width)
    | none => some (((letters.find? (·.2 == mark)).map (·.1)).getD mark, rest)
  | '"' :: _ => none
  | c :: rest => some (c, rest)
  | [] => none

/-- The first character is found again, whatever follows it. -/
theorem unescape?_escape (c : Char) (rest : List Char) :
    unescape? (escape c ++ rest) = some (c, rest) := by
  have hshown := shown_escape c
  generalize escape c = form at hshown
  cases hshown with
  | plain hprint hquote hslash =>
    rw [List.singleton_append, unescape?.eq_def]
    split
    next heq => exact absurd (List.cons.inj heq).1 hslash
    next heq => exact absurd (List.cons.inj heq).1 hquote
    next heq => rw [← (List.cons.inj heq).1, ← (List.cons.inj heq).2]
    next heq => cases heq
  | special hspecial =>
    rcases hspecial with rfl | rfl <;> rfl
  | @letter mark hprint hmark =>
    have hfound : ∀ entry ∈ letters, marks.lookup entry.2 = none ∧
        letters.find? (·.2 == entry.2) = some entry := by
      decide
    obtain ⟨hmarks, hletters⟩ := hfound _ hmark
    rw [List.cons_append, List.singleton_append, unescape?, hmarks]
    dsimp only at hletters ⊢
    rw [hletters]
    rfl
  | @code mark width hprint hletter hmark hwidth =>
    have hfound : ∀ entry ∈ marks, marks.lookup entry.1 = some entry.2 := by decide
    have hplaces : (hexPlaces width c.toNat).length = width := length_hexPlaces width c.toNat
    rw [List.cons_append, List.cons_append, unescape?, hfound _ hmark]
    dsimp only
    rw [List.take_left' hplaces, List.drop_left' hplaces, hexValue_hexPlaces,
      Nat.mod_eq_of_lt hwidth, Nat.zero_mul, Nat.zero_add, Char.ofNat_toNat]

/-- A quoted text and what follows it are determined by the two together. -/
theorem flatMap_escape_inj {text other rest more : List Char}
    (h : text.flatMap escape ++ '"' :: rest = other.flatMap escape ++ '"' :: more) :
    text = other ∧ rest = more := by
  induction text generalizing other with
  | nil =>
    cases other with
    | nil => exact ⟨rfl, (List.cons.inj h).2⟩
    | cons d other =>
      have hread := congrArg unescape? h
      rw [List.flatMap_cons, List.append_assoc, unescape?_escape] at hread
      cases hread
  | cons c text ih =>
    have hread := congrArg unescape? h
    rw [List.flatMap_cons, List.append_assoc, unescape?_escape] at hread
    cases other with
    | nil => cases hread
    | cons d other =>
      rw [List.flatMap_cons, List.append_assoc, unescape?_escape] at hread
      obtain ⟨rfl, hbehind⟩ := Prod.mk.inj (Option.some.inj hread)
      obtain ⟨rfl, rfl⟩ := ih hbehind
      exact ⟨rfl, rfl⟩

theorem toList_quote (text : String) :
    (quote text).toList = '"' :: (text.toList.flatMap escape ++ ['"']) :=
  String.toList_ofList

theorem quote_append_inj {text other : String} {rest more : List Char}
    (h : (quote text).toList ++ rest = (quote other).toList ++ more) :
    text = other ∧ rest = more := by
  rw [toList_quote, toList_quote, List.cons_append, List.cons_append, List.append_assoc,
    List.append_assoc] at h
  obtain ⟨htext, hrest⟩ := flatMap_escape_inj (List.cons.inj h).2
  exact ⟨String.toList_inj.1 htext, hrest⟩

end Garnet.Text
