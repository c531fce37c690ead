import Mathlib.Algebra.Group.Nat.Defs
import Mathlib.Tactic.SplitIfs

/-! # Texts in the order of their bytes

The encoding of a character begins with a byte that tells its length, and its other bytes hold six
bits of the code point each, the highest ones first. So a character with a smaller code point has
the smaller bytes, and texts are in the same order by their bytes as by their characters.
-/

namespace Garnet.Text

/-! ### The bytes of a text -/

theorem toList_loop (bytes : ByteArray) (i : Nat) (found : List UInt8) :
    ByteArray.toList.loop bytes i found = found.reverse ++ bytes.data.toList.drop i := by
  fun_induction ByteArray.toList.loop bytes i found with
  | case1 i found hi ih =>
    have hlt : i < bytes.data.toList.length := hi
    have hbyte : bytes.get! i :: bytes.data.toList.drop (i + 1) = bytes.data.toList.drop i := by
      rw [List.drop_eq_getElem_cons hlt]
      simp [ByteArray.get!, hi]
    rw [ih, List.reverse_cons, List.append_assoc, List.singleton_append, hbyte]
  | case2 i found hi => rw [List.drop_eq_nil_of_le (Nat.le_of_not_lt hi), List.append_nil]

theorem toList_toUTF8 (text : String) : text.toUTF8.toList = text.toByteArray.data.toList := by
  rw [ByteArray.toList, toList_loop]
  rfl

theorem toList_toUTF8_eq_flatMap (text : String) :
    text.toUTF8.toList = text.toList.flatMap String.utf8EncodeChar := by
  have hbytes : text.toByteArray = text.toList.utf8Encode := by
    rw [← String.toByteArray_ofList, String.ofList_toList]
  rw [toList_toUTF8, hbytes]
  exact List.toList_data_toByteArray

/-! ### The bytes of a character -/

/-- The bytes come first in the order of bytes, whatever follows them. -/
def Below (bytes other : List UInt8) : Prop :=
  ∀ rest more, bytes ++ rest < other ++ more

theorem Below.head {a b : UInt8} (h : a < b) (bytes other : List UInt8) :
    Below (a :: bytes) (b :: other) :=
  fun _ _ => List.cons_lt_cons_iff.2 (.inl h)

theorem ofNat_lt {m n : Nat} (h : m % 256 < n % 256) : UInt8.ofNat m < UInt8.ofNat n := by
  rwa [UInt8.lt_iff_toNat_lt, UInt8.toNat_ofNat', UInt8.toNat_ofNat']

/-- A number in one byte for its highest bits and some for six further bits each. -/
def sixBits (lead : Nat → UInt8) : Nat → Nat → List UInt8
  | 0, n => [lead n]
  | further + 1, n => sixBits lead further (n / 64) ++ [UInt8.ofNat (n % 64 + 0x80)]

/-- The lowest bits decide only if all others are alike. -/
theorem below_sixBits {lead : Nat → UInt8} {bound : Nat}
    (hlead : ∀ a b, a < b → b < bound → lead a < lead b) (further : Nat) {m n : Nat} (h : m < n)
    (hn : n < bound * 64 ^ further) :
    Below (sixBits lead further m) (sixBits lead further n) := by
  induction further generalizing m n with
  | zero =>
    rw [Nat.pow_zero, Nat.mul_one] at hn
    exact .head (hlead m n h hn) [] []
  | succ further ih =>
    have hfront : m / 64 ≤ n / 64 := Nat.div_le_div_right (Nat.le_of_lt h)
    rw [Nat.pow_succ, ← Nat.mul_assoc, Nat.mul_comm] at hn
    intro rest more
    rw [sixBits, sixBits, List.append_assoc, List.append_assoc]
    rcases Nat.lt_or_eq_of_le hfront with hlt | heq
    · exact ih hlt (Nat.div_lt_of_lt_mul hn) _ _
    · have hlast : UInt8.ofNat (m % 64 + 0x80) < UInt8.ofNat (n % 64 + 0x80) :=
        ofNat_lt (by omega)
      rw [heq]
      exact List.append_left_lt (List.cons_lt_cons_iff.2 (.inl hlast))

theorem exists_sixBits_eq (lead : Nat → UInt8) (further n : Nat) :
    ∃ rest, sixBits lead further n = lead (n / 64 ^ further) :: rest := by
  induction further generalizing n with
  | zero => exact ⟨[], by rw [sixBits, Nat.pow_zero, Nat.div_one]⟩
  | succ further ih =>
    obtain ⟨rest, hrest⟩ := ih (n / 64)
    refine ⟨rest ++ [UInt8.ofNat (n % 64 + 0x80)], ?_⟩
    rw [sixBits, hrest, Nat.div_div_eq_div_mul, Nat.pow_succ, Nat.mul_comm 64]
    rfl

/-- The first bytes decide, whatever the lengths are. -/
theorem below_of_lead {lead other : Nat → UInt8} {further beyond m n : Nat}
    (h : lead (m / 64 ^ further) < other (n / 64 ^ beyond)) :
    Below (sixBits lead further m) (sixBits other beyond n) := by
  obtain ⟨rest, hrest⟩ := exists_sixBits_eq lead further m
  obtain ⟨more, hmore⟩ := exists_sixBits_eq other beyond n
  rw [hrest, hmore]
  exact .head h rest more

/-- How a character is encoded, by its code point. -/
theorem utf8EncodeChar_eq (c : Char) : String.utf8EncodeChar c =
    if c.val.toNat ≤ 0x7f then sixBits UInt8.ofNat 0 c.val.toNat
    else if c.val.toNat ≤ 0x7ff then
      sixBits (fun n => UInt8.ofNat (n % 0x20 + 0xc0)) 1 c.val.toNat
    else if c.val.toNat ≤ 0xffff then
      sixBits (fun n => UInt8.ofNat (n % 0x10 + 0xe0)) 2 c.val.toNat
    else sixBits (fun n => UInt8.ofNat (n % 0x08 + 0xf0)) 3 c.val.toNat := by
  simp only [sixBits, Nat.div_div_eq_div_mul]
  rfl

/-- A character with a smaller code point has the smaller bytes: of two encodings of the same length
the bits decide, and a longer one begins with a larger byte. -/
theorem below_utf8EncodeChar {c d : Char} (h : c < d) :
    Below (String.utf8EncodeChar c) (String.utf8EncodeChar d) := by
  have hlt : c.val.toNat < d.val.toNat := h
  have hd : d.val.toNat < 0x110000 := by
    rcases d.valid with hlow | ⟨-, hhigh⟩
    · exact Nat.lt_trans hlow (by decide)
    · exact hhigh
  have hsame {lead : Nat → Nat} (bound further : Nat)
      (hlead : ∀ a b, a < b → b < bound → lead a % 256 < lead b % 256)
      (hbound : d.val.toNat < bound * 64 ^ further) :
      Below (sixBits (fun n => UInt8.ofNat (lead n)) further c.val.toNat)
        (sixBits (fun n => UInt8.ofNat (lead n)) further d.val.toNat) :=
    below_sixBits (fun a b hab hb => ofNat_lt (hlead a b hab hb)) further hlt hbound
  rw [utf8EncodeChar_eq, utf8EncodeChar_eq]
  split_ifs
  · exact hsame 0x80 0 (by omega) (by omega)
  · exact below_of_lead (ofNat_lt (by omega))
  · exact below_of_lead (ofNat_lt (by omega))
  · exact below_of_lead (ofNat_lt (by omega))
  · omega
  · exact hsame 0x20 1 (by omega) (by omega)
  · exact below_of_lead (ofNat_lt (by omega))
  · exact below_of_lead (ofNat_lt (by omega))
  · omega
  · omega
  · exact hsame 0x10 2 (by omega) (by omega)
  · exact below_of_lead (ofNat_lt (by omega))
  · omega
  · omega
  · omega
  · exact hsame 0x08 3 (by omega) (by omega)

/-! ### The order of texts -/

/-- Texts are in the order of their bytes. -/
theorem flatMap_utf8EncodeChar_lt {text other : List Char} (h : text < other) :
    text.flatMap String.utf8EncodeChar < other.flatMap String.utf8EncodeChar := by
  induction text generalizing other with
  | nil =>
    cases other with
    | nil => exact absurd h (List.lt_irrefl _)
    | cons d other =>
      rw [List.flatMap_nil, List.flatMap_cons]
      cases hbytes : String.utf8EncodeChar d with
      | nil => exact absurd hbytes String.utf8EncodeChar_ne_nil
      | cons byte bytes => exact List.nil_lt_cons _ _
  | cons c text ih =>
    cases other with
    | nil => exact absurd h (List.not_lt_nil _)
    | cons d other =>
      rw [List.flatMap_cons, List.flatMap_cons]
      rcases List.cons_lt_cons_iff.1 h with hlt | ⟨rfl, hrest⟩
      · exact below_utf8EncodeChar hlt _ _
      · exact List.append_left_lt (ih hrest)

theorem toList_toUTF8_lt {text other : String} (h : text < other) :
    text.toUTF8.toList < other.toUTF8.toList := by
  rw [toList_toUTF8_eq_flatMap, toList_toUTF8_eq_flatMap]
  exact flatMap_utf8EncodeChar_lt h

end Garnet.Text
