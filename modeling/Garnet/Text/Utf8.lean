/-! # Text from bytes

Source text arrives as bytes. A well-formed UTF-8 sequence is one character; a byte that begins
none counts as one replacement character, and reading goes on at the next byte.
-/

namespace Garnet.Text

/-- Stands for a byte that is not part of a well-formed sequence. -/
def replacement : Char := '\uFFFD'

/-- The payload of a continuation byte that lies within the given bounds. -/
def continuation? (low high : Nat) (byte : UInt8) : Option Nat :=
  if low ≤ byte.toNat ∧ byte.toNat ≤ high then some (byte.toNat % 0x40) else none

/-- The character that a leading byte and the bytes after it spell, with the number of bytes it
takes after the leading one. Overlong forms, surrogates and code points past U+10FFFF spell none:
the bounds on the second byte exclude them. -/
def spelled? (lead : UInt8) (rest : List UInt8) : Option (Char × Nat) :=
  let n := lead.toNat
  if n < 0x80 then some (Char.ofNat n, 0)
  else if 0xC2 ≤ n ∧ n ≤ 0xDF then
    match rest with
    | b₁ :: _ => do
      let x ← continuation? 0x80 0xBF b₁
      some (Char.ofNat (n % 0x20 * 0x40 + x), 1)
    | _ => none
  else if 0xE0 ≤ n ∧ n ≤ 0xEF then
    match rest with
    | b₁ :: b₂ :: _ => do
      let x ← continuation? (if n = 0xE0 then 0xA0 else 0x80) (if n = 0xED then 0x9F else 0xBF) b₁
      let y ← continuation? 0x80 0xBF b₂
      some (Char.ofNat ((n % 0x10 * 0x40 + x) * 0x40 + y), 2)
    | _ => none
  else if 0xF0 ≤ n ∧ n ≤ 0xF4 then
    match rest with
    | b₁ :: b₂ :: b₃ :: _ => do
      let x ← continuation? (if n = 0xF0 then 0x90 else 0x80) (if n = 0xF4 then 0x8F else 0xBF) b₁
      let y ← continuation? 0x80 0xBF b₂
      let z ← continuation? 0x80 0xBF b₃
      some (Char.ofNat (((n % 8 * 0x40 + x) * 0x40 + y) * 0x40 + z), 3)
    | _ => none
  else none

/-- Read bytes as text; each byte that spells nothing becomes a replacement character. -/
def ofBytes : List UInt8 → List Char
  | [] => []
  | lead :: rest =>
    match spelled? lead rest with
    | some (c, taken) => c :: ofBytes (rest.drop taken)
    | none => replacement :: ofBytes rest
termination_by bytes => bytes.length
decreasing_by all_goals simp only [List.length_drop, List.length_cons]; omega

end Garnet.Text
