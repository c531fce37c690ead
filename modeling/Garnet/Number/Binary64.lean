/-! # Binary floating point numbers

The numbers of the 64-bit binary format, held exactly: a finite number is a sign, a significand
below 2⁵³ and a power of two. A decimal numeral is read as the nearest of them, a tie going to
the even significand.
-/

namespace Garnet

/-- A number of the 64-bit binary format. A finite one has the value `significand * 2 ^ exponent`,
negated if `negative`; zero keeps its sign. -/
inductive Binary64 where
  | nan
  | infinite (negative : Bool)
  | finite (negative : Bool) (significand : Nat) (exponent : Int)
deriving DecidableEq, Repr

namespace Binary64

/-- The exponent of the smallest positive number. -/
def minExponent : Int := -1074

/-- The exponent of the largest finite number. -/
def maxExponent : Int := 971

/-- The quotient of two numbers, rounded to the nearest integer, a tie going to the even one. -/
def roundedQuotient (num den : Nat) : Nat :=
  let low := num / den
  let twice := 2 * (num % den)
  if twice < den then low
  else if twice = den then low + low % 2
  else low + 1

/-- The factor by which the power `base ^ e` multiplies a numerator, and a denominator. -/
def powerFactors (base : Nat) (e : Int) : Nat × Nat :=
  if 0 ≤ e then (Nat.pow base e.toNat, 1) else (1, Nat.pow base (-e).toNat)

/-- Significands have 53 bits. -/
def significandCount : Nat := 0x20000000000000

/-- The significand of `num / den` at a given exponent. -/
def significandAt (num den : Nat) (exponent : Int) : Nat :=
  let (up, down) := powerFactors 2 exponent
  roundedQuotient (num * down) (den * up)

/-- The number nearest to `num / den`, or nothing if that lies past the largest one. The first
exponent tried has a quotient of 53 or 54 bits; one that is too long goes one exponent up. -/
def ofRatio? (negative : Bool) (num den : Nat) : Option Binary64 :=
  if num = 0 then some (.finite negative 0 minExponent)
  else
    let first := max minExponent ((Nat.log2 num : Int) - Nat.log2 den - 53)
    let exponent :=
      if significandAt num den first < significandCount then first else first + 1
    let significand := significandAt num den exponent
    let (significand, exponent) :=
      if significand < significandCount then (significand, exponent)
      else (significand / 2, exponent + 1)
    if exponent ≤ maxExponent then some (.finite negative significand exponent) else none

/-- The number nearest to `digits * 10 ^ scale`, or nothing if that lies past the largest one.
Scales so far out that the result is beyond doubt are settled without computing the power. -/
def ofDecimal? (negative : Bool) (digits : Nat) (scale : Int) : Option Binary64 :=
  let places : Int := (Nat.toDigits 10 digits).length
  if digits = 0 ∨ places + scale < -400 then some (.finite negative 0 minExponent)
  else if 400 < places + scale then none
  else
    let (up, down) := powerFactors 10 scale
    ofRatio? negative (digits * up) down

/-! ### Reading numerals -/

/-- The value of a run of ASCII digits; nothing if there is another character, or none at all. -/
def natural? (digits : List Char) : Option Nat :=
  if digits.isEmpty then none
  else
    let digit (n : Nat) (c : Char) : Option Nat :=
      if c.isDigit then some (n * 10 + (c.toNat - '0'.toNat)) else none
    digits.foldlM digit 0

/-- The value of a signed run of ASCII digits. -/
def integer? : List Char → Option Int
  | '+' :: digits => (natural? digits).map Int.ofNat
  | '-' :: digits => (natural? digits).map fun n => -Int.ofNat n
  | digits => (natural? digits).map Int.ofNat

/-- The digits of a numeral without sign and exponent, with the number of them behind the point. -/
def mantissa? (text : List Char) : Option (Nat × Nat) :=
  let whole := text.takeWhile (· != '.')
  let fraction := (text.drop whole.length).drop 1
  (natural? (whole ++ fraction)).map fun n => (n, fraction.length)

/-- Read an unsigned decimal numeral, with a fraction and an exponent or without. -/
def ofUnsigned? (negative : Bool) (text : List Char) : Option Binary64 := do
  let head := text.takeWhile fun c => c != 'e' && c != 'E'
  let (digits, places) ← mantissa? head
  let exponent ← match text.drop head.length with
    | [] => some 0
    | _ :: rest => integer? rest
  ofDecimal? negative digits (exponent - places)

/-- Read a numeral: an optional sign, then a decimal numeral or the name of an infinity, or the
name of the value that is no number. A number past the largest one is not read. -/
def ofText? (text : String) : Option Binary64 :=
  let unsigned (negative : Bool) (body : List Char) : Option Binary64 :=
    let name := body.map Char.toLower
    if name = "inf".toList ∨ name = "infinity".toList then some (.infinite negative)
    else ofUnsigned? negative body
  if text.toList.map Char.toLower = "nan".toList then some .nan
  else match text.toList with
    | '-' :: body => unsigned true body
    | '+' :: body => unsigned false body
    | body => unsigned false body

end Binary64

end Garnet
