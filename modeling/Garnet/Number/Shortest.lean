import Garnet.Number.Binary64

/-! # Shortest decimal text of a binary number

A finite number is written with the fewest digits that read back as the same number, and of those
the nearest, a tie going to the even last digit. The numbers that read back form an interval
around the value: up to half the distance to each neighbour, ends included when the significand
is even.
-/

namespace Garnet.Binary64

/-- Decimal digits `digits * 10 ^ scale` of a positive number. -/
structure Digits where
  digits : Nat
  scale : Int
deriving DecidableEq, Repr

/-- A positive number and the interval of reals that are rounded to it, all as numerators over
one denominator. -/
structure Span where
  value : Nat
  low : Nat
  high : Nat
  den : Nat
  /-- Whether the ends belong to the interval. -/
  closed : Bool
deriving DecidableEq, Repr

/-- The interval of a finite positive number. Below a power of two the numbers lie twice as dense,
so there the lower half distance is half as long. -/
def span (significand : Nat) (exponent : Int) : Span :=
  let (up, down) := powerFactors 2 exponent
  let unit := 4 * up
  let value := significand * unit
  let below := if 2 * significand = significandCount ∧ minExponent < exponent then up else 2 * up
  ⟨value, value - below, value + 2 * up, 4 * down, significand % 2 = 0⟩

/-- Whether `n * 10 ^ scale` lies in the interval, the power given as a pair of factors. -/
def Span.contains (s : Span) (power : Nat × Nat) (n : Nat) : Bool :=
  let scaled := n * power.1 * s.den
  let low := s.low * power.2
  let high := s.high * power.2
  if s.closed then low ≤ scaled && scaled ≤ high else low < scaled && scaled < high

/-- The neighbour of the value on the grid of multiples of `10 ^ scale` that lies in the interval,
the nearer one if both do, and the even one at a tie. -/
def Span.onGrid? (s : Span) (scale : Int) : Option Nat :=
  let power := powerFactors 10 scale
  let num := s.value * power.2
  let den := s.den * power.1
  let low := num / den
  let twice := 2 * (num % den)
  let lowIn := s.contains power low
  let highIn := s.contains power (low + 1)
  if lowIn && highIn then
    if twice < den then some low
    else if twice = den then some (low + low % 2)
    else some (low + 1)
  else if lowIn then some low
  else if highIn then some (low + 1)
  else none

/-- An upper bound for the decimal exponent of a value, at most one too high. -/
def Span.magnitude (s : Span) : Int :=
  let whole := s.value / s.den
  if 0 < whole then ((Nat.toDigits 10 whole).length : Int)
  else 1 - ((Nat.toDigits 10 (s.den / s.value)).length : Int)

/-- The first grid, from coarse to fine, that has a point in the interval. -/
def Span.search (s : Span) (scale : Int) : Nat → Option Digits
  | 0 => none
  | steps + 1 =>
    match s.onGrid? scale with
    | some 0 | none => s.search (scale - 1) steps
    | some n => some ⟨n, scale⟩

/-- The digits of a number without trailing zeros. -/
def Digits.trim (d : Digits) : Nat → Digits
  | 0 => d
  | steps + 1 => if d.digits % 10 = 0 then Digits.trim ⟨d.digits / 10, d.scale + 1⟩ steps else d

/-- The fewest digits that read back as a positive finite number. Seventeen digits always do. -/
def shortest (significand : Nat) (exponent : Int) : Digits :=
  let s := span significand exponent
  let found := (s.search s.magnitude 20).getD ⟨s.value / s.den, 0⟩
  found.trim 20

/-- How floating point numbers are laid out in a tree. -/
structure Style where
  /-- Decimal exponents below this one are written out as an exponent. -/
  leastPositional : Int
  /-- Decimal exponents from this one on are written out as an exponent. -/
  firstScientific : Int
  /-- The least number of digits of a written exponent. -/
  exponentPlaces : Nat

/-- Numbers from one ten-thousandth up to a million are written positionally; an exponent has a
sign and at least two digits. -/
def treeStyle : Style := ⟨-4, 6, 2⟩

/-- Pad a numeral with zeros on the left. -/
def padZeros (width : Nat) (digits : List Char) : List Char :=
  List.replicate (width - digits.length) '0' ++ digits

/-- Lay out digits as positional notation or with an exponent. -/
def Style.render (style : Style) (d : Digits) : List Char :=
  let digits := Nat.toDigits 10 d.digits
  let exponent := d.scale + digits.length - 1
  if exponent < style.leastPositional ∨ style.firstScientific ≤ exponent then
    let fraction := if digits.length = 1 then [] else '.' :: digits.drop 1
    let sign := if exponent < 0 then '-' else '+'
    digits.take 1 ++ fraction ++ 'e' :: sign ::
      padZeros style.exponentPlaces (Nat.toDigits 10 exponent.natAbs)
  else if exponent < 0 then
    '0' :: '.' :: List.replicate (exponent.natAbs - 1) '0' ++ digits
  else
    let whole := exponent.toNat + 1
    if digits.length ≤ whole then digits ++ List.replicate (whole - digits.length) '0'
    else digits.take whole ++ '.' :: digits.drop whole

/-- The text of a number. -/
def text : Binary64 → String
  | nan => "NaN"
  | infinite false => "+Inf"
  | infinite true => "-Inf"
  | finite negative significand exponent =>
    let body := if significand = 0 then ['0'] else treeStyle.render (shortest significand exponent)
    String.ofList (if negative then '-' :: body else body)

end Garnet.Binary64
