/-! # Integer numerals with a base

An integer numeral has an optional sign and an optional mark for its base: `0x` for sixteen, `0b`
for two, `0o` or a leading zero for eight. In a numeral that is read with its mark, an underscore
may stand between two digits, or between the mark and a digit.
-/

namespace Garnet.Integer

/-- The value of a digit in bases up to sixteen. -/
def digitValue? (c : Char) : Option Nat :=
  if c.isDigit then some (c.toNat - '0'.toNat)
  else if 'a' ≤ c ∧ c ≤ 'f' then some (c.toNat - 'a'.toNat + 10)
  else if 'A' ≤ c ∧ c ≤ 'F' then some (c.toNat - 'A'.toNat + 10)
  else none

/-- The value of a run of digits in a base; nothing if there are none, or one that does not fit. -/
def digits? (base : Nat) (text : List Char) : Option Nat :=
  if text.isEmpty then none
  else text.foldlM
    (fun n c => (digitValue? c).bind fun d => if d < base then some (n * base + d) else none) 0

/-- The base that the front of a numeral marks, and the digits after the mark. -/
def splitBase : List Char → Nat × List Char
  | '0' :: mark :: rest =>
    if mark = 'x' ∨ mark = 'X' then (16, rest)
    else if mark = 'b' ∨ mark = 'B' then (2, rest)
    else if mark = 'o' ∨ mark = 'O' then (8, rest)
    else (8, mark :: rest)
  | text => (10, text)

/-- Whether each underscore stands between digits; the first argument says whether a digit, or the
mark of a base, stands right before the text. -/
def separatorsFit (afterDigit : Bool) : List Char → Bool
  | [] => true
  | ['_'] => false
  | '_' :: next :: rest => afterDigit && next != '_' && separatorsFit true rest
  | _ :: rest => separatorsFit true rest

/-- The value of an unsigned numeral with a mark for its base. -/
def natural? (text : List Char) : Option Nat :=
  let (base, digits) := splitBase text
  if separatorsFit (base != 10) digits then digits? base (digits.filter (· != '_')) else none

/-- Split off the sign of a numeral. -/
def splitSign : List Char → Bool × List Char
  | '-' :: rest => (true, rest)
  | '+' :: rest => (false, rest)
  | text => (false, text)

/-- Give a number its sign. -/
def signed (negative : Bool) (n : Nat) : Int :=
  if negative then -Int.ofNat n else Int.ofNat n

/-- The number of values that 64 bits have. -/
def wordCount : Nat := 0x10000000000000000

/-- Whether an integer has 64 bits with its sign. -/
def fitsSigned (n : Int) : Bool :=
  -0x8000000000000000 ≤ n && n < 0x8000000000000000

/-- Why a numeral is not read. -/
inductive Refusal where
  | malformed
  | outOfRange
deriving DecidableEq, Repr

/-- The value of the digits at the front of a text. Underscores between them do not count. -/
def leadingValue (base : Nat) : List Char → Nat → Nat
  | [], value => value
  | c :: rest, value =>
    if c = '_' then leadingValue base rest value
    else match digitValue? c with
      | some d => if d < base then leadingValue base rest (value * base + d) else value
      | none => value

/-- Whether the digits at the front of an unsigned numeral are too many for 64 bits. -/
def overflows (text : List Char) : Bool :=
  let (base, digits) := splitBase text
  wordCount ≤ leadingValue base digits 0

/-- Read a signed numeral with a mark for its base as an integer of 64 bits. A numeral with too many
digits at its front is out of range, whatever stands behind them. -/
def read (text : List Char) : Except Refusal Int :=
  let (negative, rest) := splitSign text
  if overflows rest then .error .outOfRange
  else match natural? rest with
  | none => .error .malformed
  | some n => if fitsSigned (signed negative n) then .ok (signed negative n) else .error .outOfRange

/-- Read a signed decimal numeral as an integer of 64 bits. -/
def readDecimal (text : List Char) : Except Refusal Int :=
  let (negative, rest) := splitSign text
  match digits? 10 rest with
  | none => .error .malformed
  | some n => if fitsSigned (signed negative n) then .ok (signed negative n) else .error .outOfRange

end Garnet.Integer
