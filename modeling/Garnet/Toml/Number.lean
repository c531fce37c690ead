import Garnet.Calendar
import Garnet.Number.Binary64
import Garnet.Number.Integer

/-! # Settings files: numbers, dates and words

A bare word in the place of a value is a truth value, a number, a date or a time. Only integers are
read for their value; of the others it matters that they are well formed.
-/

namespace Garnet.Toml

/-- What a bare word means. -/
inductive Word where
  | integer (value : Int)
  | other
deriving DecidableEq, Repr

/-- Whether a text is digits of a class with single underscores between them. -/
def isDigitRun (isDigit : Char → Bool) (text : List Char) : Bool :=
  let rec go : Bool → List Char → Bool
    | afterDigit, [] => afterDigit
    | afterDigit, c :: rest =>
      if c = '_' then afterDigit && go false rest else isDigit c && go true rest
  go false text

/-- Whether a text is a decimal number without superfluous zeros in front. -/
def isWhole (text : List Char) : Bool :=
  isDigitRun Char.isDigit text && (text.length == 1 || text.head? != some '0')

/-- A text without its underscores. -/
def bare (text : List Char) : List Char :=
  text.filter (· != '_')

/-- The base of an unsigned number with a mark, and its digits. -/
def marked? : List Char → Option (Nat × List Char)
  | '0' :: 'x' :: rest => some (16, rest)
  | '0' :: 'o' :: rest => some (8, rest)
  | '0' :: 'b' :: rest => some (2, rest)
  | _ => none

/-- Whether a character is a digit of a base. -/
def isDigitOf (base : Nat) (c : Char) : Bool :=
  (Integer.digitValue? c).any (· < base)

/-- An integer that is well formed, of any size. -/
def integer? (text : List Char) : Option Int :=
  match marked? text with
  | some (base, digits) =>
    if isDigitRun (isDigitOf base) digits then
      (Integer.digits? base (bare digits)).map Int.ofNat
    else none
  | none =>
    let (negative, body) := Integer.splitSign text
    if isWhole body then (Integer.digits? 10 (bare body)).map (Integer.signed negative) else none

/-- Whether a text is an exponent. -/
def isExponent : List Char → Bool
  | mark :: rest =>
    (mark == 'e' || mark == 'E') && isDigitRun Char.isDigit (Integer.splitSign rest).2
  | [] => false

/-- Whether a text is a floating point number. -/
def isFloat (text : List Char) : Bool :=
  let body := (Integer.splitSign text).2
  if body = "inf".toList ∨ body = "nan".toList then true
  else
    let whole := body.takeWhile fun c => c.isDigit || c == '_'
    let shaped := match body.drop whole.length with
      | '.' :: rest =>
        let fraction := rest.takeWhile fun c => c.isDigit || c == '_'
        let behind := rest.drop fraction.length
        isDigitRun Char.isDigit fraction && (behind.isEmpty || isExponent behind)
      | rest => isExponent rest
    isWhole whole && shaped && (Binary64.ofText? (String.ofList (bare text))).isSome

/-- The value of two digits. -/
def pair? (a b : Char) : Option Nat :=
  if a.isDigit ∧ b.isDigit then some ((a.toNat - '0'.toNat) * 10 + (b.toNat - '0'.toNat)) else none

/-- The text behind a date. -/
def date? : List Char → Option (List Char)
  | y₁ :: y₂ :: y₃ :: y₄ :: '-' :: m₁ :: m₂ :: '-' :: d₁ :: d₂ :: rest => do
    let year := (← pair? y₁ y₂) * 100 + (← pair? y₃ y₄)
    if Calendar.isDay year (← pair? m₁ m₂) (← pair? d₁ d₂) then some rest else none
  | _ => none

/-- The text behind the seconds of a time, which may be left out. -/
def seconds? : List Char → Option (List Char)
  | ':' :: s₁ :: s₂ :: rest => do
    if 60 ≤ (← pair? s₁ s₂) then none
    match rest with
    | '.' :: fraction =>
      let digits := fraction.takeWhile Char.isDigit
      if digits.isEmpty then none else some (fraction.drop digits.length)
    | rest => some rest
  | ':' :: _ => none
  | rest => some rest

/-- The text behind a time. -/
def time? : List Char → Option (List Char)
  | h₁ :: h₂ :: ':' :: m₁ :: m₂ :: rest => do
    if 24 ≤ (← pair? h₁ h₂) ∨ 60 ≤ (← pair? m₁ m₂) then none
    seconds? rest
  | _ => none

/-- Whether a text is a time zone, or nothing. -/
def isOffset : List Char → Bool
  | [] => true
  | [z] => z == 'Z' || z == 'z'
  | [sign, h₁, h₂, ':', m₁, m₂] =>
    (sign == '+' || sign == '-') && (pair? h₁ h₂).any (· ≤ 24) && (pair? m₁ m₂).any (· ≤ 60)
  | _ => false

/-- Whether a text is a date, a time, or both with an optional time zone. -/
def isMoment (text : List Char) : Bool :=
  match date? text with
  | some [] => true
  | some (mark :: rest) => (mark == 'T' || mark == 't' || mark == ' ') && (time? rest).any isOffset
  | none => (time? text).any List.isEmpty

/-- What a bare word means, if it means anything. -/
def word? (text : List Char) : Option Word :=
  match integer? text with
  | some n => if Integer.fitsSigned n then some (.integer n) else none
  | none =>
    if text = "true".toList ∨ text = "false".toList ∨ isFloat text ∨ isMoment text then some .other
    else none

end Garnet.Toml
