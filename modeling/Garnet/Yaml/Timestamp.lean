import Garnet.Calendar

/-! # Dates and times in plain text

A plain scalar that looks like a date is not read as a text. Recognised are a date alone, and a
date with a time of day behind a `T` with a time zone, or behind spaces without one.
-/

namespace Garnet.Yaml

/-- One or two digits, with the text behind them. -/
def shortNumber? : List Char → Option (Nat × List Char)
  | a :: b :: rest =>
    if !a.isDigit then none
    else if b.isDigit then
      some ((a.toNat - '0'.toNat) * 10 + (b.toNat - '0'.toNat), rest)
    else some (a.toNat - '0'.toNat, b :: rest)
  | [a] => if a.isDigit then some (a.toNat - '0'.toNat, []) else none
  | [] => none

/-- The text behind a given character. -/
def after? (c : Char) : List Char → Option (List Char)
  | d :: rest => if d = c then some rest else none
  | [] => none

/-- A date with a year of four digits, and the text behind it. -/
def date? (text : List Char) : Option (List Char) := do
  let year := text.takeWhile Char.isDigit
  if year.length ≠ 4 then none
  let rest ← after? '-' (text.drop 4)
  let (month, rest) ← shortNumber? rest
  let rest ← after? '-' rest
  let (day, rest) ← shortNumber? rest
  let yearNumber := year.foldl (fun n c => n * 10 + (c.toNat - '0'.toNat)) 0
  if Calendar.isDay yearNumber month day then some rest else none

/-- The text behind a fraction of a second, which may be absent. -/
def skipFraction : List Char → List Char
  | mark :: digit :: rest =>
    if (mark = '.' ∨ mark = ',') ∧ digit.isDigit then rest.dropWhile Char.isDigit
    else mark :: digit :: rest
  | text => text

/-- A time of day, and the text behind it. -/
def time? (text : List Char) : Option (List Char) := do
  let (hour, rest) ← shortNumber? text
  let rest ← after? ':' rest
  let (minute, rest) ← shortNumber? rest
  let rest ← after? ':' rest
  let (second, rest) ← shortNumber? rest
  if hour < 24 ∧ minute < 60 ∧ second < 60 then some (skipFraction rest) else none

/-- Whether a text is a time zone. -/
def isZone : List Char → Bool
  | ['Z'] => true
  | [sign, h₁, h₂, ':', m₁, m₂] =>
    (sign == '+' || sign == '-') && [h₁, h₂, m₁, m₂].all Char.isDigit &&
      (h₁.toNat - '0'.toNat) * 10 + (h₂.toNat - '0'.toNat) ≤ 24 &&
      (m₁.toNat - '0'.toNat) * 10 + (m₂.toNat - '0'.toNat) ≤ 60
  | _ => false

/-- Whether a text is a date, or a date with a time of day. -/
def isTimestamp (text : List Char) : Bool :=
  match date? text with
  | none => false
  | some [] => true
  | some (mark :: rest) =>
    if mark = 'T' ∨ mark = 't' then (time? rest).any isZone
    else if mark = ' ' then (time? (rest.dropWhile (· == ' '))).any List.isEmpty
    else false

end Garnet.Yaml
