import Garnet.Number.Integer
import Garnet.Text.Digit
import Garnet.Text.Letter

/-! # The order of keys

Keys are compared character by character, but runs of digits as numbers, so that `a2` comes before
`a10`. Letters come after other characters, unless the characters just before were digits.
-/

namespace Garnet.Yaml

/-- The number that a run of digits at the front of a text spells, begun with a given number. It is
kept to 64 bits. -/
def runValue (start : Int) (text : List Char) : Int :=
  (text.takeWhile Text.isDigit).foldl
    (fun n c => Int.bmod (n * 10 + ((c.toNat : Int) - '0'.toNat)) Integer.wordCount) start

/-- The length of the run of digits at the front of a text. -/
def runLength (text : List Char) : Nat :=
  (text.takeWhile Text.isDigit).length

/-- Whether one key comes before another from a place on where both have the same characters before
it, given backwards. -/
def keyBeforeFrom (behind : List Char) : List Char → List Char → Bool
  | [], second => !second.isEmpty
  | _ :: _, [] => false
  | a :: first, b :: second =>
    if a = b then keyBeforeFrom (a :: behind) first second
    else if Text.isLetter a && Text.isLetter b then a < b
    else if Text.isLetter a || Text.isLetter b then
      if behind.head?.any Text.isDigit then Text.isLetter a else Text.isLetter b
    else
      let significant := (behind.takeWhile Text.isDigit).any (· != '0')
      let start : Int := if (a == '0' || b == '0') && significant then 1 else 0
      let x := runValue start (a :: first)
      let y := runValue start (b :: second)
      if x ≠ y then x < y
      else if runLength (a :: first) ≠ runLength (b :: second) then
        runLength (a :: first) < runLength (b :: second)
      else a < b

/-- Whether one key comes before another. -/
def keyBefore (first second : String) : Bool :=
  keyBeforeFrom [] first.toList second.toList

end Garnet.Yaml
