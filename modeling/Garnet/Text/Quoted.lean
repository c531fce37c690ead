import Garnet.Text.Printable

/-! # Quoted text

A text is shown between double quotes. Printable characters stand for themselves, the quote and the
backslash take a backslash, seven controls have a letter of their own, and every other character
is given by its code point in hexadecimal, in two, four or eight places.
-/

namespace Garnet.Text

/-- The last `width` places of a number in hexadecimal, in lower case. -/
def hexPlaces (width : Nat) (n : Nat) : List Char :=
  (List.range width).reverse.map fun place => Nat.digitChar (n / Nat.pow 16 place % 16)

theorem length_hexPlaces (width n : Nat) : (hexPlaces width n).length = width := by
  simp [hexPlaces]

/-- How one character is written inside double quotes. -/
def escape (c : Char) : List Char :=
  if c = '"' ∨ c = '\\' then ['\\', c]
  else if isPrintable c then [c]
  else match c.toNat with
    | 0x07 => ['\\', 'a']
    | 0x08 => ['\\', 'b']
    | 0x09 => ['\\', 't']
    | 0x0A => ['\\', 'n']
    | 0x0B => ['\\', 'v']
    | 0x0C => ['\\', 'f']
    | 0x0D => ['\\', 'r']
    | n =>
      if n < 0x20 ∨ n = 0x7F then '\\' :: 'x' :: hexPlaces 2 n
      else if n < 0x10000 then '\\' :: 'u' :: hexPlaces 4 n
      else '\\' :: 'U' :: hexPlaces 8 n

/-- A text between double quotes, with everything that is not printable escaped. -/
def quote (text : String) : String :=
  String.ofList ('"' :: text.toList.flatMap escape ++ ['"'])

end Garnet.Text
