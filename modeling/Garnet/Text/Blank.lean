import Garnet.Text.Ranges

/-! # White space

White space is the Unicode property of that name.
-/

namespace Garnet.Text

/-- White space from U+0080 on. -/
def blankRanges : Ranges :=
  [(0x85, 0x85), (0xA0, 0xA0), (0x1680, 0x1680), (0x2000, 0x200A), (0x2028, 0x2029),
   (0x202F, 0x202F), (0x205F, 0x205F), (0x3000, 0x3000)]

/-- White space in the sense of Unicode: what words are separated by and what is trimmed. -/
def isBlank (c : Char) : Bool :=
  if c.toNat < 0x80 then c.toNat == 0x20 || (0x09 ≤ c.toNat && c.toNat ≤ 0x0D)
  else blankRanges.contains c.toNat

end Garnet.Text
