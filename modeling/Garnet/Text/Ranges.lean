/-! # Ranges of code points

A character class beyond ASCII is a table of closed intervals. The tables list them in ascending
order; membership does not depend on the order.
-/

namespace Garnet.Text

/-- Closed intervals of code points. -/
abbrev Ranges := List (Nat × Nat)

/-- Whether a code point lies in one of the intervals. -/
def Ranges.contains (ranges : Ranges) (codePoint : Nat) : Bool :=
  ranges.any fun (low, high) => low ≤ codePoint && codePoint ≤ high

theorem Ranges.contains_iff {ranges : Ranges} {codePoint : Nat} :
    ranges.contains codePoint ↔ ∃ r ∈ ranges, r.1 ≤ codePoint ∧ codePoint ≤ r.2 := by
  simp [Ranges.contains]

end Garnet.Text
