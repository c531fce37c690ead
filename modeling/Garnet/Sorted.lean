/-! # Sorting by insertion

Lists are put in order by inserting one element after the other. Elements that the order does not
tell apart stay in the order in which they came.
-/

namespace Garnet

variable {α : Type}

/-- Insert an element in front of the first one that is not before it. -/
def insertBy (before : α → α → Bool) (item : α) : List α → List α
  | [] => [item]
  | head :: rest =>
    if before head item then head :: insertBy before item rest else item :: head :: rest

/-- Put a list in order. -/
def sortBy (before : α → α → Bool) (items : List α) : List α :=
  items.foldr (insertBy before) []

theorem perm_insertBy (before : α → α → Bool) (item : α) (items : List α) :
    (insertBy before item items).Perm (item :: items) := by
  induction items with
  | nil => exact .refl _
  | cons head rest ih =>
    simp only [insertBy]
    split
    · exact (ih.cons head).trans (.swap item head rest)
    · exact .refl _

/-- Sorting loses and adds nothing. -/
theorem perm_sortBy (before : α → α → Bool) (items : List α) :
    (sortBy before items).Perm items := by
  induction items with
  | nil => exact .refl _
  | cons head rest ih => exact (perm_insertBy before head _).trans (ih.cons head)

end Garnet
