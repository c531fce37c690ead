/-! # Trimming

Characters of a class are taken off the ends of a text.
-/

namespace Garnet.Text

/-- Drop the longest tail whose characters are all of a class. -/
def trimEnd (p : Char → Bool) (text : List Char) : List Char :=
  (text.reverse.dropWhile p).reverse

/-- Drop the longest head and the longest tail whose characters are all of a class. -/
def trim (p : Char → Bool) (text : List Char) : List Char :=
  trimEnd p (text.dropWhile p)

@[simp] theorem trimEnd_nil (p : Char → Bool) : trimEnd p [] = [] := rfl

theorem trimEnd_append_singleton (p : Char → Bool) (text : List Char) (c : Char) :
    trimEnd p (text ++ [c]) = if p c then trimEnd p text else text ++ [c] := by
  simp only [trimEnd, List.reverse_append, List.reverse_singleton, List.singleton_append,
    List.dropWhile_cons]
  split <;> simp

end Garnet.Text
