/-! # Positions in a source text

Lines and columns count from one, columns in characters. Trees can be built by hand, so a position
is a pair of arbitrary integers; the pair `0:0` stands for an unknown place.
-/

namespace Garnet

/-- A line and a column. -/
structure Pos where
  line : Int
  column : Int
deriving DecidableEq, Repr

namespace Pos

/-- The place of a node that no source text stands behind. -/
def unknown : Pos := ⟨0, 0⟩

instance : Inhabited Pos := ⟨unknown⟩

/-- Where the first character of a text stands. -/
def start : Pos := ⟨1, 1⟩

/-- Where the character after one that stands here is found: a line feed ends its line. -/
def next (pos : Pos) (c : Char) : Pos :=
  if c = '\n' then ⟨pos.line + 1, 1⟩ else ⟨pos.line, pos.column + 1⟩

/-- Where the character after a piece of text is found. -/
def after (pos : Pos) (text : List Char) : Pos :=
  text.foldl next pos

@[simp] theorem after_nil (pos : Pos) : pos.after [] = pos := rfl

@[simp] theorem after_cons (pos : Pos) (c : Char) (text : List Char) :
    pos.after (c :: text) = (pos.next c).after text := rfl

theorem after_append (pos : Pos) (first second : List Char) :
    pos.after (first ++ second) = (pos.after first).after second :=
  List.foldl_append

/-- Where the last character of a text stands. An empty text has none; it is taken to end just
before its first column. -/
def ofLast (text : List Char) : Pos :=
  if text.isEmpty then ⟨1, 0⟩ else start.after text.dropLast

end Pos

end Garnet
