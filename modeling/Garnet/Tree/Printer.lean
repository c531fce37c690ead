import Garnet.Number.Shortest
import Garnet.Text.Quoted
import Garnet.Tree.Basic

/-! # Printed trees

A tree is printed on one line: a node in parentheses, its kind first and its children after it,
names with a colon, texts in quotes, absent parts as `nil`. Printing puts the form of a tree in
front of the text that follows it, so that no part is copied twice.
-/

namespace Garnet

mutual

/-- Print a node in front of a text. -/
def Node.print : Node → List Char → List Char
  | .mk kind children _, rest => '(' :: kind.name.toList ++ Child.printAll children (')' :: rest)

/-- Print children in front of a text, each after a space. -/
def Child.printAll : List Child → List Char → List Char
  | [], rest => rest
  | child :: more, rest => ' ' :: child.print (Child.printAll more rest)

/-- Print a child in front of a text. -/
def Child.print : Child → List Char → List Char
  | .absent, rest => "nil".toList ++ rest
  | .node inner, rest => inner.print rest
  | .sym name, rest => ':' :: name.toList ++ rest
  | .str text, rest => (Text.quote text).toList ++ rest
  | .int value, rest => (toString value).toList ++ rest
  | .float value, rest => value.text.toList ++ rest
  | .foreign text, rest => text.toList ++ rest

end

mutual

/-- The text that follows a node does not change its printed form. -/
theorem Node.print_append (node : Node) (first second : List Char) :
    node.print (first ++ second) = node.print first ++ second := by
  cases node with
  | mk kind children pos =>
    have h := Child.printAll_append children (')' :: first) second
    simp_all [Node.print]

/-- The text that follows children does not change their printed forms. -/
theorem Child.printAll_append (children : List Child) (first second : List Char) :
    Child.printAll children (first ++ second) = Child.printAll children first ++ second := by
  cases children with
  | nil => rfl
  | cons child more =>
    simp only [Child.printAll, List.cons_append]
    rw [Child.printAll_append more, Child.print_append child]

/-- The text that follows a child does not change its printed form. -/
theorem Child.print_append (child : Child) (first second : List Char) :
    child.print (first ++ second) = child.print first ++ second := by
  cases child with
  | node inner => simp only [Child.print]; exact Node.print_append inner first second
  | _ => simp [Child.print]

end

/-- The printed form of a node. -/
def Node.chars (node : Node) : List Char :=
  node.print []

/-- The printed form of a node. -/
def Node.text (node : Node) : String :=
  String.ofList node.chars

/-- The printed form of an optional node. -/
def Node.textOf : Option Node → String
  | none => "nil"
  | some node => node.text

end Garnet
