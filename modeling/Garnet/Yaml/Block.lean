import Garnet.Yaml.Scalar

/-! # Block documents

A document is a tree of mappings, sequences and texts, written in block style: one entry to a line,
nested entries indented by two, the items of a sequence behind dashes below their key.
-/

namespace Garnet.Yaml

/-- A document. -/
inductive Document where
  | text (content : String)
  | sequence (items : List Document)
  | mapping (entries : List (String × Document))

/-- Whether a document has entries or items, which are written on lines of their own. -/
def Document.isNested : Document → Bool
  | .text _ => false
  | .sequence items => !items.isEmpty
  | .mapping entries => !entries.isEmpty

/-- The longest key, in bytes, that is written on the line of its value. -/
def maxSimpleKey : Nat := 128

/-- Whether a key is written on the line of its value. -/
def isSimpleKey (key : String) : Bool :=
  key.utf8ByteSize ≤ maxSimpleKey && !key.toList.any isBreak

/-- The space in front of an indented line. -/
def margin (indent : Nat) : String :=
  "".pushn ' ' indent

/-- End the line of a written form, unless it has ended by itself. -/
def endLine (written : String) : String :=
  if written.toList.getLast?.any isBreak then written else written ++ "\n"

mutual

/-- The written form of a document. Its first line stands where it is put, the others are
indented. -/
def Document.write (indent : Nat) : Document → String
  | .text content => endLine (scalar indent content)
  | .sequence [] => "[]\n"
  | .sequence (item :: rest) => Document.writeItems indent (item :: rest)
  | .mapping [] => "\x7b\x7d\n"
  | .mapping (entry :: rest) => Document.writeEntries indent (entry :: rest)
termination_by structural document => document

/-- The written form of the items of a sequence. -/
def Document.writeItems (indent : Nat) : List Document → String
  | [] => ""
  | item :: rest =>
    "- " ++ item.write (indent + 2) ++
      (if rest.isEmpty then "" else margin indent ++ Document.writeItems indent rest)
termination_by structural items => items

/-- The written form of one entry of a mapping. A key that is not simple has a line of its own, and
so has its value. -/
def Document.writeEntry (indent : Nat) : String × Document → String
  | (key, value) =>
    let inner := indent + 2
    if isSimpleKey key then
      scalar inner key ++ ":" ++ (if value.isNested then "\n" ++ margin inner else " ") ++
        value.write inner
    else "? " ++ endLine (scalar inner key) ++ margin indent ++ ": " ++ value.write inner
termination_by structural entry => entry

/-- The written form of the entries of a mapping. -/
def Document.writeEntries (indent : Nat) : List (String × Document) → String
  | [] => ""
  | entry :: rest =>
    Document.writeEntry indent entry ++
      (if rest.isEmpty then "" else margin indent ++ Document.writeEntries indent rest)
termination_by structural entries => entries

end

/-- The text of a document. -/
def Document.render (document : Document) : String :=
  document.write 0

end Garnet.Yaml
