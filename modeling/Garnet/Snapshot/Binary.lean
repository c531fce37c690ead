import Garnet.Cbor.Decode
import Garnet.Cbor.Encode
import Garnet.Snapshot.Basic

/-! # Snapshots as binary data

The parts of a snapshot are maps with small numbers as keys. Members that may be left out are left
out when they are empty. Reading is lenient: unknown members are skipped, the first of several
members with one key counts, tags are looked through, and no value stands for the empty one. In a
table of texts, no value stands for the one before it.
-/

namespace Garnet.Snapshot

open Cbor

/-! ### Writing -/

/-- A member of a map with numbers as keys. -/
def member (key : Nat) (value : Item) : List (Item × Item) :=
  [(.unsigned key, value)]

/-- A member that is left out under a condition. -/
def memberUnless (isEmpty : Bool) (key : Nat) (value : Item) : List (Item × Item) :=
  if isEmpty then [] else member key value

/-- A text member that is left out when it is empty. -/
def optionalText (key : Nat) (text : String) : List (Item × Item) :=
  memberUnless text.isEmpty key (.ofString text)

/-- A table member that is left out when it is empty. -/
def optionalTable (key : Nat) (table : Table String) : List (Item × Item) :=
  memberUnless table.entries.isEmpty key (.ofTable table)

/-- A list member that is left out when it is empty. -/
def optionalList (key : Nat) (items : List Item) : List (Item × Item) :=
  memberUnless items.isEmpty key (.array items)

/-- The item for a method. -/
def MethodPart.toItem (part : MethodPart) : Item :=
  .map (member 1 (.ofString part.name) ++ member 2 (.ofString part.sort) ++
    optionalList 3 (part.params.map .ofString))

/-- The item for a class. -/
def ClassPart.toItem (part : ClassPart) : Item :=
  .map (member 1 (.ofString part.name) ++ optionalText 2 part.superclass ++
    optionalList 3 (part.methods.map MethodPart.toItem) ++ optionalTable 4 part.constants)

/-- The item for an object. -/
def ObjectPart.toItem (part : ObjectPart) : Item :=
  .map (member 1 (.ofString part.className) ++ optionalTable 2 part.ivars)

/-- The item for a frame. -/
def FramePart.toItem (part : FramePart) : Item :=
  .map (member 1 (.ofString part.label) ++ member 2 (.ofString part.self) ++
    optionalTable 3 part.locals ++ member 4 (.ofString part.result))

/-- The item of a snapshot. -/
def toItem (snapshot : Snapshot) : Item :=
  .map (member 1 (.array (snapshot.classes.map ClassPart.toItem)) ++
    member 2 snapshot.main.toItem ++
    member 3 (.array (snapshot.frames.map FramePart.toItem)) ++
    member 4 (.ofString snapshot.result))

/-- The canonical encoding of a snapshot. -/
def encode (snapshot : Snapshot) : List UInt8 :=
  snapshot.toItem.encode

/-! ### Reading -/

/-- The content of an item behind its tags. Of the tags with a meaning of their own, the one for
dates must stand before a text; those for times and large numbers never hold what a snapshot is
made of. -/
def untag? : Item → Option Item
  | .tagged 0 (.text chunks) => some (.text chunks)
  | .tagged tag content => if tag ≤ 3 then none else untag? content
  | item => some item

/-- Whether an item stands for no value. -/
def isNull : Item → Bool
  | .simple value => value == 22 || value == 23
  | _ => false

/-- The text of chunks, each of which has to be text by itself. -/
def textOf? (chunks : List (List UInt8)) : Option String :=
  (chunks.mapM fun chunk => String.fromUTF8? ⟨chunk.toArray⟩).map String.join

/-- Read an item as a text, or take a given one where there is no value. -/
def textOr? (absent : String) (item : Item) : Option String := do
  match ← untag? item with
  | .text chunks => textOf? chunks
  | content => if isNull content then some absent else none

/-- Read an item as a text. -/
def text? (item : Item) : Option String :=
  textOr? "" item

/-- Read an item as a list. -/
def list? {α : Type} (element : Item → Option α) (item : Item) : Option (List α) := do
  match ← untag? item with
  | .array items => items.mapM element
  | content => if isNull content then some [] else none

/-- Read the entries of a table behind an earlier one. A key or a value that is absent is that of
the entry before. -/
def entries? (earlier : String × String) : List (Item × Item) → Option (List (String × String))
  | [] => some []
  | (key, value) :: rest => do
    let entry := (← textOr? earlier.1 key, ← textOr? earlier.2 value)
    return entry :: (← entries? entry rest)

/-- Read an item as a table of texts. The last of several entries with one key counts, and the
first entry follows one that is empty. -/
def table? (item : Item) : Option (Table String) := do
  match ← untag? item with
  | .map entries => return .ofList (← entries? ("", "") entries)
  | content => if isNull content then some ∅ else none

/-- The number of the member that a key names: a number, or a text that spells one. Other texts
and numbers name nothing, and other items are not keys. -/
def keyNumber? : Item → Option (Option Nat)
  | .unsigned value => some (some value)
  | .negative value => if value < 0x8000000000000000 then some none else none
  | .text chunks => (textOf? chunks).map fun text =>
    [1, 2, 3, 4].find? fun number => toString number == text
  | _ => none

/-- Read an item as the members of a part. -/
def members? (item : Item) : Option (List (Option Nat × Item)) := do
  match ← untag? item with
  | .map entries => entries.mapM fun (key, value) => return (← keyNumber? key, value)
  | content => if isNull content then some [] else none

/-- The first member with a given key. -/
def firstMember (members : List (Option Nat × Item)) (key : Nat) : Item :=
  ((members.find? fun entry => entry.1 == some key).map (·.2)).getD .null

/-- Read an item as a method. -/
def MethodPart.ofItem? (item : Item) : Option MethodPart := do
  let get := firstMember (← members? item)
  return { name := ← text? (get 1), sort := ← text? (get 2), params := ← list? text? (get 3) }

/-- Read an item as a class. -/
def ClassPart.ofItem? (item : Item) : Option ClassPart := do
  let get := firstMember (← members? item)
  return { name := ← text? (get 1), superclass := ← text? (get 2)
           methods := ← list? MethodPart.ofItem? (get 3), constants := ← table? (get 4) }

/-- Read an item as an object. -/
def ObjectPart.ofItem? (item : Item) : Option ObjectPart := do
  let get := firstMember (← members? item)
  return { className := ← text? (get 1), ivars := ← table? (get 2) }

/-- Read an item as a frame. -/
def FramePart.ofItem? (item : Item) : Option FramePart := do
  let get := firstMember (← members? item)
  return { label := ← text? (get 1), self := ← text? (get 2), locals := ← table? (get 3)
           result := ← text? (get 4) }

/-- The snapshot that an item holds. -/
def ofItem? (item : Item) : Option Snapshot := do
  let get := firstMember (← members? item)
  return { classes := ← list? ClassPart.ofItem? (get 1), main := ← ObjectPart.ofItem? (get 2)
           frames := ← list? FramePart.ofItem? (get 3), result := ← text? (get 4) }

/-- Read a snapshot from its encoding. -/
def decode? (bytes : List UInt8) : Option Snapshot := do
  ofItem? (← Item.decode? bytes)

end Garnet.Snapshot
