import Garnet.Cbor.Item
import Garnet.Sorted
import Garnet.Table

/-! # Canonical binary encoding

Lengths are definite and heads as short as possible. The keys of a map are ordered by the length of
their encoding, and by their bytes where the lengths are equal.
-/

namespace Garnet.Cbor

/-- The number of bytes after the first one that a head needs for a value. -/
def headWidth (value : Nat) : Nat :=
  if value < 24 then 0
  else if value < 0x100 then 1
  else if value < 0x10000 then 2
  else if value < 0x100000000 then 4
  else 8

/-- What the first byte of a head says about the bytes that follow it. -/
def headInfo (value : Nat) : Nat :=
  match headWidth value with
  | 0 => value
  | 1 => 24
  | 2 => 25
  | 4 => 26
  | _ => 27

/-- A number as that many bytes, the most significant one first. -/
def bigEndian : Nat → Nat → List UInt8
  | 0, _ => []
  | width + 1, value => UInt8.ofNat (value / Nat.pow 256 width) :: bigEndian width value

/-- The head of an item: its major type and a value. -/
def head (major value : Nat) : List UInt8 :=
  UInt8.ofNat (major * 32 + headInfo value) :: bigEndian (headWidth value) value

mutual

/-- The encoding of an item. -/
def Item.encode : Item → List UInt8
  | .unsigned value => head 0 value
  | .negative value => head 1 value
  | .bytes chunks => head 2 chunks.flatten.length ++ chunks.flatten
  | .text chunks => head 3 chunks.flatten.length ++ chunks.flatten
  | .array items => head 4 items.length ++ Item.encodeAll items
  | .map entries => head 5 entries.length ++ Item.encodeEntries entries
  | .tagged tag content => head 6 tag ++ content.encode
  | .simple value => if value < 24 then head 7 value else [0xF8, UInt8.ofNat value]
  | .float width bits =>
    let info := if width = 2 then 25 else if width = 4 then 26 else 27
    UInt8.ofNat (7 * 32 + info) :: bigEndian width bits

/-- The encodings of items, one after the other. -/
def Item.encodeAll : List Item → List UInt8
  | [] => []
  | item :: rest => item.encode ++ Item.encodeAll rest

/-- The encodings of the entries of a map. -/
def Item.encodeEntries : List (Item × Item) → List UInt8
  | [] => []
  | (key, value) :: rest => key.encode ++ value.encode ++ Item.encodeEntries rest

end

/-- The canonical order of text keys: shorter ones first, then by their bytes, which is the order
of code points. -/
def keyBefore (first second : String) : Bool :=
  first.utf8ByteSize < second.utf8ByteSize ||
    (first.utf8ByteSize == second.utf8ByteSize && decide (first < second))

/-- The item of a table of texts. -/
def Item.ofTable (table : Table String) : Item :=
  let ordered := sortBy (fun a b => keyBefore a.1 b.1) table.entries
  .map (ordered.map fun (name, value) => (.ofString name, .ofString value))

end Garnet.Cbor
