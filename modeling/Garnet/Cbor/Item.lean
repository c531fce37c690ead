/-! # Binary data items

The items of the concise binary object representation: integers, byte and text strings, arrays,
maps, tagged items, simple values and floating point numbers. A string may come in chunks; its text
is kept as bytes, because not all bytes are text.
-/

namespace Garnet.Cbor

/-- A data item. -/
inductive Item where
  | unsigned (value : Nat)
  /-- The integer `-1 - value`. -/
  | negative (value : Nat)
  | bytes (chunks : List (List UInt8))
  | text (chunks : List (List UInt8))
  | array (items : List Item)
  | map (entries : List (Item × Item))
  | tagged (tag : Nat) (content : Item)
  | simple (value : Nat)
  /-- A floating point number, by the number of its bytes and its bits. -/
  | float (width : Nat) (bits : Nat)

namespace Item

instance : Inhabited Item := ⟨.simple 22⟩

/-- The item that stands for no value. -/
def null : Item := .simple 22

/-- The item of a text in one chunk. -/
def ofString (text : String) : Item :=
  .text [text.toUTF8.toList]

end Item

end Garnet.Cbor
