import Garnet.Cbor.Item

/-! # Reading binary items

Reading accepts every well-formed encoding of exactly one item, with definite or indefinite
lengths and heads of any width, within limits on nesting and on the size of arrays and maps.
-/

namespace Garnet.Cbor

/-- How deep arrays, maps and tags may be nested. -/
def maxNesting : Nat := 32

/-- How many items an array, and how many entries a map may have. -/
def maxElements : Nat := 131072

/-- A number from that many bytes, the most significant one first, with the bytes after them. -/
def readBigEndian : Nat → Nat → List UInt8 → Option (Nat × List UInt8)
  | 0, value, bytes => some (value, bytes)
  | _ + 1, _, [] => none
  | width + 1, value, byte :: rest => readBigEndian width (value * 256 + byte.toNat) rest

/-- A head: the major type, the additional information and the value. The information 31 has no
value; it marks an indefinite length. -/
structure Head where
  major : Nat
  info : Nat
  value : Nat

/-- Read a head. -/
def readHead : List UInt8 → Option (Head × List UInt8)
  | [] => none
  | first :: rest => do
    let major := first.toNat / 32
    let info := first.toNat % 32
    if info < 24 then some (⟨major, info, info⟩, rest)
    else if info < 28 then
      let (value, rest) ← readBigEndian (Nat.pow 2 (info - 24)) 0 rest
      if major = 7 ∧ info = 24 ∧ value < 32 then none
      else some (⟨major, info, value⟩, rest)
    else if info = 31 ∧ 2 ≤ major ∧ major ≤ 5 then some (⟨major, info, 0⟩, rest)
    else none

/-- The byte that ends an item of indefinite length. -/
def breakByte : UInt8 := 0xFF

/-- Split off a number of bytes. -/
def readBytes (count : Nat) (bytes : List UInt8) : Option (List UInt8 × List UInt8) :=
  if bytes.length < count then none else some (bytes.take count, bytes.drop count)

/-- The chunks of a string of indefinite length. Each is a string of the same major type with a
definite length. -/
def readChunks (major : Nat) : Nat → List UInt8 → Option (List (List UInt8) × List UInt8)
  | 0, _ => none
  | steps + 1, bytes =>
    if bytes.head? = some breakByte then some ([], bytes.drop 1)
    else do
      let (head, rest) ← readHead bytes
      if head.major ≠ major ∨ head.info = 31 then none
      let (chunk, rest) ← readBytes head.value rest
      let (more, rest) ← readChunks major steps rest
      some (chunk :: more, rest)

/-- The entries made of keys and values that alternate. -/
def pairUp : List Item → Option (List (Item × Item))
  | [] => some []
  | [_] => none
  | key :: value :: rest => (pairUp rest).map ((key, value) :: ·)

mutual

/-- Read an item inside `depth` arrays, maps and repeated tags. The first argument bounds the number
of steps. -/
def readItem : Nat → Nat → List UInt8 → Option (Item × List UInt8)
  | 0, _, _ => none
  | steps + 1, depth, bytes => do
    let (head, rest) ← readHead bytes
    match head.major with
    | 0 => some (.unsigned head.value, rest)
    | 1 => some (.negative head.value, rest)
    | 2 | 3 =>
      let string (chunks : List (List UInt8)) : Item :=
        if head.major = 2 then .bytes chunks else .text chunks
      if head.info = 31 then
        let (chunks, rest) ← readChunks head.major (rest.length + 1) rest
        some (string chunks, rest)
      else
        let (chunk, rest) ← readBytes head.value rest
        some (string [chunk], rest)
    | 4 =>
      if maxNesting < depth + 1 then none
      else if head.info = 31 then
        let (items, rest) ← readUntilBreak steps (depth + 1) rest
        if maxElements < items.length then none else some (.array items, rest)
      else if maxElements < head.value then none
      else
        let (items, rest) ← readItems steps (depth + 1) head.value rest
        some (.array items, rest)
    | 5 =>
      if maxNesting < depth + 1 then none
      else if head.info = 31 then
        let (items, rest) ← readUntilBreak steps (depth + 1) rest
        let entries ← pairUp items
        if maxElements < entries.length then none else some (.map entries, rest)
      else if maxElements < head.value then none
      else
        let (items, rest) ← readItems steps (depth + 1) (2 * head.value) rest
        let entries ← pairUp items
        some (.map entries, rest)
    | 6 =>
      let again : Bool := match rest with
        | next :: _ => next.toNat / 32 == 6
        | [] => false
      let inner := if again then depth + 1 else depth
      if maxNesting < inner then none
      else
        let (content, rest) ← readItem steps inner rest
        some (.tagged head.value content, rest)
    | _ =>
      if head.info < 25 then some (.simple head.value, rest)
      else some (.float (Nat.pow 2 (head.info - 24)) head.value, rest)

/-- Read a given number of items. -/
def readItems : Nat → Nat → Nat → List UInt8 → Option (List Item × List UInt8)
  | _, _, 0, bytes => some ([], bytes)
  | 0, _, _ + 1, _ => none
  | steps + 1, depth, count + 1, bytes => do
    let (item, rest) ← readItem steps depth bytes
    let (more, rest) ← readItems steps depth count rest
    some (item :: more, rest)

/-- Read items up to the byte that ends them. -/
def readUntilBreak : Nat → Nat → List UInt8 → Option (List Item × List UInt8)
  | 0, _, _ => none
  | steps + 1, depth, bytes =>
    if bytes.head? = some breakByte then some ([], bytes.drop 1)
    else do
      let (item, rest) ← readItem steps depth bytes
      let (more, rest) ← readUntilBreak steps depth rest
      some (item :: more, rest)

end

/-- Read exactly one item. Every step but one for each item consumes a byte. -/
def Item.decode? (bytes : List UInt8) : Option Item :=
  match readItem (2 * bytes.length + 2) 0 bytes with
  | some (item, []) => some item
  | _ => none

end Garnet.Cbor
