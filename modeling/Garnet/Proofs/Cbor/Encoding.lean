import Garnet.Cbor.Encode
import Garnet.Proofs.Cbor.Reading
import Mathlib.Tactic.Ring

/-! # Reading what was written

An item of numbers, texts in one piece, arrays and maps is read back from its encoding, and no byte
behind it is touched. The numbers in heads are words of 64 bits; arrays and maps have to keep to the
limits of the reader.
-/

namespace Garnet.Cbor

/-! ### Heads -/

/-- The largest value of a head, and one more. -/
def headBound : Nat := 2 ^ 64

theorem readBigEndian_bigEndian (width value before : Nat) (rest : List UInt8) :
    readBigEndian width before (bigEndian width value ++ rest) =
      some (before * 256 ^ width + value % 256 ^ width, rest) := by
  induction width generalizing before with
  | zero => simp [readBigEndian, bigEndian, Nat.mod_one]
  | succ width ih =>
    have hbyte : (UInt8.ofNat (value / Nat.pow 256 width)).toNat = value / 256 ^ width % 256 := by
      rw [UInt8.toNat_ofNat']
      rfl
    rw [bigEndian, List.cons_append, readBigEndian, ih, hbyte, Nat.mod_pow_succ, Nat.pow_succ]
    congr 2
    ring

/-- A head has its value in the first byte, or behind it in one, two, four or eight bytes. -/
theorem headInfo_cases {value : Nat} (h : value < headBound) :
    value < 24 ∧ headInfo value = value ∧ headWidth value = 0 ∨
      ∃ size < 4, headInfo value = 24 + size ∧ headWidth value = 2 ^ size ∧
        value < 256 ^ 2 ^ size := by
  unfold headInfo headWidth headBound at *
  by_cases h₀ : value < 24
  · simp [h₀]
  right
  by_cases h₁ : value < 0x100
  · exact ⟨0, by simp [h₀, h₁]⟩
  by_cases h₂ : value < 0x10000
  · exact ⟨1, by simp [h₀, h₁, h₂]⟩
  by_cases h₃ : value < 0x100000000
  · exact ⟨2, by simp [h₀, h₁, h₂, h₃]⟩
  · refine ⟨3, by simp [h₀, h₁, h₂, h₃]; exact h⟩

theorem readHead_head {major value : Nat} (hmajor : major < 7) (hvalue : value < headBound)
    (rest : List UInt8) :
    readHead (head major value ++ rest) = some (⟨major, headInfo value, value⟩, rest) := by
  have hinfo : headInfo value < 28 := by
    rcases headInfo_cases hvalue with ⟨hsmall, hinfo, -⟩ | ⟨size, hsize, hinfo, -⟩ <;> omega
  have hfirst :
      (UInt8.ofNat (major * 32 + headInfo value)).toNat = major * 32 + headInfo value := by
    rw [UInt8.toNat_ofNat']
    omega
  have hdiv : (major * 32 + headInfo value) / 32 = major := by omega
  have hmod : (major * 32 + headInfo value) % 32 = headInfo value := by omega
  rw [head, List.cons_append, readHead, hfirst, hdiv, hmod]
  rcases headInfo_cases hvalue with ⟨hsmall, hinfo, hwidth⟩ | ⟨size, hsize, hinfo, hwidth, hlt⟩
  · rw [hinfo, hwidth]
    simp [hsmall, bigEndian]
  · have hread := readBigEndian_bigEndian (2 ^ size) value 0 rest
    rw [Nat.zero_mul, Nat.zero_add, Nat.mod_eq_of_lt hlt] at hread
    have hpow : Nat.pow 2 (24 + size - 24) = 2 ^ size := by
      rw [Nat.add_sub_cancel_left]
      rfl
    rw [hinfo, hwidth, hpow, hread]
    dsimp only [Option.bind_eq_bind, Option.bind_some]
    rw [if_neg (by omega), if_pos (by omega), if_neg (by omega)]

/-! ### Items -/

namespace Item

/-- Items of numbers, texts in one piece, arrays and maps that can be read inside `depth` arrays and
maps. -/
inductive Plain : Nat → Item → Prop
  | unsigned {depth value : Nat} (hvalue : value < headBound) : Plain depth (.unsigned value)
  | text {depth : Nat} {chunk : List UInt8} (hlength : chunk.length < headBound) :
    Plain depth (.text [chunk])
  | array {depth : Nat} {items : List Item} (hdepth : depth < maxNesting)
    (hlength : items.length ≤ maxElements) (hitems : ∀ item ∈ items, Plain (depth + 1) item) :
    Plain depth (.array items)
  | map {depth : Nat} {entries : List (Item × Item)} (hdepth : depth < maxNesting)
    (hlength : entries.length ≤ maxElements)
    (hkeys : ∀ entry ∈ entries, Plain (depth + 1) entry.1)
    (hvalues : ∀ entry ∈ entries, Plain (depth + 1) entry.2) : Plain depth (.map entries)

/-- An item is read back from the front of any bytes that begin with its encoding. Two steps for
each byte are enough. -/
structure ReadBack (depth : Nat) (item : Item) : Prop where
  pos : 0 < item.encode.length
  read (steps : Nat) (rest : List UInt8) : 2 * item.encode.length ≤ steps →
    readItem steps depth (item.encode ++ rest) = some (item, rest)

/-- The keys and values of entries, one after the other. -/
def flat (entries : List (Item × Item)) : List Item :=
  entries.flatMap fun entry => [entry.1, entry.2]

@[simp] theorem flat_cons (entry : Item × Item) (entries : List (Item × Item)) :
    flat (entry :: entries) = entry.1 :: entry.2 :: flat entries := rfl

theorem length_flat (entries : List (Item × Item)) :
    (flat entries).length = 2 * entries.length := by
  induction entries with
  | nil => rfl
  | cons entry rest ih =>
    rw [flat_cons, List.length_cons, List.length_cons, ih, List.length_cons]
    omega

theorem encodeEntries_eq (entries : List (Item × Item)) :
    encodeEntries entries = encodeAll (flat entries) := by
  induction entries with
  | nil => rfl
  | cons entry rest ih =>
    rw [flat_cons, encodeEntries, encodeAll, encodeAll, ih, List.append_assoc]

theorem pairUp_flat (entries : List (Item × Item)) : pairUp (flat entries) = some entries := by
  induction entries with
  | nil => rfl
  | cons entry rest ih =>
    rw [flat_cons, pairUp, ih]
    rfl

/-- One step is spent on each item of a list, and one byte at least is read for it. -/
theorem readItems_encodeAll {depth : Nat} {items : List Item}
    (h : ∀ item ∈ items, item.ReadBack depth) {steps : Nat}
    (hsteps : 2 * (encodeAll items).length < steps) (rest : List UInt8) :
    readItems steps depth items.length (encodeAll items ++ rest) = some (items, rest) := by
  induction items generalizing steps with
  | nil =>
    rw [List.length_nil, readItems]
    rfl
  | cons first more ih =>
    have hfirst := h first List.mem_cons_self
    have hpos := hfirst.pos
    rw [encodeAll, List.length_append] at hsteps
    obtain ⟨steps, rfl⟩ := Nat.exists_eq_add_one_of_ne_zero (Nat.ne_zero_of_lt hsteps)
    have hread := hfirst.read steps (encodeAll more ++ rest) (by omega)
    have hmore : readItems steps depth more.length (encodeAll more ++ rest) = some (more, rest) :=
      ih (fun item hitem => h item (List.mem_cons_of_mem _ hitem)) (by omega)
    rw [List.length_cons, encodeAll, List.append_assoc, readItems, hread]
    dsimp only [Option.bind_eq_bind, Option.bind_some]
    rw [hmore]
    rfl

/-- Every encoding begins with a head, for which a step is spent. -/
theorem ReadBack.of_head {depth major value : Nat} {item : Item} {body : List UInt8}
    (hencode : item.encode = head major value ++ body)
    (h : ∀ steps rest, 2 * body.length < steps →
      readItem (steps + 1) depth (head major value ++ (body ++ rest)) = some (item, rest)) :
    item.ReadBack depth := by
  have hpos : 0 < (head major value).length := Nat.zero_lt_succ _
  refine ⟨?_, fun steps rest hsteps => ?_⟩
  · rw [hencode, List.length_append]
    omega
  · rw [hencode, List.length_append] at hsteps
    obtain ⟨steps, rfl⟩ := Nat.exists_eq_add_one_of_ne_zero (show steps ≠ 0 by omega)
    rw [hencode, List.append_assoc]
    exact h steps rest (by omega)

theorem headInfo_ne_indefinite {value : Nat} (h : value < headBound) : headInfo value ≠ 31 := by
  rcases headInfo_cases h with ⟨hsmall, hinfo, -⟩ | ⟨size, hsize, hinfo, -⟩ <;> omega

theorem maxElements_lt_headBound : maxElements < headBound := by
  decide

theorem Plain.readBack {depth : Nat} {item : Item} (h : item.Plain depth) :
    item.ReadBack depth := by
  induction h with
  | @unsigned depth value hvalue =>
    refine .of_head (List.append_nil _).symm fun steps rest _ => ?_
    rw [readItem, readHead_head (by decide) hvalue]
    rfl
  | @text depth chunk hlength =>
    refine .of_head (by rw [encode, List.flatten_singleton]) fun steps rest _ => ?_
    rw [readItem, readHead_head (by decide) hlength]
    dsimp only [Option.bind_eq_bind, Option.bind_some]
    rw [if_neg (headInfo_ne_indefinite hlength), readBytes, if_neg (by simp)]
    simp
  | @array depth items hdepth hlength hitems ih =>
    have hbound : items.length < headBound := Nat.lt_of_le_of_lt hlength maxElements_lt_headBound
    refine .of_head (by rw [encode]) fun steps rest hsteps => ?_
    rw [readItem, readHead_head (by decide) hbound]
    simp only [Option.bind_eq_bind, Option.bind_some, if_neg (Nat.not_lt.2 hdepth),
      if_neg (headInfo_ne_indefinite hbound), if_neg (Nat.not_lt.2 hlength),
      readItems_encodeAll ih hsteps]
  | @map depth entries hdepth hlength hkeys hvalues ihkeys ihvalues =>
    have hbound : entries.length < headBound := Nat.lt_of_le_of_lt hlength maxElements_lt_headBound
    have hflat : ∀ item ∈ flat entries, item.ReadBack (depth + 1) := by
      intro item hitem
      obtain ⟨entry, hentry, hmem⟩ := List.mem_flatMap.1 hitem
      rcases List.mem_cons.1 hmem with rfl | hmem
      · exact ihkeys entry hentry
      · rw [List.mem_singleton.1 hmem]
        exact ihvalues entry hentry
    refine .of_head (by rw [encode, encodeEntries_eq]) fun steps rest hsteps => ?_
    have hread := readItems_encodeAll hflat hsteps rest
    rw [length_flat] at hread
    rw [readItem, readHead_head (by decide) hbound]
    simp only [Option.bind_eq_bind, Option.bind_some, if_neg (Nat.not_lt.2 hdepth),
      if_neg (headInfo_ne_indefinite hbound), if_neg (Nat.not_lt.2 hlength), hread, pairUp_flat]

/-! ### Whole encodings -/

variable {item : Item}

/-- An encoding is read as a whole. -/
theorem decode?_encode (h : item.Plain 0) : decode? item.encode = some item := by
  have hread := h.readBack.read (2 * item.encode.length + 2) [] (by omega)
  rw [List.append_nil] at hread
  rw [decode?, hread]

/-- Nothing may stand behind an encoding. -/
theorem decode?_encode_append (h : item.Plain 0) {more : List UInt8} (hmore : more ≠ []) :
    decode? (item.encode ++ more) = none := by
  have hread := h.readBack.read (2 * (item.encode ++ more).length + 2) more
    (by rw [List.length_append]; omega)
  rw [decode?, hread]
  cases more with
  | nil => exact absurd rfl hmore
  | cons byte rest => rfl

/-- No part of an encoding is one: what is read from it would be read from the whole one as well,
with bytes left over. -/
theorem decode?_of_encode_eq_append (h : item.Plain 0) {first more : List UInt8}
    (hsplit : item.encode = first ++ more) (hmore : more ≠ []) : decode? first = none := by
  rw [decode?]
  split
  next found hread =>
    have hlong :
        readItem (2 * item.encode.length + 2) 0 item.encode = some (found, [] ++ more) := by
      rw [hsplit]
      refine (itemsProlong ?_).item 0 hread more
      rw [List.length_append]
      omega
    have hwhole := h.readBack.read (2 * item.encode.length + 2) [] (by omega)
    rw [List.append_nil, hlong] at hwhole
    cases hwhole
    exact absurd rfl hmore
  next => rfl

end Item

end Garnet.Cbor
