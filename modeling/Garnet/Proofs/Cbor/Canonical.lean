import Garnet.Cbor.Encode
import Garnet.Proofs.Cbor.Reading
import Garnet.Proofs.Text.ByteOrder

/-! # Canonical maps

Keys are put in order before they are encoded, and the order is that of their encodings: shorter
ones first, then by their bytes. So the entries of a table are written in the same order whatever
the order is in which they are listed.
-/

namespace Garnet

/-! ### Sorting -/

section Sorting

variable {α : Type} {before : α → α → Bool}

/-- An element is inserted at its place if the order tells it apart from all others. -/
theorem pairwise_insertBy
    (htrans : ∀ a b c, before a b = true → before b c = true → before a c = true) {item : α}
    {items : List α} (hitems : items.Pairwise fun a b => before a b = true)
    (htotal : ∀ other ∈ items, before item other = true ∨ before other item = true) :
    (insertBy before item items).Pairwise fun a b => before a b = true := by
  induction items with
  | nil => exact List.pairwise_singleton _ _
  | cons head rest ih =>
    obtain ⟨hhead, hrest⟩ := List.pairwise_cons.1 hitems
    obtain ⟨hfirst, hothers⟩ := List.forall_mem_cons.1 htotal
    rw [insertBy]
    split
    next hbefore =>
      refine List.pairwise_cons.2 ⟨fun other hother => ?_, ih hrest hothers⟩
      rcases List.mem_cons.1 ((perm_insertBy before item rest).mem_iff.1 hother) with rfl | hmem
      · exact hbefore
      · exact hhead other hmem
    next hnot =>
      have hitem : before item head = true := hfirst.resolve_right hnot
      refine List.pairwise_cons.2 ⟨List.forall_mem_cons.2 ⟨hitem, fun other hother => ?_⟩, hitems⟩
      exact htrans item head other hitem (hhead other hother)

theorem pairwise_sortBy
    (htrans : ∀ a b c, before a b = true → before b c = true → before a c = true) {items : List α}
    (htotal : items.Pairwise fun a b => before a b = true ∨ before b a = true) :
    (sortBy before items).Pairwise fun a b => before a b = true := by
  induction items with
  | nil => exact List.Pairwise.nil
  | cons head rest ih =>
    obtain ⟨hhead, hrest⟩ := List.pairwise_cons.1 htotal
    refine pairwise_insertBy htrans (ih hrest) fun other hother => ?_
    exact hhead other ((perm_sortBy before rest).mem_iff.1 hother)

/-- What is put in order has one order only, if the order tells all elements apart. -/
theorem sortBy_eq_of_perm
    (htrans : ∀ a b c, before a b = true → before b c = true → before a c = true)
    (hasymm : ∀ a b, before a b = true → before b a = true → a = b) {items others : List α}
    (hperm : items.Perm others)
    (htotal : items.Pairwise fun a b => before a b = true ∨ before b a = true) :
    sortBy before items = sortBy before others := by
  have htotal' : others.Pairwise fun a b => before a b = true ∨ before b a = true :=
    (hperm.pairwise_iff Or.symm).1 htotal
  have hsorted := (perm_sortBy before items).trans (hperm.trans (perm_sortBy before others).symm)
  exact hsorted.eq_of_pairwise (fun a b _ _ => hasymm a b) (pairwise_sortBy htrans htotal)
    (pairwise_sortBy htrans htotal')

end Sorting

namespace Cbor

/-! ### The order of keys -/

theorem keyBefore_iff {first second : String} : keyBefore first second = true ↔
    first.utf8ByteSize < second.utf8ByteSize ∨
      first.utf8ByteSize = second.utf8ByteSize ∧ first < second := by
  simp [keyBefore]

theorem keyBefore_trans {first second third : String} (h : keyBefore first second = true)
    (h' : keyBefore second third = true) : keyBefore first third = true := by
  rw [keyBefore_iff] at *
  rcases h with hlt | ⟨heq, hlt⟩
  · left
    rcases h' with hlt' | ⟨heq', -⟩ <;> omega
  · rcases h' with hlt' | ⟨heq', hlt'⟩
    · left
      omega
    · exact .inr ⟨heq.trans heq', String.lt_trans hlt hlt'⟩

theorem keyBefore_total {first second : String} (h : first ≠ second) :
    keyBefore first second = true ∨ keyBefore second first = true := by
  rw [keyBefore_iff, keyBefore_iff]
  rcases Nat.lt_trichotomy first.utf8ByteSize second.utf8ByteSize with hlt | heq | hgt
  · exact .inl (.inl hlt)
  · by_cases hbefore : first < second
    · exact .inl (.inr ⟨heq, hbefore⟩)
    · exact .inr (.inr ⟨heq.symm, Std.lt_of_le_of_ne (String.not_lt.1 hbefore) h.symm⟩)
  · exact .inr (.inl hgt)

theorem keyBefore_asymm {first second : String} (h : keyBefore first second = true)
    (h' : keyBefore second first = true) : False := by
  have hself := keyBefore_iff.1 (keyBefore_trans h h')
  rcases hself with hlt | ⟨-, hlt⟩
  · exact Nat.lt_irrefl _ hlt
  · exact String.lt_irrefl _ hlt

/-- The canonical order of keys, by their encodings: shorter ones first, then by their bytes. -/
def Precedes (key other : List UInt8) : Prop :=
  key.length < other.length ∨ key.length = other.length ∧ key < other

instance (key other : List UInt8) : Decidable (Precedes key other) :=
  inferInstanceAs (Decidable (_ ∨ _ ∧ _))

theorem headWidth_mono {first second : Nat} (h : first ≤ second) :
    headWidth first ≤ headWidth second := by
  unfold headWidth
  split_ifs <;> omega

theorem length_bigEndian (width value : Nat) : (bigEndian width value).length = width := by
  induction width with
  | zero => rfl
  | succ width ih => rw [bigEndian, List.length_cons, ih]

theorem length_head (major value : Nat) : (head major value).length = headWidth value + 1 := by
  rw [head, List.length_cons, length_bigEndian]

theorem length_toUTF8 (text : String) : text.toUTF8.toList.length = text.utf8ByteSize := by
  rw [Text.toList_toUTF8, Array.length_toList]
  rfl

theorem Item.encode_ofString (text : String) :
    (Item.ofString text).encode = head 3 text.utf8ByteSize ++ text.toUTF8.toList := by
  rw [ofString, encode, List.flatten_singleton, length_toUTF8]

/-- The order in which keys are put is that of their encodings. -/
theorem precedes_of_keyBefore {first second : String} (h : keyBefore first second = true) :
    Precedes (Item.ofString first).encode (Item.ofString second).encode := by
  rw [Precedes, Item.encode_ofString, Item.encode_ofString, List.length_append, List.length_append,
    length_head, length_head, length_toUTF8, length_toUTF8]
  rcases keyBefore_iff.1 h with hlt | ⟨heq, hlt⟩
  · have hwidth := headWidth_mono (Nat.le_of_lt hlt)
    left
    omega
  · right
    rw [heq]
    exact ⟨rfl, List.append_left_lt (Text.toList_toUTF8_lt hlt)⟩

/-! ### Canonical items -/

namespace Item

/-- Items of numbers, texts in one piece, arrays and maps, with the keys of each map strictly
ascending in the canonical order. -/
inductive Canonical : Item → Prop
  | unsigned (value : Nat) : Canonical (.unsigned value)
  | text (chunk : List UInt8) : Canonical (.text [chunk])
  | array {items : List Item} (hitems : ∀ item ∈ items, Canonical item) : Canonical (.array items)
  | map {entries : List (Item × Item)}
    (hascending : entries.Pairwise fun first second => Precedes first.1.encode second.1.encode)
    (hkeys : ∀ entry ∈ entries, Canonical entry.1)
    (hvalues : ∀ entry ∈ entries, Canonical entry.2) : Canonical (.map entries)

theorem canonical_ofString (text : String) : (ofString text).Canonical :=
  .text _

/-- The order of the entries of a table, which is that of their names. -/
def entryBefore (first second : String × String) : Bool :=
  keyBefore first.1 second.1

theorem entryBefore_trans (first second third : String × String)
    (h : entryBefore first second = true) (h' : entryBefore second third = true) :
    entryBefore first third = true :=
  keyBefore_trans h h'

/-- The item for the entries of a table, which may be listed in any order. -/
def ofEntries (pairs : List (String × String)) : Item :=
  .map ((sortBy entryBefore pairs).map fun (name, value) => (.ofString name, .ofString value))

theorem ofTable_eq (table : Table String) : ofTable table = ofEntries table.entries := rfl

/-- The entries of a table are told apart by their names. -/
theorem entryBefore_total (table : Table String) :
    table.entries.Pairwise fun a b => entryBefore a b = true ∨ entryBefore b a = true :=
  table.ascending.imp fun {_ second} hlt =>
    keyBefore_total fun heq => String.lt_irrefl second.1 (heq ▸ hlt)

/-- In whatever order the entries of a table are listed, they are written in one order. -/
theorem ofEntries_of_perm {table : Table String} {pairs : List (String × String)}
    (h : pairs.Perm table.entries) : ofEntries pairs = ofTable table := by
  have hsorted : sortBy entryBefore table.entries = sortBy entryBefore pairs :=
    sortBy_eq_of_perm entryBefore_trans (fun _ _ hlt hgt => (keyBefore_asymm hlt hgt).elim) h.symm
      (entryBefore_total table)
  rw [ofTable_eq, ofEntries, ofEntries, hsorted]

theorem canonical_ofTable (table : Table String) : (ofTable table).Canonical := by
  refine .map ?_ ?_ ?_
  · rw [List.pairwise_map]
    have hsorted := pairwise_sortBy entryBefore_trans (entryBefore_total table)
    exact hsorted.imp precedes_of_keyBefore
  · intro entry hentry
    obtain ⟨pair, -, rfl⟩ := List.mem_map.1 hentry
    exact canonical_ofString _
  · intro entry hentry
    obtain ⟨pair, -, rfl⟩ := List.mem_map.1 hentry
    exact canonical_ofString _

end Item

end Cbor

end Garnet
