import Garnet.Proofs.Cbor.Encoding
import Garnet.Proofs.Table
import Garnet.Proofs.Text.ByteOrder
import Garnet.Snapshot.Binary

/-! # Snapshots are read back

A snapshot is read back from its encoding, with the members that were left out because they are
empty. Its encoding can neither be cut short nor be continued. Lists and tables may have as many
elements as the reader takes, and the length of a text has to fit a word of 64 bits.
-/

namespace Garnet

namespace Cbor

/-! ### Texts -/

/-- The bytes of a text are a text again. -/
theorem fromUTF8?_toList (text : String) :
    String.fromUTF8? ⟨text.toUTF8.toList.toArray⟩ = some text := by
  rw [Text.toList_toUTF8, Array.toArray_toList, String.fromUTF8?, dif_pos text.isValidUTF8]
  rfl

/-- The length of a text fits a head. -/
def FitsHead (text : String) : Prop :=
  text.utf8ByteSize < headBound

instance : DecidablePred FitsHead := fun text =>
  inferInstanceAs (Decidable (text.utf8ByteSize < headBound))

theorem Item.plain_ofString {text : String} (h : FitsHead text) (depth : Nat) :
    (Item.ofString text).Plain depth := by
  refine .text ?_
  rw [Text.toList_toUTF8, Array.length_toList]
  exact h

end Cbor

open Cbor

namespace Snapshot

theorem textOf?_bytes (text : String) : textOf? [text.toUTF8.toList] = some text := by
  rw [textOf?, List.mapM_cons, fromUTF8?_toList]
  simp

theorem textOr?_ofString (absent text : String) : textOr? absent (.ofString text) = some text :=
  textOf?_bytes text

/-! ### Members of parts -/

/-- A member of a part, which is left out if it is empty. -/
structure Field where
  isEmpty : Bool
  key : Fin 5
  value : Item

/-- The members that are written. -/
def written (fields : List Field) : List (Item × Item) :=
  fields.flatMap fun field => memberUnless field.isEmpty field.key field.value

/-- What a reader finds under a key. -/
def lookup : List Field → Nat → Item
  | [], _ => .null
  | field :: rest, key =>
    if field.key = key ∧ field.isEmpty = false then field.value else lookup rest key

theorem members?_cons (number : Nat) (value : Item) (entries : List (Item × Item)) :
    members? (.map ((.unsigned number, value) :: entries)) =
      (members? (.map entries)).map ((some number, value) :: ·) := by
  simp only [members?, untag?, Option.bind_eq_bind, Option.bind_some, List.mapM_cons, keyNumber?,
    Option.map_eq_bind]
  rfl

theorem firstMember_cons (number key : Nat) (value : Item) (members : List (Option Nat × Item)) :
    firstMember ((some number, value) :: members) key =
      if number = key then value else firstMember members key := by
  by_cases hkey : number = key
  · simp [firstMember, hkey]
  · rw [if_neg hkey, firstMember, List.find?_cons_of_neg (by simp [hkey]), firstMember]

/-- A reader finds the members that were written, and no value for the others. -/
theorem members?_written (fields : List Field) :
    ∃ members, members? (.map (written fields)) = some members ∧
      ∀ key, firstMember members key = lookup fields key := by
  induction fields with
  | nil => exact ⟨[], rfl, fun _ => rfl⟩
  | cons field rest ih =>
    obtain ⟨isEmpty, number, value⟩ := field
    obtain ⟨members, hmembers, hfound⟩ := ih
    cases isEmpty with
    | true =>
      refine ⟨members, hmembers, fun key => ?_⟩
      rw [hfound, lookup, if_neg (by simp)]
    | false =>
      refine ⟨(some number, value) :: members, ?_, fun key => ?_⟩
      · have hcons := members?_cons number value (written rest)
        rw [hmembers] at hcons
        exact hcons
      · rw [firstMember_cons, hfound, lookup]
        simp

theorem length_written_le (fields : List Field) : (written fields).length ≤ fields.length := by
  induction fields with
  | nil => exact Nat.le_refl 0
  | cons field rest ih =>
    have hfield : (memberUnless field.isEmpty field.key field.value).length ≤ 1 := by
      unfold memberUnless member
      split <;> simp
    rw [written, List.flatMap_cons, List.length_append, List.length_cons]
    rw [written] at ih
    omega

theorem plain_written {fields : List Field} {depth : Nat} (hdepth : depth < maxNesting)
    (hlength : fields.length ≤ maxElements)
    (h : ∀ field ∈ fields, field.value.Plain (depth + 1)) :
    (Item.map (written fields)).Plain depth := by
  have hwritten (entry : Item × Item) (hentry : entry ∈ written fields) :
      entry.1.Plain (depth + 1) ∧ entry.2.Plain (depth + 1) := by
    obtain ⟨field, hfield, hmem⟩ := List.mem_flatMap.1 hentry
    have hkey : field.key.val < headBound := field.key.isLt.trans (by decide)
    unfold memberUnless member at hmem
    split at hmem
    next => exact absurd hmem List.not_mem_nil
    next =>
      rw [List.mem_singleton.1 hmem]
      exact ⟨.unsigned hkey, h field hfield⟩
  exact .map hdepth ((length_written_le fields).trans hlength)
    (fun entry hentry => (hwritten entry hentry).1) fun entry hentry => (hwritten entry hentry).2

/-! ### Lists and tables -/

section Elements

variable {α : Type}

/-- A list that the reader takes, if it takes all its elements. -/
def ListFits (fits : α → Prop) (items : List α) : Prop :=
  items.length ≤ maxElements ∧ ∀ item ∈ items, fits item

instance (fits : α → Prop) [DecidablePred fits] : DecidablePred (ListFits fits) := fun _ =>
  inferInstanceAs (Decidable (_ ∧ _))

/-- A table of texts that the reader takes. -/
def TableFits (table : Table String) : Prop :=
  ListFits (fun entry => FitsHead entry.1 ∧ FitsHead entry.2) table.entries

instance : DecidablePred TableFits := fun _ => inferInstanceAs (Decidable (ListFits _ _))

theorem mapM_map {element : Item → Option α} {toItem : α → Item} {items : List α}
    (h : ∀ item ∈ items, element (toItem item) = some item) :
    (items.map toItem).mapM element = some items := by
  induction items with
  | nil => rfl
  | cons first rest ih =>
    rw [List.map_cons, List.mapM_cons, h first List.mem_cons_self,
      ih fun item hitem => h item (List.mem_cons_of_mem _ hitem)]
    rfl

theorem plain_array {toItem : α → Item} {fits : α → Prop} {items : List α} {depth : Nat}
    (hdepth : depth < maxNesting) (hfits : ListFits fits items)
    (h : ∀ item, fits item → (toItem item).Plain (depth + 1)) :
    (Item.array (items.map toItem)).Plain depth := by
  refine .array hdepth ((List.length_map _).trans_le hfits.1) fun item hitem => ?_
  obtain ⟨source, hsource, rfl⟩ := List.mem_map.1 hitem
  exact h source (hfits.2 source hsource)

/-- A list is found under its key, also if it is empty. -/
theorem list?_lookup {element : Item → Option α} {toItem : α → Item} {items : List α} {key : Fin 5}
    {rest : List Field} (h : ∀ item ∈ items, element (toItem item) = some item)
    (hrest : lookup rest key = .null) :
    list? element
        (lookup (⟨(items.map toItem).isEmpty, key, .array (items.map toItem)⟩ :: rest) key) =
      some items := by
  cases items with
  | nil =>
    rw [lookup, if_neg (by simp), hrest]
    rfl
  | cons first rest =>
    rw [lookup, if_pos ⟨rfl, rfl⟩]
    exact mapM_map h

end Elements

/-- A text is found under its key, also if it is empty. -/
theorem text?_lookup (text : String) (key : Fin 5) {rest : List Field}
    (hrest : lookup rest key = .null) :
    text? (lookup (⟨text.isEmpty, key, .ofString text⟩ :: rest) key) = some text := by
  cases hempty : text.isEmpty with
  | false =>
    rw [lookup, if_pos ⟨rfl, rfl⟩]
    exact textOr?_ofString "" text
  | true =>
    rw [lookup, if_neg (by simp), hrest, String.isEmpty_iff.1 hempty]
    rfl

theorem entries?_ofString (earlier : String × String) (pairs : List (String × String)) :
    entries? earlier (pairs.map fun (name, value) => (.ofString name, .ofString value)) =
      some pairs := by
  induction pairs generalizing earlier with
  | nil => rfl
  | cons first rest ih =>
    rw [List.map_cons, entries?, textOr?_ofString, textOr?_ofString]
    dsimp only [Option.bind_eq_bind, Option.bind_some]
    rw [ih]
    rfl

/-- The entries of a table are written in another order than they are kept in. -/
theorem table?_ofTable (table : Table String) : table? (.ofTable table) = some table := by
  have hperm := perm_sortBy (fun a b : String × String => keyBefore a.1 b.1) table.entries
  change (entries? ("", "") _ >>= fun entries => some (Table.ofList entries)) = some table
  rw [entries?_ofString]
  exact congrArg some (Table.ofList_of_perm hperm)

/-- A table is found under its key, also if it is empty. -/
theorem table?_lookup (table : Table String) (key : Fin 5) {rest : List Field}
    (hrest : lookup rest key = .null) :
    table? (lookup (⟨table.entries.isEmpty, key, .ofTable table⟩ :: rest) key) = some table := by
  cases hempty : table.entries.isEmpty with
  | false =>
    rw [lookup, if_pos ⟨rfl, rfl⟩]
    exact table?_ofTable table
  | true =>
    rw [lookup, if_neg (by simp), hrest]
    exact congrArg some (Table.ext_entries (List.isEmpty_iff.1 hempty).symm)

theorem plain_ofTable {table : Table String} {depth : Nat} (hdepth : depth < maxNesting)
    (h : TableFits table) : (Item.ofTable table).Plain depth := by
  have hperm := perm_sortBy (fun a b : String × String => keyBefore a.1 b.1) table.entries
  refine .map hdepth ?_ ?_ ?_
  · rw [List.length_map, hperm.length_eq]
    exact h.1
  · intro entry hentry
    obtain ⟨pair, hpair, rfl⟩ := List.mem_map.1 hentry
    exact Item.plain_ofString (h.2 pair (hperm.mem_iff.1 hpair)).1 _
  · intro entry hentry
    obtain ⟨pair, hpair, rfl⟩ := List.mem_map.1 hentry
    exact Item.plain_ofString (h.2 pair (hperm.mem_iff.1 hpair)).2 _

/-! ### Parts -/

/-- The texts of a method fit their heads, and it has as many parameters as the reader takes. -/
def MethodPart.Fits (part : MethodPart) : Prop :=
  FitsHead part.name ∧ FitsHead part.sort ∧ ListFits FitsHead part.params

/-- The texts of a class fit their heads, and its methods and constants fit the reader. -/
def ClassPart.Fits (part : ClassPart) : Prop :=
  FitsHead part.name ∧ FitsHead part.superclass ∧ ListFits MethodPart.Fits part.methods ∧
    TableFits part.constants

/-- The texts of an object fit their heads, and its instance variables fit the reader. -/
def ObjectPart.Fits (part : ObjectPart) : Prop :=
  FitsHead part.className ∧ TableFits part.ivars

/-- The texts of a frame fit their heads, and its locals fit the reader. -/
def FramePart.Fits (part : FramePart) : Prop :=
  FitsHead part.label ∧ FitsHead part.self ∧ TableFits part.locals ∧ FitsHead part.result

/-- Every text of a snapshot fits its head, and no list or table has more elements than the reader
takes. -/
def Fits (snapshot : Snapshot) : Prop :=
  ListFits ClassPart.Fits snapshot.classes ∧ snapshot.main.Fits ∧
    ListFits FramePart.Fits snapshot.frames ∧ FitsHead snapshot.result

instance : DecidablePred MethodPart.Fits := fun _ => inferInstanceAs (Decidable (_ ∧ _))

instance : DecidablePred ClassPart.Fits := fun _ => inferInstanceAs (Decidable (_ ∧ _))

instance : DecidablePred ObjectPart.Fits := fun _ => inferInstanceAs (Decidable (_ ∧ _))

instance : DecidablePred FramePart.Fits := fun _ => inferInstanceAs (Decidable (_ ∧ _))

instance : DecidablePred Snapshot.Fits := fun _ => inferInstanceAs (Decidable (_ ∧ _))

namespace MethodPart

/-- The members of a method. -/
def fields (part : MethodPart) : List Field :=
  [⟨false, 1, .ofString part.name⟩, ⟨false, 2, .ofString part.sort⟩,
    ⟨(part.params.map Item.ofString).isEmpty, 3, .array (part.params.map .ofString)⟩]

theorem toItem_eq (part : MethodPart) : part.toItem = .map (written part.fields) := by
  simp only [toItem, fields, written, List.flatMap_cons, List.flatMap_nil, List.append_assoc,
    List.append_nil]
  rfl

theorem ofItem?_toItem (part : MethodPart) : ofItem? part.toItem = some part := by
  obtain ⟨members, hmembers, hfound⟩ := members?_written part.fields
  have hname : text? (lookup part.fields 1) = some part.name := textOr?_ofString "" _
  have hsort : text? (lookup part.fields 2) = some part.sort := textOr?_ofString "" _
  have hparams : list? text? (lookup part.fields 3) = some part.params :=
    list?_lookup (fun text _ => textOr?_ofString "" text) rfl
  rw [ofItem?, toItem_eq, hmembers]
  simp only [Option.bind_eq_bind, Option.bind_some, hfound, hname, hsort, hparams]
  rfl

theorem plain_toItem {part : MethodPart} (h : part.Fits) {depth : Nat}
    (hdepth : depth + 1 < maxNesting) : part.toItem.Plain depth := by
  obtain ⟨hname, hsort, hparams⟩ := h
  rw [toItem_eq]
  refine plain_written (by omega) (by decide : 3 ≤ maxElements) fun field hfield => ?_
  simp only [fields, List.mem_cons, List.not_mem_nil, or_false] at hfield
  obtain rfl | rfl | rfl := hfield
  · exact Item.plain_ofString hname _
  · exact Item.plain_ofString hsort _
  · exact plain_array hdepth hparams fun _ h => Item.plain_ofString h _

end MethodPart

namespace ClassPart

/-- The members of a class. -/
def fields (part : ClassPart) : List Field :=
  [⟨false, 1, .ofString part.name⟩, ⟨part.superclass.isEmpty, 2, .ofString part.superclass⟩,
    ⟨(part.methods.map MethodPart.toItem).isEmpty, 3, .array (part.methods.map MethodPart.toItem)⟩,
    ⟨part.constants.entries.isEmpty, 4, .ofTable part.constants⟩]

theorem toItem_eq (part : ClassPart) : part.toItem = .map (written part.fields) := by
  simp only [toItem, fields, written, List.flatMap_cons, List.flatMap_nil, List.append_assoc,
    List.append_nil]
  rfl

theorem ofItem?_toItem (part : ClassPart) : ofItem? part.toItem = some part := by
  obtain ⟨members, hmembers, hfound⟩ := members?_written part.fields
  have hname : text? (lookup part.fields 1) = some part.name := textOr?_ofString "" _
  have hsuperclass : text? (lookup part.fields 2) = some part.superclass := text?_lookup _ 2 rfl
  have hmethods : list? MethodPart.ofItem? (lookup part.fields 3) = some part.methods :=
    list?_lookup (fun method _ => method.ofItem?_toItem) rfl
  have hconstants : table? (lookup part.fields 4) = some part.constants := table?_lookup _ 4 rfl
  rw [ofItem?, toItem_eq, hmembers]
  simp only [Option.bind_eq_bind, Option.bind_some, hfound, hname, hsuperclass, hmethods,
    hconstants]
  rfl

theorem plain_toItem {part : ClassPart} (h : part.Fits) {depth : Nat}
    (hdepth : depth + 3 < maxNesting) : part.toItem.Plain depth := by
  obtain ⟨hname, hsuperclass, hmethods, hconstants⟩ := h
  rw [toItem_eq]
  refine plain_written (by omega) (by decide : 4 ≤ maxElements) fun field hfield => ?_
  simp only [fields, List.mem_cons, List.not_mem_nil, or_false] at hfield
  obtain rfl | rfl | rfl | rfl := hfield
  · exact Item.plain_ofString hname _
  · exact Item.plain_ofString hsuperclass _
  · exact plain_array (by omega) hmethods fun _ h => MethodPart.plain_toItem h hdepth
  · exact plain_ofTable (by omega) hconstants

end ClassPart

namespace ObjectPart

/-- The members of an object. -/
def fields (part : ObjectPart) : List Field :=
  [⟨false, 1, .ofString part.className⟩, ⟨part.ivars.entries.isEmpty, 2, .ofTable part.ivars⟩]

theorem toItem_eq (part : ObjectPart) : part.toItem = .map (written part.fields) := by
  simp only [toItem, fields, written, List.flatMap_cons, List.flatMap_nil, List.append_nil]
  rfl

theorem ofItem?_toItem (part : ObjectPart) : ofItem? part.toItem = some part := by
  obtain ⟨members, hmembers, hfound⟩ := members?_written part.fields
  have hclass : text? (lookup part.fields 1) = some part.className := textOr?_ofString "" _
  have hivars : table? (lookup part.fields 2) = some part.ivars := table?_lookup _ 2 rfl
  rw [ofItem?, toItem_eq, hmembers]
  simp only [Option.bind_eq_bind, Option.bind_some, hfound, hclass, hivars]
  rfl

theorem plain_toItem {part : ObjectPart} (h : part.Fits) {depth : Nat}
    (hdepth : depth + 1 < maxNesting) : part.toItem.Plain depth := by
  obtain ⟨hclass, hivars⟩ := h
  rw [toItem_eq]
  refine plain_written (by omega) (by decide : 2 ≤ maxElements) fun field hfield => ?_
  simp only [fields, List.mem_cons, List.not_mem_nil, or_false] at hfield
  obtain rfl | rfl := hfield
  · exact Item.plain_ofString hclass _
  · exact plain_ofTable hdepth hivars

end ObjectPart

namespace FramePart

/-- The members of a frame. -/
def fields (part : FramePart) : List Field :=
  [⟨false, 1, .ofString part.label⟩, ⟨false, 2, .ofString part.self⟩,
    ⟨part.locals.entries.isEmpty, 3, .ofTable part.locals⟩, ⟨false, 4, .ofString part.result⟩]

theorem toItem_eq (part : FramePart) : part.toItem = .map (written part.fields) := by
  simp only [toItem, fields, written, List.flatMap_cons, List.flatMap_nil, List.append_assoc,
    List.append_nil]
  rfl

theorem ofItem?_toItem (part : FramePart) : ofItem? part.toItem = some part := by
  obtain ⟨members, hmembers, hfound⟩ := members?_written part.fields
  have hlabel : text? (lookup part.fields 1) = some part.label := textOr?_ofString "" _
  have hself : text? (lookup part.fields 2) = some part.self := textOr?_ofString "" _
  have hlocals : table? (lookup part.fields 3) = some part.locals := table?_lookup _ 3 rfl
  have hresult : text? (lookup part.fields 4) = some part.result := textOr?_ofString "" _
  rw [ofItem?, toItem_eq, hmembers]
  simp only [Option.bind_eq_bind, Option.bind_some, hfound, hlabel, hself, hlocals, hresult]
  rfl

theorem plain_toItem {part : FramePart} (h : part.Fits) {depth : Nat}
    (hdepth : depth + 1 < maxNesting) : part.toItem.Plain depth := by
  obtain ⟨hlabel, hself, hlocals, hresult⟩ := h
  rw [toItem_eq]
  refine plain_written (by omega) (by decide : 4 ≤ maxElements) fun field hfield => ?_
  simp only [fields, List.mem_cons, List.not_mem_nil, or_false] at hfield
  obtain rfl | rfl | rfl | rfl := hfield
  · exact Item.plain_ofString hlabel _
  · exact Item.plain_ofString hself _
  · exact plain_ofTable hdepth hlocals
  · exact Item.plain_ofString hresult _

end FramePart

/-! ### Snapshots -/

/-- The members of a snapshot. -/
def fields (snapshot : Snapshot) : List Field :=
  [⟨false, 1, .array (snapshot.classes.map ClassPart.toItem)⟩, ⟨false, 2, snapshot.main.toItem⟩,
    ⟨false, 3, .array (snapshot.frames.map FramePart.toItem)⟩,
    ⟨false, 4, .ofString snapshot.result⟩]

theorem toItem_eq (snapshot : Snapshot) : snapshot.toItem = .map (written snapshot.fields) := by
  simp only [toItem, fields, written, List.flatMap_cons, List.flatMap_nil, List.append_assoc,
    List.append_nil]
  rfl

theorem ofItem?_toItem (snapshot : Snapshot) : ofItem? snapshot.toItem = some snapshot := by
  obtain ⟨members, hmembers, hfound⟩ := members?_written snapshot.fields
  have hclasses : list? ClassPart.ofItem? (lookup snapshot.fields 1) = some snapshot.classes :=
    mapM_map fun part _ => part.ofItem?_toItem
  have hmain : ObjectPart.ofItem? (lookup snapshot.fields 2) = some snapshot.main :=
    snapshot.main.ofItem?_toItem
  have hframes : list? FramePart.ofItem? (lookup snapshot.fields 3) = some snapshot.frames :=
    mapM_map fun part _ => part.ofItem?_toItem
  have hresult : text? (lookup snapshot.fields 4) = some snapshot.result := textOr?_ofString "" _
  rw [ofItem?, toItem_eq, hmembers]
  simp only [Option.bind_eq_bind, Option.bind_some, hfound, hclasses, hmain, hframes, hresult]
  rfl

theorem plain_toItem {snapshot : Snapshot} (h : snapshot.Fits) : snapshot.toItem.Plain 0 := by
  obtain ⟨hclasses, hmain, hframes, hresult⟩ := h
  rw [toItem_eq]
  refine plain_written (by decide) (by decide : 4 ≤ maxElements) fun field hfield => ?_
  simp only [fields, List.mem_cons, List.not_mem_nil, or_false] at hfield
  obtain rfl | rfl | rfl | rfl := hfield
  · exact plain_array (by decide) hclasses fun _ h => ClassPart.plain_toItem h (by decide)
  · exact ObjectPart.plain_toItem hmain (by decide)
  · exact plain_array (by decide) hframes fun _ h => FramePart.plain_toItem h (by decide)
  · exact Item.plain_ofString hresult _

/-- A snapshot is read back from its encoding, which can neither be cut short nor be continued. -/
theorem decodes_exactly {snapshot : Snapshot} (h : snapshot.Fits) :
    decode? snapshot.encode = some snapshot ∧
      (∀ first more, more ≠ [] → snapshot.encode = first ++ more → decode? first = none) ∧
      ∀ more, more ≠ [] → decode? (snapshot.encode ++ more) = none := by
  have hplain := plain_toItem h
  refine ⟨?_, fun first more hmore heq => ?_, fun more hmore => ?_⟩
  · rw [decode?, encode, Item.decode?_encode hplain]
    exact ofItem?_toItem snapshot
  · rw [decode?, Item.decode?_of_encode_eq_append hplain heq hmore]
    rfl
  · rw [decode?, encode, Item.decode?_encode_append hplain hmore]
    rfl

/-- A picture with members of all sorts, and with some that are left out. The canonical order of
the constants is not the one they are kept in, and one name needs a longer head. -/
def sample : Snapshot where
  classes := [{ name := "Object" },
    { name := "Vehicle", superclass := "Object"
      methods := [{ name := "initialize", sort := "method", params := ["wheels", "größe"] },
        { name := "distance_travelled_since_departure", sort := "method" }]
      constants := .ofList [("WHEELS", "#<Wheel>"), ("X", "nil"), ("B", "true")] }]
  main := { className := "Object", ivars := .ofList [("@b", "false"), ("@a", "nil")] }
  frames := [{ label := "<main>", self := "#<Object>" }]
  result := "nil"

set_option maxRecDepth 4000 in
theorem sample_decodes_exactly : sample.Fits ∧ decode? sample.encode = some sample ∧
    (∀ first more, more ≠ [] → sample.encode = first ++ more → decode? first = none) ∧
    ∀ more, more ≠ [] → decode? (sample.encode ++ more) = none :=
  ⟨by decide, decodes_exactly (by decide)⟩

end Snapshot

end Garnet
