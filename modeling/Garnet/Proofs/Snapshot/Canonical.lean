import Garnet.Proofs.Cbor.Canonical
import Garnet.Proofs.Interpreter.Basic
import Garnet.Proofs.Snapshot.Binary
import Mathlib.Data.List.Forall2

/-! # Snapshots are canonical

The encoding of a snapshot depends on what the tables of an interpreter bind and on how the values
are shown, and not on how the bindings came about. Only classes are told apart by more than their
names: they are listed in the order in which they were defined.
-/

namespace Garnet

open Cbor

/-! ### Interpreters that are shown alike -/

section Tables

variable {α β γ : Type}

/-- Two tables bind the same names, to values that are shown alike. -/
def Table.ShownAlike (first : Table α) (shown : α → γ) (second : Table β) (shown' : β → γ) : Prop :=
  ∀ name, (first.get? name).map shown = (second.get? name).map shown'

theorem Table.ShownAlike.map_eq {first : Table α} {shown : α → γ} {second : Table β}
    {shown' : β → γ} (h : first.ShownAlike shown second shown') :
    first.map shown = second.map shown' :=
  Table.ext_get? fun name => by rw [Table.get?_map, Table.get?_map, h name]

theorem Table.shownAlike_iff {first : Table α} {shown : α → γ} {second : Table β}
    {shown' : β → γ} : first.ShownAlike shown second shown' ↔
      (first.map shown).entries = (second.map shown').entries := by
  constructor
  · exact fun h => congrArg Table.entries h.map_eq
  · intro h name
    rw [← Table.get?_map, ← Table.get?_map, Table.ext_entries h]

instance [DecidableEq γ] (first : Table α) (shown : α → γ) (second : Table β) (shown' : β → γ) :
    Decidable (first.ShownAlike shown second shown') :=
  decidable_of_iff _ Table.shownAlike_iff.symm

end Tables

/-- What a snapshot has of a method. -/
def Method.shown (method : Method) : String × List String :=
  (method.sort, method.params)

/-- Two classes have the same name and superclasses with the same name, declare the same methods,
and bind the same constants to values that are shown alike. -/
structure ClassRecord.ShownAlike (world other : World) (first second : ClassRecord) : Prop where
  name : first.name = second.name
  superclass : first.superclass.map (fun id => (world.classRecord id).name) =
    second.superclass.map fun id => (other.classRecord id).name
  methods : first.methods.ShownAlike Method.shown second.methods Method.shown
  constants : first.constants.ShownAlike world.inspect second.constants other.inspect

instance (world other : World) (first second : ClassRecord) :
    Decidable (first.ShownAlike world other second) :=
  decidable_of_iff (_ ∧ _ ∧ _ ∧ _)
    ⟨fun ⟨hname, hsuper, hmethods, hconstants⟩ => ⟨hname, hsuper, hmethods, hconstants⟩,
      fun h => ⟨h.name, h.superclass, h.methods, h.constants⟩⟩

/-- Two frames have the same label, receivers and results that are shown alike, and bind the same
locals to values that are shown alike. -/
structure Frame.ShownAlike (world other : World) (first second : Frame) : Prop where
  label : first.label = second.label
  self : world.inspect first.self = other.inspect second.self
  locals : first.locals.ShownAlike world.inspect second.locals other.inspect
  result : world.inspect? first.result = other.inspect? second.result

instance (world other : World) (first second : Frame) :
    Decidable (first.ShownAlike world other second) :=
  decidable_of_iff (_ ∧ _ ∧ _ ∧ _)
    ⟨fun ⟨hlabel, hself, hlocals, hresult⟩ => ⟨hlabel, hself, hlocals, hresult⟩,
      fun h => ⟨h.label, h.self, h.locals, h.result⟩⟩

/-- The main objects and the frames of two interpreters are shown alike, and so are the classes, if
those of the second are listed in a given order. -/
structure Interpreter.ShownAlike (first second : Interpreter) (listed : List ClassRecord) :
    Prop where
  classes : List.Forall₂ (ClassRecord.ShownAlike first.world second.world)
    first.world.classes.toList listed
  main : first.world.className .main = second.world.className .main
  ivars : (first.world.object .main).ivars.ShownAlike first.world.inspect
    (second.world.object .main).ivars second.world.inspect
  frames : List.Forall₂ (Frame.ShownAlike first.world second.world) first.frames second.frames

instance (first second : Interpreter) (listed : List ClassRecord) :
    Decidable (first.ShownAlike second listed) :=
  decidable_of_iff (_ ∧ _ ∧ _ ∧ _)
    ⟨fun ⟨hclasses, hmain, hivars, hframes⟩ => ⟨hclasses, hmain, hivars, hframes⟩,
      fun h => ⟨h.classes, h.main, h.ivars, h.frames⟩⟩

namespace Snapshot

/-! ### Pictures -/

variable {world other : World}

/-- The methods of a class, from what is shown of them. -/
theorem methods_ofClass (world : World) (record : ClassRecord) :
    (ofClass world record).methods =
      (record.methods.map Method.shown).entries.map fun entry =>
        MethodPart.mk entry.1 entry.2.1 entry.2.2 := by
  rw [Table.map, List.map_map]
  rfl

theorem superclass_ofClass (world : World) (record : ClassRecord) :
    (ofClass world record).superclass =
      (record.superclass.map fun id => (world.classRecord id).name).getD "" := by
  unfold ofClass
  cases record.superclass <;> rfl

theorem ofClass_eq {first second : ClassRecord} (h : first.ShownAlike world other second) :
    ofClass world first = ofClass other second := by
  have hmethods : (ofClass world first).methods = (ofClass other second).methods := by
    rw [methods_ofClass, methods_ofClass, h.methods.map_eq]
  have hsuper : (ofClass world first).superclass = (ofClass other second).superclass := by
    rw [superclass_ofClass, superclass_ofClass, h.superclass]
  exact ClassPart.mk.injEq .. ▸ ⟨h.name, hsuper, hmethods, h.constants.map_eq⟩

theorem ofFrame_eq {first second : Frame} (h : first.ShownAlike world other second) :
    ofFrame world first = ofFrame other second := by
  rw [ofFrame, ofFrame, h.label, h.self, h.locals.map_eq, h.result]

/-- Lists have the same pictures if their elements have, one by one. -/
theorem map_eq_of_forall₂ {α β γ : Type} {alike : α → β → Prop} {picture : α → γ}
    {picture' : β → γ} {firsts : List α} {seconds : List β} (h : List.Forall₂ alike firsts seconds)
    (heq : ∀ first second, alike first second → picture first = picture' second) :
    firsts.map picture = seconds.map picture' := by
  rw [← List.forall₂_eq_eq_eq, List.forall₂_map_left_iff, List.forall₂_map_right_iff]
  exact h.imp heq

/-- Interpreters with the same classes in the same order that are shown alike have the same
picture. -/
theorem ofInterpreter_eq {first second : Interpreter}
    (h : first.ShownAlike second second.world.classes.toList) :
    ofInterpreter first = ofInterpreter second := by
  have hclasses := map_eq_of_forall₂ h.classes fun _ _ => ofClass_eq
  have hframes := map_eq_of_forall₂ h.frames fun _ _ => ofFrame_eq
  have hresult : first.world.inspect? first.current.result =
      second.world.inspect? second.current.result := by
    have hcurrent := h.frames
    rw [Interpreter.frames, Interpreter.frames, List.forall₂_reverse_iff] at hcurrent
    exact (List.forall₂_cons.1 hcurrent).1.result
  rw [ofInterpreter, ofInterpreter, hclasses, hframes, hresult, ofObject, ofObject, h.main,
    h.ivars.map_eq]

/-! ### Canonical encodings -/

/-- The keys of members are in the canonical order. -/
theorem precedes_key : ∀ key other : Fin 5, key < other →
    Precedes (Item.unsigned key).encode (Item.unsigned other).encode := by
  decide

theorem mem_memberUnless {isEmpty : Bool} {key : Nat} {value : Item} {entry : Item × Item}
    (h : entry ∈ memberUnless isEmpty key value) : entry = (.unsigned key, value) := by
  unfold memberUnless member at h
  split at h
  · cases h
  · exact List.mem_singleton.1 h

/-- A part is canonical if its members are listed in the order of their keys. -/
theorem canonical_written {fields : List Field} (hkeys : fields.Pairwise fun a b => a.key < b.key)
    (h : ∀ field ∈ fields, field.value.Canonical) : (Item.map (written fields)).Canonical := by
  have hentry : ∀ entry ∈ written fields,
      ∃ field ∈ fields, entry = (.unsigned field.key, field.value) := by
    intro entry hentry
    obtain ⟨field, hfield, hmem⟩ := List.mem_flatMap.1 hentry
    exact ⟨field, hfield, mem_memberUnless hmem⟩
  refine .map ?_ ?_ ?_
  · refine List.pairwise_flatMap.2 ⟨fun field _ => ?_, hkeys.imp fun hlt first hfirst => ?_⟩
    · unfold memberUnless member
      split
      · exact List.Pairwise.nil
      · exact List.pairwise_singleton _ _
    · intro other hother
      rw [mem_memberUnless hfirst, mem_memberUnless hother]
      exact precedes_key _ _ hlt
  · intro entry hmem
    obtain ⟨field, -, rfl⟩ := hentry entry hmem
    exact .unsigned _
  · intro entry hmem
    obtain ⟨field, hfield, rfl⟩ := hentry entry hmem
    exact h field hfield

theorem canonical_array {α : Type} {toItem : α → Item} (h : ∀ part, (toItem part).Canonical)
    (parts : List α) : (Item.array (parts.map toItem)).Canonical := by
  refine .array fun item hitem => ?_
  obtain ⟨part, -, rfl⟩ := List.mem_map.1 hitem
  exact h part

theorem MethodPart.canonical_toItem (part : MethodPart) : part.toItem.Canonical := by
  rw [toItem_eq]
  refine canonical_written (by simp [fields]) fun field hfield => ?_
  simp only [fields, List.mem_cons, List.not_mem_nil, or_false] at hfield
  obtain rfl | rfl | rfl := hfield
  · exact Item.canonical_ofString _
  · exact Item.canonical_ofString _
  · exact canonical_array Item.canonical_ofString _

theorem ClassPart.canonical_toItem (part : ClassPart) : part.toItem.Canonical := by
  rw [toItem_eq]
  refine canonical_written (by simp [fields]) fun field hfield => ?_
  simp only [fields, List.mem_cons, List.not_mem_nil, or_false] at hfield
  obtain rfl | rfl | rfl | rfl := hfield
  · exact Item.canonical_ofString _
  · exact Item.canonical_ofString _
  · exact canonical_array MethodPart.canonical_toItem _
  · exact Item.canonical_ofTable _

theorem ObjectPart.canonical_toItem (part : ObjectPart) : part.toItem.Canonical := by
  rw [toItem_eq]
  refine canonical_written (by simp [fields]) fun field hfield => ?_
  simp only [fields, List.mem_cons, List.not_mem_nil, or_false] at hfield
  obtain rfl | rfl := hfield
  · exact Item.canonical_ofString _
  · exact Item.canonical_ofTable _

theorem FramePart.canonical_toItem (part : FramePart) : part.toItem.Canonical := by
  rw [toItem_eq]
  refine canonical_written (by simp [fields]) fun field hfield => ?_
  simp only [fields, List.mem_cons, List.not_mem_nil, or_false] at hfield
  obtain rfl | rfl | rfl | rfl := hfield
  · exact Item.canonical_ofString _
  · exact Item.canonical_ofString _
  · exact Item.canonical_ofTable _
  · exact Item.canonical_ofString _

theorem canonical_toItem (snapshot : Snapshot) : snapshot.toItem.Canonical := by
  rw [toItem_eq]
  refine canonical_written (by simp [fields]) fun field hfield => ?_
  simp only [fields, List.mem_cons, List.not_mem_nil, or_false] at hfield
  obtain rfl | rfl | rfl | rfl := hfield
  · exact canonical_array ClassPart.canonical_toItem _
  · exact snapshot.main.canonical_toItem
  · exact canonical_array FramePart.canonical_toItem _
  · exact Item.canonical_ofString _

/-- The methods of a class are listed by their names. -/
theorem pairwise_methods_ofClass (world : World) (record : ClassRecord) :
    (ofClass world record).methods.Pairwise fun first second => first.name < second.name :=
  List.pairwise_map.2 record.methods.ascending

/-- Interpreters that are shown alike have the same encoding, if their classes were defined in the
same order. In an encoding each map has its keys in the canonical order, in whatever order a table
lists its entries, and the methods of a class are in the order of their names. -/
theorem encode_canonical :
    (∀ first second : Interpreter, first.ShownAlike second second.world.classes.toList →
      (ofInterpreter first).encode = (ofInterpreter second).encode) ∧
    (∀ (table : Table String) (pairs : List (String × String)), pairs.Perm table.entries →
      Item.ofEntries pairs = Item.ofTable table) ∧
    ∀ interp : Interpreter, (ofInterpreter interp).toItem.Canonical ∧
      ∀ part ∈ (ofInterpreter interp).classes,
        part.methods.Pairwise fun first second => first.name < second.name := by
  refine ⟨fun first second h => ?_, fun table pairs h => Item.ofEntries_of_perm h, fun interp => ?_⟩
  · rw [ofInterpreter_eq h]
  · refine ⟨canonical_toItem _, fun part hpart => ?_⟩
    obtain ⟨record, -, rfl⟩ := List.mem_map.1 hpart
    exact pairwise_methods_ofClass interp.world record

/-- What one program defines and assigns, another one does in another order and by way of other
values. -/
theorem encode_canonical_reordered :
    let first := ((Interpreter.new 0 {}).run
      "class A; def f(x); end; def g; end; end; @b = 'z'; @a = self; y = nil; x = 'y'").2
    let second := ((Interpreter.new 0 {}).run
      "x = self; class A; def g; end; def f(x); end; end; @a = x; @b = 'z'; x = 'y'; y = nil; x").2
    first.ShownAlike second second.world.classes.toList ∧
      (ofInterpreter first).encode = (ofInterpreter second).encode := by
  intro first second
  have halike : first.ShownAlike second second.world.classes.toList := by decide +kernel
  exact ⟨halike, encode_canonical.1 first second halike⟩

/-- Two classes that are defined in the other order are listed in the other order. -/
theorem encode_depends_on_class_order :
    let first := ((Interpreter.new 0 {}).run "class A\nend\nclass B\nend").2
    let second := ((Interpreter.new 0 {}).run "class B\nend\nclass A\nend").2
    ∃ listed : List ClassRecord, listed.Perm second.world.classes.toList ∧
      first.ShownAlike second listed ∧
      (ofInterpreter first).encode ≠ (ofInterpreter second).encode := by
  intro first second
  let classes := second.world.classes.toList
  refine ⟨classes.take 4 ++ (classes.drop 4).reverse, ?_, by decide +kernel, by decide +kernel⟩
  have hperm := (List.reverse_perm (classes.drop 4)).append_left (classes.take 4)
  rwa [List.take_append_drop] at hperm

end Snapshot

end Garnet
