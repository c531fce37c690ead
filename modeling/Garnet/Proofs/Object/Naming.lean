import Garnet.Proofs.Object.Graph

/-! # Names of classes

A class is named after the path of constants that leads to it from the root class. The name is fixed
when the class is made, and no constant is ever bound to something else, so the path leads to the
class from then on. As the parts of a name are free of colons, a name has one path only, and two
classes never share a name.
-/

namespace Garnet

/-! ### Qualified names -/

/-- Cut a text at each double colon, from left to right. -/
def cutAtColons : List Char → List (List Char)
  | [] => [[]]
  | ':' :: ':' :: rest => [] :: cutAtColons rest
  | c :: rest => (cutAtColons rest).modifyHead (c :: ·)

/-- The parts of a qualified name. -/
def pathOf (name : String) : List String :=
  (cutAtColons name.toList).map String.ofList

theorem cutAtColons_cons {c : Char} (h : c ≠ ':') (rest : List Char) :
    cutAtColons (c :: rest) = (cutAtColons rest).modifyHead (c :: ·) := by
  rw [cutAtColons]
  exact fun _ hc => absurd hc h

theorem cutAtColons_of_not_mem {text : List Char} (h : ':' ∉ text) : cutAtColons text = [text] := by
  induction text with
  | nil => rfl
  | cons c rest ih =>
    have hc : c ≠ ':' := fun heq => h (heq ▸ List.mem_cons_self)
    rw [cutAtColons_cons hc, ih fun hmem => h (List.mem_cons_of_mem c hmem)]
    rfl

theorem cutAtColons_append {text : List Char} (h : ':' ∉ text) (rest : List Char) :
    cutAtColons (text ++ ':' :: ':' :: rest) = text :: cutAtColons rest := by
  induction text with
  | nil => rfl
  | cons c more ih =>
    have hc : c ≠ ':' := fun heq => h (heq ▸ List.mem_cons_self)
    rw [List.cons_append, cutAtColons_cons hc, ih fun hmem => h (List.mem_cons_of_mem c hmem)]
    rfl

theorem pathOf_single {name : String} (h : ':' ∉ name.toList) : pathOf name = [name] := by
  rw [pathOf, cutAtColons_of_not_mem h, List.map_singleton, String.ofList_toList]

theorem pathOf_append {name : String} (h : ':' ∉ name.toList) (rest : String) :
    pathOf (name ++ "::" ++ rest) = name :: pathOf rest := by
  have htext : (name ++ "::" ++ rest).toList = name.toList ++ ':' :: ':' :: rest.toList := by
    simp
  rw [pathOf, htext, cutAtColons_append h, List.map_cons, String.ofList_toList, pathOf]

/-- The parts that a name was made of. -/
theorem pathOf_intercalate {steps : List String} (hne : steps ≠ [])
    (h : ∀ step ∈ steps, ':' ∉ step.toList) : pathOf ("::".intercalate steps) = steps := by
  induction steps with
  | nil => exact absurd rfl hne
  | cons first rest ih =>
    have hfirst := h first List.mem_cons_self
    by_cases hrest : rest = []
    · rw [hrest, String.intercalate_singleton]
      exact pathOf_single hfirst
    · rw [String.intercalate_cons_of_ne_nil hrest, pathOf_append hfirst,
        ih hrest fun step hstep => h step (List.mem_cons_of_mem first hstep)]

namespace World

open ClassId

variable {world after : World}

/-! ### Paths of constants -/

/-- The constant of a class that was found, if a class was found. -/
def follow (world : World) (found : Option Ref) (name : String) : Option Ref :=
  found.bind fun ref =>
    (world.asClass? ref).bind fun id => (world.classRecord id).constants.get? name

theorem constantAt?_cons (world : World) (first : String) (rest : List String) :
    world.constantAt? (first :: rest) =
      rest.foldl world.follow ((world.classRecord .objectClass).constants.get? first) := rfl

theorem constantAt?_append (world : World) {steps : List String} (h : steps ≠ []) (name : String) :
    world.constantAt? (steps ++ [name]) = world.follow (world.constantAt? steps) name := by
  cases steps with
  | nil => exact absurd rfl h
  | cons first rest =>
    rw [List.cons_append, constantAt?_cons, constantAt?_cons, List.foldl_append]
    rfl

/-- What stands for a class still does, constants stay bound, and classes keep their names and the
objects that stand for them. -/
structure Retains (first second : World) : Prop where
  asClass? (ref : Ref) (id : ClassId) :
    first.asClass? ref = some id → second.asClass? ref = some id
  constant (id : ClassId) (name : String) (value : Ref) :
    (first.classRecord id).constants.get? name = some value →
      (second.classRecord id).constants.get? name = some value
  name (id : ClassId) : first.HasClass id →
    (second.classRecord id).name = (first.classRecord id).name
  face (id : ClassId) : first.HasClass id →
    (second.classRecord id).face = (first.classRecord id).face

theorem Retains.foldl_follow (h : world.Retains after) (steps : List String)
    {found found' : Option Ref} (hfound : ∀ ref, found = some ref → found' = some ref) (ref : Ref) :
    steps.foldl world.follow found = some ref → steps.foldl after.follow found' = some ref := by
  induction steps generalizing found found' with
  | nil => exact hfound ref
  | cons name rest ih =>
    refine ih fun value hvalue => ?_
    obtain ⟨space, hspace, hvalue⟩ := Option.bind_eq_some_iff.1 hvalue
    obtain ⟨id, hid, hvalue⟩ := Option.bind_eq_some_iff.1 hvalue
    rw [hfound space hspace, follow, Option.bind_some, h.asClass? space id hid, Option.bind_some]
    exact h.constant id name value hvalue

/-- A path still leads where it led before. -/
theorem Retains.constantAt? (h : world.Retains after) {steps : List String} {ref : Ref}
    (hsteps : world.constantAt? steps = some ref) : after.constantAt? steps = some ref := by
  cases steps with
  | nil => cases hsteps
  | cons first rest =>
    rw [constantAt?_cons] at hsteps ⊢
    exact h.foldl_follow rest (h.constant _ first) ref hsteps

theorem Retains.allocate (world : World) (object : Object) :
    world.Retains (world.allocate object).2 where
  asClass? ref id hid := by
    have href := hasObject_of_asClass? hid
    rw [World.asClass?, object_allocate, if_neg (Nat.ne_of_lt href)]
    exact hid
  constant _ _ _ h := h
  name _ _ := rfl
  face _ _ := rfl

/-- A constant is only bound if it was not bound before. -/
theorem Retains.defineClass {owner : ClassId} (howner : world.HasClass owner) {name : String}
    (hfresh : (world.classRecord owner).constants.get? name = none) (parent : ClassId) :
    world.Retains (world.defineClass owner name parent) where
  asClass? ref id hid := by
    have href := hasObject_of_asClass? hid
    rw [World.asClass?, object_defineClass, if_neg (Nat.ne_of_lt href)]
    exact hid
  constant id key value hvalue := by
    have hid := hasClass_of_constant hvalue
    rw [classRecord_defineClass howner, if_neg (Nat.ne_of_lt hid)]
    split
    next heq =>
      rw [Table.get?_insert]
      split
      next hkey =>
        rw [heq, ← hkey, hfresh] at hvalue
        cases hvalue
      next => exact hvalue
    next => exact hvalue
  name id hid := by
    obtain ⟨constants, heq⟩ := classRecord_defineClass_eq howner name parent hid
    rw [heq]
  face id hid := by
    obtain ⟨constants, heq⟩ := classRecord_defineClass_eq howner name parent hid
    rw [heq]

theorem Retains.setIvar (world : World) (ref : Ref) (name : String) (value : Ref) :
    world.Retains (world.setIvar ref name value) where
  asClass? other id hid := by
    obtain ⟨ivars, heq⟩ := world.object_setIvar_eq ref other name value
    rw [World.asClass?, heq]
    exact hid
  constant _ _ _ h := h
  name _ _ := rfl
  face _ _ := rfl

theorem Retains.setMethod (world : World) (id : ClassId) (name : String) (code : Method.Code) :
    world.Retains (world.setMethod id name code) := by
  have hrecord (other : ClassId) := world.classRecord_setMethod_eq id other name code
  refine ⟨fun _ _ h => h, fun other key value hvalue => ?_, fun other _ => ?_, fun other _ => ?_⟩
  · obtain ⟨methods, heq⟩ := hrecord other
    rw [heq]
    exact hvalue
  · obtain ⟨methods, heq⟩ := hrecord other
    rw [heq]
  · obtain ⟨methods, heq⟩ := hrecord other
    rw [heq]

theorem Change.retains {allowed : String → Prop} (h : Change allowed world after) :
    world.Retains after := by
  cases h with
  | newString text => exact .allocate world _
  | newObject hid => exact .allocate world _
  | setIvar href hvalue name => exact .setIvar world _ name _
  | defineClass howner hparent hname hfresh => exact .defineClass howner hfresh _
  | setMethod hid hbody name params => exact .setMethod world _ name _

/-! ### Classes and their paths -/

/-- A path of constants that a class can be named after. -/
structure IsPath (steps : List String) : Prop where
  ne_nil : steps ≠ []
  segment : ∀ step ∈ steps, IsSegment step

/-- All constants are classes, and the name of a class is a path that leads to it. -/
structure Named (world : World) : Prop where
  constant (id : ClassId) (name : String) (value : Ref) :
    (world.classRecord id).constants.get? name = some value →
      ∃ other, world.asClass? value = some other
  path (id : ClassId) : world.HasClass id → ∃ steps, IsPath steps ∧
    (world.classRecord id).name = "::".intercalate steps ∧
      world.constantAt? steps = some (world.classRecord id).face

namespace Named

theorem retain (h : world.Named) (hretains : world.Retains after) {id : ClassId}
    (hid : world.HasClass id) : ∃ steps, IsPath steps ∧
      (after.classRecord id).name = "::".intercalate steps ∧
        after.constantAt? steps = some (after.classRecord id).face := by
  obtain ⟨steps, hpath, hname, hface⟩ := h.path id hid
  refine ⟨steps, hpath, ?_, ?_⟩
  · rw [hretains.name id hid, hname]
  · rw [hretains.face id hid]
    exact hretains.constantAt? hface

/-- A world with the same constants and classes. -/
theorem ofRetains (h : world.Named) (hretains : world.Retains after)
    (hconstants : ∀ id, (after.classRecord id).constants = (world.classRecord id).constants)
    (hsize : after.classes.size = world.classes.size) : after.Named where
  constant id name value hvalue := by
    rw [hconstants] at hvalue
    obtain ⟨other, hother⟩ := h.constant id name value hvalue
    exact ⟨other, hretains.asClass? value other hother⟩
  path id hid := h.retain hretains (by simpa [HasClass, hsize] using hid)

/-- A new class is named after the path to its namespace and its own constant. -/
theorem path_defineClass (h : world.Named) (hgraph : world.Graph) {owner : ClassId}
    (howner : world.HasClass owner) {name : String} (hname : IsSegment name)
    (hfresh : (world.classRecord owner).constants.get? name = none) (parent : ClassId) :
    ∃ steps, IsPath steps ∧ world.qualify owner name = "::".intercalate steps ∧
      (world.defineClass owner name parent).constantAt? steps = some ⟨world.objects.size⟩ := by
  have hretains := Retains.defineClass howner hfresh parent
  have hbound : ((world.defineClass owner name parent).classRecord owner).constants.get? name =
      some ⟨world.objects.size⟩ := by
    rw [classRecord_defineClass howner, if_neg (Nat.ne_of_lt howner), if_pos rfl]
    exact Table.get?_insert_self ..
  -- Only constants of the root class have no qualifier.
  by_cases hroot : owner = .objectClass
  · subst hroot
    refine ⟨[name], ⟨by simp, by simpa using hname⟩, ?_, hbound⟩
    rw [qualify, if_pos rfl, String.intercalate_singleton]
  · obtain ⟨steps, hpath, hsteps, hface⟩ := h.path owner howner
    have hstands := hretains.asClass? _ _ (hgraph.stands owner howner).1
    refine ⟨steps ++ [name], ⟨by simp, ?_⟩, ?_, ?_⟩
    · intro step hstep
      rcases List.mem_append.1 hstep with hstep | hstep
      · exact hpath.segment step hstep
      · exact List.mem_singleton.1 hstep ▸ hname
    · rw [qualify, if_neg hroot, hsteps, String.intercalate_append_of_ne_nil hpath.ne_nil (by simp),
        String.intercalate_singleton]
    · rw [constantAt?_append _ hpath.ne_nil, hretains.constantAt? hface, follow, Option.bind_some,
        hstands, Option.bind_some, hbound]

theorem defineClass (h : world.Named) (hgraph : world.Graph) {owner : ClassId}
    (howner : world.HasClass owner) {name : String} (hname : IsSegment name)
    (hfresh : (world.classRecord owner).constants.get? name = none) (parent : ClassId) :
    (world.defineClass owner name parent).Named := by
  have hretains := Retains.defineClass howner hfresh parent
  have hrecord := classRecord_defineClass howner name parent
  have hold : ∀ id key value, (world.classRecord id).constants.get? key = some value →
      ∃ other, (world.defineClass owner name parent).asClass? value = some other := by
    intro id key value hvalue
    obtain ⟨other, hother⟩ := h.constant id key value hvalue
    exact ⟨other, hretains.asClass? value other hother⟩
  constructor
  · intro id key value hvalue
    rw [hrecord] at hvalue
    split at hvalue
    next => exact absurd hvalue (by simp)
    next =>
      split at hvalue
      next =>
        rw [Table.get?_insert] at hvalue
        split at hvalue
        next =>
          cases hvalue
          refine ⟨⟨world.classes.size⟩, ?_⟩
          rw [asClass?, object_defineClass, if_pos rfl]
        next => exact hold id key value hvalue
      next => exact hold id key value hvalue
  · intro id hid
    have hlt : id.index < world.classes.size + 1 := by simpa [HasClass] using hid
    by_cases hnew : id.index = world.classes.size
    · rw [hrecord, if_pos hnew]
      exact h.path_defineClass hgraph howner hname hfresh parent
    · exact h.retain hretains (by unfold HasClass; omega)

theorem change (h : world.Named) (hgraph : world.Graph) (hchange : Change IsSegment world after) :
    after.Named := by
  have hretains := hchange.retains
  cases hchange with
  | newString text => exact h.ofRetains hretains (fun _ => rfl) rfl
  | newObject hid => exact h.ofRetains hretains (fun _ => rfl) rfl
  | setIvar href hvalue name => exact h.ofRetains hretains (fun _ => rfl) rfl
  | defineClass howner hparent hname hfresh => exact h.defineClass hgraph howner hname hfresh _
  | setMethod hid hbody name params =>
    refine h.ofRetains hretains (fun id => ?_) (by simp)
    obtain ⟨methods, heq⟩ := world.classRecord_setMethod_eq _ id name (.interpreted params _)
    rw [heq]

end Named

theorem named_initial : initial.Named where
  constant id name value hvalue := by
    obtain ⟨index⟩ := id
    match index with
    | 1 =>
      have hmem := Table.mem_of_get?_ofList hvalue
      simp only [List.mem_cons, Prod.mk.injEq, List.not_mem_nil, or_false] at hmem
      obtain ⟨-, rfl⟩ | ⟨-, rfl⟩ | ⟨-, rfl⟩ | ⟨-, rfl⟩ := hmem
      · exact ⟨.classClass, rfl⟩
      · exact ⟨.objectClass, rfl⟩
      · exact ⟨.stringClass, rfl⟩
      · exact ⟨.nilClass, rfl⟩
    | 0 | 2 | 3 | _ + 4 => cases hvalue
  path id hid := by
    have hpath {name : String} (hne : name ≠ "") (hcolon : ':' ∉ name.toList) : IsPath [name] :=
      ⟨by simp, by simpa using ⟨hne, hcolon⟩⟩
    obtain ⟨index⟩ := id
    have hlt : index < 4 := hid
    match index with
    | 0 => exact ⟨["Class"], hpath (by decide) (by decide), rfl, by decide⟩
    | 1 => exact ⟨["Object"], hpath (by decide) (by decide), rfl, by decide⟩
    | 2 => exact ⟨["String"], hpath (by decide) (by decide), rfl, by decide⟩
    | 3 => exact ⟨["NilClass"], hpath (by decide) (by decide), rfl, by decide⟩

/-- The names of classes as an invariant, if only names without colons are mentioned. -/
def namingInvariant : Invariant where
  allowed := IsSegment
  Holds world := world.Graph ∧ world.Named ∧ world.BodiesName IsSegment
  closed h := h.1.toClosed
  bodies h := h.2.2
  change h hchange := ⟨h.1.change hchange, h.2.1.change h.1 hchange, h.2.2.change hchange⟩

/-! ### What a name says -/

namespace Named

theorem constantAt?_pathOf (h : world.Named) {id : ClassId} (hid : world.HasClass id) :
    world.constantAt? (pathOf (world.classRecord id).name) = some (world.classRecord id).face := by
  obtain ⟨steps, hpath, hname, hface⟩ := h.path id hid
  rw [hname, pathOf_intercalate hpath.ne_nil fun step hstep => (hpath.segment step hstep).2]
  exact hface

theorem name_ne_empty (h : world.Named) {id : ClassId} (hid : world.HasClass id) :
    (world.classRecord id).name ≠ "" := by
  obtain ⟨steps, hpath, hname, -⟩ := h.path id hid
  intro hempty
  have hsteps := pathOf_intercalate hpath.ne_nil fun step hstep => (hpath.segment step hstep).2
  rw [← hname, hempty, pathOf_single (by simp)] at hsteps
  exact (hpath.segment "" (hsteps ▸ List.mem_singleton_self "")).1 rfl

/-- Two classes never share a name. -/
theorem name_injective (h : world.Named) (hgraph : world.Graph) {id other : ClassId}
    (hid : world.HasClass id) (hother : world.HasClass other)
    (hname : (world.classRecord id).name = (world.classRecord other).name) : id = other := by
  have hpath := h.constantAt?_pathOf hid
  rw [hname, h.constantAt?_pathOf hother] at hpath
  -- One path leads to one object, which stands for one class.
  have hface : (world.classRecord other).face = (world.classRecord id).face := Option.some.inj hpath
  have hclass := (hgraph.stands other hother).1
  rw [hface, (hgraph.stands id hid).1] at hclass
  exact Option.some.inj hclass

end Named

end World

end Garnet
