import Garnet.Proofs.Object.Change

/-! # The graph of objects and classes

Classes and the objects that stand for them refer to each other one to one. The class of all classes
has the root class above it, and every other class but the root was made after the one it inherits
from, so each chain of superclasses ends at the root class. Hence a message is resolved by a walk
that always ends, and what the root class declares is found from everywhere.
-/

namespace Garnet.World

open ClassId

variable {world : World}

/-- How classes, the objects that stand for them and their methods hang together. -/
structure Graph (world : World) : Prop extends Closed world where
  /-- The object that stands for a class is an instance of the class of all classes. -/
  stands (id : ClassId) : world.HasClass id →
    world.asClass? (world.classRecord id).face = some id ∧
      world.classOf (world.classRecord id).face = .classClass
  unique (ref : Ref) (id : ClassId) : world.asClass? ref = some id →
    (world.classRecord id).face = ref
  root : (world.classRecord .objectClass).superclass = none
  top : (world.classRecord .classClass).superclass = some .objectClass
  older (id : ClassId) : world.HasClass id → id ≠ .objectClass → id ≠ .classClass →
    ∃ parent, (world.classRecord id).superclass = some parent ∧ parent.index < id.index
  entry (id : ClassId) (name : String) (method : Method) :
    world.ownMethod? id name = some method → method.name = name ∧ method.owner = id
  setUp : (world.ownMethod? .objectClass "initialize").isSome = true
  puts : (world.ownMethod? .objectClass "puts").isSome = true

/-! ### Changes -/

namespace Graph

theorem allocate (h : world.Graph) {object : Object} (hcls : world.HasClass object.cls)
    (hrecord : object.record = none) (hivars : object.ivars = ∅) :
    (world.allocate object).2.Graph := by
  have hobject (ref : Ref) (href : world.HasObject ref) :
      (world.allocate object).2.object ref = world.object ref := by
    rw [object_allocate, if_neg (Nat.ne_of_lt href)]
  refine ⟨h.toClosed.allocate hcls hrecord hivars, ?_, ?_, h.root, h.top, h.older, h.entry, h.setUp,
    h.puts⟩
  · intro id hid
    have hface : (world.allocate object).2.object (world.classRecord id).face =
        world.object (world.classRecord id).face := hobject _ (h.face id hid)
    have hstands := h.stands id hid
    unfold asClass? classOf at hstands ⊢
    exact hface ▸ hstands
  · intro ref id hid
    rw [asClass?, object_allocate] at hid
    split at hid
    next => simp [hrecord] at hid
    next => exact h.unique ref id hid

theorem setIvar (h : world.Graph) {ref value : Ref} (hvalue : world.HasObject value)
    (name : String) : (world.setIvar ref name value).Graph := by
  have hobject (other : Ref) := world.object_setIvar_eq ref other name value
  refine ⟨h.toClosed.setIvar hvalue name, ?_, ?_, h.root, h.top, h.older, h.entry, h.setUp, h.puts⟩
  · intro id hid
    obtain ⟨ivars, heq⟩ := hobject (world.classRecord id).face
    have hstands := h.stands id hid
    unfold asClass? classOf at hstands ⊢
    exact heq ▸ hstands
  · intro other id hid
    obtain ⟨ivars, heq⟩ := hobject other
    rw [asClass?, heq] at hid
    exact h.unique other id hid

/-- The new class has the largest number, so all others come before it. -/
theorem defineClass (h : world.Graph) {owner parent : ClassId} (howner : world.HasClass owner)
    (hparent : world.HasClass parent) (name : String) :
    (world.defineClass owner name parent).Graph := by
  have hrecord := classRecord_defineClass howner name parent
  have hsize (id : ClassId) (hid : (world.defineClass owner name parent).HasClass id) :
      id.index = world.classes.size ∨ world.HasClass id := by
    have hlt : id.index < world.classes.size + 1 := by simpa [HasClass] using hid
    unfold HasClass
    omega
  have hold (id : ClassId) (hid : world.HasClass id) :
      ((world.defineClass owner name parent).classRecord id).face = (world.classRecord id).face ∧
      ((world.defineClass owner name parent).classRecord id).superclass =
        (world.classRecord id).superclass := by
    obtain ⟨constants, heq⟩ := classRecord_defineClass_eq howner name parent hid
    rw [heq]
    exact ⟨rfl, rfl⟩
  have hmethod (id : ClassId) (message : String) :
      (world.defineClass owner name parent).ownMethod? id message =
        if id.index = world.classes.size then none else world.ownMethod? id message := by
    rw [ownMethod?, hrecord]
    split
    next => rfl
    next =>
      split
      next => rfl
      next => rfl
  have hroot : world.HasClass .objectClass := h.objectClass
  have htop : world.HasClass .classClass := h.classClass
  refine ⟨h.toClosed.defineClass howner name parent, ?_, ?_, ?_, ?_, ?_, ?_, ?_, ?_⟩
  · intro id hid
    unfold asClass? classOf
    rcases hsize id hid with hnew | hid
    · obtain rfl : id = ⟨world.classes.size⟩ := by rw [← hnew]
      rw [hrecord, if_pos rfl, object_defineClass, if_pos rfl]
      exact ⟨rfl, rfl⟩
    · have hface := h.face id hid
      rw [(hold id hid).1, object_defineClass, if_neg (Nat.ne_of_lt hface)]
      exact h.stands id hid
  · intro ref id hid
    rw [asClass?, object_defineClass] at hid
    split at hid
    next hnew =>
      cases hid
      rw [hrecord, if_pos rfl, ← hnew]
    next =>
      rw [(hold id (h.asClass? ref id hid)).1]
      exact h.unique ref id hid
  · rw [(hold _ hroot).2]
    exact h.root
  · rw [(hold _ htop).2]
    exact h.top
  · intro id hid hne hne'
    rcases hsize id hid with hnew | hid
    -- Its superclass was there before, so it has a smaller number.
    · rw [hrecord, if_pos hnew]
      exact ⟨parent, rfl, hnew ▸ hparent⟩
    · rw [(hold id hid).2]
      exact h.older id hid hne hne'
  · intro id message method hfound
    rw [hmethod] at hfound
    split at hfound
    next => exact absurd hfound (by simp)
    next => exact h.entry id message method hfound
  · rw [hmethod, if_neg (Nat.ne_of_lt hroot)]
    exact h.setUp
  · rw [hmethod, if_neg (Nat.ne_of_lt hroot)]
    exact h.puts

theorem setMethod (h : world.Graph) (id : ClassId) (name : String) (code : Method.Code) :
    (world.setMethod id name code).Graph := by
  have hface (other : ClassId) : ((world.setMethod id name code).classRecord other).face =
      (world.classRecord other).face := by
    obtain ⟨methods, heq⟩ := world.classRecord_setMethod_eq id other name code
    rw [heq]
  have hkeeps (message : String) (hfound : (world.ownMethod? .objectClass message).isSome = true) :
      ((world.setMethod id name code).ownMethod? .objectClass message).isSome = true := by
    rw [ownMethod?_setMethod]
    split
    next => rfl
    next => exact hfound
  refine ⟨h.toClosed.setMethod id name code, ?_, ?_, ?_, ?_, ?_, ?_, hkeeps _ h.setUp,
    hkeeps _ h.puts⟩
  · intro other hother
    rw [hface other]
    exact h.stands other (hasClass_setMethod.1 hother)
  · intro ref other hother
    rw [hface other]
    exact h.unique ref other hother
  · rw [superclass_setMethod]
    exact h.root
  · rw [superclass_setMethod]
    exact h.top
  · intro other hother hne hne'
    rw [superclass_setMethod]
    exact h.older other (hasClass_setMethod.1 hother) hne hne'
  · intro other message method hfound
    rw [ownMethod?_setMethod] at hfound
    split at hfound
    next heq =>
      cases hfound
      exact ⟨heq.2.2, heq.1.symm⟩
    next => exact h.entry other message method hfound

end Graph

theorem Graph.change (h : world.Graph) {allowed : String → Prop} {after : World}
    (hchange : Change allowed world after) : after.Graph := by
  cases hchange with
  | newString text => exact h.allocate h.stringClass rfl rfl
  | newObject hid => exact h.allocate hid rfl rfl
  | setIvar href hvalue name => exact h.setIvar hvalue name
  | defineClass howner hparent hname hfresh => exact h.defineClass howner hparent _
  | setMethod hid hbody name params => exact h.setMethod _ _ _

/-- The graph as an invariant, whatever the names of constants are. -/
def graphInvariant : Invariant where
  allowed _ := True
  Holds := Graph
  closed h := h.toClosed
  bodies _ := fun _ _ _ _ _ _ _ node _ => node.namesOnly_true
  change h hchange := h.change hchange

/-! ### The first world -/

theorem closed_initial : initial.Closed where
  classes := by decide
  objects := by decide
  classOf ref href := by
    obtain ⟨index⟩ := ref
    have hlt : index < 6 := href
    match index with
    | 0 | 1 | 2 | 3 | 4 | 5 => decide
  asClass? ref id hid := by
    obtain ⟨index⟩ := ref
    match index with
    | 0 | 1 | 2 | 3 =>
      cases hid
      decide
    | 4 | 5 | _ + 6 => cases hid
  face id hid := by
    obtain ⟨index⟩ := id
    have hlt : index < 4 := hid
    match index with
    | 0 | 1 | 2 | 3 => decide
  ivar ref name value hvalue := by
    obtain ⟨index⟩ := ref
    match index with
    | 0 | 1 | 2 | 3 | 4 | 5 | _ + 6 => cases hvalue
  constant id name value hvalue := by
    obtain ⟨index⟩ := id
    match index with
    | 1 =>
      have hmem := Table.mem_of_get?_ofList hvalue
      simp only [List.mem_cons, Prod.mk.injEq, List.not_mem_nil, or_false] at hmem
      obtain ⟨-, rfl⟩ | ⟨-, rfl⟩ | ⟨-, rfl⟩ | ⟨-, rfl⟩ := hmem <;> decide
    | 0 | 2 | 3 | _ + 4 => cases hvalue

theorem graph_initial : initial.Graph where
  toClosed := closed_initial
  stands id hid := by
    obtain ⟨index⟩ := id
    have hlt : index < 4 := hid
    match index with
    | 0 | 1 | 2 | 3 => exact ⟨rfl, rfl⟩
  unique ref id hid := by
    obtain ⟨index⟩ := ref
    match index with
    | 0 | 1 | 2 | 3 =>
      cases hid
      rfl
    | 4 | 5 | _ + 6 => cases hid
  root := rfl
  top := rfl
  older id hid hne hne' := by
    obtain ⟨index⟩ := id
    have hlt : index < 4 := hid
    match index with
    | 0 => exact absurd rfl hne'
    | 1 => exact absurd rfl hne
    | 2 => exact ⟨.objectClass, rfl, by decide⟩
    | 3 => exact ⟨.objectClass, rfl, by decide⟩
  entry id name method hmethod := by
    obtain ⟨index⟩ := id
    match index with
    | 0 =>
      have hmem := Table.mem_of_get?_ofList hmethod
      simp only [nativeEntry, List.mem_singleton, Prod.mk.injEq] at hmem
      obtain ⟨rfl, rfl⟩ := hmem
      exact ⟨rfl, rfl⟩
    | 1 =>
      have hmem := Table.mem_of_get?_ofList hmethod
      simp only [nativeEntry, List.mem_cons, List.not_mem_nil, or_false, Prod.mk.injEq] at hmem
      obtain ⟨rfl, rfl⟩ | ⟨rfl, rfl⟩ := hmem
      · exact ⟨rfl, rfl⟩
      · exact ⟨rfl, rfl⟩
    | 2 | 3 | _ + 4 => cases hmethod
  setUp := by decide
  puts := by decide

/-! ### Chains of superclasses -/

/-- The classes on the way from a class to one that has no superclass, if the way ends there. -/
inductive Chain (world : World) : ClassId → List ClassId → Prop
  | root {id : ClassId} (h : (world.classRecord id).superclass = none) : Chain world id [id]
  | inherits {id parent : ClassId} {rest : List ClassId}
    (h : (world.classRecord id).superclass = some parent) (hrest : Chain world parent rest) :
    Chain world id (id :: rest)

/-- A chain that ends is followed to its end, if there is room for that many classes or more. -/
theorem Chain.lineage_eq {id : ClassId} {chain : List ClassId} (h : world.Chain id chain)
    {more : Nat} (hmore : chain.length ≤ more) : world.lineage more id = chain := by
  induction h generalizing more with
  | root h =>
    obtain ⟨less, rfl⟩ : ∃ less, more = less + 1 := Nat.exists_eq_add_of_le' hmore
    rw [lineage, h]
  | inherits h hrest ih =>
    obtain ⟨less, rfl⟩ : ∃ less, more = less + 1 :=
      Nat.exists_eq_add_of_le' (Nat.le_trans (Nat.le_add_left 1 _) hmore)
    rw [lineage, h]
    dsimp only
    rw [ih (Nat.le_of_succ_le_succ hmore)]

theorem Chain.unique {id : ClassId} {chain other : List ClassId} (h : world.Chain id chain)
    (h' : world.Chain id other) : chain = other := by
  have hchain := h.lineage_eq (Nat.le_max_left chain.length other.length)
  have hother := h'.lineage_eq (Nat.le_max_right chain.length other.length)
  exact hchain.symm.trans hother

/-- The chains of all classes come to an end, and to look further up finds no more ancestors. -/
def ChainsEnd (world : World) : Prop :=
  ∀ id, world.HasClass id → world.Chain id (world.ancestors id) ∧
    ∀ more, world.classes.size ≤ more → world.lineage more id = world.ancestors id

/-- A number that becomes smaller from a class to its superclass. The class of all classes was made
before the root class but inherits from it, so these two are taken the other way around. -/
def rank (id : ClassId) : Nat :=
  if id = .objectClass then 0 else if id = .classClass then 1 else id.index

namespace Graph

theorem rank_lt (h : world.Graph) {id : ClassId} (hid : world.HasClass id) :
    rank id < world.classes.size := by
  have hsize := h.classes
  unfold rank
  split
  next => omega
  next =>
    split
    next => omega
    next => exact hid

/-- Every class but the root inherits from another one. -/
theorem exists_superclass (h : world.Graph) {id : ClassId} (hid : world.HasClass id)
    (hroot : id ≠ .objectClass) :
    ∃ parent, (world.classRecord id).superclass = some parent ∧ world.HasClass parent ∧
      rank parent < rank id := by
  by_cases htop : id = .classClass
  · rw [htop]
    exact ⟨.objectClass, h.top, h.objectClass, by decide⟩
  obtain ⟨parent, hparent, hlt⟩ := h.older id hid hroot htop
  refine ⟨parent, hparent, Nat.lt_trans hlt hid, ?_⟩
  have htwo : 2 ≤ id.index := by
    obtain ⟨index⟩ := id
    match index with
    | 0 => exact absurd rfl htop
    | 1 => exact absurd rfl hroot
    | _ + 2 => exact Nat.le_add_left 2 _
  simp only [rank, hroot, htop, if_false]
  split
  next => omega
  next =>
    split
    next => omega
    next => exact hlt

theorem superclass (h : world.Graph) {id parent : ClassId} (hid : world.HasClass id)
    (hparent : (world.classRecord id).superclass = some parent) :
    world.HasClass parent ∧ rank parent < rank id := by
  have hroot : id ≠ .objectClass := by
    rintro rfl
    rw [h.root] at hparent
    cases hparent
  obtain ⟨found, hfound, hless⟩ := h.exists_superclass hid hroot
  obtain rfl : found = parent := Option.some.inj (hfound.symm.trans hparent)
  exact hless

/-- What holds of the root class and passes from superclasses to classes holds of all classes. -/
@[elab_as_elim]
theorem induction (h : world.Graph) {property : ClassId → Prop} (root : property .objectClass)
    (inherits : ∀ id parent, world.HasClass id → world.HasClass parent →
      (world.classRecord id).superclass = some parent → property parent → property id)
    (id : ClassId) (hid : world.HasClass id) : property id := by
  -- The rank becomes smaller along the chain.
  suffices hrank : ∀ bound id, rank id < bound → world.HasClass id → property id from
    hrank (rank id + 1) id (Nat.lt_succ_self _) hid
  intro bound
  induction bound with
  | zero => exact fun _ hlt => absurd hlt (Nat.not_lt_zero _)
  | succ bound ih =>
    intro id hlt hid
    by_cases hroot : id = .objectClass
    · rw [hroot]
      exact root
    · obtain ⟨parent, hsuper, hparent, hless⟩ := h.exists_superclass hid hroot
      exact inherits id parent hid hparent hsuper (ih parent (by omega) hparent)

theorem exists_chain (h : world.Graph) (id : ClassId) (hid : world.HasClass id) :
    ∃ chain, world.Chain id chain ∧ chain.length ≤ rank id + 1 ∧
      chain.getLast? = some .objectClass := by
  refine h.induction ?_ (fun id parent hid _ hsuper ih => ?_) id hid
  · exact ⟨[.objectClass], .root h.root, Nat.le_add_left .., rfl⟩
  · obtain ⟨chain, hchain, hlength, hlast⟩ := ih
    have hless := (h.superclass hid hsuper).2
    refine ⟨id :: chain, .inherits hsuper hchain, ?_, ?_⟩
    · rw [List.length_cons]
      omega
    · rw [List.getLast?_cons, hlast]
      rfl

/-- No chain is longer than the number of classes. -/
theorem ancestors_eq (h : world.Graph) {id : ClassId} (hid : world.HasClass id) :
    world.Chain id (world.ancestors id) ∧ (world.ancestors id).getLast? = some .objectClass ∧
      ∀ more, world.classes.size ≤ more → world.lineage more id = world.ancestors id := by
  obtain ⟨chain, hchain, hlength, hlast⟩ := h.exists_chain id hid
  have hroom : chain.length ≤ world.classes.size := Nat.le_trans hlength (h.rank_lt hid)
  have heq : world.ancestors id = chain := hchain.lineage_eq hroom
  rw [heq]
  exact ⟨hchain, hlast, fun more hmore => hchain.lineage_eq (Nat.le_trans hroom hmore)⟩

theorem chainsEnd (h : world.Graph) : world.ChainsEnd :=
  fun _ hid => ⟨(h.ancestors_eq hid).1, (h.ancestors_eq hid).2.2⟩

/-! ### Resolution of messages -/

/-- A class that declares a method itself answers with it; otherwise its superclass does. -/
theorem findMethod_eq (h : world.Graph) {id : ClassId} (hid : world.HasClass id) (name : String) :
    world.findMethod id name =
      match world.ownMethod? id name, (world.classRecord id).superclass with
      | some method, _ => some (method, id)
      | none, some parent => world.findMethod parent name
      | none, none => none := by
  have hchain := (h.ancestors_eq hid).1
  unfold findMethod
  generalize hids : world.ancestors id = ids at hchain
  cases hchain with
  | root hsuper =>
    rw [hsuper, List.findSome?_cons]
    cases world.ownMethod? id name with
    | none => rfl
    | some method => rfl
  | inherits hsuper hrest =>
    have hparent := (h.ancestors_eq (h.superclass hid hsuper).1).1
    rw [hsuper, List.findSome?_cons]
    cases world.ownMethod? id name with
    | none =>
      dsimp only
      rw [hparent.unique hrest]
      rfl
    | some method => rfl

/-- What the root class declares is found from every class. -/
theorem findMethod_isSome (h : world.Graph) {name : String}
    (hroot : (world.ownMethod? .objectClass name).isSome = true) (id : ClassId)
    (hid : world.HasClass id) : (world.findMethod id name).isSome = true := by
  refine h.induction ?_ (fun id parent hid _ hsuper ih => ?_) id hid
  · obtain ⟨method, hmethod⟩ := Option.isSome_iff_exists.1 hroot
    rw [h.findMethod_eq h.objectClass, hmethod]
    rfl
  · rw [h.findMethod_eq hid, hsuper]
    cases world.ownMethod? id name with
    | none => exact ih
    | some method => rfl

end Graph

end Garnet.World
