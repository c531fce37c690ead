import Garnet.Proofs.Object.Graph

/-! # Resolution of messages

A message goes to the nearest class on the chain that declares it. A definition puts one entry into
the table of one class. It is therefore seen from those classes whose chains lead to that class
without passing another one that declares the message, and from no others.
-/

namespace Garnet.World

variable {world : World} {id target owner : ClassId} {name message : String}

/-! ### Chains -/

/-- From any class on a chain, the rest of it is the chain of that class. -/
theorem Chain.split {nearer further : List ClassId}
    (h : world.Chain id (nearer ++ target :: further)) :
    world.Chain target (target :: further) := by
  induction nearer generalizing id with
  | nil =>
    have hid : id = target := by cases h <;> rfl
    exact hid ▸ h
  | cons first rest ih =>
    rw [List.cons_append] at h
    generalize hrest : rest ++ target :: further = chain at h
    cases h with
    | root h => simp at hrest
    | inherits h hchain => exact ih (hrest ▸ hchain)

/-- No class comes twice on a chain, because its chain would be a part of itself. -/
theorem Chain.not_mem {nearer further : List ClassId}
    (h : world.Chain id (nearer ++ target :: further)) : target ∉ nearer := by
  intro hmem
  obtain ⟨front, back, rfl⟩ := List.append_of_mem hmem
  have hlong : world.Chain id (front ++ target :: (back ++ target :: further)) := by
    rwa [List.append_assoc, List.cons_append] at h
  have hlength := congrArg List.length (h.split.unique hlong.split)
  simp at hlength
  omega

/-- A definition changes no chain. -/
theorem chain_setMethod {code : Method.Code} {chain : List ClassId} :
    (world.setMethod target name code).Chain id chain ↔ world.Chain id chain := by
  constructor
  · intro h
    induction h with
    | root h => exact .root (superclass_setMethod .. ▸ h)
    | inherits h _ ih => exact .inherits (superclass_setMethod .. ▸ h) ih
  · intro h
    induction h with
    | root h => exact .root ((superclass_setMethod ..).trans h)
    | inherits h _ ih => exact .inherits ((superclass_setMethod ..).trans h) ih

/-! ### The nearest declaration -/

/-- Where a message goes to depends on the classes alone. -/
theorem findMethod_of_classes_eq {first second : World} (h : first.classes = second.classes)
    (id : ClassId) (name : String) : first.findMethod id name = second.findMethod id name := by
  have hrecord (id : ClassId) : first.classRecord id = second.classRecord id := by
    rw [classRecord, h]
    rfl
  have hlineage (more : Nat) (id : ClassId) : first.lineage more id = second.lineage more id := by
    induction more generalizing id with
    | zero => rfl
    | succ more ih => simp only [lineage, hrecord, ih]
  simp only [findMethod, ancestors, ownMethod?, h, hlineage, hrecord]

/-- A class is on the chain of another one, and no class strictly before it declares the message. -/
def Unshadowed (world : World) (id target : ClassId) (name : String) : Prop :=
  ∃ nearer further, world.Chain id (nearer ++ target :: further) ∧
    ∀ other ∈ nearer, world.ownMethod? other name = none

/-- A message to the instances of a class goes to the first class on the chain that declares it, and
to none if no class on the chain does. -/
structure FindsFirst (world : World) (id : ClassId) (name : String) : Prop where
  chain : ∃ chain, world.Chain id chain
  found (method : Method) (owner : ClassId) : world.findMethod id name = some (method, owner) ↔
    world.Unshadowed id owner name ∧ world.ownMethod? owner name = some method
  missing : world.findMethod id name = none ↔
    ∀ chain, world.Chain id chain → ∀ other ∈ chain, world.ownMethod? other name = none

theorem Graph.findsFirst (h : world.Graph) (hid : world.HasClass id) (name : String) :
    world.FindsFirst id name := by
  have hchain := (h.ancestors_eq hid).1
  refine ⟨⟨_, hchain⟩, fun method owner => ?_, ?_⟩
  · rw [findMethod, List.findSome?_eq_some_iff]
    constructor
    · rintro ⟨nearer, ancestor, further, heq, hfound, hnone⟩
      obtain ⟨found, hown, hpair⟩ := Option.map_eq_some_iff.1 hfound
      cases hpair
      exact ⟨⟨nearer, further, heq ▸ hchain, fun other hother =>
        Option.map_eq_none_iff.1 (hnone other hother)⟩, hown⟩
    · rintro ⟨⟨nearer, further, hother, hnone⟩, hown⟩
      refine ⟨nearer, owner, further, hchain.unique hother, ?_, fun other hmem => ?_⟩
      · rw [hown]
        rfl
      · rw [hnone other hmem]
        rfl
  · rw [findMethod, List.findSome?_eq_none_iff]
    constructor
    · intro hnone chain hother other hmem
      exact Option.map_eq_none_iff.1 (hnone other (hchain.unique hother ▸ hmem))
    · intro hnone other hmem
      rw [hnone _ hchain other hmem]
      rfl

/-- Two worlds with the same chains and the same declarations of a message outside of one class. -/
structure SameBut (target : ClassId) (name : String) (first second : World) : Prop where
  chain (id : ClassId) (chain : List ClassId) : first.Chain id chain ↔ second.Chain id chain
  own (id : ClassId) : id ≠ target → first.ownMethod? id name = second.ownMethod? id name

theorem SameBut.symm {first second : World} (h : SameBut target name first second) :
    SameBut target name second first :=
  ⟨fun id chain => (h.chain id chain).symm, fun id hid => (h.own id hid).symm⟩

/-- No chain gets to the class in which the worlds differ by way of this class. -/
theorem SameBut.unshadowed {first second : World} (h : SameBut target name first second)
    (hsees : first.Unshadowed id target name) : second.Unshadowed id target name := by
  obtain ⟨nearer, further, hchain, hnone⟩ := hsees
  refine ⟨nearer, further, (h.chain id _).1 hchain, fun other hother => ?_⟩
  rw [← h.own other (ne_of_mem_of_not_mem hother hchain.not_mem)]
  exact hnone other hother

/-- If the class in which the worlds differ is not seen, then all that is found is found in both. -/
theorem SameBut.findMethod {first second : World} (h : SameBut target name first second)
    (hfirst : first.FindsFirst id name) (hsecond : second.FindsFirst id name)
    (hhidden : ¬ first.Unshadowed id target name) {method : Method}
    (hfound : first.findMethod id name = some (method, owner)) :
    second.findMethod id name = some (method, owner) := by
  obtain ⟨hsees, hown⟩ := (hfirst.found method owner).1 hfound
  have howner : owner ≠ target := by
    rintro rfl
    exact hhidden hsees
  obtain ⟨nearer, further, hchain, hnone⟩ := hsees
  have hnearer : target ∉ nearer := by
    intro hmem
    obtain ⟨front, back, rfl⟩ := List.append_of_mem hmem
    rw [List.append_assoc, List.cons_append] at hchain
    exact hhidden ⟨front, _, hchain, fun other hother =>
      hnone other (List.mem_append_left _ hother)⟩
  refine (hsecond.found method owner).2 ⟨⟨nearer, further, (h.chain id _).1 hchain, ?_⟩, ?_⟩
  · intro other hother
    rw [← h.own other (ne_of_mem_of_not_mem hother hnearer)]
    exact hnone other hother
  · rw [← h.own owner howner]
    exact hown

/-! ### A definition -/

variable {code : Method.Code}

theorem sameBut_setMethod (world : World) (target : ClassId) (name : String)
    (code : Method.Code) (message : String) :
    SameBut target message world (world.setMethod target name code) where
  chain _ _ := chain_setMethod.symm
  own id hid := by
    rw [ownMethod?_setMethod, if_neg]
    exact fun heq => hid heq.1

namespace Graph

/-- The new method is found from all classes that see the class of the definition. -/
theorem findMethod_setMethod (h : world.Graph) (hid : world.HasClass id)
    (htarget : world.HasClass target) (hsees : world.Unshadowed id target name) :
    (world.setMethod target name code).findMethod id name =
      some ({ name, owner := target, code }, target) := by
  have hfinds := (h.setMethod target name code).findsFirst (hasClass_setMethod.2 hid) name
  refine (hfinds.found _ _).2 ⟨(world.sameBut_setMethod target name code name).unshadowed hsees, ?_⟩
  rw [ownMethod?_setMethod, if_pos ⟨rfl, htarget, rfl⟩]

/-- From all other classes, and for all other messages, what was found before is found. -/
theorem findMethod_setMethod_of_not (h : world.Graph) (hid : world.HasClass id)
    (hhidden : ¬ (message = name ∧ world.Unshadowed id target name)) :
    (world.setMethod target name code).findMethod id message = world.findMethod id message := by
  by_cases hmessage : message = name
  · subst hmessage
    have hsame := world.sameBut_setMethod target message code message
    have hbefore := h.findsFirst hid message
    have hafter := (h.setMethod target message code).findsFirst (hasClass_setMethod.2 hid) message
    have hnot : ¬ world.Unshadowed id target message := fun hsees => hhidden ⟨rfl, hsees⟩
    refine Option.ext fun ⟨method, owner⟩ => ⟨fun hfound => ?_, fun hfound => ?_⟩
    · exact hsame.symm.findMethod hafter hbefore (fun hsees => hnot (hsame.symm.unshadowed hsees))
        hfound
    · exact hsame.findMethod hbefore hafter hnot hfound
  · have hown (other : ClassId) : (world.setMethod target name code).ownMethod? other message =
        world.ownMethod? other message := by
      rw [ownMethod?_setMethod, if_neg]
      exact fun heq => hmessage heq.2.2.symm
    have hafter := (h.setMethod target name code).ancestors_eq (hasClass_setMethod.2 hid)
    rw [findMethod, findMethod, hafter.1.unique (chain_setMethod.2 (h.ancestors_eq hid).1)]
    simp only [hown]

end Graph

end Garnet.World
