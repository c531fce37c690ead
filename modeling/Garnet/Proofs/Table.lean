import Garnet.Table

/-! # Look-ups in tables

What is bound in a table that was made from a list, and in one whose values were changed. A table is
determined by its bindings, in whatever order they were made.
-/

namespace Garnet.Table

variable {α : Type}

theorem contains_eq_true {table : Table α} {name : String} :
    table.contains name = true ↔ ∃ value, table.get? name = some value :=
  Option.isSome_iff_exists

theorem find?_isSome_iff (entries : List (String × α)) (name : String) :
    (find? entries name).isSome = true ↔ name ∈ entries.map (·.1) := by
  induction entries with
  | nil => simp [find?]
  | cons head rest ih =>
    simp only [find?, List.map_cons, List.mem_cons]
    split
    next heq => simp [heq]
    next hne => simp [ih, Ne.symm hne]

/-- The listed names are those that are bound. -/
theorem mem_names_iff {table : Table α} {name : String} :
    name ∈ table.names ↔ table.contains name = true :=
  (find?_isSome_iff table.entries name).symm

@[simp] theorem contains_insert (table : Table α) (name other : String) (value : α) :
    (table.insert name value).contains other = true ↔
      name = other ∨ table.contains other = true := by
  simp only [contains, get?_insert]
  split
  next heq => simp [heq]
  next hne => simp [hne]

theorem get?_insertAll {table : Table α} {pairs : List (String × α)} {name : String} {value : α}
    (h : (table.insertAll pairs).get? name = some value) :
    (name, value) ∈ pairs ∨ table.get? name = some value := by
  induction pairs generalizing table with
  | nil => exact .inr h
  | cons head rest ih =>
    rcases ih h with hrest | hhead
    · exact .inl (List.mem_cons_of_mem _ hrest)
    · rw [get?_insert] at hhead
      split at hhead
      next heq =>
        subst heq
        cases hhead
        exact .inl List.mem_cons_self
      next => exact .inr hhead

theorem mem_of_get?_ofList {pairs : List (String × α)} {name : String} {value : α}
    (h : (ofList pairs).get? name = some value) : (name, value) ∈ pairs := by
  rcases get?_insertAll h with hmem | hempty
  · exact hmem
  · exact absurd hempty (by simp)

theorem contains_insertAll (table : Table α) (pairs : List (String × α)) (name : String) :
    (table.insertAll pairs).contains name = true ↔
      name ∈ pairs.map (·.1) ∨ table.contains name = true := by
  induction pairs generalizing table with
  | nil => simp [insertAll]
  | cons head rest ih =>
    have hstep := ih (table.insert head.1 head.2)
    rw [contains_insert] at hstep
    rw [List.map_cons, List.mem_cons, or_assoc, or_left_comm, eq_comm (a := name)]
    exact hstep

/-- A table made from a list binds the names in the list. -/
theorem contains_ofList (pairs : List (String × α)) (name : String) :
    (ofList pairs).contains name = true ↔ name ∈ pairs.map (·.1) := by
  rw [ofList, contains_insertAll]
  simp [contains]

theorem map_place {β : Type} (f : α → β) (name : String) (value : α) (entries : List (String × α)) :
    (place name value entries).map (fun entry => (entry.1, f entry.2)) =
      place name (f value) (entries.map fun entry => (entry.1, f entry.2)) := by
  induction entries with
  | nil => rfl
  | cons head rest ih =>
    obtain ⟨key, old⟩ := head
    simp only [place, List.map_cons]
    split
    next => rfl
    next =>
      split
      next => rfl
      next => rw [List.map_cons, ih]

theorem map_insert {β : Type} (f : α → β) (table : Table α) (name : String) (value : α) :
    (table.insert name value).map f = (table.map f).insert name (f value) := by
  simp only [insert, map, map_place]

/-! ### Tables from lists -/

theorem perm_place {name : String} (value : α) {entries : List (String × α)}
    (hfresh : name ∉ entries.map (·.1)) :
    (place name value entries).Perm ((name, value) :: entries) := by
  induction entries with
  | nil => exact .refl _
  | cons head rest ih =>
    obtain ⟨key, old⟩ := head
    rw [List.map_cons, List.mem_cons, not_or] at hfresh
    simp only [place]
    split
    next => exact .refl _
    next =>
      rw [if_neg hfresh.1]
      exact ((ih hfresh.2).cons (key, old)).trans (.swap _ _ _)

theorem perm_insertAll {table : Table α} {pairs : List (String × α)}
    (hfresh : ((pairs ++ table.entries).map (·.1)).Nodup) :
    (table.insertAll pairs).entries.Perm (pairs ++ table.entries) := by
  induction pairs generalizing table with
  | nil => exact .refl _
  | cons head rest ih =>
    obtain ⟨name, value⟩ := head
    rw [List.cons_append, List.map_cons, List.nodup_cons] at hfresh
    have hplace : (table.insert name value).entries.Perm ((name, value) :: table.entries) := by
      refine perm_place value fun hmem => hfresh.1 ?_
      rw [List.map_append]
      exact List.mem_append_right _ hmem
    have hmoved : (rest ++ (table.insert name value).entries).Perm
        ((name, value) :: (rest ++ table.entries)) :=
      (hplace.append_left rest).trans List.perm_middle
    refine (ih ((hmoved.map (·.1)).nodup_iff.2 ?_)).trans hmoved
    rw [List.map_cons, List.nodup_cons]
    exact hfresh

theorem nodup_names (table : Table α) : (table.entries.map (·.1)).Nodup := by
  refine table.pairwise_names.imp fun {first second} hlt heq => ?_
  rw [heq] at hlt
  exact String.lt_irrefl _ hlt

theorem ext_entries {first second : Table α} (h : first.entries = second.entries) :
    first = second := by
  cases first
  cases second
  cases h
  rfl

theorem mem_of_find? {entries : List (String × α)} {name : String} {value : α}
    (h : find? entries name = some value) : (name, value) ∈ entries := by
  induction entries with
  | nil => cases h
  | cons head rest ih =>
    obtain ⟨key, old⟩ := head
    rw [find?] at h
    split at h
    next heq =>
      cases h
      rw [heq]
      exact List.mem_cons_self
    next => exact List.mem_cons_of_mem _ (ih h)

/-- If no name is listed twice, what is listed is found. -/
theorem find?_of_mem {entries : List (String × α)} {name : String} {value : α}
    (hnodup : (entries.map (·.1)).Nodup) (h : (name, value) ∈ entries) :
    find? entries name = some value := by
  induction entries with
  | nil => exact absurd h List.not_mem_nil
  | cons head rest ih =>
    rw [List.map_cons, List.nodup_cons] at hnodup
    rcases List.mem_cons.1 h with rfl | hrest
    · rw [find?, if_pos rfl]
    · have hne : head.1 ≠ name := fun heq =>
        hnodup.1 (List.mem_map.2 ⟨(name, value), hrest, heq.symm⟩)
      rw [find?, if_neg hne, ih hnodup.2 hrest]

theorem mem_entries_iff {table : Table α} {name : String} {value : α} :
    (name, value) ∈ table.entries ↔ table.get? name = some value :=
  ⟨find?_of_mem table.nodup_names, mem_of_find?⟩

theorem nodup_entries (table : Table α) : table.entries.Nodup :=
  List.Pairwise.of_map _ (fun _ _ hne heq => hne (congrArg Prod.fst heq)) table.nodup_names

/-- A table is determined by what it binds. -/
theorem ext_get? {first second : Table α} (h : ∀ name, first.get? name = second.get? name) :
    first = second := by
  have hmem (entry : String × α) : entry ∈ first.entries ↔ entry ∈ second.entries := by
    rw [mem_entries_iff, mem_entries_iff, h]
  have hperm : first.entries.Perm second.entries :=
    (List.perm_ext_iff_of_nodup first.nodup_entries second.nodup_entries).2 hmem
  refine ext_entries (hperm.eq_of_pairwise (fun entry other _ _ hlt hgt => ?_) first.ascending
    second.ascending)
  exact absurd (String.lt_trans hlt hgt) (String.lt_irrefl _)

/-- The bindings of a table give it back in any order. -/
theorem ofList_of_perm {table : Table α} {pairs : List (String × α)}
    (h : pairs.Perm table.entries) : ofList pairs = table := by
  have hempty : pairs ++ (∅ : Table α).entries = pairs := List.append_nil pairs
  have hperm : (ofList pairs).entries.Perm (pairs ++ (∅ : Table α).entries) := by
    refine perm_insertAll ?_
    rw [hempty]
    exact (h.map (·.1)).nodup_iff.2 table.nodup_names
  rw [hempty] at hperm
  refine ext_entries ((hperm.trans h).eq_of_pairwise (fun first second _ _ hlt hgt => ?_)
    (ofList pairs).ascending table.ascending)
  exact absurd (String.lt_trans hlt hgt) (String.lt_irrefl _)

end Garnet.Table
