/-! # Tables of names

A table binds finitely many names to values. Its entries are kept in strictly ascending order of
their names, so that two tables with the same bindings are the same table, whatever the order in
which the bindings were made.
-/

namespace Garnet

/-- A finite map from names, listed in ascending order. -/
structure Table (α : Type) where
  /-- The bindings, in ascending order of names. -/
  entries : List (String × α)
  /-- No name occurs twice and the order is that of code points. -/
  ascending : entries.Pairwise fun a b => a.1 < b.1 := by simp

namespace Table

variable {α β : Type}

/-- The table without bindings. -/
def empty : Table α where
  entries := []

instance : EmptyCollection (Table α) := ⟨empty⟩

instance : Inhabited (Table α) := ⟨empty⟩

/-- Look a name up in a list of bindings. -/
def find? : List (String × α) → String → Option α
  | [], _ => none
  | (key, value) :: rest, name => if key = name then some value else find? rest name

/-- The value bound to a name. -/
def get? (table : Table α) (name : String) : Option α :=
  find? table.entries name

/-- Whether a name is bound. -/
def contains (table : Table α) (name : String) : Bool :=
  (table.get? name).isSome

/-- The bound names, ascending. -/
def names (table : Table α) : List String :=
  table.entries.map (·.1)

/-- The number of bindings. -/
def size (table : Table α) : Nat :=
  table.entries.length

/-- Bind a name in an ascending list, replacing an earlier binding. -/
def place (name : String) (value : α) : List (String × α) → List (String × α)
  | [] => [(name, value)]
  | (key, old) :: rest =>
    if name < key then (name, value) :: (key, old) :: rest
    else if name = key then (name, value) :: rest
    else (key, old) :: place name value rest

theorem mem_place {name : String} {value : α} {entries : List (String × α)} {e : String × α}
    (h : e ∈ place name value entries) : e = (name, value) ∨ e ∈ entries := by
  induction entries with
  | nil => simpa [place] using h
  | cons head rest ih =>
    obtain ⟨key, old⟩ := head
    simp only [place] at h
    split at h
    · simpa using h
    · split at h
      · rcases List.mem_cons.1 h with h | h
        · exact .inl h
        · exact .inr (List.mem_cons_of_mem _ h)
      · rcases List.mem_cons.1 h with h | h
        · exact .inr (by simp [h])
        · rcases ih h with h | h
          · exact .inl h
          · exact .inr (List.mem_cons_of_mem _ h)

theorem pairwise_place (name : String) (value : α) {entries : List (String × α)}
    (h : entries.Pairwise fun a b => a.1 < b.1) :
    (place name value entries).Pairwise fun a b => a.1 < b.1 := by
  induction entries with
  | nil => simp [place]
  | cons head rest ih =>
    obtain ⟨key, old⟩ := head
    obtain ⟨hhead, hrest⟩ := List.pairwise_cons.1 h
    simp only [place]
    split
    next hlt =>
      refine List.pairwise_cons.2 ⟨fun e he => ?_, h⟩
      rcases List.mem_cons.1 he with rfl | he
      · exact hlt
      · exact String.lt_trans hlt (hhead e he)
    next hnlt =>
      split
      next heq => subst heq; exact List.pairwise_cons.2 ⟨hhead, hrest⟩
      next hne =>
        have hgt : key < name :=
          Std.lt_of_le_of_ne (String.not_lt.1 hnlt) (fun e => hne e.symm)
        refine List.pairwise_cons.2 ⟨fun e he => ?_, ih hrest⟩
        rcases mem_place he with rfl | he
        · exact hgt
        · exact hhead e he

/-- Bind a name, replacing an earlier binding of it. -/
def insert (table : Table α) (name : String) (value : α) : Table α where
  entries := place name value table.entries
  ascending := pairwise_place name value table.ascending

/-- Apply a function to every value. -/
def map (f : α → β) (table : Table α) : Table β where
  entries := table.entries.map fun (name, value) => (name, f value)
  ascending := by
    rw [List.pairwise_map]
    exact table.ascending

/-- Bind every pair of a list in turn; the last binding of a name wins. -/
def insertAll (table : Table α) (pairs : List (String × α)) : Table α :=
  pairs.foldl (fun t (name, value) => t.insert name value) table

/-- The table of a list of pairs; the last binding of a name wins. -/
def ofList (pairs : List (String × α)) : Table α :=
  (∅ : Table α).insertAll pairs

theorem find?_place (name other : String) (value : α) {entries : List (String × α)}
    (h : entries.Pairwise fun a b => a.1 < b.1) :
    find? (place name value entries) other =
      if name = other then some value else find? entries other := by
  induction entries with
  | nil => rfl
  | cons head rest ih =>
    obtain ⟨key, old⟩ := head
    obtain ⟨_, hrest⟩ := List.pairwise_cons.1 h
    have ih := ih hrest
    simp only [place]
    split
    · simp [find?]
    · split
      next heq => subst heq; simp only [find?]; split <;> simp_all
      next hne => simp only [find?, ih]; split <;> simp_all

@[simp] theorem get?_empty (name : String) : (∅ : Table α).get? name = none := rfl

/-- After a binding the name has the new value and every other name its old one. -/
theorem get?_insert (table : Table α) (name other : String) (value : α) :
    (table.insert name value).get? other =
      if name = other then some value else table.get? other :=
  find?_place name other value table.ascending

@[simp] theorem get?_insert_self (table : Table α) (name : String) (value : α) :
    (table.insert name value).get? name = some value := by
  simp [get?_insert]

/-- The names of a table are listed in strictly ascending order. -/
theorem pairwise_names (table : Table α) : table.names.Pairwise (· < ·) := by
  rw [names, List.pairwise_map]
  exact table.ascending

@[simp] theorem get?_map (f : α → β) (table : Table α) (name : String) :
    (table.map f).get? name = (table.get? name).map f := by
  simp only [get?, map]
  generalize table.entries = entries
  induction entries with
  | nil => rfl
  | cons head rest ih => simp only [List.map_cons, find?]; split <;> simp_all

end Table

end Garnet
