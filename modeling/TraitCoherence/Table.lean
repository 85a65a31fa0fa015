namespace TraitCoherence

/-- Entries by name, in the order in which the names first came. -/
structure Table (α : Type) where
  entries : List (String × α)
deriving Repr

def Table.empty {α : Type} : Table α := ⟨[]⟩

def Table.get? {α : Type} (table : Table α) (name : String) : Option α :=
  table.entries.lookup name

/-- The names that have an entry. -/
def Table.names {α : Type} (table : Table α) : List String := table.entries.map (·.1)

/-- Overwrites the entry for a name where it stands, or adds one at the end. -/
def Table.put {α : Type} (table : Table α) (name : String) (value : α) : Table α :=
  if (table.get? name).isSome then
    ⟨table.entries.map fun entry => if entry.1 = name then (name, value) else entry⟩
  else ⟨table.entries ++ [(name, value)]⟩

theorem lookup_cons_eq_ite {α : Type} (name other : String) (value : α)
    (entries : List (String × α)) :
    ((name, value) :: entries).lookup other =
      if other = name then some value else entries.lookup other := by
  by_cases same : other = name
  · rw [if_pos same, same, List.lookup_cons_self]
  · have differ : (other == name) = false := beq_false_of_ne same
    rw [if_neg same, List.lookup_cons, differ]

theorem lookup_overwrite {α : Type} (name other : String) (value : α)
    (entries : List (String × α)) :
    (entries.map fun entry => if entry.1 = name then (name, value) else entry).lookup other =
      if other = name then (entries.lookup name).map fun _ => value else entries.lookup other := by
  induction entries with
  | nil => simp
  | cons entry entries ih =>
    obtain ⟨key, old⟩ := entry
    rw [List.map_cons]
    by_cases here : key = name
    · subst here
      rw [if_pos rfl, lookup_cons_eq_ite, lookup_cons_eq_ite, lookup_cons_eq_ite, ih]
      by_cases same : other = key <;> simp [same]
    · rw [if_neg here, lookup_cons_eq_ite, lookup_cons_eq_ite, lookup_cons_eq_ite, ih]
      by_cases same : other = name
      · subst same
        simp [Ne.symm here]
      · simp [same]

theorem Table.get?_put {α : Type} (table : Table α) (name other : String) (value : α) :
    (table.put name value).get? other = if other = name then some value else table.get? other := by
  unfold Table.put
  split
  · rename_i found
    simp only [Table.get?] at found ⊢
    obtain ⟨old, stored⟩ := Option.isSome_iff_exists.mp found
    rw [lookup_overwrite, stored]
    rfl
  · rename_i missing
    simp only [Table.get?] at missing ⊢
    rw [List.lookup_append, lookup_cons_eq_ite]
    by_cases same : other = name
    · subst same
      simp [Option.not_isSome_iff_eq_none.mp missing]
    · simp [same]

end TraitCoherence
