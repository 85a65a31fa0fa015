namespace TraitCoherence

/-- Adds an item at the end unless one of the items is the same. -/
def addNew {α : Type} (same : α → α → Bool) (items : List α) (item : α) : List α :=
  if items.any (same · item) then items else items ++ [item]

/-- Drops every item that is the same as one kept before it. -/
def keepFirst {α : Type} (same : α → α → Bool) (items : List α) : List α :=
  items.foldl (addNew same) []

theorem pairwise_addNew {α : Type} {same : α → α → Bool} {items : List α} (item : α)
    (distinct : items.Pairwise fun a b => same a b = false) :
    (addNew same items item).Pairwise fun a b => same a b = false := by
  unfold addNew
  split
  · exact distinct
  · rename_i fresh
    rw [List.pairwise_append]
    refine ⟨distinct, List.pairwise_singleton _ _, fun a member b single => ?_⟩
    rw [List.mem_singleton.mp single]
    by_cases clash : same a item = true
    · exact absurd (List.any_eq_true.mpr ⟨a, member, clash⟩) fresh
    · simpa using clash

end TraitCoherence
