import TraitCoherence.VarClass
import TraitCoherence.Proofs.Resolution

namespace TraitCoherence

theorem mem_insertOrdered {α : Type} {precedes : α → α → Bool} {item other : α} {items : List α} :
    other ∈ insertOrdered precedes item items ↔ other = item ∨ other ∈ items := by
  induction items with
  | nil => rw [insertOrdered, List.mem_singleton, or_iff_left List.not_mem_nil]
  | cons first items ih =>
    rw [insertOrdered]
    split
    · exact List.mem_cons
    · rw [List.mem_cons, ih, List.mem_cons, or_left_comm]

theorem mem_arrange {α : Type} {precedes : α → α → Bool} {item : α} {items : List α} :
    item ∈ arrange precedes items ↔ item ∈ items := by
  induction items with
  | nil => exact Iff.rfl
  | cons first items ih =>
    rw [arrange, List.foldr_cons, mem_insertOrdered, ← arrange, ih, List.mem_cons]

/-- The variable that a binding leads to. A binding to a struct leads nowhere else. -/
def successor : Int × Ty → Int
  | (_, .var y _) => y
  | (x, .ctor _ _) => x

theorem mem_linkedBy {binding : Int × Ty} {z : Int} :
    z ∈ linkedBy binding ↔ z = binding.1 ∨ z = successor binding := by
  obtain ⟨x, value⟩ := binding
  cases value with
  | var y label => simp only [linkedBy, successor, List.mem_cons, List.not_mem_nil, or_false]
  | ctor name args => simp only [linkedBy, successor, List.mem_singleton, or_self]

/-- Where the bindings to variables lead from a variable. -/
def Substitution.root (σ : Substitution) (z : Int) : Int :=
  σ.bindings.foldl (fun z binding => if z = binding.1 then successor binding else z) z

theorem Substitution.root_bind (σ : Substitution) (x : Int) (value : Ty) (z : Int) :
    (σ.bind x value).root z = if σ.root z = x then successor (x, value) else σ.root z := by
  rw [Substitution.root, Substitution.bind, List.foldl_append]
  rfl

theorem Substitution.root_of_free {σ : Substitution} {z : Int} (free : z ∉ σ.bound) :
    σ.root z = z := by
  obtain ⟨bindings⟩ := σ
  induction bindings with
  | nil => rfl
  | cons binding bindings ih =>
    simp only [Substitution.bound, List.map_cons, List.mem_cons, not_or] at free
    have rest := ih free.2
    simp only [Substitution.root, List.foldl_cons, free.1, if_false] at rest ⊢
    exact rest

/-- Variables with one root have one type wherever the bindings are absorbed. -/
theorem Substitution.AbsorbedBy.root {σ : Substitution} {θ : Int → Ty} (absorbed : σ.AbsorbedBy θ)
    (z : Int) : θ (σ.root z) = θ z := by
  obtain ⟨bindings⟩ := σ
  induction bindings generalizing z with
  | nil => rfl
  | cons binding bindings ih =>
    have rest := ih (if z = binding.1 then successor binding else z)
      fun later member => absorbed later (List.mem_cons_of_mem _ member)
    refine rest.trans ?_
    split
    · rename_i here
      have same := absorbed binding List.mem_cons_self
      obtain ⟨x, value⟩ := binding
      cases value with
      | var y label => exact here ▸ same.symm
      | ctor name args => exact here ▸ rfl
    · rfl

/-- The variables that have a binding or are the value of one. -/
def Substitution.Links (σ : Substitution) (z : Int) : Prop :=
  ∃ binding ∈ σ.bindings, z ∈ linkedBy binding

theorem Substitution.links_bind {σ : Substitution} {x : Int} {value : Ty} {z : Int} :
    (σ.bind x value).Links z ↔ z ∈ linkedBy (x, value) ∨ σ.Links z := by
  simp only [Substitution.Links, Substitution.mem_bind]
  constructor
  · rintro ⟨binding, old | rfl, linked⟩
    · exact Or.inr ⟨binding, old, linked⟩
    · exact Or.inl linked
  · rintro (new | ⟨binding, old, linked⟩)
    · exact ⟨(x, value), Or.inr rfl, new⟩
    · exact ⟨binding, Or.inl old, linked⟩

theorem Substitution.links_of_bound {σ : Substitution} {z : Int} (bound : z ∈ σ.bound) :
    σ.Links z := by
  obtain ⟨binding, member, rfl⟩ := List.mem_map.mp bound
  exact ⟨binding, member, mem_linkedBy.mpr (Or.inl rfl)⟩

/-- The variables that have one root. -/
def Substitution.IsGroup (σ : Substitution) (group : List Int) : Prop :=
  ∃ root ∈ group, ∀ z, z ∈ group ↔ σ.Links z ∧ σ.root z = root

/-- The first group that linking gives holds the linked variables and all groups that they touch. -/
theorem mem_head_linkGroups {ids : List Int} {groups : List (List Int)} {z : Int} :
    z ∈ (linkGroups ids groups).headD [] ↔
      z ∈ ids ∨ ∃ group ∈ groups, (∃ i ∈ ids, i ∈ group) ∧ z ∈ group := by
  simp only [linkGroups, List.headD_cons, ascending, mem_arrange, List.mem_eraseDups,
    List.mem_append, List.mem_flatten, List.mem_filter, List.any_eq_true, List.contains_iff_mem]
  refine or_congr_right (exists_congr fun group => ?_)
  constructor
  · rintro ⟨⟨member, i, inside, chosen⟩, here⟩
    exact ⟨member, ⟨i, chosen, inside⟩, here⟩
  · rintro ⟨member, ⟨i, chosen, inside⟩, here⟩
    exact ⟨⟨member, i, inside, chosen⟩, here⟩

theorem mem_linkGroups {ids group : List Int} {groups : List (List Int)} :
    group ∈ linkGroups ids groups ↔
      group = (linkGroups ids groups).headD [] ∨ group ∈ groups ∧ ∀ i ∈ ids, i ∉ group := by
  simp only [linkGroups, List.mem_cons, List.headD_cons, List.mem_filter, Bool.not_eq_true',
    List.any_eq_false, List.contains_iff_mem]
  refine or_congr_right (and_congr_right fun _ => ?_)
  exact ⟨fun apart i chosen inside => apart i inside chosen,
    fun apart i inside chosen => apart i chosen inside⟩

/-- The groups that bindings link, before they are put in order. -/
def Substitution.linked (σ : Substitution) : List (List Int) :=
  σ.bindings.foldl (fun groups binding => linkGroups (linkedBy binding) groups) []

theorem Substitution.linked_bind (σ : Substitution) (x : Int) (value : Ty) :
    (σ.bind x value).linked = linkGroups (linkedBy (x, value)) σ.linked := by
  rw [Substitution.linked, Substitution.bind, List.foldl_append]
  rfl

theorem Substitution.mem_groups {σ : Substitution} {group : List Int} :
    group ∈ σ.groups ↔ group ∈ σ.linked :=
  mem_arrange

theorem Substitution.exists_mem_linked {σ : Substitution} (triangular : σ.Triangular) {z : Int}
    (linked : σ.Links z) : ∃ group ∈ σ.linked, z ∈ group := by
  induction triangular with
  | empty =>
    obtain ⟨binding, member, _⟩ := linked
    exact absurd member List.not_mem_nil
  | @bind σ x value _ _ _ _ ih =>
    rw [Substitution.linked_bind]
    rw [Substitution.links_bind] at linked
    by_cases touched : z ∈ (linkGroups (linkedBy (x, value)) σ.linked).headD []
    · exact ⟨_, mem_linkGroups.mpr (Or.inl rfl), touched⟩
    · rw [mem_head_linkGroups, not_or] at touched
      obtain ⟨group, member, here⟩ := ih (linked.resolve_left touched.1)
      refine ⟨group, mem_linkGroups.mpr (Or.inr ⟨member, fun i chosen inside => ?_⟩), here⟩
      exact touched.2 ⟨group, member, ⟨i, chosen, inside⟩, here⟩

/-- A variable with another root than itself is bound. -/
theorem Substitution.links_of_root_ne {σ : Substitution} {z : Int} (moved : σ.root z ≠ z) :
    σ.Links z := by
  by_cases bound : z ∈ σ.bound
  · exact Substitution.links_of_bound bound
  · exact absurd (Substitution.root_of_free bound) moved

/-- The merged group has the successor of the new binding as its root: before, its members led to that
or to the variable now bound. -/
theorem Substitution.isGroup_head {σ : Substitution} {x : Int} {value : Ty}
    (groups : ∀ group ∈ σ.linked, σ.IsGroup group)
    (covers : ∀ z, σ.Links z → ∃ group ∈ σ.linked, z ∈ group) (free : x ∉ σ.bound)
    (freeNext : successor (x, value) ∉ σ.bound) :
    (σ.bind x value).IsGroup ((linkGroups (linkedBy (x, value)) σ.linked).headD []) := by
  have rootSelf := Substitution.root_of_free free
  have rootNext := Substitution.root_of_free freeNext
  refine ⟨successor (x, value), ?_, fun z => ?_⟩
  · exact mem_head_linkGroups.mpr (Or.inl (mem_linkedBy.mpr (Or.inr rfl)))
  rw [mem_head_linkGroups, Substitution.links_bind, Substitution.root_bind]
  constructor
  · rintro (new | ⟨group, member, ⟨i, chosen, inside⟩, here⟩)
    · refine ⟨Or.inl new, ?_⟩
      rcases mem_linkedBy.mp new with rfl | rfl
      · rw [if_pos rootSelf]
      · rw [rootNext, ite_id]
    · obtain ⟨root, _, same⟩ := groups group member
      have atZ := (same z).mp here
      refine ⟨Or.inr atZ.1, ?_⟩
      have atI := ((same i).mp inside).2
      rcases mem_linkedBy.mp chosen with rfl | rfl
      · rw [if_pos (atZ.2.trans (atI.symm.trans rootSelf))]
      · rw [atZ.2.trans (atI.symm.trans rootNext), ite_id]
  · rintro ⟨_, arrives⟩
    -- Before the binding the root of `z` was one of the two variables it links.
    have before : σ.root z ∈ linkedBy (x, value) := by
      rw [mem_linkedBy]
      split at arrives
      · rename_i here
        exact Or.inl here
      · exact Or.inr arrives
    by_cases still : σ.root z = z
    · exact Or.inl (still ▸ before)
    · obtain ⟨group, member, here⟩ := covers z (Substitution.links_of_root_ne still)
      obtain ⟨root, inside, same⟩ := groups group member
      have atZ := ((same z).mp here).2
      exact Or.inr ⟨group, member, ⟨root, atZ ▸ before, inside⟩, here⟩

/-- A group that the new binding does not touch stays as it is. -/
theorem Substitution.IsGroup.bind {σ : Substitution} {x : Int} {value : Ty} {group : List Int}
    (isGroup : σ.IsGroup group) (free : x ∉ σ.bound) (freeNext : successor (x, value) ∉ σ.bound)
    (apart : ∀ i ∈ linkedBy (x, value), i ∉ group) : (σ.bind x value).IsGroup group := by
  obtain ⟨root, inside, same⟩ := isGroup
  have notSelf : root ≠ x := fun here => apart x (mem_linkedBy.mpr (Or.inl rfl)) (here ▸ inside)
  have notNext : root ≠ successor (x, value) :=
    fun here => apart _ (mem_linkedBy.mpr (Or.inr rfl)) (here ▸ inside)
  refine ⟨root, inside, fun z => ?_⟩
  rw [same, Substitution.links_bind, Substitution.root_bind]
  constructor
  · rintro ⟨linked, rfl⟩
    exact ⟨Or.inr linked, if_neg notSelf⟩
  · rintro ⟨linked, arrives⟩
    split at arrives
    · exact absurd arrives.symm notNext
    · refine ⟨linked.resolve_left fun new => ?_, arrives⟩
      rcases mem_linkedBy.mp new with rfl | rfl
      · exact notSelf (arrives.symm.trans (Substitution.root_of_free free))
      · exact notNext (arrives.symm.trans (Substitution.root_of_free freeNext))

theorem Substitution.successor_free {σ : Substitution} {x : Int} {value : Ty} (free : x ∉ σ.bound)
    (freeValue : ∀ y ∈ value.vars, y ∉ σ.bound) : successor (x, value) ∉ σ.bound := by
  cases value with
  | var y label => exact freeValue y (List.mem_singleton_self y)
  | ctor name args => exact free

theorem Substitution.Triangular.isGroup {σ : Substitution} (triangular : σ.Triangular)
    {group : List Int} (member : group ∈ σ.linked) : σ.IsGroup group := by
  induction triangular generalizing group with
  | empty => exact absurd member List.not_mem_nil
  | bind previous free freeValue _ ih =>
    have freeNext := Substitution.successor_free free freeValue
    rw [Substitution.linked_bind, mem_linkGroups] at member
    rcases member with rfl | ⟨old, apart⟩
    · exact Substitution.isGroup_head (fun _ => ih)
        (fun _ => Substitution.exists_mem_linked previous) free freeNext
    · exact (ih old).bind free freeNext apart

end TraitCoherence
