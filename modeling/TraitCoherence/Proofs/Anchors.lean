import TraitCoherence.Proofs.Grouping

namespace TraitCoherence

theorem Substitution.Triangular.get?_eq_some_iff {σ : Substitution} (triangular : σ.Triangular)
    {x : Int} {value : Ty} : σ.get? x = some value ↔ (x, value) ∈ σ.bindings := by
  induction triangular with
  | empty => exact ⟨nofun, fun member => absurd member List.not_mem_nil⟩
  | @bind σ y newest _ free _ _ ih =>
    rw [Substitution.mem_bind, ← ih, Substitution.get?, Substitution.bind, List.lookup_append,
      ← Substitution.get?, Option.or_eq_some_iff]
    refine or_congr_right ?_
    by_cases here : x = y
    · subst here
      have missing : σ.get? x = none := List.lookup_eq_none_iff.mpr fun binding member => by
        simpa using fun same => free (List.mem_map.mpr ⟨binding, member, same.symm⟩)
      simp [missing, eq_comm]
    · simp [List.lookup_cons, beq_false_of_ne here, here]

/-- Chains of variables end at a variable that is free or bound to a struct. -/
theorem Substitution.Triangular.root_end {σ : Substitution} (triangular : σ.Triangular) (z : Int) :
    σ.root z ∉ σ.bound ∨ ∃ name args, (σ.root z, .ctor name args) ∈ σ.bindings := by
  induction triangular with
  | empty => exact Or.inl List.not_mem_nil
  | @bind σ x value _ _ freeValue notSelf ih =>
    rw [Substitution.root_bind, Substitution.bound_bind]
    simp only [Substitution.mem_bind, List.mem_append, List.mem_singleton, not_or]
    split
    · cases value with
      | var y label =>
        refine Or.inl ⟨freeValue y (List.mem_singleton_self y), fun here => notSelf ?_⟩
        exact List.mem_singleton.mpr here.symm
      | ctor name args => exact Or.inr ⟨name, args, Or.inr rfl⟩
    · rename_i elsewhere
      rcases ih with free | ⟨name, args, member⟩
      · exact Or.inl ⟨free, elsewhere⟩
      · exact Or.inr ⟨name, args, Or.inl member⟩

theorem Substitution.solution_of_free {σ : Substitution} {x : Int} (free : x ∉ σ.bound) :
    σ.solution x = .var x "" := by
  rw [Substitution.solution, Substitution.resolve_of_free, Ty.unlabeled_var]
  exact fun y occurs => List.mem_singleton.mp occurs ▸ free

theorem Substitution.Triangular.solution_of_ctor {σ : Substitution} (triangular : σ.Triangular)
    {x : Int} {name : String} {args : List Ty} (member : (x, .ctor name args) ∈ σ.bindings) :
    σ.solution x = .ctor name (args.map (Ty.instantiate σ.solution)) := by
  rw [triangular.absorbedBy_solution _ member, Ty.instantiate_ctor]

theorem Substitution.Triangular.solution_eq_var_iff {σ : Substitution} (triangular : σ.Triangular)
    {z r : Int} {label : String} :
    σ.solution z = .var r label ↔ label = "" ∧ σ.root z = r ∧ r ∉ σ.bound := by
  rw [← triangular.absorbedBy_solution.root z]
  rcases triangular.root_end z with free | ⟨name, args, member⟩
  · rw [Substitution.solution_of_free free, Ty.var.injEq]
    constructor
    · rintro ⟨rfl, rfl⟩
      exact ⟨rfl, rfl, free⟩
    · rintro ⟨rfl, rfl, _⟩
      exact ⟨rfl, rfl⟩
  · rw [triangular.solution_of_ctor member]
    refine ⟨nofun, ?_⟩
    rintro ⟨_, rfl, free⟩
    exact absurd (List.mem_map.mpr ⟨_, member, rfl⟩) free

theorem Substitution.Triangular.anchor?_eq_none_iff {σ : Substitution} (triangular : σ.Triangular)
    {members : List Int} :
    σ.anchor? members = none ↔ ∀ z ∈ members, ∀ name args, (z, .ctor name args) ∉ σ.bindings := by
  rw [Substitution.anchor?, List.findSome?_eq_none_iff]
  refine forall_congr' fun z => forall_congr' fun _ => ?_
  constructor
  · intro nothing name args member
    simp only [triangular.get?_eq_some_iff.mpr member, reduceCtorEq] at nothing
  · intro absent
    split
    · rename_i name args found
      exact absurd (triangular.get?_eq_some_iff.mp found) (absent name args)
    · rfl

/-- An unanchored group is all that has come to stand for one free variable. -/
theorem Substitution.Triangular.unanchored_group {σ : Substitution} (triangular : σ.Triangular)
    {group : List Int} (member : group ∈ σ.groups) (unanchored : σ.anchor? group = none) :
    ∃ root ∈ group, root ∉ σ.bound ∧
      ∀ z, z ∈ group ↔ σ.Links z ∧ σ.solution z = .var root "" := by
  obtain ⟨root, inside, same⟩ := triangular.isGroup (Substitution.mem_groups.mp member)
  have rootSelf := ((same root).mp inside).2
  have free : root ∉ σ.bound := by
    rcases triangular.root_end root with free | ⟨name, args, bound⟩
    · exact rootSelf ▸ free
    · rw [rootSelf] at bound
      exact absurd bound (triangular.anchor?_eq_none_iff.mp unanchored root inside name args)
  refine ⟨root, inside, free, fun z => ?_⟩
  rw [same, triangular.solution_eq_var_iff]
  exact and_congr_right fun _ => ⟨fun here => ⟨rfl, here, free⟩, fun here => here.2.1⟩

/-- A free variable that bindings link is the value of one of them. -/
theorem Substitution.bound_to_of_links {σ : Substitution} {z : Int} (linked : σ.Links z)
    (free : z ∉ σ.bound) : ∃ w label, (w, .var z label) ∈ σ.bindings := by
  obtain ⟨⟨x, value⟩, member, inside⟩ := linked
  rcases mem_linkedBy.mp inside with rfl | next
  · exact absurd (List.mem_map.mpr ⟨_, member, rfl⟩) free
  · cases value with
    | var y label => exact ⟨x, label, (show z = y from next) ▸ member⟩
    | ctor name args =>
      exact absurd (List.mem_map.mpr ⟨_, member, (show z = x from next).symm⟩) free

/-- Every variable that stands for another one lies in an unanchored group. -/
theorem Substitution.Triangular.exists_unanchored {σ : Substitution} (triangular : σ.Triangular)
    {z root : Int} (stands : σ.solution z = .var root "") (moved : z ≠ root) :
    ∃ group ∈ σ.groups, σ.anchor? group = none ∧ z ∈ group := by
  obtain ⟨_, rootZ, free⟩ := triangular.solution_eq_var_iff.mp stands
  have linked : σ.Links z := Substitution.links_of_root_ne fun still => moved (still.symm.trans rootZ)
  obtain ⟨group, member, inside⟩ := Substitution.exists_mem_linked triangular linked
  refine ⟨group, Substitution.mem_groups.mpr member, ?_, inside⟩
  obtain ⟨other, _, same⟩ := triangular.isGroup member
  rw [triangular.anchor?_eq_none_iff]
  intro w wInside name args bound
  -- A member bound to a struct would stand for that struct, and so would `z`.
  have roots : σ.root w = root :=
    ((same w).mp wInside).2.trans (((same z).mp inside).2.symm.trans rootZ)
  have standsToo := triangular.solution_eq_var_iff.mpr ⟨rfl, roots, free⟩
  rw [triangular.solution_of_ctor bound] at standsToo
  exact absurd standsToo nofun

end TraitCoherence
