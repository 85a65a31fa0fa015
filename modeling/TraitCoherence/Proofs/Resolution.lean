import TraitCoherence.Substitution
import TraitCoherence.Proofs.Sizes

namespace TraitCoherence

theorem Ty.replace_of_not_mem {ty : Ty} {x : Int} (absent : x ∉ ty.vars) (value : Ty) :
    ty.replace x value = ty := by
  have same : ty.replace x value = ty.substitute .var := by
    rw [Ty.replace_eq_substitute]
    refine Ty.substitute_congr fun y occurs label => if_neg ?_
    rintro rfl
    exact absent occurs
  rw [same, Ty.substitute_self]

theorem Ty.mem_vars_of_replace {ty value : Ty} {x y : Int} (occurs : y ∈ (ty.replace x value).vars) :
    y ∈ ty.vars ∧ y ≠ x ∨ y ∈ value.vars := by
  rw [Ty.replace_eq_substitute] at occurs
  induction ty using Ty.ind with
  | var z label =>
    rw [Ty.substitute_var] at occurs
    split at occurs
    · exact Or.inr occurs
    · rename_i elsewhere
      have here := List.mem_singleton.mp occurs
      exact Or.inl ⟨occurs, here ▸ elsewhere⟩
  | ctor name args ih =>
    rw [Ty.substitute_ctor] at occurs
    obtain ⟨image, member, inside⟩ := Ty.mem_vars_ctor.mp occurs
    obtain ⟨arg, original, rfl⟩ := List.mem_map.mp member
    rcases ih arg original inside with ⟨old, elsewhere⟩ | new
    · exact Or.inl ⟨Ty.mem_vars_ctor.mpr ⟨arg, original, old⟩, elsewhere⟩
    · exact Or.inr new

theorem Ty.Alike.replace {a b : Ty} (alike : a.Alike b) (x : Int) (value : Ty) :
    (a.replace x value).Alike (b.replace x value) := by
  have image (ty : Ty) : (ty.replace x value).unlabeled =
      ty.instantiate fun y => if y = x then value.unlabeled else .var y "" := by
    rw [Ty.replace_eq_substitute, Ty.unlabeled, Ty.instantiate, Ty.substitute_substitute]
    refine Ty.substitute_congr fun y _ label => ?_
    by_cases here : y = x
    · simp only [here, if_true, Ty.unlabeled, Ty.instantiate]
    · simp only [here, if_false, Ty.substitute_var]
  rw [Ty.Alike, image, image]
  exact alike.instantiate_eq _

theorem Ty.Sized.replace {sizes : String → Nat} {ty value : Ty} (sized : ty.Sized sizes)
    (small : value.Sized sizes) (x : Int) : (ty.replace x value).Sized sizes := by
  rw [Ty.replace_eq_substitute]
  refine sized.substitute fun y _ label => ?_
  split
  · exact small
  · exact .var y label

/-- The variables that have a binding. -/
def Substitution.bound (σ : Substitution) : List Int := σ.bindings.map (·.1)

theorem Substitution.bound_bind (σ : Substitution) (x : Int) (value : Ty) :
    (σ.bind x value).bound = σ.bound ++ [x] := by
  simp only [Substitution.bound, Substitution.bind, List.map_append, List.map_cons, List.map_nil]

theorem Substitution.mem_bind {σ : Substitution} {x : Int} {value : Ty} {binding : Int × Ty} :
    binding ∈ (σ.bind x value).bindings ↔ binding ∈ σ.bindings ∨ binding = (x, value) := by
  simp only [Substitution.bind, List.mem_append, List.mem_singleton]

/-- The newest binding is applied last. -/
theorem Substitution.resolve_bind (σ : Substitution) (x : Int) (value ty : Ty) :
    (σ.bind x value).resolve ty = (σ.resolve ty).replace x value := by
  simp only [Substitution.resolve, Substitution.bind, List.foldl_append, List.foldl_cons,
    List.foldl_nil]

theorem Substitution.resolve_ctor (σ : Substitution) (name : String) (args : List Ty) :
    σ.resolve (.ctor name args) = .ctor name (args.map σ.resolve) := by
  obtain ⟨bindings⟩ := σ
  induction bindings generalizing args with
  | nil => exact congrArg (Ty.ctor name) (List.map_id' args).symm
  | cons binding bindings ih =>
    have step := ih (Ty.replaceAll args binding.1 binding.2)
    rw [Ty.replaceAll_eq_map, List.map_map, ← Ty.replaceAll_eq_map] at step
    exact step

theorem Substitution.resolve_alike (σ : Substitution) {a b : Ty} (alike : a.Alike b) :
    (σ.resolve a).Alike (σ.resolve b) := by
  obtain ⟨bindings⟩ := σ
  induction bindings generalizing a b with
  | nil => exact alike
  | cons binding bindings ih => exact ih (alike.replace binding.1 binding.2)

theorem Substitution.mem_vars_resolve {σ : Substitution} {ty : Ty} {y : Int}
    (occurs : y ∈ (σ.resolve ty).vars) : y ∈ ty.vars ∨ y ∈ σ.valueVars := by
  obtain ⟨bindings⟩ := σ
  induction bindings generalizing ty with
  | nil => exact Or.inl occurs
  | cons binding bindings ih =>
    simp only [Substitution.valueVars, List.flatMap_cons, List.mem_append] at ih ⊢
    rcases ih occurs with replaced | later
    · rcases Ty.mem_vars_of_replace replaced with ⟨old, _⟩ | new
      · exact Or.inl old
      · exact Or.inr (Or.inl new)
    · exact Or.inr (Or.inr later)

/-- The types that bindings give to variables fit `sizes`. -/
def Substitution.Sized (sizes : String → Nat) (σ : Substitution) : Prop :=
  ∀ binding ∈ σ.bindings, binding.2.Sized sizes

theorem Substitution.Sized.bind {sizes : String → Nat} {σ : Substitution} {value : Ty}
    (sized : σ.Sized sizes) (x : Int) (small : value.Sized sizes) :
    (σ.bind x value).Sized sizes := by
  intro binding member
  rcases Substitution.mem_bind.mp member with old | rfl
  · exact sized binding old
  · exact small

theorem Substitution.Sized.resolve {sizes : String → Nat} {σ : Substitution} {ty : Ty}
    (sized : σ.Sized sizes) (small : ty.Sized sizes) : (σ.resolve ty).Sized sizes := by
  obtain ⟨bindings⟩ := σ
  induction bindings generalizing ty with
  | nil => exact small
  | cons binding bindings ih =>
    exact ih (small.replace (sized binding List.mem_cons_self) binding.1)
      fun later member => sized later (List.mem_cons_of_mem _ member)

/-- `θ` gives every bound variable the type that it gives to its value. -/
def Substitution.AbsorbedBy (σ : Substitution) (θ : Int → Ty) : Prop :=
  ∀ binding ∈ σ.bindings, θ binding.1 = binding.2.instantiate θ

theorem Substitution.AbsorbedBy.of_bind {σ : Substitution} {θ : Int → Ty} {x : Int} {value : Ty}
    (absorbed : (σ.bind x value).AbsorbedBy θ) : σ.AbsorbedBy θ :=
  fun binding member => absorbed binding (Substitution.mem_bind.mpr (Or.inl member))

theorem Substitution.AbsorbedBy.bind {σ : Substitution} {θ : Int → Ty} {x : Int} {value : Ty}
    (absorbed : σ.AbsorbedBy θ) (same : θ x = value.instantiate θ) :
    (σ.bind x value).AbsorbedBy θ := by
  intro binding member
  rcases Substitution.mem_bind.mp member with old | rfl
  · exact absorbed binding old
  · exact same

/-- Resolution is lost on `θ`. -/
theorem Substitution.AbsorbedBy.instantiate_resolve {σ : Substitution} {θ : Int → Ty}
    (absorbed : σ.AbsorbedBy θ) (ty : Ty) : (σ.resolve ty).instantiate θ = ty.instantiate θ := by
  obtain ⟨bindings⟩ := σ
  induction bindings generalizing ty with
  | nil => rfl
  | cons binding bindings ih =>
    have rest := ih (ty.replace binding.1 binding.2)
      fun later member => absorbed later (List.mem_cons_of_mem _ member)
    exact rest.trans (Ty.instantiate_replace (absorbed binding List.mem_cons_self) ty)

/-- Substitutions that grow as solving makes them grow: what is bound is free until then, and so is
every variable of its value, which does not hold the bound variable itself. -/
inductive Substitution.Triangular : Substitution → Prop
  | empty : Substitution.Triangular .empty
  | bind {σ : Substitution} {x : Int} {value : Ty} : σ.Triangular → x ∉ σ.bound →
      (∀ y ∈ value.vars, y ∉ σ.bound) → x ∉ value.vars → (σ.bind x value).Triangular

theorem Substitution.resolve_of_free {σ : Substitution} {ty : Ty}
    (free : ∀ x ∈ ty.vars, x ∉ σ.bound) : σ.resolve ty = ty := by
  obtain ⟨bindings⟩ := σ
  induction bindings with
  | nil => rfl
  | cons binding bindings ih =>
    simp only [Substitution.bound, List.map_cons, List.mem_cons, not_or] at free
    have absent : binding.1 ∉ ty.vars := fun occurs => (free _ occurs).1 rfl
    have rest := ih fun x occurs => (free x occurs).2
    simp only [Substitution.resolve, List.foldl_cons, Ty.replace_of_not_mem absent] at rest ⊢
    exact rest

/-- Nothing bound is left after resolution. -/
theorem Substitution.Triangular.resolve_free {σ : Substitution} (triangular : σ.Triangular)
    {ty : Ty} {y : Int} (occurs : y ∈ (σ.resolve ty).vars) : y ∉ σ.bound := by
  induction triangular with
  | empty => exact List.not_mem_nil
  | @bind σ x value _ _ freeValue notSelf ih =>
    rw [Substitution.resolve_bind] at occurs
    rw [Substitution.bound_bind, List.mem_append, List.mem_singleton, not_or]
    rcases Ty.mem_vars_of_replace occurs with ⟨old, elsewhere⟩ | new
    · exact ⟨ih old, elsewhere⟩
    · exact ⟨freeValue y new, fun here => notSelf (here ▸ new)⟩

theorem Substitution.Triangular.resolve_bound {σ : Substitution} (triangular : σ.Triangular)
    {x : Int} {value : Ty} (member : (x, value) ∈ σ.bindings) (label : String) :
    σ.resolve (.var x label) = σ.resolve value := by
  induction triangular with
  | empty => exact absurd member List.not_mem_nil
  | @bind σ y newest _ free freeValue notSelf ih =>
    rw [Substitution.resolve_bind, Substitution.resolve_bind]
    rcases Substitution.mem_bind.mp member with old | new
    · rw [ih old]
    · cases new
      have atVar : σ.resolve (.var x label) = .var x label :=
        Substitution.resolve_of_free fun z occurs => List.mem_singleton.mp occurs ▸ free
      rw [atVar, Substitution.resolve_of_free freeValue, Ty.replace_of_not_mem notSelf,
        Ty.replace, if_pos rfl]

/-- What every variable has come to stand for. -/
def Substitution.solution (σ : Substitution) (x : Int) : Ty := (σ.resolve (.var x "")).unlabeled

theorem Substitution.unlabeled_solution (σ : Substitution) (x : Int) :
    (σ.solution x).unlabeled = σ.solution x :=
  Ty.unlabeled_unlabeled _

theorem Substitution.unlabeled_resolve (σ : Substitution) (ty : Ty) :
    (σ.resolve ty).unlabeled = ty.instantiate σ.solution := by
  induction ty using Ty.ind with
  | var x label => exact σ.resolve_alike (rfl : (Ty.var x label).unlabeled = (Ty.var x "").unlabeled)
  | ctor name args ih =>
    rw [Substitution.resolve_ctor, Ty.unlabeled_ctor, Ty.instantiate_ctor, List.map_map]
    exact congrArg _ (List.map_congr_left ih)

theorem Substitution.Triangular.absorbedBy_solution {σ : Substitution} (triangular : σ.Triangular) :
    σ.AbsorbedBy σ.solution := by
  intro binding member
  rw [Substitution.solution, triangular.resolve_bound member, Substitution.unlabeled_resolve]

theorem Substitution.Sized.solution {sizes : String → Nat} {σ : Substitution}
    (sized : σ.Sized sizes) (x : Int) : (σ.solution x).Sized sizes :=
  (sized.resolve (.var x "")).instantiate fun y _ => .var y ""

/-- The solution is the most general of all that absorb the bindings. -/
theorem Substitution.AbsorbedBy.factors {σ : Substitution} {θ : Int → Ty}
    (absorbed : σ.AbsorbedBy θ) (x : Int) : θ x = (σ.solution x).instantiate θ := by
  rw [Substitution.solution, Ty.instantiate_unlabeled, absorbed.instantiate_resolve,
    Ty.instantiate_var]

end TraitCoherence
