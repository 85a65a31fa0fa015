import TraitCoherence.Proofs.Equations

namespace TraitCoherence

/-- What an equation comes down to once bound variables are replaced. -/
def Substitution.reduce (σ : Substitution) (equation : Equation) : List Equation :=
  (σ.resolve equation.left).equations (σ.resolve equation.right)

theorem Substitution.next?_cons (σ : Substitution) (equation : Equation) (others : List Equation) :
    σ.next? (equation :: others) =
      match σ.reduce equation with
      | [] => σ.next? others
      | first :: rest => some (first, rest ++ others) := rfl

theorem Substitution.reduce_of_next?_eq_none {σ : Substitution} {equations : List Equation}
    (finished : σ.next? equations = none) : ∀ equation ∈ equations, σ.reduce equation = [] := by
  induction equations with
  | nil => exact fun equation member => absurd member List.not_mem_nil
  | cons head equations ih =>
    rw [Substitution.next?_cons] at finished
    split at finished
    · rename_i nothing
      intro equation member
      rcases List.mem_cons.mp member with rfl | later
      · exact nothing
      · exact ih finished equation later
    · exact absurd finished nofun

/-- Where the next equation and the ones after it come from. -/
theorem Substitution.next?_origin {σ : Substitution} {equations others : List Equation}
    {equation : Equation} (next : σ.next? equations = some (equation, others)) :
    (∃ whole ∈ equations, equation ∈ σ.reduce whole) ∧
      ∀ other ∈ others, other ∈ equations ∨ ∃ whole ∈ equations, other ∈ σ.reduce whole := by
  induction equations with
  | nil => exact absurd next nofun
  | cons head equations ih =>
    rw [Substitution.next?_cons] at next
    split at next
    · obtain ⟨⟨whole, member, part⟩, rest⟩ := ih next
      refine ⟨⟨whole, List.mem_cons_of_mem _ member, part⟩, fun other later => ?_⟩
      rcases rest other later with old | ⟨source, inside, split⟩
      · exact Or.inl (List.mem_cons_of_mem _ old)
      · exact Or.inr ⟨source, List.mem_cons_of_mem _ inside, split⟩
    · rename_i first rest parts
      cases next
      refine ⟨⟨head, List.mem_cons_self, parts ▸ List.mem_cons_self⟩, fun other later => ?_⟩
      rcases List.mem_append.mp later with part | old
      · exact Or.inr ⟨head, List.mem_cons_self, parts ▸ List.mem_cons_of_mem _ part⟩
      · exact Or.inl (List.mem_cons_of_mem _ old)

/-- What every equation has, and passes on to what it comes down to, the next equation and those
after it have. -/
theorem Substitution.next?_inherit {σ : Substitution} {equations others : List Equation}
    {equation : Equation} {property : Equation → Prop}
    (next : σ.next? equations = some (equation, others))
    (each : ∀ whole ∈ equations, property whole)
    (parts : ∀ whole ∈ equations, ∀ part ∈ σ.reduce whole, property part) :
    property equation ∧ ∀ other ∈ others, property other := by
  obtain ⟨⟨whole, member, inside⟩, rest⟩ := Substitution.next?_origin next
  refine ⟨parts whole member equation inside, fun other later => ?_⟩
  rcases rest other later with old | ⟨source, original, split⟩
  · exact each other old
  · exact parts source original other split

/-- Nothing is dropped that is still to be solved. -/
theorem Substitution.next?_covers {σ : Substitution} {equations others : List Equation}
    {equation : Equation} (next : σ.next? equations = some (equation, others)) :
    ∀ whole ∈ equations, whole ∈ others ∨ ∀ part ∈ σ.reduce whole, part = equation ∨ part ∈ others := by
  induction equations with
  | nil => exact fun whole member => absurd member List.not_mem_nil
  | cons head equations ih =>
    rw [Substitution.next?_cons] at next
    intro whole member
    split at next
    · rename_i nothing
      rcases List.mem_cons.mp member with rfl | later
      · exact Or.inr fun part inside => absurd (nothing ▸ inside) List.not_mem_nil
      · exact ih next whole later
    · rename_i first rest parts
      cases next
      rcases List.mem_cons.mp member with rfl | later
      · refine Or.inr fun part inside => ?_
        exact (List.mem_cons.mp (parts ▸ inside)).imp id (List.mem_append_left _)
      · exact Or.inl (List.mem_append_right _ later)

theorem Substitution.AbsorbedBy.holds_of_mem_reduce {σ : Substitution} {θ : Int → Ty}
    (absorbed : σ.AbsorbedBy θ) {whole part : Equation} (holds : whole.Holds θ)
    (member : part ∈ σ.reduce whole) : part.Holds θ := by
  refine Ty.holds_of_mem_equations ?_ member
  rw [absorbed.instantiate_resolve, absorbed.instantiate_resolve]
  exact holds

theorem Substitution.AbsorbedBy.agrees_of_reduce {σ : Substitution} {θ : Int → Ty}
    (absorbed : σ.AbsorbedBy θ) {whole : Equation} (each : ∀ part ∈ σ.reduce whole, part.Agrees θ) :
    whole.Agrees θ := by
  have agree := Ty.agrees_of_equations each
  rw [absorbed.instantiate_resolve, absorbed.instantiate_resolve] at agree
  exact agree

theorem Substitution.vars_of_mem_reduce {σ : Substitution} {whole part : Equation}
    (member : part ∈ σ.reduce whole) {x : Int} (occurs : x ∈ part.vars) :
    x ∈ whole.vars ∨ x ∈ σ.valueVars := by
  rcases Ty.vars_of_mem_equations member occurs with left | right
  · exact (Substitution.mem_vars_resolve left).imp (List.mem_append_left _) id
  · exact (Substitution.mem_vars_resolve right).imp (List.mem_append_right _) id

theorem Substitution.Triangular.free_of_mem_reduce {σ : Substitution} (triangular : σ.Triangular)
    {whole part : Equation} (member : part ∈ σ.reduce whole) {x : Int} (occurs : x ∈ part.vars) :
    x ∉ σ.bound := by
  rcases Ty.vars_of_mem_equations member occurs with left | right
  · exact triangular.resolve_free left
  · exact triangular.resolve_free right

theorem Substitution.Triangular.bind_next {σ : Substitution} (triangular : σ.Triangular)
    {equations others : List Equation} {equation : Equation} {x : Int} {value : Ty}
    (next : σ.next? equations = some (equation, others))
    (found : equation.binding? = some (x, value)) (absent : x ∉ value.vars) :
    (σ.bind x value).Triangular := by
  obtain ⟨⟨whole, _, part⟩, _⟩ := Substitution.next?_origin next
  refine .bind triangular ?_ (fun y occurs => ?_) absent
  · exact triangular.free_of_mem_reduce part (Equation.binding?_vars found (Or.inl rfl))
  · exact triangular.free_of_mem_reduce part (Equation.binding?_vars found (Or.inr occurs))

/-- Every equation that is left mentions only what was there before. -/
theorem Substitution.next?_vars {σ : Substitution} {equations others : List Equation}
    {equation : Equation} {scope : List Int} (next : σ.next? equations = some (equation, others))
    (values : ∀ y ∈ σ.valueVars, y ∈ scope)
    (within : ∀ whole ∈ equations, ∀ y ∈ whole.vars, y ∈ scope) :
    (∀ y ∈ equation.vars, y ∈ scope) ∧ ∀ other ∈ others, ∀ y ∈ other.vars, y ∈ scope := by
  refine Substitution.next?_inherit next within fun whole member part inside y occurs => ?_
  rcases Substitution.vars_of_mem_reduce inside occurs with old | bound
  · exact within whole member y old
  · exact values y bound

end TraitCoherence
