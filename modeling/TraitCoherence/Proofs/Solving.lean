import TraitCoherence.Proofs.Worklist

namespace TraitCoherence

/-- Solving without a limit on the number of bindings: the substitution before, the equations, the
substitution after, and whether all of them were solved. -/
inductive Solving : Substitution → List Equation → Substitution → Bool → Prop
  | done {σ : Substitution} {equations : List Equation} :
      σ.next? equations = none → Solving σ equations σ true
  | stuck {σ : Substitution} {equations others : List Equation} {equation : Equation} :
      σ.next? equations = some (equation, others) → equation.binding? = none →
      Solving σ equations σ false
  | circular {σ : Substitution} {equations others : List Equation} {equation : Equation} {x : Int}
      {value : Ty} : σ.next? equations = some (equation, others) →
      equation.binding? = some (x, value) → x ∈ value.vars → Solving σ equations σ false
  | bind {σ result : Substitution} {equations others : List Equation} {equation : Equation}
      {x : Int} {value : Ty} {ok : Bool} : σ.next? equations = some (equation, others) →
      equation.binding? = some (x, value) → x ∉ value.vars →
      Solving (σ.bind x value) others result ok → Solving σ equations result ok

theorem Substitution.bind_valueVars {σ : Substitution} {x y : Int} {value : Ty} :
    y ∈ (σ.bind x value).valueVars ↔ y ∈ σ.valueVars ∨ y ∈ value.vars := by
  simp only [Substitution.valueVars, Substitution.bind, List.flatMap_append, List.flatMap_cons,
    List.flatMap_nil, List.append_nil, List.mem_append]

/-- The variables that a run may still bind, with repetitions. -/
def Substitution.unbound (σ : Substitution) (scope : List Int) : List Int :=
  scope.filter fun x => !σ.bound.contains x

theorem Substitution.mem_unbound {σ : Substitution} {scope : List Int} {x : Int} :
    x ∈ σ.unbound scope ↔ x ∈ scope ∧ x ∉ σ.bound := by
  simp only [Substitution.unbound, List.mem_filter, Bool.not_eq_true', List.contains_eq_mem,
    decide_eq_false_iff_not]

theorem Substitution.length_unbound_bind {σ : Substitution} {scope : List Int} {x : Int}
    (member : x ∈ σ.unbound scope) (value : Ty) :
    ((σ.bind x value).unbound scope).length < (σ.unbound scope).length := by
  have shrink : (σ.bind x value).unbound scope = (σ.unbound scope).filter fun y => y != x := by
    simp only [Substitution.unbound, Substitution.bound_bind, List.filter_filter]
    refine List.filter_congr fun y _ => ?_
    rw [List.contains_append, Bool.not_or, Bool.and_comm, List.contains_cons, List.contains_nil,
      Bool.or_false, bne]
  rw [shrink]
  refine List.length_filter_lt_length_iff_exists.mpr ⟨x, member, ?_⟩
  rw [bne_self_eq_false]
  exact Bool.false_ne_true

/-- What is bound next has not been bound before and belongs to the scope. -/
theorem Substitution.Triangular.next_unbound {σ : Substitution} (triangular : σ.Triangular)
    {equations others : List Equation} {equation : Equation} {scope : List Int} {x : Int} {value : Ty}
    (next : σ.next? equations = some (equation, others))
    (found : equation.binding? = some (x, value)) (values : ∀ y ∈ σ.valueVars, y ∈ scope)
    (within : ∀ whole ∈ equations, ∀ y ∈ whole.vars, y ∈ scope) : x ∈ σ.unbound scope := by
  obtain ⟨⟨whole, _, part⟩, _⟩ := Substitution.next?_origin next
  have occurs := Equation.binding?_vars found (Or.inl (rfl : x = x))
  have inScope := (Substitution.next?_vars next values within).1 x occurs
  exact Substitution.mem_unbound.mpr ⟨inScope, triangular.free_of_mem_reduce part occurs⟩

theorem Substitution.Triangular.solving_solve {σ : Substitution} (triangular : σ.Triangular)
    {equations : List Equation} (scope : List Int) {fuel : Nat}
    (values : ∀ y ∈ σ.valueVars, y ∈ scope)
    (within : ∀ whole ∈ equations, ∀ y ∈ whole.vars, y ∈ scope)
    (enough : (σ.unbound scope).length ≤ fuel) :
    Solving σ equations (σ.solve fuel equations).1 (σ.solve fuel equations).2 := by
  induction fuel generalizing σ equations with
  | zero =>
    rw [Substitution.solve]
    split
    · rename_i finished
      exact .done finished
    · rename_i equation others next
      cases found : equation.binding? with
      | none => exact .stuck next found
      | some binding =>
        -- Without fuel nothing is unbound, yet the equation has a variable to bind.
        have positive := List.length_pos_of_mem (triangular.next_unbound next found values within)
        omega
  | succ fuel ih =>
    rw [Substitution.solve]
    split
    · rename_i finished
      exact .done finished
    · rename_i equation others next
      cases found : equation.binding? with
      | none => exact .stuck next found
      | some binding =>
        obtain ⟨x, value⟩ := binding
        by_cases occurs : x ∈ value.vars
        · simp only [Ty.mentions_iff.mpr occurs, if_true]
          exact .circular next found occurs
        · simp only [Bool.not_eq_true _ ▸ mt Ty.mentions_iff.mp occurs, Bool.false_eq_true, if_false]
          have inScope := Substitution.next?_vars next values within
          have fewer := Substitution.length_unbound_bind
            (triangular.next_unbound next found values within) value
          refine .bind next found occurs (ih (triangular.bind_next next found occurs) ?_ inScope.2
            (by omega))
          intro y inValue
          rcases Substitution.bind_valueVars.mp inValue with old | new
          · exact values y old
          · exact inScope.1 y (Equation.binding?_vars found (Or.inr new))

/-- The fuel that a call starts with is never what ends it. -/
theorem Substitution.Triangular.solving_extend {σ : Substitution} (triangular : σ.Triangular)
    (equations : List Equation) :
    Solving σ equations (σ.extend equations).1 (σ.extend equations).2 := by
  refine triangular.solving_solve (σ.valueVars ++ equations.flatMap Equation.vars)
    (fun y => List.mem_append_left _) (fun whole member y occurs => ?_)
    (List.length_filter_le _ _)
  exact List.mem_append_right _ (List.mem_flatMap.mpr ⟨whole, member, occurs⟩)

theorem Solving.triangular {σ result : Substitution} {equations : List Equation} {ok : Bool}
    (solving : Solving σ equations result ok) (triangular : σ.Triangular) : result.Triangular := by
  induction solving with
  | done _ => exact triangular
  | stuck _ _ => exact triangular
  | circular _ _ _ => exact triangular
  | bind next found absent _ ih => exact ih (triangular.bind_next next found absent)

/-- Bindings are only ever added. -/
theorem Solving.isPrefix {σ result : Substitution} {equations : List Equation} {ok : Bool}
    (solving : Solving σ equations result ok) : σ.bindings <+: result.bindings := by
  induction solving with
  | done _ => exact List.prefix_rfl
  | stuck _ _ => exact List.prefix_rfl
  | circular _ _ _ => exact List.prefix_rfl
  | bind _ _ _ _ ih => exact (List.prefix_append _ _).trans ih

theorem Solving.absorbedBy {σ result : Substitution} {equations : List Equation} {ok : Bool}
    (solving : Solving σ equations result ok) {θ : Int → Ty} (absorbed : result.AbsorbedBy θ) :
    σ.AbsorbedBy θ :=
  fun binding member => absorbed binding (solving.isPrefix.subset member)

/-- A run stays within the variables that its equations and the values before it mention. -/
theorem Solving.vars {σ result : Substitution} {equations : List Equation} {ok : Bool}
    (solving : Solving σ equations result ok) {scope : List Int} (keys : ∀ y ∈ σ.bound, y ∈ scope)
    (values : ∀ y ∈ σ.valueVars, y ∈ scope)
    (within : ∀ whole ∈ equations, ∀ y ∈ whole.vars, y ∈ scope) :
    (∀ y ∈ result.bound, y ∈ scope) ∧ ∀ y ∈ result.valueVars, y ∈ scope := by
  induction solving with
  | done _ => exact ⟨keys, values⟩
  | stuck _ _ => exact ⟨keys, values⟩
  | circular _ _ _ => exact ⟨keys, values⟩
  | @bind σ _ _ _ equation x value _ next found _ _ ih =>
    have inScope := Substitution.next?_vars next values within
    refine ih (fun y member => ?_) (fun y member => ?_) inScope.2
    · rw [Substitution.bound_bind, List.mem_append, List.mem_singleton] at member
      exact member.elim (keys y) fun new => inScope.1 y (Equation.binding?_vars found (Or.inl new))
    · exact (Substitution.bind_valueVars.mp member).elim (values y)
        fun new => inScope.1 y (Equation.binding?_vars found (Or.inr new))

theorem Solving.sized {sizes : String → Nat} {σ result : Substitution} {equations : List Equation}
    {ok : Bool} (solving : Solving σ equations result ok) (sized : σ.Sized sizes)
    (each : ∀ equation ∈ equations, equation.Sized sizes) : result.Sized sizes := by
  induction solving with
  | done _ => exact sized
  | stuck _ _ => exact sized
  | circular _ _ _ => exact sized
  | @bind _ _ _ _ _ x _ _ next found _ _ ih =>
    have ⟨here, later⟩ := Substitution.next?_inherit next each fun whole member part inside =>
      Ty.sized_of_mem_equations (sized.resolve (each whole member).1)
        (sized.resolve (each whole member).2) inside
    exact ih (sized.bind x (here.binding? found)) later

/-- Equations that can hold together are solved, and what makes them hold absorbs what was bound on
the way. The shapes of the types do not matter. -/
theorem Solving.complete {σ result : Substitution} {equations : List Equation} {ok : Bool}
    (solving : Solving σ equations result ok) {θ : Int → Ty} (absorbed : σ.AbsorbedBy θ)
    (holds : ∀ equation ∈ equations, equation.Holds θ) : ok = true ∧ result.AbsorbedBy θ := by
  induction solving with
  | done _ => exact ⟨rfl, absorbed⟩
  | stuck next missing =>
    obtain ⟨⟨whole, member, inside⟩, _⟩ := Substitution.next?_origin next
    have reduced := Ty.reduced_of_mem_equations inside
    obtain ⟨x, value, found, _⟩ :=
      reduced.solvable (absorbed.holds_of_mem_reduce (holds whole member) inside)
    exact absurd (missing.symm.trans found) nofun
  | circular next found occurs =>
    obtain ⟨⟨whole, member, inside⟩, _⟩ := Substitution.next?_origin next
    have reduced := Ty.reduced_of_mem_equations inside
    obtain ⟨y, other, found', absent⟩ :=
      reduced.solvable (absorbed.holds_of_mem_reduce (holds whole member) inside)
    cases found.symm.trans found'
    exact absurd occurs absent
  | bind next found _ _ ih =>
    have ⟨here, later⟩ := Substitution.next?_inherit next holds fun whole member part inside =>
      absorbed.holds_of_mem_reduce (holds whole member) inside
    exact ih (absorbed.bind ((Equation.holds_iff_of_binding? found).mp here)) later

/-- What absorbs the bindings of a successful run makes the two sides of every equation agree. -/
theorem Solving.sound {σ result : Substitution} {equations : List Equation} {ok : Bool}
    (solving : Solving σ equations result ok) (success : ok = true) {θ : Int → Ty}
    (absorbed : result.AbsorbedBy θ) : ∀ equation ∈ equations, equation.Agrees θ := by
  induction solving with
  | done finished =>
    intro equation member
    refine absorbed.agrees_of_reduce fun part inside => ?_
    rw [Substitution.reduce_of_next?_eq_none finished equation member] at inside
    exact absurd inside List.not_mem_nil
  | stuck _ _ => exact absurd success nofun
  | circular _ _ _ => exact absurd success nofun
  | bind next found _ rest ih =>
    -- The equation that was bound is solved by the binding, all others by the rest of the run.
    have before := rest.absorbedBy absorbed
    have solved : Equation.Agrees θ _ :=
      ((Equation.holds_iff_of_binding? found).mpr
        (before _ (Substitution.mem_bind.mpr (Or.inr rfl)))).agrees
    intro whole member
    rcases Substitution.next?_covers next whole member with later | parts
    · exact ih success absorbed whole later
    · refine before.of_bind.agrees_of_reduce fun part inside => ?_
      rcases parts part inside with rfl | later
      · exact solved
      · exact ih success absorbed part later

end TraitCoherence
