import TraitCoherence.Proofs.Solving

namespace TraitCoherence

/-- What a substitution can be asked for: that two types, or two trait applications, become one. -/
inductive Demand where
  | types (a b : Ty)
  | traits (a b : TraitRef)

/-- `θ` gives what is demanded, labels aside. Trait applications have one name, and arguments count as
far as the shorter list goes. -/
def Demand.Met (θ : Int → Ty) : Demand → Prop
  | .types a b => (a.instantiate θ).Alike (b.instantiate θ)
  | .traits a b => a.name = b.name ∧
      ∀ pair ∈ a.args.zip b.args, (pair.1.instantiate θ).Alike (pair.2.instantiate θ)

/-- Every struct in a demand has as many arguments as `sizes` gives to its name. -/
def Demand.Sized (sizes : String → Nat) : Demand → Prop
  | .types a b => a.Sized sizes ∧ b.Sized sizes
  | .traits a b => a.Sized sizes ∧ b.Sized sizes

/-- Answers a demand, and says whether it can be met. -/
def Substitution.serve (σ : Substitution) : Demand → Substitution × Bool
  | .types a b => σ.unify a b
  | .traits a b => σ.unifyTraits a b

/-- The equations that a demand stands for, unless trait names differ. -/
def Demand.equations? : Demand → Option (List Equation)
  | .types a b => some [⟨a, b⟩]
  | .traits a b =>
    if a.name = b.name then some (List.zipWith Equation.mk a.args b.args) else none

theorem Substitution.serve_eq (σ : Substitution) (demand : Demand) :
    σ.serve demand =
      match demand.equations? with
      | some equations => σ.extend equations
      | none => (σ, false) := by
  cases demand with
  | types a b => rfl
  | traits a b =>
    simp only [Substitution.serve, Substitution.unifyTraits, Demand.equations?]
    split <;> rfl

theorem Equation.mem_zipWith_mk {as bs : List Ty} {equation : Equation} :
    equation ∈ List.zipWith Equation.mk as bs ↔ (equation.left, equation.right) ∈ as.zip bs := by
  rw [← List.map_uncurry_zip_eq_zipWith, List.mem_map]
  constructor
  · rintro ⟨pair, paired, rfl⟩
    exact paired
  · exact fun paired => ⟨_, paired, rfl⟩

theorem Demand.met_iff {θ : Int → Ty} {demand : Demand} :
    demand.Met θ ↔ ∃ equations, demand.equations? = some equations ∧
      ∀ equation ∈ equations, equation.Holds fun x => (θ x).unlabeled := by
  cases demand with
  | types a b =>
    simp only [Demand.Met, Demand.equations?, Ty.alike_instantiate_iff, Option.some.injEq,
      exists_eq_left', List.mem_singleton, forall_eq, Equation.Holds]
  | traits a b =>
    simp only [Demand.Met, Demand.equations?, Ty.alike_instantiate_iff]
    by_cases same : a.name = b.name
    · simp only [same, true_and, if_true, Option.some.injEq, exists_eq_left', Equation.mem_zipWith_mk]
      exact ⟨fun each equation paired => each _ paired, fun each pair paired => each ⟨_, _⟩ paired⟩
    · simp only [same, false_and, if_false, reduceCtorEq, exists_false]

theorem Demand.Sized.equations {sizes : String → Nat} {demand : Demand} (sized : demand.Sized sizes)
    {equations : List Equation} (stated : demand.equations? = some equations) :
    ∀ equation ∈ equations, equation.Sized sizes := by
  cases demand with
  | types a b =>
    cases stated
    exact fun equation member => List.mem_singleton.mp member ▸ sized
  | traits a b =>
    simp only [Demand.equations?, Option.ite_none_right_eq_some, Option.some.injEq] at stated
    obtain ⟨_, rfl⟩ := stated
    intro equation member
    have inside := List.of_mem_zip (Equation.mem_zipWith_mk.mp member)
    exact ⟨sized.1 _ inside.1, sized.2 _ inside.2⟩

/-- Every variable of a demand is in scope. -/
def Demand.Within (scope : List Int) : Demand → Prop
  | .types a b => ∀ x, x ∈ a.vars ∨ x ∈ b.vars → x ∈ scope
  | .traits a b => ∀ arg, arg ∈ a.args ∨ arg ∈ b.args → ∀ x ∈ arg.vars, x ∈ scope

theorem Demand.Within.equations {scope : List Int} {demand : Demand} (within : demand.Within scope)
    {equations : List Equation} (stated : demand.equations? = some equations) :
    ∀ equation ∈ equations, ∀ x ∈ equation.vars, x ∈ scope := by
  cases demand with
  | types a b =>
    cases stated
    intro equation member x occurs
    rw [List.mem_singleton.mp member] at occurs
    exact within x (Equation.mem_vars.mp occurs)
  | traits a b =>
    simp only [Demand.equations?, Option.ite_none_right_eq_some, Option.some.injEq] at stated
    obtain ⟨_, rfl⟩ := stated
    intro equation member x occurs
    have inside := List.of_mem_zip (Equation.mem_zipWith_mk.mp member)
    rcases Equation.mem_vars.mp occurs with left | right
    · exact within equation.left (Or.inl inside.1) x left
    · exact within equation.right (Or.inr inside.2) x right

/-- A call either runs to its end on the equations of its demand or, where names differ, does nothing
at all. -/
theorem Substitution.Triangular.serve_cases {σ : Substitution} (triangular : σ.Triangular)
    (demand : Demand) :
    (∃ equations, demand.equations? = some equations ∧
      Solving σ equations (σ.serve demand).1 (σ.serve demand).2) ∨
    demand.equations? = none ∧ σ.serve demand = (σ, false) := by
  rw [Substitution.serve_eq]
  cases stated : demand.equations? with
  | none => exact Or.inr ⟨rfl, rfl⟩
  | some equations => exact Or.inl ⟨equations, rfl, triangular.solving_extend equations⟩

theorem Substitution.Triangular.serve {σ : Substitution} (triangular : σ.Triangular)
    (demand : Demand) : (σ.serve demand).1.Triangular := by
  rcases triangular.serve_cases demand with ⟨_, _, solving⟩ | ⟨_, unchanged⟩
  · exact solving.triangular triangular
  · rw [unchanged]
    exact triangular

theorem Substitution.Triangular.serve_absorbedBy {σ : Substitution} (triangular : σ.Triangular)
    {demand : Demand} {θ : Int → Ty} (absorbed : (σ.serve demand).1.AbsorbedBy θ) :
    σ.AbsorbedBy θ := by
  rcases triangular.serve_cases demand with ⟨_, _, solving⟩ | ⟨_, unchanged⟩
  · exact solving.absorbedBy absorbed
  · rw [unchanged] at absorbed
    exact absorbed

theorem Substitution.Triangular.serve_sized {sizes : String → Nat} {σ : Substitution}
    (triangular : σ.Triangular) (sized : σ.Sized sizes) {demand : Demand}
    (small : demand.Sized sizes) : (σ.serve demand).1.Sized sizes := by
  rcases triangular.serve_cases demand with ⟨_, stated, solving⟩ | ⟨_, unchanged⟩
  · exact solving.sized sized (small.equations stated)
  · rw [unchanged]
    exact sized

theorem Substitution.Triangular.serve_vars {σ : Substitution} (triangular : σ.Triangular)
    {scope : List Int} (keys : ∀ y ∈ σ.bound, y ∈ scope) (values : ∀ y ∈ σ.valueVars, y ∈ scope)
    {demand : Demand} (within : demand.Within scope) :
    (∀ y ∈ (σ.serve demand).1.bound, y ∈ scope) ∧
      ∀ y ∈ (σ.serve demand).1.valueVars, y ∈ scope := by
  rcases triangular.serve_cases demand with ⟨_, stated, solving⟩ | ⟨_, unchanged⟩
  · exact solving.vars keys values (within.equations stated)
  · rw [unchanged]
    exact ⟨keys, values⟩

theorem Substitution.Triangular.serve_complete {σ : Substitution} (triangular : σ.Triangular)
    {demand : Demand} {θ : Int → Ty} (absorbed : σ.AbsorbedBy fun x => (θ x).unlabeled)
    (met : demand.Met θ) :
    (σ.serve demand).2 = true ∧ (σ.serve demand).1.AbsorbedBy fun x => (θ x).unlabeled := by
  obtain ⟨equations, stated, holds⟩ := Demand.met_iff.mp met
  rcases triangular.serve_cases demand with ⟨_, stated', solving⟩ | ⟨differ, _⟩
  · cases stated.symm.trans stated'
    exact solving.complete absorbed holds
  · exact absurd (stated.symm.trans differ) nofun

/-- Under fixed sizes, agreement of the two sides is equality, so a call that succeeds leaves bindings
that only solutions of its demand absorb. -/
theorem Substitution.Triangular.serve_sound {sizes : String → Nat} {σ : Substitution}
    (triangular : σ.Triangular) {demand : Demand} (small : demand.Sized sizes)
    (success : (σ.serve demand).2 = true) {θ : Int → Ty} (values : ∀ x, (θ x).Sized sizes)
    (absorbed : (σ.serve demand).1.AbsorbedBy fun x => (θ x).unlabeled) : demand.Met θ := by
  rcases triangular.serve_cases demand with ⟨equations, stated, solving⟩ | ⟨_, unchanged⟩
  · refine Demand.met_iff.mpr ⟨equations, stated, fun equation member => ?_⟩
    have plain (x : Int) : ((θ x).unlabeled).Sized sizes := (values x).instantiate fun y _ => .var y ""
    have sides := small.equations stated equation member
    have agree := solving.sound success absorbed equation member
    have alike := (sides.1.instantiate fun x _ => plain x).alike_of_agrees
      (sides.2.instantiate fun x _ => plain x) agree
    rw [Ty.alike_instantiate_iff] at alike
    simp only [Ty.unlabeled_unlabeled] at alike
    exact alike
  · rw [unchanged] at success
    exact absurd success Bool.false_ne_true

end TraitCoherence
