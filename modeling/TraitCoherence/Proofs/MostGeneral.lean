import TraitCoherence.Proofs.Demands

namespace TraitCoherence

/-- Answers demands one after the other, also after one that cannot be met. -/
def Substitution.serveAll (σ : Substitution) : List Demand → Substitution × List Bool
  | [] => (σ, [])
  | demand :: demands =>
    let (next, ok) := σ.serve demand
    let (last, oks) := next.serveAll demands
    (last, ok :: oks)

theorem Substitution.serveAll_cons (σ : Substitution) (demand : Demand) (demands : List Demand) :
    σ.serveAll (demand :: demands) =
      (((σ.serve demand).1.serveAll demands).1,
        (σ.serve demand).2 :: ((σ.serve demand).1.serveAll demands).2) := rfl

theorem Substitution.Triangular.serveAll {σ : Substitution} (triangular : σ.Triangular)
    (demands : List Demand) : (σ.serveAll demands).1.Triangular := by
  induction demands generalizing σ with
  | nil => exact triangular
  | cons demand demands ih => exact ih (triangular.serve demand)

theorem Substitution.Triangular.serveAll_absorbedBy {σ : Substitution} (triangular : σ.Triangular)
    {demands : List Demand} {θ : Int → Ty} (absorbed : (σ.serveAll demands).1.AbsorbedBy θ) :
    σ.AbsorbedBy θ := by
  induction demands generalizing σ with
  | nil => exact absorbed
  | cons demand demands ih =>
    exact triangular.serve_absorbedBy (ih (triangular.serve demand) absorbed)

theorem Substitution.Triangular.serveAll_sized {sizes : String → Nat} {σ : Substitution}
    (triangular : σ.Triangular) (sized : σ.Sized sizes) {demands : List Demand}
    (small : ∀ demand ∈ demands, demand.Sized sizes) : (σ.serveAll demands).1.Sized sizes := by
  induction demands generalizing σ with
  | nil => exact sized
  | cons demand demands ih =>
    exact ih (triangular.serve demand)
      (triangular.serve_sized sized (small demand List.mem_cons_self))
      fun other member => small other (List.mem_cons_of_mem _ member)

theorem Substitution.Triangular.serveAll_vars {σ : Substitution} (triangular : σ.Triangular)
    {scope : List Int} (keys : ∀ y ∈ σ.bound, y ∈ scope) (values : ∀ y ∈ σ.valueVars, y ∈ scope)
    {demands : List Demand} (within : ∀ demand ∈ demands, demand.Within scope) :
    (∀ y ∈ (σ.serveAll demands).1.bound, y ∈ scope) ∧
      ∀ y ∈ (σ.serveAll demands).1.valueVars, y ∈ scope := by
  induction demands generalizing σ with
  | nil => exact ⟨keys, values⟩
  | cons demand demands ih =>
    obtain ⟨nextKeys, nextValues⟩ :=
      triangular.serve_vars keys values (within demand List.mem_cons_self)
    exact ih (triangular.serve demand) nextKeys nextValues
      fun other member => within other (List.mem_cons_of_mem _ member)

theorem Substitution.Triangular.serveAll_complete {σ : Substitution} (triangular : σ.Triangular)
    {demands : List Demand} {θ : Int → Ty} (absorbed : σ.AbsorbedBy fun x => (θ x).unlabeled)
    (met : ∀ demand ∈ demands, demand.Met θ) :
    (∀ ok ∈ (σ.serveAll demands).2, ok = true) ∧
      (σ.serveAll demands).1.AbsorbedBy fun x => (θ x).unlabeled := by
  induction demands generalizing σ with
  | nil => exact ⟨fun ok member => absurd member List.not_mem_nil, absorbed⟩
  | cons demand demands ih =>
    obtain ⟨success, next⟩ := triangular.serve_complete absorbed (met demand List.mem_cons_self)
    obtain ⟨rest, last⟩ := ih (triangular.serve demand) next
      fun other member => met other (List.mem_cons_of_mem _ member)
    rw [Substitution.serveAll_cons]
    exact ⟨fun ok member => (List.mem_cons.mp member).elim (fun here => here ▸ success) (rest ok), last⟩

theorem Substitution.Triangular.serveAll_sound {sizes : String → Nat} {σ : Substitution}
    (triangular : σ.Triangular) {demands : List Demand}
    (small : ∀ demand ∈ demands, demand.Sized sizes)
    (success : ∀ ok ∈ (σ.serveAll demands).2, ok = true) {θ : Int → Ty}
    (values : ∀ x, (θ x).Sized sizes)
    (absorbed : (σ.serveAll demands).1.AbsorbedBy fun x => (θ x).unlabeled) :
    ∀ demand ∈ demands, demand.Met θ := by
  induction demands generalizing σ with
  | nil => exact fun demand member => absurd member List.not_mem_nil
  | cons head demands ih =>
    rw [Substitution.serveAll_cons] at success absorbed
    have later := triangular.serve head
    intro demand member
    rcases List.mem_cons.mp member with rfl | inside
    · exact triangular.serve_sound (small demand List.mem_cons_self) (success _ List.mem_cons_self)
        values (later.serveAll_absorbedBy absorbed)
    · exact ih later (fun other inside => small other (List.mem_cons_of_mem _ inside))
        (fun ok inside => success ok (List.mem_cons_of_mem _ inside)) absorbed demand inside

/-- Demands on types of fixed sizes are all answered with success exactly when some substitution meets
them. What variables then stand for is one that does, and every other is an instance of it. -/
theorem serveAll_decides_and_most_general (sizes : String → Nat) (demands : List Demand)
    (small : ∀ demand ∈ demands, demand.Sized sizes) :
    ((∀ ok ∈ (Substitution.empty.serveAll demands).2, ok = true) ↔
      ∃ θ : Int → Ty, ∀ demand ∈ demands, demand.Met θ) ∧
    ((∀ ok ∈ (Substitution.empty.serveAll demands).2, ok = true) →
      (∀ demand ∈ demands,
        demand.Met fun x => (Substitution.empty.serveAll demands).1.resolve (.var x "")) ∧
      ∀ θ : Int → Ty, (∀ demand ∈ demands, demand.Met θ) → ∀ ty : Ty,
        (ty.instantiate θ).Alike
          (((Substitution.empty.serveAll demands).1.resolve ty).instantiate θ)) := by
  have start : Substitution.empty.Triangular := .empty
  have nothing (θ : Int → Ty) : Substitution.empty.AbsorbedBy θ :=
    fun binding member => absurd member List.not_mem_nil
  have last := start.serveAll demands
  have sized := start.serveAll_sized (fun binding member => absurd member List.not_mem_nil) small
  have resolved (success : ∀ ok ∈ (Substitution.empty.serveAll demands).2, ok = true) :
      ∀ demand ∈ demands,
        demand.Met fun x => (Substitution.empty.serveAll demands).1.resolve (.var x "") :=
    start.serveAll_sound small success (fun x => sized.resolve (.var x ""))
      last.absorbedBy_solution
  refine ⟨⟨fun success => ⟨_, resolved success⟩, ?_⟩, fun success => ⟨resolved success, ?_⟩⟩
  · rintro ⟨θ, met⟩
    exact (start.serveAll_complete (nothing _) met).1
  · intro θ met ty
    have absorbed := (start.serveAll_complete (nothing _) met).2
    rw [Ty.alike_instantiate_iff, absorbed.instantiate_resolve]

/-- `P = Vec<Q>`, then `From<Q, R> = From<Vec<R>>` as far as the shorter list goes. -/
def vecDemands : List Demand :=
  [.types (.var 0 "P") (.ctor "Vec" [.var 1 "Q"]),
    .traits ⟨"From", [.var 1 "Q", .var 2 "R"]⟩ ⟨"From", [.ctor "Vec" [.var 2 "R"]]⟩]

theorem vecDemands_solved :
    (∀ demand ∈ vecDemands, demand.Sized fun _ => 1) ∧
      (∃ θ : Int → Ty, ∀ demand ∈ vecDemands, demand.Met θ) ∧
      ∀ demand ∈ vecDemands,
        demand.Met fun x => (Substitution.empty.serveAll vecDemands).1.resolve (.var x "") := by
  have small : ∀ demand ∈ vecDemands, demand.Sized fun _ => 1 := by
    simp [vecDemands, Demand.Sized, TraitRef.Sized, Ty.sized_ctor, Ty.Sized.var]
  have success : ∀ ok ∈ (Substitution.empty.serveAll vecDemands).2, ok = true := by decide
  obtain ⟨decides, general⟩ := serveAll_decides_and_most_general _ _ small
  exact ⟨small, decides.mp success, (general success).1⟩

end TraitCoherence
