import TraitCoherence.Proofs.MostGeneral

namespace TraitCoherence

/-- Agreement of types knows nothing of labels. -/
theorem Ty.agrees_unlabeled (a b : Ty) : a.unlabeled.agrees b.unlabeled = a.agrees b :=
  Ty.agrees_rename Function.injective_id (fun _ => "") a b

theorem Equation.Reduced.not_agrees {equation : Equation} (reduced : equation.Reduced) :
    equation.left.agrees equation.right ≠ true := by
  obtain ⟨left, right⟩ := equation
  intro agree
  cases left with
  | var x label =>
    cases right with
    | var y label' => exact reduced (beq_iff_eq.mp agree)
    | ctor name args => cases agree
  | ctor name args =>
    cases right with
    | var y label => cases agree
    | ctor other args' => exact reduced (beq_iff_eq.mp (Bool.and_eq_true_iff.mp agree).1)

/-- Two types come down to nothing exactly when they agree. -/
theorem Ty.equations_eq_nil_iff {a b : Ty} : a.equations b = [] ↔ a.agrees b = true := by
  induction a using Ty.ind generalizing b with
  | var x label =>
    rcases Ty.equations_cases (.var x label) b with ⟨single, reduced⟩ |
      ⟨y, _, label', same, rfl, nothing⟩ | ⟨_, _, _, differ, _⟩
    · rw [single]
      exact iff_of_false (List.cons_ne_nil _ _) reduced.not_agrees
    · cases same
      exact iff_of_true nothing (beq_self_eq_true x)
    · cases differ
  | ctor name as ih =>
    rcases Ty.equations_cases (.ctor name as) b with ⟨single, reduced⟩ | ⟨_, _, _, differ, _⟩ |
      ⟨other, as', bs, same, rfl, parts⟩
    · rw [single]
      exact iff_of_false (List.cons_ne_nil _ _) reduced.not_agrees
    · cases differ
    · cases same
      rw [parts, List.flatMap_eq_nil_iff, Ty.agrees, beq_self_eq_true, Bool.true_and,
        Ty.agreeAll_eq_all, List.all_eq_true]
      exact forall_congr' fun pair => forall_congr' fun paired =>
        ih pair.1 (List.of_mem_zip paired).1

/-- Nothing is done about types that agree already. -/
theorem Substitution.unify_of_agrees {σ : Substitution} {a b : Ty}
    (agree : (σ.resolve a).agrees (σ.resolve b) = true) : σ.unify a b = (σ, true) := by
  have nothing : σ.reduce ⟨a, b⟩ = [] := Ty.equations_eq_nil_iff.mpr agree
  have finished : σ.next? [⟨a, b⟩] = none := by
    rw [Substitution.next?_cons, nothing]
    rfl
  rw [Substitution.unify, Substitution.extend, Substitution.solve, finished]

/-- Agreement may fail between a first and a third type, so it is not carried along bindings. Yet the
equations of a run that succeeded agree wherever its bindings are absorbed, and the bindings that
come later absorb them. -/
theorem Substitution.Triangular.agrees_of_unify {σ : Substitution} (triangular : σ.Triangular)
    {a b : Ty} (success : (σ.unify a b).2 = true) (later : List Demand) :
    let τ := ((σ.unify a b).1.serveAll later).1
    (τ.resolve a).agrees (τ.resolve b) = true := by
  intro τ
  have solving := triangular.solving_extend [⟨a, b⟩]
  have middle : (σ.unify a b).1.Triangular := solving.triangular triangular
  have absorbed : (σ.unify a b).1.AbsorbedBy τ.solution :=
    middle.serveAll_absorbedBy (middle.serveAll later).absorbedBy_solution
  have agree : Equation.Agrees τ.solution ⟨a, b⟩ :=
    solving.sound success absorbed _ (List.mem_singleton_self _)
  rw [Equation.Agrees, ← τ.unlabeled_resolve, ← τ.unlabeled_resolve, Ty.agrees_unlabeled] at agree
  exact agree

/-- After types of whatever shape have been unified with success, in whatever state, they resolve to
types that agree. They still do after all later demands, met or not, and to unify them again then
succeeds and binds nothing. -/
theorem unified_types_agree_for_good (demands : List Demand) (a b : Ty)
    (success : ((Substitution.empty.serveAll demands).1.unify a b).2 = true) :
    let σ := ((Substitution.empty.serveAll demands).1.unify a b).1
    (σ.resolve a).agrees (σ.resolve b) = true ∧
    ∀ later : List Demand,
      let τ := (σ.serveAll later).1
      (τ.resolve a).agrees (τ.resolve b) = true ∧ τ.unify a b = (τ, true) := by
  have triangular : (Substitution.empty.serveAll demands).1.Triangular :=
    Substitution.Triangular.empty.serveAll demands
  refine ⟨triangular.agrees_of_unify success [], fun later => ?_⟩
  have agree := triangular.agrees_of_unify success later
  exact ⟨agree, Substitution.unify_of_agrees agree⟩

/-- `Pair<P, A> = Pair<Vec<Q>, B>`, which fails and leaves `P` bound. -/
def halfMetPair : List Demand :=
  [.types (.ctor "Pair" [.var 0 "P", .ctor "A" []])
    (.ctor "Pair" [.ctor "Vec" [.var 1 "Q"], .ctor "B" []])]

/-- `R = Vec<P>`, then `R = A`. -/
def laterOnR : List Demand :=
  [.types (.var 2 "R") (.ctor "Vec" [.var 0 "P"]), .types (.var 2 "R") (.ctor "A" [])]

/-- `Pair<P> = Pair<Vec<R>, B>` is met in spite of what failed before, and stays so in spite of what
fails later. -/
theorem short_pair_agrees_for_good :
    let short : Ty := .ctor "Pair" [.var 0 "P"]
    let long : Ty := .ctor "Pair" [.ctor "Vec" [.var 2 "R"], .ctor "B" []]
    let met := (Substitution.empty.serveAll halfMetPair).1.unify short long
    let after := (met.1.serveAll laterOnR).1
    met.2 = true ∧ (met.1.serveAll laterOnR).2 = [false, true] ∧
      (after.resolve short).agrees (after.resolve long) = true ∧
      after.unify short long = (after, true) :=
  ⟨by decide, by decide, (unified_types_agree_for_good halfMetPair _ _ (by decide)).2 laterOnR⟩

end TraitCoherence
