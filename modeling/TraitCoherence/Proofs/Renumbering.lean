import Mathlib.Logic.Equiv.Defs
import TraitCoherence.Proofs.Schemes

namespace TraitCoherence

/-- Gives variables other numbers and leaves them their labels. -/
def renumbered (ρ : Int ≃ Int) (x : Int) (label : String) : Ty := .var (ρ x) label

theorem Ty.instantiate_renumber (θ : Int → Ty) (ρ : Int ≃ Int) (ty : Ty) :
    (ty.substitute (renumbered ρ)).instantiate θ = ty.instantiate fun x => θ (ρ x) :=
  Ty.substitute_substitute _ _ ty

theorem TraitRef.Alike.renumber {a b : TraitRef} (alike : a.Alike b) (ρ : Int ≃ Int) :
    (a.substitute (renumbered ρ)).Alike (b.substitute (renumbered ρ)) := by
  have images := alike.instantiate_eq fun x => .var (ρ x) ""
  rw [TraitRef.Alike, TraitRef.unlabeled, TraitRef.unlabeled, TraitRef.instantiate,
    TraitRef.instantiate, TraitRef.substitute_substitute, TraitRef.substitute_substitute]
  exact images

theorem TraitRef.agrees_renumber (ρ : Int ≃ Int) (a b : TraitRef) :
    (a.substitute (renumbered ρ)).agrees (b.substitute (renumbered ρ)) = a.agrees b :=
  TraitRef.agrees_rename ρ.injective id a b

def TraitSet.renumber (ρ : Int ≃ Int) (set : TraitSet) : TraitSet :=
  ⟨set.members.map (TraitRef.substitute (renumbered ρ)), by
    simpa only [List.pairwise_map, TraitRef.agrees_renumber] using set.distinct⟩

theorem TraitSet.insert_renumber (ρ : Int ≃ Int) (set : TraitSet) (trait : TraitRef) :
    (set.renumber ρ).insert (trait.substitute (renumbered ρ)) = (set.insert trait).renumber ρ := by
  simp only [TraitSet.insert, TraitSet.renumber, TraitSet.mk.injEq, addNew, List.any_map,
    Function.comp_def, TraitRef.agrees_renumber]
  split
  · rfl
  · rw [List.map_append, List.map_singleton]

theorem TraitSet.ofList_renumber (ρ : Int ≃ Int) (traits : List TraitRef) :
    TraitSet.ofList (traits.map (TraitRef.substitute (renumbered ρ))) =
      (TraitSet.ofList traits).renumber ρ := by
  have each (set : TraitSet) : (traits.map (TraitRef.substitute (renumbered ρ))).foldl
      TraitSet.insert (set.renumber ρ) = (traits.foldl TraitSet.insert set).renumber ρ := by
    induction traits generalizing set with
    | nil => rfl
    | cons trait traits ih => rw [List.map_cons, List.foldl_cons, TraitSet.insert_renumber, ih]; rfl
  exact each .empty

def Bound.renumber (ρ : Int ≃ Int) (bound : Bound) : Bound :=
  ⟨bound.positive.renumber ρ, bound.negative.renumber ρ⟩

def BoundTable.renumber (ρ : Int ≃ Int) (bounds : BoundTable) : BoundTable :=
  bounds.map fun entry => (ρ entry.1, entry.2.map (Bound.renumber ρ))

def ImplScheme.renumber (ρ : Int ≃ Int) (scheme : ImplScheme) : ImplScheme :=
  ⟨scheme.trait.substitute (renumbered ρ), scheme.target.substitute (renumbered ρ),
    BoundTable.renumber ρ scheme.bounds⟩

theorem Catalog.Resembles.elaborateBound {catalog other : Catalog} (same : catalog.Resembles other)
    (ρ : Int ≃ Int) (scope : Scope) (expr : BoundExpr) :
    other.elaborateBound (scope.substitute (renumbered ρ)) expr =
      (catalog.elaborateBound scope expr).map (Bound.renumber ρ) := by
  rw [Catalog.elaborateBound, Catalog.elaborateBound, same.elaborateTraits, same.elaborateTraits]
  cases catalog.elaborateTraits scope expr.positive with
  | error error => rfl
  | ok positive =>
    cases catalog.elaborateTraits scope expr.negative with
    | error error => rfl
    | ok negative =>
      simp only [Except.map, Bound.renumber, TraitSet.ofList_renumber]

theorem Catalog.Resembles.elaborateParam {catalog other : Catalog} (same : catalog.Resembles other)
    (ρ : Int ≃ Int) (scope : Scope) (param : Param) :
    other.elaborateParam (scope.substitute (renumbered ρ)) param =
      (catalog.elaborateParam scope param).map (Option.map (Bound.renumber ρ)) := by
  rw [Catalog.elaborateParam, Catalog.elaborateParam]
  cases param.bound with
  | none => rfl
  | some bound =>
    simp only [same.elaborateBound]
    cases catalog.elaborateBound scope bound <;> rfl

/-- Parameters that are numbered from elsewhere on are the same but for their numbers. -/
theorem Catalog.Resembles.elaborateParams {catalog other : Catalog}
    (same : catalog.Resembles other) {ρ : Int ≃ Int} {next start : Int} {params : List Param}
    (shift : ∀ i : Nat, i < params.length → ρ (next + i) = start + i) (scope : Scope) :
    (other.elaborateParams (scope.substitute (renumbered ρ)) start params).2 =
      (catalog.elaborateParams scope next params).2.map fun result =>
        (result.1.substitute (renumbered ρ), BoundTable.renumber ρ result.2) := by
  induction params generalizing scope next start with
  | nil => rfl
  | cons param params ih =>
    rw [Catalog.elaborateParams, Catalog.elaborateParams, same.elaborateParam]
    cases catalog.elaborateParam scope param with
    | error error => rfl
    | ok bound =>
      have first : ρ next = start := by simpa using shift 0 (Nat.succ_pos _)
      have later (i : Nat) (below : i < params.length) : ρ (next + 1 + i) = start + 1 + i := by
        have here := shift (i + 1) (Nat.succ_lt_succ below)
        rw [Int.natCast_add, Int.natCast_one, Int.add_comm _ 1, ← Int.add_assoc, ← Int.add_assoc]
          at here
        exact here
      -- The scope that the later parameters see is the renumbered one, this parameter included.
      have rest := ih later ((param.name.text, .var next param.name.text) :: scope)
      rw [Scope.substitute, List.map_cons, Ty.substitute_var, renumbered, first] at rest
      simp only [Except.map, Scope.substitute]
      generalize catalog.elaborateParams ((param.name.text, .var next param.name.text) :: scope)
        (next + 1) params = plain at rest ⊢
      generalize other.elaborateParams _ (start + 1) params = renamed at rest ⊢
      obtain ⟨after, result⟩ := plain
      obtain ⟨last, image⟩ := renamed
      subst rest
      cases result with
      | error error => rfl
      | ok result => simp only [Except.map, BoundTable.renumber, List.map_cons, first]; rfl

/-- An impl whose variables are numbered from elsewhere on is the same but for their numbers. -/
theorem Catalog.Resembles.elaborateImpl {catalog other : Catalog} (same : catalog.Resembles other)
    {ρ : Int ≃ Int} {next start : Int} {decl : ImplDecl}
    (shift : ∀ i : Nat, i < decl.params.length → ρ (next + i) = start + i) :
    (other.elaborateImpl start decl).2 =
      (catalog.elaborateImpl next decl).2.map (ImplScheme.renumber ρ) := by
  have params : (other.elaborateParams [] start decl.params).2 = _ := same.elaborateParams shift []
  rw [Catalog.elaborateImpl, Catalog.elaborateImpl]
  generalize catalog.elaborateParams [] next decl.params = plain at params ⊢
  generalize other.elaborateParams [] start decl.params = renamed at params ⊢
  obtain ⟨after, result⟩ := plain
  obtain ⟨last, image⟩ := renamed
  subst params
  cases result with
  | error error => rfl
  | ok result =>
    obtain ⟨scope, bounds⟩ := result
    simp only [Except.map, same.elaborateTrait, same.elaborateType]
    cases catalog.elaborateTrait scope decl.head with
    | error error => rfl
    | ok trait => cases catalog.elaborateType scope decl.target <;> rfl

end TraitCoherence
