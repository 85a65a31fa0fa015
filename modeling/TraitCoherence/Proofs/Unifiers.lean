import Mathlib.Data.Set.Defs
import TraitCoherence.Proofs.Anchors
import TraitCoherence.Proofs.MostGeneral
import TraitCoherence.Proofs.Schemes

namespace TraitCoherence

/-- `θ` gives two impls one head and one target, labels aside. Heads have one name, and arguments count
as far as the shorter list goes. -/
structure Unifies (θ : Int → Ty) (left right : ImplScheme) : Prop where
  name : left.trait.name = right.trait.name
  args : ∀ pair ∈ left.trait.args.zip right.trait.args,
    (pair.1.instantiate θ).Alike (pair.2.instantiate θ)
  target : (left.target.instantiate θ).Alike (right.target.instantiate θ)

/-- What two impls demand of a unifier. -/
def demandsOf (left right : ImplScheme) : List Demand :=
  [.traits left.trait right.trait, .types left.target right.target]

theorem unifies_iff_met {θ : Int → Ty} {left right : ImplScheme} :
    Unifies θ left right ↔ ∀ demand ∈ demandsOf left right, demand.Met θ := by
  simp only [demandsOf, List.forall_mem_cons, Demand.Met, List.not_mem_nil, false_implies,
    implies_true, and_true, and_assoc]
  exact ⟨fun unifies => ⟨unifies.name, unifies.args, unifies.target⟩,
    fun met => ⟨met.1, met.2.1, met.2.2⟩⟩

/-- The parameters that every unifier gives the type that it gives to `v`. -/
def inseparable (left right : ImplScheme) (v : Int) : Set Int :=
  {w | w ∈ left.params ++ right.params ∧ ∀ θ, Unifies θ left right → (θ v).Alike (θ w)}

/-- What unifying two impls leaves behind: its solution is a unifier, every other absorbs the
bindings, and nothing but parameters is linked. -/
structure Unified (left right : ImplScheme) (σ : Substitution) : Prop where
  triangular : σ.Triangular
  unifies : Unifies σ.solution left right
  absorbedBy : ∀ θ, Unifies θ left right → σ.AbsorbedBy fun x => (θ x).unlabeled
  params : ∀ z, σ.Links z → z ∈ left.params ++ right.params

theorem Substitution.mem_scope_of_links {σ : Substitution} {scope : List Int}
    (keys : ∀ y ∈ σ.bound, y ∈ scope) (values : ∀ y ∈ σ.valueVars, y ∈ scope) {z : Int}
    (linked : σ.Links z) : z ∈ scope := by
  obtain ⟨⟨x, value⟩, member, inside⟩ := linked
  have bound : x ∈ σ.bound := List.mem_map.mpr ⟨_, member, rfl⟩
  rcases mem_linkedBy.mp inside with rfl | next
  · exact keys _ bound
  · cases value with
    | var y label =>
      refine values z (List.mem_flatMap.mpr ⟨_, member, ?_⟩)
      exact List.mem_singleton.mpr next
    | ctor name args => exact (show z = x from next) ▸ keys x bound

theorem unifySchemes_eq_none {left right : ImplScheme} (refused : unifySchemes left right = none) :
    ∃ ok ∈ (Substitution.empty.serveAll (demandsOf left right)).2, ok = false := by
  simp only [demandsOf, Substitution.serveAll, Substitution.serve, List.mem_cons, List.not_mem_nil,
    or_false, exists_eq_or_imp, exists_eq_left]
  rw [unifySchemes] at refused
  split at refused
  · rename_i heads
    exact Or.inl (by rw [heads])
  · rename_i heads
    split at refused
    · rename_i targets
      exact Or.inr (by rw [heads, targets])
    · cases refused

theorem unifySchemes_eq_some {left right : ImplScheme} {σ : Substitution}
    (done : unifySchemes left right = some σ) :
    Substitution.empty.serveAll (demandsOf left right) = (σ, [true, true]) := by
  simp only [demandsOf, Substitution.serveAll, Substitution.serve]
  rw [unifySchemes] at done
  split at done
  · cases done
  · rename_i heads
    split at done
    · cases done
    · rename_i targets
      cases done
      rw [heads, targets]

theorem not_unifies_of_refused {left right : ImplScheme} (refused : unifySchemes left right = none) :
    ¬ ∃ θ, Unifies θ left right := by
  rintro ⟨θ, unifies⟩
  obtain ⟨ok, member, failed⟩ := unifySchemes_eq_none refused
  have start : Substitution.empty.Triangular := .empty
  have success := (start.serveAll_complete
    (fun binding bound => absurd bound List.not_mem_nil) (unifies_iff_met.mp unifies)).1 ok member
  exact absurd (failed.symm.trans success) Bool.false_ne_true

theorem ImplScheme.WellFormed.demands_sized {sizes : String → Nat} {left right : ImplScheme}
    {next other : Int} {count countToo : Nat} (wellFormed : left.WellFormed sizes next count)
    (wellFormedToo : right.WellFormed sizes other countToo) :
    ∀ demand ∈ demandsOf left right, demand.Sized sizes := by
  simp only [demandsOf, List.forall_mem_cons, Demand.Sized, List.not_mem_nil, false_implies,
    implies_true, and_true]
  exact ⟨⟨wellFormed.trait, wellFormedToo.trait⟩, wellFormed.target, wellFormedToo.target⟩

theorem ImplScheme.WellFormed.unified {sizes : String → Nat} {left right : ImplScheme}
    {next other : Int} {count countToo : Nat} (wellFormed : left.WellFormed sizes next count)
    (wellFormedToo : right.WellFormed sizes other countToo) {σ : Substitution}
    (done : unifySchemes left right = some σ) : Unified left right σ := by
  have start : Substitution.empty.Triangular := .empty
  have run := unifySchemes_eq_some done
  have small := wellFormed.demands_sized wellFormedToo
  have within : ∀ demand ∈ demandsOf left right, demand.Within (left.params ++ right.params) := by
    simp only [demandsOf, List.forall_mem_cons, Demand.Within, List.not_mem_nil, false_implies,
      implies_true, and_true]
    refine ⟨fun arg member x occurs => ?_, fun x occurs => ?_⟩
    · rw [List.mem_append]
      exact member.imp (wellFormed.traitVars arg · x occurs) (wellFormedToo.traitVars arg · x occurs)
    · rw [List.mem_append]
      exact occurs.imp (wellFormed.targetVars x) (wellFormedToo.targetVars x)
  have triangular := start.serveAll (demandsOf left right)
  have sized := start.serveAll_sized (fun _ member => absurd member List.not_mem_nil) small
  have vars := start.serveAll_vars (fun _ member => absurd member List.not_mem_nil)
    (fun _ member => absurd member List.not_mem_nil) within
  have solved := start.serveAll_sound small (θ := σ.solution)
  have general {θ : Int → Ty} (unifies : Unifies θ left right) :=
    (start.serveAll_complete (fun _ member => absurd member List.not_mem_nil)
      (unifies_iff_met.mp unifies)).2
  rw [run] at triangular sized vars solved general
  refine ⟨triangular, unifies_iff_met.mpr ?_, fun θ => general,
    fun z => Substitution.mem_scope_of_links vars.1 vars.2⟩
  refine solved ?_ sized.solution ?_
  · simp only [List.forall_mem_cons, List.not_mem_nil, false_implies, implies_true, and_self]
  · simp only [Substitution.unlabeled_solution]
    exact triangular.absorbedBy_solution

/-- The solution tells which variables have one type under every unifier. -/
theorem Unified.alike_iff {left right : ImplScheme} {σ : Substitution}
    (unified : Unified left right σ) {v w : Int} :
    (∀ θ, Unifies θ left right → (θ v).Alike (θ w)) ↔ σ.solution v = σ.solution w := by
  constructor
  · intro always
    have alike := always σ.solution unified.unifies
    rwa [Ty.Alike, σ.unlabeled_solution, σ.unlabeled_solution] at alike
  · intro same θ unifies
    have absorbed := unified.absorbedBy θ unifies
    rw [Ty.Alike, absorbed.factors v, absorbed.factors w, same]

theorem Unified.mem_inseparable {left right : ImplScheme} {σ : Substitution}
    (unified : Unified left right σ) {v w : Int} :
    w ∈ inseparable left right v ↔
      w ∈ left.params ++ right.params ∧ σ.solution v = σ.solution w :=
  and_congr_right fun _ => unified.alike_iff

/-- What some unifier leaves a variable was never bound to a struct. -/
theorem Unified.solution_eq_var {left right : ImplScheme} {σ : Substitution}
    (unified : Unified left right σ) {θ : Int → Ty} (unifies : Unifies θ left right) {v y : Int}
    {label : String} (stays : θ v = .var y label) : ∃ root, σ.solution v = .var root "" := by
  have factors := (unified.absorbedBy θ unifies).factors v
  rw [stays, Ty.unlabeled_var] at factors
  cases solved : σ.solution v with
  | var root other =>
    obtain ⟨rfl, _⟩ := unified.triangular.solution_eq_var_iff.mp solved
    exact ⟨root, rfl⟩
  | ctor name args =>
    rw [solved, Ty.instantiate_ctor] at factors
    exact absurd factors nofun

/-- An unanchored group is a whole class of parameters that no unifier tells apart, has several
members, and stands for a variable. -/
theorem Unified.class_of_group {left right : ImplScheme} {σ : Substitution}
    (unified : Unified left right σ) {group : List Int} (member : group ∈ σ.groups)
    (unanchored : σ.anchor? group = none) :
    ∃ root ∈ group, σ.solution root = .var root "" ∧ (∃ other ∈ group, other ≠ root) ∧
      ∀ z, z ∈ group ↔ z ∈ inseparable left right root := by
  obtain ⟨root, inside, free, same⟩ := unified.triangular.unanchored_group member unanchored
  obtain ⟨linked, rootSelf⟩ := (same root).mp inside
  obtain ⟨other, label, bound⟩ := Substitution.bound_to_of_links linked free
  have otherBound : other ∈ σ.bound := List.mem_map.mpr ⟨_, bound, rfl⟩
  have otherSolution : σ.solution other = .var root "" := by
    rw [unified.triangular.absorbedBy_solution _ bound, Ty.instantiate_var, rootSelf]
  refine ⟨root, inside, rootSelf, ⟨other, ?_, fun here => free (here ▸ otherBound)⟩, fun z => ?_⟩
  · exact (same other).mpr ⟨Substitution.links_of_bound otherBound, otherSolution⟩
  · rw [same, unified.mem_inseparable, rootSelf]
    constructor
    · rintro ⟨linkedZ, stands⟩
      exact ⟨unified.params z linkedZ, stands.symm⟩
    · rintro ⟨_, stands⟩
      -- A variable that stands for the root is the root itself or has been bound.
      refine ⟨?_, stands.symm⟩
      obtain ⟨_, rootZ, _⟩ := unified.triangular.solution_eq_var_iff.mp stands.symm
      by_cases here : z = root
      · exact here ▸ linked
      · exact Substitution.links_of_root_ne fun still => here (still.symm.trans rootZ)

/-- Every class of several parameters that no unifier tells apart, and that some unifier sends to a
variable, is an unanchored group. -/
theorem Unified.group_of_class {left right : ImplScheme} {σ : Substitution}
    (unified : Unified left right σ) {v w other root : Int}
    (inside : w ∈ inseparable left right v) (insideToo : other ∈ inseparable left right v)
    (several : w ≠ other) (stands : σ.solution v = .var root "") :
    ∃ group ∈ σ.groups, σ.anchor? group = none ∧
      ∀ z, z ∈ group ↔ z ∈ inseparable left right v := by
  have atW := (unified.mem_inseparable.mp inside).2.symm.trans stands
  have atOther := (unified.mem_inseparable.mp insideToo).2.symm.trans stands
  -- One of the two is not the root, hence bound, and its group is the class.
  obtain ⟨x, atX, moved⟩ : ∃ x, σ.solution x = .var root "" ∧ x ≠ root := by
    by_cases here : w = root
    · exact ⟨other, atOther, fun there => several (here.trans there.symm)⟩
    · exact ⟨w, atW, here⟩
  obtain ⟨group, member, unanchored, found⟩ := unified.triangular.exists_unanchored atX moved
  obtain ⟨centre, _, centreSelf, _, same⟩ := unified.class_of_group member unanchored
  have atCentre := (unified.mem_inseparable.mp ((same x).mp found)).2
  refine ⟨group, member, unanchored, fun z => ?_⟩
  rw [same, unified.mem_inseparable, unified.mem_inseparable, atCentre, atX, stands]

end TraitCoherence
