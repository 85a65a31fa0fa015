import Mathlib.Data.Fintype.EquivFin
import Mathlib.Data.Set.Finite.List
import Mathlib.Logic.Equiv.Nat
import TraitCoherence.Proofs.Coexistence

namespace TraitCoherence

/-- Names for any number of things, none of them taken by a table. -/
theorem Table.exists_fresh {α : Type} (table : Table α) :
    ∃ fresh : Int → String, Function.Injective fresh ∧ ∀ x, table.get? (fresh x) = none := by
  have untaken : {name | name ∈ table.names}ᶜ.Infinite :=
    (List.finite_toSet table.names).infinite_compl
  let supply := untaken.natEmbedding
  refine ⟨fun x => supply (Equiv.intEquivNat x), fun x y same => ?_, fun x => ?_⟩
  · exact Equiv.intEquivNat.injective (supply.injective (Subtype.ext same))
  · refine List.lookup_eq_none_iff.mpr fun entry member => ?_
    have free := (supply (Equiv.intEquivNat x)).property
    simpa using fun same => free (List.mem_map.mpr ⟨entry, member, same.symm⟩)

theorem Ty.instantiate_of_closed {ty : Ty} (closed : ty.vars = []) (θ : Int → Ty) :
    ty.instantiate θ = ty := by
  refine Eq.trans (Ty.substitute_congr fun x occurs label => ?_) ty.substitute_self
  rw [closed] at occurs
  cases occurs

theorem TraitRef.instantiate_of_closed {trait : TraitRef} (closed : ∀ arg ∈ trait.args, arg.vars = [])
    (θ : Int → Ty) : trait.instantiate θ = trait := by
  have args : trait.args.map (Ty.instantiate θ) = trait.args := by
    rw [List.map_congr_left fun arg member => Ty.instantiate_of_closed (closed arg member) θ,
      List.map_id']
  exact congrArg (TraitRef.mk trait.name) args

/-- The least world in which every parameter has the traits that its bound demands. -/
def World.least (catalog : Catalog) (bounds : BoundTable) (assignment : Assignment) :
    World catalog where
  implements ty trait := ∃ x bound, (x, some bound) ∈ bounds ∧ assignment x = ty ∧
    ∃ demanded ∈ bound.positive.members, catalog.Obliges (assignment.trait demanded).val trait.val
  closed := by
    rintro ty trait supertrait ⟨x, bound, declared, same, demanded, positive, obliges⟩ step
    exact ⟨x, bound, declared, same, demanded, positive, .tail obliges step⟩

/-- Where overlap is decided: unification did nothing but equate bounded parameters, no bound
mentions a parameter, and each bound outside the classes can be met. -/
structure Catalog.Decides (catalog : Catalog) (left right : ImplScheme) (σ : Substitution) : Prop where
  unanchored : ∀ varClass ∈ σ.classes, varClass.anchor = none
  bounded : ∀ varClass ∈ σ.classes, ∀ x ∈ varClass.members,
    ∃ bound, (x, some bound) ∈ left.bounds ++ right.bounds
  closed : ∀ x bound, (x, some bound) ∈ left.bounds ++ right.bounds →
    ∀ trait ∈ bound.positive.members ++ bound.negative.members, ∀ arg ∈ trait.args, arg.vars = []
  alone : ∀ x bound, (x, some bound) ∈ left.bounds ++ right.bounds →
    (∀ varClass ∈ σ.classes, x ∉ varClass.members) → (catalog.unsatisfiable [] bound).2 = .ok false

/-- Without anchors every variable stands for a variable. -/
theorem Substitution.Triangular.solution_var_of_unanchored {σ : Substitution}
    (triangular : σ.Triangular) (unanchored : ∀ varClass ∈ σ.classes, varClass.anchor = none) (z : Int) :
    ∃ root, σ.solution z = .var root "" := by
  rcases triangular.root_end z with free | ⟨name, args, member⟩
  · exact ⟨σ.root z, triangular.solution_eq_var_iff.mpr ⟨rfl, rfl, free⟩⟩
  · have linked : σ.Links (σ.root z) :=
      Substitution.links_of_bound (List.mem_map.mpr ⟨_, member, rfl⟩)
    obtain ⟨group, found, inside⟩ := Substitution.exists_mem_linked triangular linked
    have loose : σ.anchor? group = none :=
      unanchored ⟨group, σ.anchor? group⟩ (List.mem_map_of_mem (Substitution.mem_groups.mpr found))
    exact absurd member (triangular.anchor?_eq_none_iff.mp loose _ inside name args)

section

variable {catalog : Catalog} {left right : ImplScheme} {σ : Substitution}
  (decides : catalog.Decides left right σ) (pair : WellFormedPair catalog.sizes left right)
include decides pair

/-- What a member of a class demands entails nothing that a member forbids, or the class would have
been refuted. -/
theorem Catalog.Decides.not_entails_within {varClass : VarClass} (member : varClass ∈ σ.classes)
    (irrefutable : ¬ catalog.Refutes (left.bounds ++ right.bounds) varClass) {x y : Int}
    (inside : x ∈ varClass.members) (insideToo : y ∈ varClass.members) {bound boundToo : Bound}
    (declared : (x, some bound) ∈ left.bounds ++ right.bounds)
    (declaredToo : (y, some boundToo) ∈ left.bounds ++ right.bounds) {demanded forbidden : TraitRef}
    (positive : demanded ∈ bound.positive.members)
    (negative : forbidden ∈ boundToo.negative.members) : ¬ catalog.Entails demanded forbidden := by
  intro entails
  have each (z : Int) (inClass : z ∈ varClass.members) :
      ∃ own, (left.bounds ++ right.bounds).lookup z = some (some own) := by
    obtain ⟨own, declared⟩ := decides.bounded varClass member z inClass
    exact ⟨own, pair.lookup_iff.mpr declared⟩
  obtain ⟨joint, joined⟩ := joinBounds_eq_bound_iff.mpr each
  refine irrefutable ⟨decides.unanchored varClass member, joint, joined, ?_⟩
  rw [joinBounds_contradicts_iff pair.bounds_sized joined]
  exact ⟨demanded, forbidden, ⟨x, inside, bound, pair.lookup_iff.mpr declared, positive⟩,
    ⟨y, insideToo, boundToo, pair.lookup_iff.mpr declaredToo, negative⟩, entails⟩

theorem Catalog.Decides.not_contradicts_outside {x : Int}
    (outside : ∀ varClass ∈ σ.classes, x ∉ varClass.members) {bound : Bound}
    (declared : (x, some bound) ∈ left.bounds ++ right.bounds) : ¬ catalog.Contradicts bound := by
  intro contradicts
  have met := decides.alone x bound declared outside
  have sized := pair.bounds_sized x bound declared
  have answers := (catalog.fits_sizes.unsatisfiable (.nil catalog _) sized).2
  exact absurd ((answers false met).mpr contradicts) Bool.false_ne_true

/-- What a parameter demands entails nothing that one with the same type forbids. -/
theorem Catalog.Decides.not_entails (unified : Unified left right σ)
    (unrefuted : ∀ varClass ∈ σ.classes, ¬ catalog.Refutes (left.bounds ++ right.bounds) varClass)
    {x y : Int} {bound boundToo : Bound} (declared : (x, some bound) ∈ left.bounds ++ right.bounds)
    (declaredToo : (y, some boundToo) ∈ left.bounds ++ right.bounds)
    (same : σ.solution x = σ.solution y) {demanded forbidden : TraitRef}
    (positive : demanded ∈ bound.positive.members)
    (negative : forbidden ∈ boundToo.negative.members) : ¬ catalog.Entails demanded forbidden := by
  have param {z : Int} {own : Bound} (declared : (z, some own) ∈ left.bounds ++ right.bounds) :
      z ∈ left.params ++ right.params := List.map_append ▸ List.mem_map.mpr ⟨_, declared, rfl⟩
  by_cases one : x = y
  · subst one
    by_cases grouped : ∃ varClass ∈ σ.classes, x ∈ varClass.members
    · obtain ⟨varClass, member, inside⟩ := grouped
      exact decides.not_entails_within pair member (unrefuted varClass member) inside inside declared
        declaredToo positive negative
    · have bounds := (pair.lookup_iff.mpr declared).symm.trans (pair.lookup_iff.mpr declaredToo)
      cases bounds
      have consistent := decides.not_contradicts_outside pair
        (fun varClass member inside => grouped ⟨varClass, member, inside⟩) declared
      exact fun entails => consistent ⟨demanded, positive, forbidden, negative, entails⟩
  · -- Two parameters with one type have been linked, so that one class holds both.
    have inside : x ∈ inseparable left right x := unified.mem_inseparable.mpr ⟨param declared, rfl⟩
    have insideToo : y ∈ inseparable left right x :=
      unified.mem_inseparable.mpr ⟨param declaredToo, same⟩
    obtain ⟨root, stands⟩ := unified.triangular.solution_var_of_unanchored decides.unanchored x
    obtain ⟨group, found, _, whole⟩ := unified.group_of_class inside insideToo one stands
    have member : ⟨group, σ.anchor? group⟩ ∈ σ.classes := List.mem_map_of_mem found
    exact decides.not_entails_within pair member (unrefuted _ member) ((whole x).mpr inside)
      ((whole y).mpr insideToo) declared declaredToo positive negative

end

/-- The types that parameters get when every free variable gets one. -/
def Substitution.ground (σ : Substitution) (free : Assignment) : Assignment :=
  fun x => free.type (σ.solution x)

theorem Substitution.ground_type (σ : Substitution) (free : Assignment) (ty : Ty) :
    (σ.ground free).type ty = free.type (ty.instantiate σ.solution) :=
  Subtype.ext (Ty.instantiate_instantiate σ.solution _ ty).symm

/-- Two impls coexist in the least world over fresh constants, one for each free variable. -/
theorem Catalog.Decides.coexist {catalog : Catalog} {left right : ImplScheme} {σ : Substitution}
    (decides : catalog.Decides left right σ) (unified : Unified left right σ)
    (pair : WellFormedPair catalog.sizes left right)
    (unrefuted : ∀ varClass ∈ σ.classes, ¬ catalog.Refutes (left.bounds ++ right.bounds) varClass) :
    ∃ (world : World catalog) (assignment : Assignment),
      (∀ x, ∃ name, catalog.structs.get? name = none ∧ (assignment x).val = .ctor name []) ∧
      Coexist world assignment left right := by
  obtain ⟨fresh, injective, undeclared⟩ := catalog.structs.exists_fresh
  let constants : Assignment := fun x => ⟨.ctor (fresh x) [], rfl⟩
  let assignment := σ.ground constants
  have stands (x : Int) :
      ∃ root, σ.solution x = .var root "" ∧ (assignment x).val = .ctor (fresh root) [] := by
    obtain ⟨root, solved⟩ := unified.triangular.solution_var_of_unanchored decides.unanchored x
    refine ⟨root, solved, ?_⟩
    show (σ.solution x).instantiate _ = _
    rw [solved]
    rfl
  -- Different constants tell apart whatever unification has not equated.
  have apart {x y : Int} (same : assignment x = assignment y) : σ.solution x = σ.solution y := by
    obtain ⟨root, solved, atX⟩ := stands x
    obtain ⟨other, solvedToo, atY⟩ := stands y
    have names := atX.symm.trans ((congrArg Subtype.val same).trans atY)
    rw [solved, solvedToo, injective (Ty.ctor.inj names).1]
  refine ⟨.least catalog (left.bounds ++ right.bounds) assignment, assignment, fun x => ?_, ?_⟩
  · obtain ⟨root, _, here⟩ := stands x
    exact ⟨fresh root, undeclared root, here⟩
  refine ⟨unified.unifies.name, fun pair member => ?_, ?_, ?_, ?_⟩
  · rw [σ.ground_type, σ.ground_type]
    exact Subtype.ext ((unified.unifies.args pair member).instantiate_eq _)
  · rw [σ.ground_type, σ.ground_type]
    exact Subtype.ext (unified.unifies.target.instantiate_eq _)
  · exact fun x bound declared trait positive => ⟨x, bound, declared, rfl, trait, positive, .refl⟩
  · intro y boundToo declaredToo forbidden negative implements
    obtain ⟨x, bound, declared, same, demanded, positive, obliges⟩ := implements
    have plain : (assignment.trait demanded).val = demanded := TraitRef.instantiate_of_closed
      (decides.closed x bound declared demanded (List.mem_append_left _ positive)) _
    have plainToo : (assignment.trait forbidden).val = forbidden := TraitRef.instantiate_of_closed
      (decides.closed y boundToo declaredToo forbidden (List.mem_append_right _ negative)) _
    rw [plain, plainToo] at obliges
    exact decides.not_entails pair unified unrefuted declared declaredToo (apart same) positive
      negative ⟨forbidden, obliges, rfl⟩

/-- Where unification only equates bounded parameters, bounds mention no parameter and single bounds
can be met, an overlap is real: over fresh constants, both impls apply to one instance. -/
theorem overlap_realized_by_fresh_constants (catalog : Catalog) (first second : ImplDecl)
    (overlap : (catalog.compare first second).result = .ok .overlap) :
    ∃ left right σ, catalog.elaboratePair first second = .ok (left, right) ∧
      unifySchemes left right = some σ ∧
      (catalog.Decides left right σ →
        ∃ (world : World catalog) (assignment : Assignment),
          (∀ x, ∃ name, catalog.structs.get? name = none ∧ (assignment x).val = .ctor name []) ∧
          Coexist world assignment left right) := by
  obtain ⟨left, right, σ, elaborated, done, pair, unified, unrefuted⟩ := Catalog.compare_overlap overlap
  exact ⟨left, right, σ, elaborated, done, fun decides => decides.coexist unified pair unrefuted⟩

/-- `impl<P: Copy, R: -Clone> Show for P {}`. -/
def showCopiedBeside : ImplDecl :=
  ⟨[.ofTerms "P" [.apply (.placeless "Copy") []] [], .ofTerms "R" [] [.apply (.placeless "Clone") []]],
    .apply (.placeless "Show") [], .apply (.placeless "P") []⟩

/-- `impl<Q: Clone> Show for Q {}`. -/
def showCloned : ImplDecl :=
  ⟨[.ofTerms "Q" [.apply (.placeless "Clone") []] []], .apply (.placeless "Show") [],
    .apply (.placeless "Q") []⟩

theorem show_overlap_realized :
    (showCatalog.compare showCopiedBeside showCloned).result = .ok .overlap ∧
      ∃ left right σ, showCatalog.elaboratePair showCopiedBeside showCloned = .ok (left, right) ∧
        unifySchemes left right = some σ ∧ showCatalog.Decides left right σ ∧
        ∃ (world : World showCatalog) (assignment : Assignment),
          (∀ x, ∃ name, showCatalog.structs.get? name = none ∧ (assignment x).val = .ctor name []) ∧
          Coexist world assignment left right := by
  have overlap : (showCatalog.compare showCopiedBeside showCloned).result = .ok .overlap := rfl
  obtain ⟨left, right, σ, elaborated, unified, realized⟩ :=
    overlap_realized_by_fresh_constants showCatalog showCopiedBeside showCloned overlap
  cases elaborated
  cases unified
  suffices decides : showCatalog.Decides _ _ _ from
    ⟨overlap, _, _, _, rfl, rfl, decides, realized decides⟩
  -- The one class is that of `P` and `Q`; `R` stands alone.
  refine ⟨List.forall_mem_singleton.mpr rfl, List.forall_mem_singleton.mpr ?_, ?_, ?_⟩
  · intro x inside
    rcases List.mem_pair.mp inside with rfl | rfl
    · exact ⟨_, List.mem_cons_self⟩
    · exact ⟨_, List.mem_cons_of_mem _ (List.mem_cons_of_mem _ List.mem_cons_self)⟩
  · intro x bound declared
    simp only [List.cons_append, List.nil_append, List.mem_cons, Prod.mk.injEq, Option.some.injEq,
      List.not_mem_nil, or_false] at declared
    rcases declared with ⟨rfl, rfl⟩ | ⟨rfl, rfl⟩ | ⟨rfl, rfl⟩ <;> decide
  · intro x bound declared outside
    have elsewhere : x ∉ [0, 2] := outside ⟨[0, 2], none⟩ (List.mem_singleton_self _)
    simp only [List.cons_append, List.nil_append, List.mem_cons, Prod.mk.injEq, Option.some.injEq,
      List.not_mem_nil, or_false] at declared
    rcases declared with ⟨rfl, rfl⟩ | ⟨rfl, rfl⟩ | ⟨rfl, rfl⟩
    · exact absurd (by decide) elsewhere
    · rfl
    · exact absurd (by decide) elsewhere

end TraitCoherence
