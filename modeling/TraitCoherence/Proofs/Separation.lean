import TraitCoherence.Proofs.Classes
import TraitCoherence.Proofs.Judging
import TraitCoherence.Proofs.Unifiers

namespace TraitCoherence

/-- Several parameters that every unifier makes one, that are not forced onto a struct, and that all
have bounds. -/
structure Linked (left right : ImplScheme) (members : Set Int) : Prop where
  whole : ∃ v ∈ left.params ++ right.params, members = inseparable left right v
  several : ∃ v ∈ members, ∃ w ∈ members, v ≠ w
  free : ∃ θ, Unifies θ left right ∧ ∃ y, ∀ v ∈ members, ∃ label, θ v = .var y label
  bounded : ∀ v ∈ members, ∃ bound, (v, some bound) ∈ left.bounds ++ right.bounds

/-- The bounds of some parameters, taken together, demand what they forbid. -/
def Catalog.Contradictory (catalog : Catalog) (bounds : BoundTable) (members : Set Int) : Prop :=
  ∃ demanded forbidden,
    (∃ v ∈ members, ∃ bound, (v, some bound) ∈ bounds ∧ demanded ∈ bound.positive.members) ∧
    (∃ v ∈ members, ∃ bound, (v, some bound) ∈ bounds ∧ forbidden ∈ bound.negative.members) ∧
    catalog.Entails demanded forbidden

/-- Linked parameters whose bounds, taken together, demand what they forbid. -/
structure Catalog.Excludes (catalog : Catalog) (left right : ImplScheme) (members : Set Int) : Prop
    extends Linked left right members where
  contradictory : catalog.Contradictory (left.bounds ++ right.bounds) members

theorem Catalog.excludes_iff {catalog : Catalog} {left right : ImplScheme} {members : Set Int} :
    catalog.Excludes left right members ↔
      Linked left right members ∧ catalog.Contradictory (left.bounds ++ right.bounds) members :=
  ⟨fun excludes => ⟨excludes.toLinked, excludes.contradictory⟩, fun both => ⟨both.1, both.2⟩⟩

/-- Two impls cannot meet: nothing unifies them, or some of their parameters cannot be one type. -/
def Catalog.Separated (catalog : Catalog) (left right : ImplScheme) : Prop :=
  (¬ ∃ θ, Unifies θ left right) ∨ ∃ members, catalog.Excludes left right members

/-- Two impls whose parameters are numbered from zero on, those of the second after the first's. -/
def WellFormedPair (sizes : String → Nat) (left right : ImplScheme) : Prop :=
  ∃ count, left.WellFormed sizes 0 count ∧ ∃ countToo, right.WellFormed sizes count countToo

theorem WellFormedPair.nodup_params {sizes : String → Nat} {left right : ImplScheme}
    (wellFormed : WellFormedPair sizes left right) : (left.params ++ right.params).Nodup := by
  obtain ⟨count, wellFormed, countToo, wellFormedToo⟩ := wellFormed
  rw [wellFormed.params, wellFormedToo.params, List.nodup_append]
  refine ⟨nodup_numbersFrom _ _, nodup_numbersFrom _ _, fun a member b memberToo same => ?_⟩
  have below := (mem_numbersFrom.mp member).2
  have above := (mem_numbersFrom.mp memberToo).1
  omega

theorem WellFormedPair.lookup_iff {sizes : String → Nat} {left right : ImplScheme}
    (wellFormed : WellFormedPair sizes left right) {x : Int} {entry : Option Bound} :
    (left.bounds ++ right.bounds).lookup x = some entry ↔ (x, entry) ∈ left.bounds ++ right.bounds := by
  refine ⟨mem_of_lookup_eq_some, lookup_eq_some_of_mem ?_⟩
  rw [List.map_append]
  exact wellFormed.nodup_params

theorem WellFormedPair.lookup_param {sizes : String → Nat} {left right : ImplScheme}
    (wellFormed : WellFormedPair sizes left right) {x : Int}
    (param : x ∈ left.params ++ right.params) :
    ∃ entry, (left.bounds ++ right.bounds).lookup x = some entry := by
  rw [ImplScheme.params, ImplScheme.params, ← List.map_append] at param
  obtain ⟨⟨y, entry⟩, member, rfl⟩ := List.mem_map.mp param
  exact ⟨entry, wellFormed.lookup_iff.mpr member⟩

/-- Nothing but parameters is put into classes. -/
theorem Unified.mem_params {left right : ImplScheme} {σ : Substitution}
    (unified : Unified left right σ) {varClass : VarClass} (member : varClass ∈ σ.classes) {x : Int}
    (inside : x ∈ varClass.members) : x ∈ left.params ++ right.params :=
  unified.params x (unified.triangular.exists_class_iff.mp ⟨varClass, member, inside⟩)

/-- What is joined for a class has an entry in the table. -/
theorem Unified.covers {sizes : String → Nat} {left right : ImplScheme} {σ : Substitution}
    (unified : Unified left right σ) (wellFormed : WellFormedPair sizes left right) :
    ∀ varClass ∈ σ.classes, (left.bounds ++ right.bounds).Covers varClass.members :=
  fun _ member _ inside => wellFormed.lookup_param (unified.mem_params member inside)

theorem WellFormedPair.bounds_sized {sizes : String → Nat} {left right : ImplScheme}
    (wellFormed : WellFormedPair sizes left right) :
    BoundTable.Sized sizes (left.bounds ++ right.bounds) := by
  obtain ⟨count, wellFormed, countToo, wellFormedToo⟩ := wellFormed
  intro x bound member
  rcases List.mem_append.mp member with first | second
  · exact wellFormed.bounds x bound first
  · exact wellFormedToo.bounds x bound second

/-- The bounds of a class can be joined when each member has one, so a condition on the joined bound
is one on the bounds of the members. -/
theorem WellFormedPair.joined_iff {sizes : String → Nat} {left right : ImplScheme}
    (wellFormed : WellFormedPair sizes left right) {members : List Int} {condition : Bound → Prop}
    {meaning : Prop}
    (agree : ∀ bound, joinBounds (left.bounds ++ right.bounds) .empty members = .bound bound →
      (condition bound ↔ meaning)) :
    (∃ bound, joinBounds (left.bounds ++ right.bounds) .empty members = .bound bound ∧
      condition bound) ↔
      (∀ x ∈ members, ∃ bound, (x, some bound) ∈ left.bounds ++ right.bounds) ∧ meaning := by
  simp only [← wellFormed.lookup_iff]
  rw [← joinBounds_eq_bound_iff]
  constructor
  · rintro ⟨bound, joined, holds⟩
    exact ⟨⟨bound, joined⟩, (agree bound joined).mp holds⟩
  · rintro ⟨⟨bound, joined⟩, holds⟩
    exact ⟨bound, joined, (agree bound joined).mpr holds⟩

theorem WellFormedPair.refutes_iff {catalog : Catalog} {sizes : String → Nat}
    {left right : ImplScheme} (wellFormed : WellFormedPair sizes left right) {varClass : VarClass} :
    catalog.Refutes (left.bounds ++ right.bounds) varClass ↔ varClass.anchor = none ∧
      (∀ x ∈ varClass.members, ∃ bound, (x, some bound) ∈ left.bounds ++ right.bounds) ∧
      catalog.Contradictory (left.bounds ++ right.bounds) {x | x ∈ varClass.members} := by
  refine and_congr_right fun _ => wellFormed.joined_iff fun bound joined => ?_
  rw [joinBounds_contradicts_iff wellFormed.bounds_sized joined]
  simp only [wellFormed.lookup_iff]
  rfl

/-- The linked parameters are the classes that have no anchor and no member without a bound. -/
theorem Unified.linked_iff {left right : ImplScheme} {σ : Substitution}
    (unified : Unified left right σ) (condition : Set Int → Prop) :
    (∃ members, Linked left right members ∧ condition members) ↔
      ∃ varClass ∈ σ.classes, varClass.anchor = none ∧
        (∀ x ∈ varClass.members, ∃ bound, (x, some bound) ∈ left.bounds ++ right.bounds) ∧
        condition {x | x ∈ varClass.members} := by
  constructor
  · rintro ⟨members, linked, holds⟩
    obtain ⟨v, vParam, rfl⟩ := linked.whole
    obtain ⟨w, inside, other, insideToo, differ⟩ := linked.several
    obtain ⟨θ, unifies, y, stays⟩ := linked.free
    obtain ⟨label, atV⟩ := stays v (unified.mem_inseparable.mpr ⟨vParam, rfl⟩)
    obtain ⟨root, stands⟩ := unified.solution_eq_var unifies atV
    -- A unifier that leaves one of the members a variable leaves the class without an anchor.
    obtain ⟨group, member, unanchored, same⟩ := unified.group_of_class inside insideToo differ stands
    refine ⟨⟨group, σ.anchor? group⟩, List.mem_map_of_mem member, unanchored,
      fun x found => linked.bounded x ((same x).mp found), ?_⟩
    rwa [show {x | x ∈ group} = inseparable left right v from Set.ext same]
  · rintro ⟨varClass, member, unanchored, every, holds⟩
    obtain ⟨group, found, rfl⟩ := List.mem_map.mp member
    obtain ⟨root, inside, rootSelf, ⟨other, insideToo, differ⟩, same⟩ :=
      unified.class_of_group found unanchored
    have whole : {x | x ∈ group} = inseparable left right root := Set.ext same
    refine ⟨{x | x ∈ group}, ⟨⟨root, ((same root).mp inside).1, whole⟩,
      ⟨other, insideToo, root, inside, differ⟩,
      ⟨σ.solution, unified.unifies, root, fun v member => ⟨"", ?_⟩⟩, every⟩, holds⟩
    rw [← (unified.mem_inseparable.mp ((same v).mp member)).2, rootSelf]

theorem Unified.excludes_iff {catalog : Catalog} {sizes : String → Nat} {left right : ImplScheme}
    {σ : Substitution} (unified : Unified left right σ)
    (wellFormed : WellFormedPair sizes left right) :
    (∃ members, catalog.Excludes left right members) ↔
      ∃ varClass ∈ σ.classes, catalog.Refutes (left.bounds ++ right.bounds) varClass := by
  simp only [Catalog.excludes_iff, wellFormed.refutes_iff, unified.linked_iff]

/-- A comparison that comes to a verdict finds two impls disjoint exactly when they are separated. -/
theorem Catalog.compare_ok {catalog : Catalog} {first second : ImplDecl} {verdict : Verdict}
    (compared : (catalog.compare first second).result = .ok verdict) :
    ∃ left right, catalog.elaboratePair first second = .ok (left, right) ∧
      (verdict = .disjoint ↔ catalog.Separated left right) := by
  rw [Catalog.compare] at compared
  split at compared
  · cases compared
  · rename_i left right elaborated
    refine ⟨left, right, elaborated, ?_⟩
    have fits := catalog.fits_sizes
    obtain ⟨wellFormed, wellFormedToo⟩ := fits.elaboratePair elaborated
    have pair : WellFormedPair catalog.sizes left right := ⟨_, wellFormed, _, wellFormedToo⟩
    split at compared
    · rename_i refused
      cases compared
      exact iff_of_true rfl (Or.inl (not_unifies_of_refused refused))
    · rename_i σ done
      have unified := wellFormed.unified wellFormedToo done
      rw [fits.judgeClasses pair.bounds_sized (.nil catalog _) compared, ← unified.excludes_iff pair]
      have solvable : ∃ θ, Unifies θ left right := ⟨_, unified.unifies⟩
      exact ⟨Or.inr, fun separated => separated.resolve_left fun refused => refused solvable⟩

/-- Impls that are found to overlap were unified, and no class was refuted. -/
theorem Catalog.compare_overlap {catalog : Catalog} {first second : ImplDecl}
    (overlap : (catalog.compare first second).result = .ok .overlap) :
    ∃ left right σ, catalog.elaboratePair first second = .ok (left, right) ∧
      unifySchemes left right = some σ ∧ WellFormedPair catalog.sizes left right ∧
      Unified left right σ ∧
      ∀ varClass ∈ σ.classes, ¬ catalog.Refutes (left.bounds ++ right.bounds) varClass := by
  obtain ⟨left, right, elaborated, disjoint⟩ := Catalog.compare_ok overlap
  obtain ⟨wellFormed, wellFormedToo⟩ := catalog.fits_sizes.elaboratePair elaborated
  have pair : WellFormedPair catalog.sizes left right := ⟨_, wellFormed, _, wellFormedToo⟩
  have joint : ¬ catalog.Separated left right := fun separated => absurd (disjoint.mpr separated) nofun
  cases done : unifySchemes left right with
  | none => exact absurd (Or.inl (not_unifies_of_refused done)) joint
  | some σ =>
    have unified := wellFormed.unified wellFormedToo done
    refine ⟨left, right, σ, elaborated, done, pair, unified, fun varClass member refuted => joint ?_⟩
    exact Or.inr ((unified.excludes_iff pair).mpr ⟨varClass, member, refuted⟩)

/-- The verdict is disjoint exactly when no substitution unifies the two impls, or some class of
parameters that all unifiers equate is bounded throughout, fixed to no struct and contradictory. -/
theorem compare_disjoint_iff_no_unifier_or_excluded (catalog : Catalog) (first second : ImplDecl)
    (verdict : Verdict) (compared : (catalog.compare first second).result = .ok verdict) :
    ∃ left right, catalog.elaboratePair first second = .ok (left, right) ∧
      (verdict = .disjoint ↔ (¬ ∃ θ, Unifies θ left right) ∨
        ∃ members : Set Int, catalog.Excludes left right members) ∧
      (verdict = .overlap ↔ ¬ ((¬ ∃ θ, Unifies θ left right) ∨
        ∃ members : Set Int, catalog.Excludes left right members)) := by
  obtain ⟨left, right, elaborated, disjoint⟩ := Catalog.compare_ok compared
  refine ⟨left, right, elaborated, disjoint, ?_⟩
  rw [Catalog.Separated] at disjoint
  rw [← disjoint]
  cases verdict <;> simp

/-- `trait Show {}`, `trait Clone {}` and `trait Copy: Clone {}`. -/
def copyTraits : Table TraitDecl :=
  ⟨[("Show", ⟨.placeless "Show", [], none⟩), ("Clone", ⟨.placeless "Clone", [], none⟩),
    ("Copy", ⟨.placeless "Copy", [], some ⟨[.apply (.placeless "Clone") []], []⟩⟩)]⟩

/-- `impl<P: Copy> Show for P {}`. -/
def showCopied : ImplDecl :=
  ⟨[.ofTerms "P" [.apply (.placeless "Copy") []] []], .apply (.placeless "Show") [],
    .apply (.placeless "P") []⟩

/-- `impl<Q: - Clone> Show for Q {}`. -/
def showUncloned : ImplDecl :=
  ⟨[.ofTerms "Q" [] [.apply (.placeless "Clone") []]], .apply (.placeless "Show") [],
    .apply (.placeless "Q") []⟩

def showCatalog : Catalog := ⟨.empty, copyTraits, [showCopied, showUncloned], by decide⟩

theorem show_separated : (showCatalog.compare showCopied showUncloned).result = .ok .disjoint ∧
    ∃ left right, showCatalog.elaboratePair showCopied showUncloned = .ok (left, right) ∧
      (∃ θ, Unifies θ left right) ∧ ∃ members, showCatalog.Excludes left right members := by
  have compared : (showCatalog.compare showCopied showUncloned).result = .ok .disjoint := rfl
  obtain ⟨left, right, elaborated, disjoint, -⟩ :=
    compare_disjoint_iff_no_unifier_or_excluded showCatalog showCopied showUncloned _ compared
  have unified : ∃ θ, Unifies θ left right := by
    cases elaborated
    exact ⟨fun _ => .ctor "A" [], rfl, fun _ member => absurd member List.not_mem_nil, rfl⟩
  exact ⟨compared, left, right, elaborated, unified,
    (disjoint.mp rfl).resolve_left fun separate => separate unified⟩

end TraitCoherence
