import TraitCoherence.Proofs.ClosureQueries
import TraitCoherence.Proofs.Symmetry

namespace TraitCoherence

theorem Catalog.breaks_iff_has {catalog : Catalog} {set : TraitSet} :
    catalog.Breaks set.members ↔ ∃ trait, set.Has trait ∧ ¬ catalog.Closes trait := by
  rw [← not_iff_not, Catalog.not_breaks_iff]
  constructor
  · rintro each ⟨trait, ⟨member, inside, alike⟩, stuck⟩
    exact stuck ((each member inside).alike alike)
  · intro nothing trait member
    by_contra stuck
    exact nothing ⟨trait, TraitSet.has_of_mem member, stuck⟩

theorem joinBounds_breaks_iff {catalog : Catalog} {sizes : String → Nat} {bounds : BoundTable}
    (small : bounds.Sized sizes) {bound : Bound} {members : List Int}
    (joined : joinBounds bounds .empty members = .bound bound) :
    catalog.Breaks bound.positive.members ↔
      ∃ x ∈ members, ∃ own, bounds.lookup x = some (some own) ∧
        catalog.Breaks own.positive.members := by
  obtain ⟨_, positive, _⟩ := joinBounds_has small (.empty sizes) joined
  have demands (trait : TraitRef) :=
    (positive trait).trans (or_iff_right (TraitSet.not_has_empty trait))
  simp only [Catalog.breaks_iff_has, demands]
  constructor
  · rintro ⟨trait, ⟨x, inside, own, found, has⟩, stuck⟩
    exact ⟨x, inside, own, found, trait, has, stuck⟩
  · rintro ⟨x, inside, own, found, trait, has, stuck⟩
    exact ⟨trait, ⟨x, inside, own, found, has⟩, stuck⟩

/-- No anchor, no member without a bound, and a joined bound that cannot be closed. -/
def Catalog.Stalls (catalog : Catalog) (bounds : BoundTable) (varClass : VarClass) : Prop :=
  varClass.anchor = none ∧ ∃ bound, joinBounds bounds .empty varClass.members = .bound bound ∧
    catalog.Breaks bound.positive.members

theorem Catalog.stalls_iff_breaks {catalog : Catalog} {bounds : BoundTable} {members : List Int}
    {bound : Bound} (joined : joinBounds bounds .empty members = .bound bound) :
    catalog.Stalls bounds ⟨members, none⟩ ↔ catalog.Breaks bound.positive.members := by
  refine ⟨?_, fun breaks => ⟨rfl, bound, joined, breaks⟩⟩
  rintro ⟨_, other, found, breaks⟩
  cases joined.symm.trans found
  exact breaks

/-- What the outcome of a judgment says about the classes that were judged. -/
def Catalog.Justifies (catalog : Catalog) (bounds : BoundTable) (classes : List VarClass) :
    Except CheckError Verdict → Prop
  | .error _ => ∃ varClass ∈ classes, catalog.Stalls bounds varClass
  | .ok .disjoint =>
    ∃ varClass ∈ classes, catalog.Refutes bounds varClass ∧ ¬ catalog.Stalls bounds varClass
  | .ok .overlap => ∀ varClass ∈ classes, ¬ catalog.Stalls bounds varClass

/-- A class that does not stall leaves what is said of the others as it is. -/
theorem Catalog.Justifies.skip {catalog : Catalog} {bounds : BoundTable} {first : VarClass}
    {classes : List VarClass} {outcome : Except CheckError Verdict}
    (justified : catalog.Justifies bounds classes outcome) (passes : ¬ catalog.Stalls bounds first) :
    catalog.Justifies bounds (first :: classes) outcome := by
  match outcome with
  | .error _ =>
    obtain ⟨varClass, member, stalls⟩ := justified
    exact ⟨varClass, List.mem_cons_of_mem _ member, stalls⟩
  | .ok .disjoint =>
    obtain ⟨varClass, member, refuted⟩ := justified
    exact ⟨varClass, List.mem_cons_of_mem _ member, refuted⟩
  | .ok .overlap => exact List.forall_mem_cons.mpr ⟨passes, justified⟩

/-- A judgment fails only at a class that stalls, and finds a refuted class only where it does not
stall itself. Of the classes behind the one that ends the search nothing is said. -/
theorem Catalog.Fits.judgeClasses_justified {catalog : Catalog} {sizes : String → Nat}
    (fits : catalog.Fits sizes) {bounds : BoundTable} (small : bounds.Sized sizes) {memo : Memo}
    (settled : memo.Settled catalog sizes) {classes : List VarClass}
    (covers : ∀ varClass ∈ classes, bounds.Covers varClass.members) :
    catalog.Justifies bounds classes (catalog.judgeClasses bounds memo classes).result := by
  induction classes generalizing memo with
  | nil => exact fun _ member => absurd member List.not_mem_nil
  | cons first classes ih =>
    obtain ⟨here, later⟩ := List.forall_mem_cons.mp covers
    obtain ⟨members, anchor⟩ := first
    cases anchor with
    | some anchor =>
      have passes : ¬ catalog.Stalls bounds ⟨members, some anchor⟩ := fun stalls => nomatch stalls.1
      rw [Catalog.judgeClasses, Traced.after]
      exact (ih settled later).skip passes
    | none =>
      rw [Catalog.judgeClasses]
      cases joined : joinBounds bounds .empty members with
      | missing x => exact absurd joined (here.joinBounds_ne_missing .empty x)
      | unbounded =>
        have passes : ¬ catalog.Stalls bounds ⟨members, none⟩ := by
          rintro ⟨_, bound, found, _⟩
          cases joined.symm.trans found
        simp only [Traced.after]
        exact (ih settled later).skip passes
      | bound bound =>
        have sized := (joinBounds_has small (.empty sizes) joined).1
        have stalls_iff : catalog.Stalls bounds _ ↔ _ := Catalog.stalls_iff_breaks joined
        obtain ⟨next, reports⟩ := fits.unsatisfiable_reports settled sized
        have right := (fits.unsatisfiable settled.sound sized).2
        simp only
        split
        · rename_i after error outcome
          rw [outcome] at reports
          exact ⟨_, List.mem_cons_self, stalls_iff.mpr (reports.error_iff.mp ⟨error, rfl⟩)⟩
        · rename_i after outcome
          rw [outcome] at reports right
          have contradicts := (right true rfl).mp rfl
          exact ⟨_, List.mem_cons_self, ⟨rfl, bound, joined, contradicts⟩,
            mt stalls_iff.mp (Catalog.not_breaks_iff.mpr reports)⟩
        · rename_i after outcome
          rw [outcome] at next reports
          exact (ih next later).skip (mt stalls_iff.mp (Catalog.not_breaks_iff.mpr reports))

/-- Some bound of these members demands what cannot be closed. -/
def Catalog.Stuck (catalog : Catalog) (bounds : BoundTable) (members : Set Int) : Prop :=
  ∃ v ∈ members, ∃ bound, (v, some bound) ∈ bounds ∧ catalog.Breaks bound.positive.members

theorem WellFormedPair.stalls_iff {catalog : Catalog} {sizes : String → Nat}
    {left right : ImplScheme} (wellFormed : WellFormedPair sizes left right) {varClass : VarClass} :
    catalog.Stalls (left.bounds ++ right.bounds) varClass ↔ varClass.anchor = none ∧
      (∀ x ∈ varClass.members, ∃ bound, (x, some bound) ∈ left.bounds ++ right.bounds) ∧
      catalog.Stuck (left.bounds ++ right.bounds) {x | x ∈ varClass.members} := by
  refine and_congr_right fun _ => wellFormed.joined_iff fun bound joined => ?_
  rw [joinBounds_breaks_iff wellFormed.bounds_sized joined]
  simp only [wellFormed.lookup_iff]
  rfl

/-- Linked parameters whose bounds cannot be closed. -/
def Catalog.Hampered (catalog : Catalog) (left right : ImplScheme) : Prop :=
  ∃ members, Linked left right members ∧ catalog.Stuck (left.bounds ++ right.bounds) members

/-- Linked parameters whose bounds can be closed and contradict each other. -/
def Catalog.Opposed (catalog : Catalog) (left right : ImplScheme) : Prop :=
  ∃ members, Linked left right members ∧
    catalog.Contradictory (left.bounds ++ right.bounds) members ∧
    ¬ catalog.Stuck (left.bounds ++ right.bounds) members

/-- What the outcome of a comparison says about the two impls. -/
def Catalog.Explains (catalog : Catalog) (left right : ImplScheme) :
    Except CheckError Verdict → Prop
  | .error _ => catalog.Hampered left right
  | .ok .disjoint => (¬ ∃ θ, Unifies θ left right) ∨ catalog.Opposed left right
  | .ok .overlap => ¬ catalog.Hampered left right

theorem Unified.explains {catalog : Catalog} {sizes : String → Nat} {left right : ImplScheme}
    {σ : Substitution} (unified : Unified left right σ)
    (wellFormed : WellFormedPair sizes left right) {outcome : Except CheckError Verdict}
    (justified : catalog.Justifies (left.bounds ++ right.bounds) σ.classes outcome) :
    catalog.Explains left right outcome := by
  have hampered : catalog.Hampered left right ↔
      ∃ varClass ∈ σ.classes, catalog.Stalls (left.bounds ++ right.bounds) varClass := by
    rw [Catalog.Hampered, unified.linked_iff]
    simp only [wellFormed.stalls_iff]
  match outcome with
  | .error _ => exact hampered.mpr justified
  | .ok .disjoint =>
    obtain ⟨varClass, member, refuted, clear⟩ := justified
    obtain ⟨unanchored, every, contradictory⟩ := wellFormed.refutes_iff.mp refuted
    have unstuck : ¬ catalog.Stuck (left.bounds ++ right.bounds) {x | x ∈ varClass.members} :=
      fun stuck => clear (wellFormed.stalls_iff.mpr ⟨unanchored, every, stuck⟩)
    exact Or.inr ((unified.linked_iff _).mpr
      ⟨varClass, member, unanchored, every, contradictory, unstuck⟩)
  | .ok .overlap =>
    intro stuck
    obtain ⟨varClass, member, stalls⟩ := hampered.mp stuck
    exact justified varClass member stalls

theorem Catalog.compare_explains {catalog : Catalog} {first second : ImplDecl}
    {left right : ImplScheme} (elaborated : catalog.elaboratePair first second = .ok (left, right)) :
    catalog.Explains left right (catalog.compare first second).result := by
  have fits := catalog.fits_sizes
  obtain ⟨wellFormed, wellFormedToo⟩ := fits.elaboratePair elaborated
  have pair : WellFormedPair catalog.sizes left right := ⟨_, wellFormed, _, wellFormedToo⟩
  simp only [Catalog.compare, elaborated]
  cases done : unifySchemes left right with
  | none => exact Or.inl (not_unifies_of_refused done)
  | some σ =>
    have unified := wellFormed.unified wellFormedToo done
    exact unified.explains pair
      (fits.judgeClasses_justified pair.bounds_sized (.nil catalog _) (unified.covers pair))

theorem Catalog.compare_of_refused {catalog : Catalog} {first second : ImplDecl} {error : CheckError}
    (refused : catalog.elaboratePair first second = .error error) :
    (catalog.compare first second).result = .error error := by
  rw [Catalog.compare, refused]

theorem Catalog.Stuck.mono {catalog : Catalog} {bounds others : BoundTable} {members : Set Int}
    (stuck : catalog.Stuck bounds members) (each : bounds ⊆ others) :
    catalog.Stuck others members := by
  obtain ⟨v, inside, bound, declared, breaks⟩ := stuck
  exact ⟨v, inside, bound, each declared, breaks⟩

theorem Catalog.breaks_renumber (catalog : Catalog) (ρ : Int ≃ Int) (bound : Bound) :
    catalog.Breaks (bound.renumber ρ).positive.members ↔ catalog.Breaks bound.positive.members := by
  rw [← not_iff_not, Catalog.not_breaks_iff, Catalog.not_breaks_iff]
  simp only [Bound.renumber, TraitSet.renumber, List.forall_mem_map, catalog.closes_substitute]

theorem Catalog.stuck_renumber (catalog : Catalog) (ρ : Int ≃ Int) (bounds : BoundTable)
    (members : Set Int) :
    catalog.Stuck (BoundTable.renumber ρ bounds) {y | ρ.symm y ∈ members} ↔
      catalog.Stuck bounds members := by
  constructor
  · rintro ⟨y, inside, image, declared, breaks⟩
    obtain ⟨⟨v, entry⟩, member, same⟩ := List.mem_map.mp declared
    obtain ⟨rfl, found⟩ := Prod.mk.inj same
    obtain ⟨bound, rfl, rfl⟩ := Option.map_eq_some_iff.mp found
    rw [Set.mem_ofPred_eq, ρ.symm_apply_apply] at inside
    exact ⟨v, inside, bound, member, (catalog.breaks_renumber ρ bound).mp breaks⟩
  · rintro ⟨v, inside, bound, declared, breaks⟩
    exact ⟨ρ v, mem_renumber inside, _, mem_bounds_renumber declared,
      (catalog.breaks_renumber ρ bound).mpr breaks⟩

/-- The same impls the other way round, but for the numbers of their variables. -/
theorem Catalog.elaboratePair_swapped {catalog : Catalog} {first second : ImplDecl}
    {left right : ImplScheme} (elaborated : catalog.elaboratePair first second = .ok (left, right)) :
    ∃ ρ, catalog.elaboratePair second first = .ok (right.renumber ρ, left.renumber ρ) := by
  obtain ⟨here, after, there⟩ := Catalog.elaboratePair_ok elaborated
  have same := Catalog.Resembles.refl catalog
  let ρ := exchange first.params.length second.params.length
  have moved : (catalog.elaborateImpl second.params.length first).2 =
      (catalog.elaborateImpl 0 first).2.map (ImplScheme.renumber ρ) :=
    same.elaborateImpl fun i below => exchange_first below
  have movedToo : (catalog.elaborateImpl 0 second).2 =
      (catalog.elaborateImpl first.params.length second).2.map (ImplScheme.renumber ρ) :=
    same.elaborateImpl fun i below => exchange_second below
  rw [here] at moved
  rw [there] at movedToo
  refine ⟨ρ, ?_⟩
  cases again : catalog.elaborateImpl 0 second with
  | mk next result =>
    rw [again] at movedToo
    cases movedToo
    have count := Catalog.elaborateImpl_next again
    rw [Int.zero_add] at count
    subst count
    cases last : catalog.elaborateImpl second.params.length first with
    | mk next result =>
      rw [last] at moved
      cases moved
      simp only [Catalog.elaboratePair, again, last]

theorem Catalog.Hampered.swapped {catalog : Catalog} {left right : ImplScheme}
    (hampered : catalog.Hampered left right) (ρ : Int ≃ Int) :
    catalog.Hampered (right.renumber ρ) (left.renumber ρ) := by
  obtain ⟨members, linked, stuck⟩ := hampered
  refine ⟨_, (linked.renumber ρ).symm, ?_⟩
  rw [bounds_renumber, catalog.stuck_renumber]
  exact stuck.mono (bounds_comm left right)

theorem Catalog.Opposed.swapped {catalog : Catalog} {left right : ImplScheme}
    (opposed : catalog.Opposed left right) (ρ : Int ≃ Int) :
    catalog.Opposed (right.renumber ρ) (left.renumber ρ) := by
  obtain ⟨members, linked, contradictory, clear⟩ := opposed
  have commuted := contradictory.mono (bounds_comm left right)
  refine ⟨_, (linked.renumber ρ).symm, ?_, ?_⟩
  · rw [bounds_renumber]
    exact (Catalog.Resembles.refl catalog).contradictory commuted ρ
  · rw [bounds_renumber, catalog.stuck_renumber]
    exact fun stuck => clear (stuck.mono (bounds_comm right left))

/-- Some linked parameters of two impls cannot be judged, and others tell the impls apart. -/
def Catalog.Contested (catalog : Catalog) (first second : ImplDecl) : Prop :=
  ∃ left right, catalog.elaboratePair first second = .ok (left, right) ∧
    catalog.Hampered left right ∧ catalog.Opposed left right

theorem Catalog.Contested.symm {catalog : Catalog} {first second : ImplDecl}
    (contested : catalog.Contested first second) : catalog.Contested second first := by
  obtain ⟨left, right, elaborated, hampered, opposed⟩ := contested
  obtain ⟨ρ, swapped⟩ := Catalog.elaboratePair_swapped elaborated
  exact ⟨_, _, swapped, hampered.swapped ρ, opposed.swapped ρ⟩

/-- The other way round the same class is in the way, unless one that tells the impls apart comes
first. -/
theorem Catalog.compare_error_swapped {catalog : Catalog} {first second : ImplDecl}
    {error : CheckError} (failed : (catalog.compare first second).result = .error error) :
    (∃ other, (catalog.compare second first).result = .error other) ∨
      (catalog.compare second first).result = .ok .disjoint ∧ catalog.Contested first second := by
  cases elaborated : catalog.elaboratePair first second with
  | error _ =>
    cases again : catalog.elaboratePair second first with
    | error other => exact Or.inl ⟨other, Catalog.compare_of_refused again⟩
    | ok pair =>
      obtain ⟨ρ, back⟩ := Catalog.elaboratePair_swapped again
      cases elaborated.symm.trans back
  | ok pair =>
    obtain ⟨left, right⟩ := pair
    obtain ⟨ρ, swapped⟩ := Catalog.elaboratePair_swapped elaborated
    have explains := Catalog.compare_explains elaborated
    rw [failed] at explains
    have hampered := Catalog.Hampered.swapped explains ρ
    have explainsToo := Catalog.compare_explains swapped
    match outcome : (catalog.compare second first).result with
    | .error other => exact Or.inl ⟨other, rfl⟩
    | .ok .overlap =>
      rw [outcome] at explainsToo
      exact absurd hampered explainsToo
    | .ok .disjoint =>
      rw [outcome] at explainsToo
      rcases explainsToo with separate | opposed
      · obtain ⟨members, linked, _⟩ := hampered
        obtain ⟨θ, unifies, _⟩ := linked.free
        exact absurd ⟨θ, unifies⟩ separate
      · have contested : catalog.Contested second first := ⟨_, _, swapped, hampered, opposed⟩
        exact Or.inr ⟨rfl, contested.symm⟩

/-- Two impls can be compared both ways or neither way, unless they are contested. What fails one way
may then be found disjoint the other way, but never to overlap. -/
theorem compare_fails_both_ways_unless_contested (catalog : Catalog) (first second : ImplDecl) :
    (¬ catalog.Contested first second →
      ((∃ error, (catalog.compare first second).result = .error error) ↔
        ∃ error, (catalog.compare second first).result = .error error)) ∧
    ((∃ error, (catalog.compare first second).result = .error error) →
      (∃ error, (catalog.compare second first).result = .error error) ∨
        (catalog.compare second first).result = .ok .disjoint) := by
  refine ⟨fun uncontested => ⟨?_, ?_⟩, ?_⟩
  · rintro ⟨error, failed⟩
    rcases Catalog.compare_error_swapped failed with failedToo | ⟨_, contested⟩
    · exact failedToo
    · exact absurd contested uncontested
  · rintro ⟨error, failed⟩
    rcases Catalog.compare_error_swapped failed with failedToo | ⟨_, contested⟩
    · exact failedToo
    · exact absurd contested.symm uncontested
  · rintro ⟨error, failed⟩
    exact (Catalog.compare_error_swapped failed).imp_right And.left

/-- `trait Rel<X, Y> {}` and `trait Show {}`. -/
def crossTraits : Table TraitDecl :=
  ⟨[("Rel", ⟨.placeless "Rel", [.ofTerms "X" [] [], .ofTerms "Y" [] []], none⟩),
    ("Show", ⟨.placeless "Show", [], none⟩)]⟩

/-- `impl<P: Show, Q: Ghost> Rel<P, Q> for A {}`. -/
def crossGhost : ImplDecl :=
  ⟨[.ofTerms "P" [.apply (.placeless "Show") []] [],
      .ofTerms "Q" [.apply (.placeless "Ghost") []] []],
    .apply (.placeless "Rel") [.apply (.placeless "P") [], .apply (.placeless "Q") []],
    .apply (.placeless "A") []⟩

/-- `impl<R: Show, S: Show> Rel<S, R> for A {}`. -/
def crossShown : ImplDecl :=
  ⟨[.ofTerms "R" [.apply (.placeless "Show") []] [],
      .ofTerms "S" [.apply (.placeless "Show") []] []],
    .apply (.placeless "Rel") [.apply (.placeless "S") [], .apply (.placeless "R") []],
    .apply (.placeless "A") []⟩

/-- `impl<R: Show, S: - Show> Rel<S, R> for A {}`. -/
def crossUnshown : ImplDecl :=
  ⟨[.ofTerms "R" [.apply (.placeless "Show") []] [],
      .ofTerms "S" [] [.apply (.placeless "Show") []]],
    .apply (.placeless "Rel") [.apply (.placeless "S") [], .apply (.placeless "R") []],
    .apply (.placeless "A") []⟩

/-- `struct A;` and the traits, with the impls that the order matters for. -/
def crossCatalog : Catalog :=
  ⟨⟨[("A", ⟨.placeless "A", []⟩)]⟩, crossTraits, [crossGhost, crossUnshown], by decide⟩

/-- Where nothing is forbidden nothing is contested, and the unknown trait is met both ways. -/
theorem cross_shown_fails_both_ways :
    ¬ crossCatalog.Contested crossGhost crossShown ∧
      (∃ error, (crossCatalog.compare crossGhost crossShown).result = .error error) ∧
      ∃ error, (crossCatalog.compare crossShown crossGhost).result = .error error := by
  have uncontested : ¬ crossCatalog.Contested crossGhost crossShown := by
    rintro ⟨left, right, elaborated, _, members, _, contradictory, _⟩
    cases elaborated
    obtain ⟨_, forbidden, _, ⟨v, _, bound, declared, negative⟩, _⟩ := contradictory
    simp only [List.cons_append, List.nil_append, List.mem_cons, List.not_mem_nil, or_false,
      Prod.mk.injEq, Option.some.injEq] at declared
    rcases declared with ⟨_, rfl⟩ | ⟨_, rfl⟩ | ⟨_, rfl⟩ | ⟨_, rfl⟩
    all_goals exact absurd negative List.not_mem_nil
  have failed : ∃ error, (crossCatalog.compare crossGhost crossShown).result = .error error :=
    ⟨_, rfl⟩
  have both := (compare_fails_both_ways_unless_contested crossCatalog crossGhost crossShown).1
  exact ⟨uncontested, failed, (both uncontested).mp failed⟩

/-- One way the parameters that no type fits come first, the other way those with an unknown trait. -/
theorem cross_unshown_fails_one_way :
    (crossCatalog.compare crossGhost crossUnshown).result = .ok .disjoint ∧
      (crossCatalog.compare crossUnshown crossGhost).result =
        .error (.undeclaredTrait (.placeless "Ghost")) ∧
      ¬ ((∃ error, (crossCatalog.compare crossGhost crossUnshown).result = .error error) ↔
        ∃ error, (crossCatalog.compare crossUnshown crossGhost).result = .error error) := by
  have disjoint : (crossCatalog.compare crossGhost crossUnshown).result = .ok .disjoint := rfl
  have failed : (crossCatalog.compare crossUnshown crossGhost).result =
      .error (.undeclaredTrait (.placeless "Ghost")) := rfl
  refine ⟨disjoint, failed, fun both => ?_⟩
  obtain ⟨error, failedToo⟩ := both.mpr ⟨_, failed⟩
  cases disjoint.symm.trans failedToo

end TraitCoherence
