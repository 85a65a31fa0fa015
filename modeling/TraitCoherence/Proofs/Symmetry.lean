import Mathlib.Data.List.Zip
import Mathlib.Data.Set.Operations
import TraitCoherence.Proofs.Renumbering
import TraitCoherence.Proofs.Separation

namespace TraitCoherence

theorem Unifies.symm {θ : Int → Ty} {left right : ImplScheme} (unifies : Unifies θ left right) :
    Unifies θ right left := by
  refine ⟨unifies.name.symm, fun pair member => ?_, unifies.target.symm⟩
  rw [← List.zip_swap, List.mem_map] at member
  obtain ⟨swapped, inside, rfl⟩ := member
  exact (unifies.args swapped inside).symm

theorem inseparable_comm (left right : ImplScheme) (v : Int) :
    inseparable right left v = inseparable left right v := by
  ext w
  simp only [inseparable, Set.mem_ofPred_eq, List.mem_append]
  exact and_congr or_comm
    ⟨fun same θ unifies => same θ unifies.symm, fun same θ unifies => same θ unifies.symm⟩

theorem bounds_comm (left right : ImplScheme) :
    left.bounds ++ right.bounds ⊆ right.bounds ++ left.bounds :=
  fun _ declared => List.mem_append.mpr (List.mem_append.mp declared).symm

theorem Linked.symm {left right : ImplScheme} {members : Set Int}
    (linked : Linked left right members) : Linked right left members := by
  obtain ⟨v, param, rfl⟩ := linked.whole
  obtain ⟨θ, unifies, stays⟩ := linked.free
  refine ⟨⟨v, List.mem_append.mpr (List.mem_append.mp param).symm, ?_⟩, linked.several,
    ⟨θ, unifies.symm, stays⟩, fun w inside => ?_⟩
  · exact (inseparable_comm left right v).symm
  · obtain ⟨bound, declared⟩ := linked.bounded w inside
    exact ⟨bound, bounds_comm left right declared⟩

theorem Catalog.Contradictory.mono {catalog : Catalog} {bounds others : BoundTable}
    {members : Set Int} (contradictory : catalog.Contradictory bounds members)
    (each : bounds ⊆ others) : catalog.Contradictory others members := by
  obtain ⟨demanded, forbidden, ⟨v, inside, bound, declared, positive⟩,
    ⟨w, insideToo, boundToo, declaredToo, negative⟩, entails⟩ := contradictory
  exact ⟨demanded, forbidden, ⟨v, inside, bound, each declared, positive⟩,
    ⟨w, insideToo, boundToo, each declaredToo, negative⟩, entails⟩

theorem Catalog.Excludes.symm {catalog : Catalog} {left right : ImplScheme} {members : Set Int}
    (excludes : catalog.Excludes left right members) : catalog.Excludes right left members :=
  ⟨excludes.toLinked.symm, excludes.contradictory.mono (bounds_comm left right)⟩

theorem Catalog.Separated.symm {catalog : Catalog} {left right : ImplScheme}
    (separated : catalog.Separated left right) : catalog.Separated right left := by
  rcases separated with separate | ⟨members, excludes⟩
  · exact Or.inl fun ⟨θ, unifies⟩ => separate ⟨θ, unifies.symm⟩
  · exact Or.inr ⟨members, excludes.symm⟩

theorem unifies_renumber {θ : Int → Ty} {ρ : Int ≃ Int} {left right : ImplScheme} :
    Unifies θ (left.renumber ρ) (right.renumber ρ) ↔ Unifies (fun x => θ (ρ x)) left right := by
  have args : (∀ pair ∈ (left.renumber ρ).trait.args.zip (right.renumber ρ).trait.args,
      (pair.1.instantiate θ).Alike (pair.2.instantiate θ)) ↔
      ∀ pair ∈ left.trait.args.zip right.trait.args,
        (pair.1.instantiate fun x => θ (ρ x)).Alike (pair.2.instantiate fun x => θ (ρ x)) := by
    simp only [ImplScheme.renumber, TraitRef.substitute, List.zip_map, List.forall_mem_map,
      Prod.map, Ty.instantiate_renumber]
  have target : ((left.renumber ρ).target.instantiate θ).Alike
      ((right.renumber ρ).target.instantiate θ) ↔ (left.target.instantiate fun x => θ (ρ x)).Alike
        (right.target.instantiate fun x => θ (ρ x)) := by
    simp only [ImplScheme.renumber, Ty.instantiate_renumber]
  exact ⟨fun unifies => ⟨unifies.name, args.mp unifies.args, target.mp unifies.target⟩,
    fun unifies => ⟨unifies.name, args.mpr unifies.args, target.mpr unifies.target⟩⟩

/-- Every unifier of impls is one of their renumbered selves too, read backwards. -/
theorem Unifies.renumber {θ : Int → Ty} {left right : ImplScheme} (unifies : Unifies θ left right)
    (ρ : Int ≃ Int) :
    Unifies (fun y => θ (ρ.symm y)) (left.renumber ρ) (right.renumber ρ) := by
  rw [unifies_renumber]
  simpa only [Equiv.symm_apply_apply] using unifies

theorem params_renumber (ρ : Int ≃ Int) (left right : ImplScheme) (y : Int) :
    y ∈ (left.renumber ρ).params ++ (right.renumber ρ).params ↔
      ρ.symm y ∈ left.params ++ right.params := by
  simp only [ImplScheme.renumber, ImplScheme.params, BoundTable.renumber, ← List.map_append,
    List.map_map, List.mem_map, Function.comp_def]
  constructor
  · rintro ⟨entry, member, rfl⟩
    exact ⟨entry, member, (ρ.symm_apply_apply _).symm⟩
  · rintro ⟨entry, member, same⟩
    exact ⟨entry, member, by rw [same, ρ.apply_symm_apply]⟩

theorem bounds_renumber (ρ : Int ≃ Int) (left right : ImplScheme) :
    (left.renumber ρ).bounds ++ (right.renumber ρ).bounds =
      BoundTable.renumber ρ (left.bounds ++ right.bounds) :=
  List.map_append.symm

theorem mem_bounds_renumber {ρ : Int ≃ Int} {bounds : BoundTable} {x : Int} {bound : Bound}
    (declared : (x, some bound) ∈ bounds) :
    (ρ x, some (bound.renumber ρ)) ∈ BoundTable.renumber ρ bounds :=
  List.mem_map.mpr ⟨_, declared, rfl⟩

theorem inseparable_renumber (ρ : Int ≃ Int) (left right : ImplScheme) (v : Int) :
    inseparable (left.renumber ρ) (right.renumber ρ) (ρ v) =
      {y | ρ.symm y ∈ inseparable left right v} := by
  ext y
  simp only [inseparable, Set.mem_ofPred_eq, params_renumber, unifies_renumber]
  refine and_congr_right fun _ => ⟨fun same θ unifies => ?_, fun same θ unifies => ?_⟩
  · have here := same _ (unifies_renumber.mp (unifies.renumber ρ))
    rwa [ρ.symm_apply_apply] at here
  · have here := same _ unifies
    rwa [ρ.apply_symm_apply] at here

theorem Catalog.Resembles.entails {catalog other : Catalog} (same : catalog.Resembles other)
    {trait image : TraitRef} (entails : catalog.Entails trait image) (ρ : Int ≃ Int) :
    other.Entails (trait.substitute (renumbered ρ)) (image.substitute (renumbered ρ)) := by
  obtain ⟨reached, obliges, alike⟩ := entails
  exact ⟨_, same.obliges obliges (renumbered ρ), alike.renumber ρ⟩

theorem mem_renumber {ρ : Int ≃ Int} {members : Set Int} {x : Int} (inside : x ∈ members) :
    ρ x ∈ {y | ρ.symm y ∈ members} := by
  rwa [Set.mem_ofPred_eq, ρ.symm_apply_apply]

theorem Linked.renumber {left right : ImplScheme} {members : Set Int}
    (linked : Linked left right members) (ρ : Int ≃ Int) :
    Linked (left.renumber ρ) (right.renumber ρ) {y | ρ.symm y ∈ members} := by
  constructor
  · obtain ⟨v, param, rfl⟩ := linked.whole
    refine ⟨ρ v, ?_, (inseparable_renumber ρ left right v).symm⟩
    rwa [params_renumber, ρ.symm_apply_apply]
  · obtain ⟨v, inside, w, insideToo, differ⟩ := linked.several
    exact ⟨ρ v, mem_renumber inside, ρ w, mem_renumber insideToo, ρ.injective.ne differ⟩
  · obtain ⟨θ, unifies, y, stays⟩ := linked.free
    exact ⟨_, unifies.renumber ρ, y, fun v inside => stays _ inside⟩
  · intro v inside
    obtain ⟨bound, declared⟩ := linked.bounded _ inside
    have moved := mem_bounds_renumber (ρ := ρ) declared
    rw [ρ.apply_symm_apply, ← bounds_renumber] at moved
    exact ⟨bound.renumber ρ, moved⟩

theorem Catalog.Resembles.contradictory {catalog other : Catalog} (same : catalog.Resembles other)
    {bounds : BoundTable} {members : Set Int} (contradictory : catalog.Contradictory bounds members)
    (ρ : Int ≃ Int) :
    other.Contradictory (BoundTable.renumber ρ bounds) {y | ρ.symm y ∈ members} := by
  obtain ⟨demanded, forbidden, ⟨v, inside, bound, declared, positive⟩,
    ⟨w, insideToo, boundToo, declaredToo, negative⟩, entails⟩ := contradictory
  exact ⟨_, _,
    ⟨ρ v, mem_renumber inside, _, mem_bounds_renumber declared, List.mem_map_of_mem positive⟩,
    ⟨ρ w, mem_renumber insideToo, _, mem_bounds_renumber declaredToo, List.mem_map_of_mem negative⟩,
    same.entails entails ρ⟩

/-- What excludes impls from meeting does so under other numbers, and whatever impls there are. -/
theorem Catalog.Resembles.excludes {catalog other : Catalog} (same : catalog.Resembles other)
    {left right : ImplScheme} {members : Set Int}
    (excludes : catalog.Excludes left right members) (ρ : Int ≃ Int) :
    other.Excludes (left.renumber ρ) (right.renumber ρ) {y | ρ.symm y ∈ members} := by
  refine ⟨excludes.toLinked.renumber ρ, ?_⟩
  rw [bounds_renumber]
  exact same.contradictory excludes.contradictory ρ

theorem Catalog.Resembles.separated {catalog other : Catalog} (same : catalog.Resembles other)
    {left right : ImplScheme} (separated : catalog.Separated left right) (ρ : Int ≃ Int) :
    other.Separated (left.renumber ρ) (right.renumber ρ) := by
  rcases separated with separate | ⟨members, excludes⟩
  · exact Or.inl fun ⟨θ, unifies⟩ => separate ⟨_, unifies_renumber.mp unifies⟩
  · exact Or.inr ⟨_, same.excludes excludes ρ⟩

/-- The first `n` numbers and the `m` numbers that follow change places. -/
def exchange (n m : Nat) : Int ≃ Int where
  toFun x := if 0 ≤ x ∧ x < n then x + m else if n ≤ x ∧ x < n + m then x - n else x
  invFun x := if 0 ≤ x ∧ x < m then x + n else if m ≤ x ∧ x < m + n then x - m else x
  left_inv x := by grind
  right_inv x := by grind

theorem exchange_first {n m i : Nat} (below : i < n) : exchange n m (0 + i) = m + i := by
  simp only [exchange, Equiv.coe_fn_mk]
  grind

theorem exchange_second {n m i : Nat} (below : i < m) : exchange n m (n + i) = 0 + i := by
  simp only [exchange, Equiv.coe_fn_mk]
  grind

theorem Catalog.Resembles.eq_renumber {catalog other : Catalog} (same : catalog.Resembles other)
    {ρ : Int ≃ Int} {next start after last : Int} {decl : ImplDecl} {scheme image : ImplScheme}
    (here : catalog.elaborateImpl next decl = (after, .ok scheme))
    (there : other.elaborateImpl start decl = (last, .ok image))
    (shift : ∀ i : Nat, i < decl.params.length → ρ (next + i) = start + i) :
    image = scheme.renumber ρ := by
  have moved := same.elaborateImpl shift
  rw [here, there] at moved
  exact Except.ok.inj moved

/-- Impls that are separated stay so when they are elaborated again. -/
theorem Catalog.Resembles.separated_again {catalog other : Catalog}
    (same : catalog.Resembles other) {first second : ImplDecl}
    {left right image imageToo : ImplScheme}
    (elaborated : catalog.elaboratePair first second = .ok (left, right))
    (again : other.elaboratePair first second = .ok (image, imageToo))
    (separated : catalog.Separated left right) : other.Separated image imageToo := by
  obtain ⟨here, after, there⟩ := Catalog.elaboratePair_ok elaborated
  obtain ⟨hereToo, last, thereToo⟩ := Catalog.elaboratePair_ok again
  rw [same.eq_renumber here hereToo fun i _ => Equiv.refl_apply _,
    same.eq_renumber there thereToo fun i _ => Equiv.refl_apply _]
  exact same.separated separated _

/-- Impls that are separated stay so when they are elaborated the other way round, although
their variables then have other numbers. -/
theorem Catalog.Resembles.separated_swapped {catalog other : Catalog}
    (same : catalog.Resembles other) {first second : ImplDecl}
    {left right image imageToo : ImplScheme}
    (elaborated : catalog.elaboratePair first second = .ok (left, right))
    (swapped : other.elaboratePair second first = .ok (image, imageToo))
    (separated : catalog.Separated left right) : other.Separated image imageToo := by
  obtain ⟨here, after, there⟩ := Catalog.elaboratePair_ok elaborated
  obtain ⟨hereToo, last, thereToo⟩ := Catalog.elaboratePair_ok swapped
  -- The parameters of each impl move past those of the other.
  rw [same.eq_renumber here thereToo fun i below => exchange_first below,
    same.eq_renumber there hereToo fun i below => exchange_second below]
  exact (same.separated separated _).symm

/-- Comparisons whose impls are separated together come to one verdict. -/
theorem Catalog.verdict_eq {catalog other : Catalog} {first second third fourth : ImplDecl}
    {verdict verdictToo : Verdict}
    (compared : (catalog.compare first second).result = .ok verdict)
    (comparedToo : (other.compare third fourth).result = .ok verdictToo)
    (together : ∀ left right image imageToo,
      catalog.elaboratePair first second = .ok (left, right) →
      other.elaboratePair third fourth = .ok (image, imageToo) →
      (catalog.Separated left right ↔ other.Separated image imageToo)) : verdict = verdictToo := by
  obtain ⟨left, right, elaborated, disjoint⟩ := Catalog.compare_ok compared
  obtain ⟨image, imageToo, elaboratedToo, disjointToo⟩ := Catalog.compare_ok comparedToo
  have separated := together left right image imageToo elaborated elaboratedToo
  rw [← disjoint, ← disjointToo] at separated
  cases verdict <;> cases verdictToo <;> simp_all

theorem Catalog.Resembles.verdict_again {catalog other : Catalog} (same : catalog.Resembles other)
    {first second : ImplDecl} {verdict verdictToo : Verdict}
    (compared : (catalog.compare first second).result = .ok verdict)
    (again : (other.compare first second).result = .ok verdictToo) : verdict = verdictToo := by
  refine Catalog.verdict_eq compared again fun _ _ _ _ here there => ?_
  exact ⟨same.separated_again here there, same.symm.separated_again there here⟩

theorem Catalog.Resembles.verdict_swapped {catalog other : Catalog}
    (same : catalog.Resembles other) {first second : ImplDecl} {verdict verdictToo : Verdict}
    (compared : (catalog.compare first second).result = .ok verdict)
    (swapped : (other.compare second first).result = .ok verdictToo) : verdict = verdictToo := by
  refine Catalog.verdict_eq compared swapped fun _ _ _ _ here there => ?_
  exact ⟨same.separated_swapped here there, same.symm.separated_swapped there here⟩

end TraitCoherence
