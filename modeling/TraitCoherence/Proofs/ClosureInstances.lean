import TraitCoherence.Proofs.ClosureQueries

namespace TraitCoherence

/-- The variables of a trait application. -/
def TraitRef.Mentions (trait : TraitRef) (x : Int) : Prop := ∃ arg ∈ trait.args, x ∈ arg.vars

theorem TraitRef.mentions_instantiate {trait : TraitRef} {θ : Int → Ty} {y : Int} :
    (trait.instantiate θ).Mentions y ↔ ∃ x, trait.Mentions x ∧ y ∈ (θ x).vars := by
  simp only [TraitRef.Mentions, TraitRef.instantiate, TraitRef.substitute, List.mem_map,
    exists_exists_and_eq_and]
  constructor
  · rintro ⟨arg, member, occurs⟩
    obtain ⟨x, inside, value⟩ := Ty.mem_vars_instantiate.mp occurs
    exact ⟨x, ⟨arg, member, inside⟩, value⟩
  · rintro ⟨x, ⟨arg, member, inside⟩, value⟩
    exact ⟨arg, member, Ty.mem_vars_instantiate.mpr ⟨x, inside, value⟩⟩

theorem TraitRef.mentions_unlabeled {trait : TraitRef} {x : Int} :
    trait.unlabeled.Mentions x ↔ trait.Mentions x := by
  rw [TraitRef.unlabeled, TraitRef.mentions_instantiate]
  simp only [Ty.vars_var, List.mem_singleton, exists_eq_right']

theorem TraitRef.Alike.mentions_iff {a b : TraitRef} (alike : a.Alike b) {x : Int} :
    a.Mentions x ↔ b.Mentions x := by
  rw [← TraitRef.mentions_unlabeled, alike, TraitRef.mentions_unlabeled]

theorem TraitRef.Sized.instantiate {sizes : String → Nat} {trait : TraitRef} {θ : Int → Ty}
    (sized : trait.Sized sizes) (values : ∀ x, trait.Mentions x → (θ x).Sized sizes) :
    (trait.instantiate θ).Sized sizes := by
  intro image member
  obtain ⟨arg, inside, rfl⟩ := List.mem_map.mp member
  exact (sized arg inside).instantiate fun x occurs => values x ⟨arg, inside, occurs⟩

/-- Supertraits are put together from the arguments of the trait and declared structs. -/
theorem Catalog.Supertrait.mentions {catalog : Catalog} {trait supertrait : TraitRef}
    (step : catalog.Supertrait trait supertrait) {x : Int} (mentions : supertrait.Mentions x) :
    trait.Mentions x := by
  obtain ⟨supertraits, found, member⟩ := step
  obtain ⟨arg, inside, occurs⟩ := mentions
  rw [Catalog.supertraits] at found
  split at found
  · cases found
  · obtain ⟨expr, _, elaborated⟩ := Catalog.elaborateTraits_ok found supertrait member
    obtain ⟨entry, inScope, there⟩ := Catalog.elaborateTrait_vars elaborated arg inside x occurs
    exact ⟨entry.2, (List.of_mem_zip (List.mem_reverse.mp inScope)).2, there⟩

theorem Catalog.Obliges.mentions {catalog : Catalog} {trait image : TraitRef}
    (obliges : catalog.Obliges trait image) {x : Int} (mentions : image.Mentions x) :
    trait.Mentions x := by
  induction obliges with
  | refl => exact mentions
  | tail _ step ih => exact ih (step.mentions mentions)

theorem Catalog.Entails.mentions {catalog : Catalog} {trait other : TraitRef}
    (entails : catalog.Entails trait other) {x : Int} (mentions : other.Mentions x) :
    trait.Mentions x := by
  obtain ⟨image, obliges, alike⟩ := entails
  exact obliges.mentions (alike.mentions_iff.mpr mentions)

/-- Every step from an instance is an instance of a step. -/
theorem Catalog.Obliges.of_substitute {catalog : Catalog} {f : Int → String → Ty}
    {trait image : TraitRef} (obliges : catalog.Obliges (trait.substitute f) image) :
    ∃ source, catalog.Obliges trait source ∧ image = source.substitute f := by
  induction obliges with
  | refl => exact ⟨trait, .refl, rfl⟩
  | tail _ step ih =>
    obtain ⟨source, reached, rfl⟩ := ih
    obtain ⟨supertraits, found, member⟩ := step
    rw [(Catalog.Resembles.refl catalog).supertraits] at found
    cases origin : catalog.supertraits source with
    | error error =>
      rw [origin] at found
      cases found
    | ok others =>
      rw [origin] at found
      cases found
      obtain ⟨other, inside, rfl⟩ := List.mem_map.mp member
      exact ⟨other, .tail reached ⟨others, origin, inside⟩, rfl⟩

theorem Catalog.entails_instantiate_iff {catalog : Catalog} {trait other : TraitRef}
    {θ : Int → Ty} : catalog.Entails (trait.instantiate θ) other ↔
      ∃ source, catalog.Entails trait source ∧ (source.instantiate θ).Alike other := by
  constructor
  · rintro ⟨image, obliges, alike⟩
    obtain ⟨source, reached, rfl⟩ := Catalog.Obliges.of_substitute obliges
    exact ⟨source, ⟨source, reached, rfl⟩, alike⟩
  · rintro ⟨source, ⟨image, obliges, alike⟩, alikeToo⟩
    have reached := (Catalog.Resembles.refl catalog).obliges obliges fun x _ => θ x
    refine ⟨image.instantiate θ, reached, ?_⟩
    rw [alike.instantiate_eq]
    exact alikeToo

theorem Catalog.Blames.substitute {catalog : Catalog} {traits : List TraitRef} {error : CheckError}
    (blames : catalog.Blames traits error) (f : Int → String → Ty) :
    catalog.Blames (traits.map (TraitRef.substitute f)) error := by
  induction blames with
  | here failed =>
    refine .here ?_
    rw [(Catalog.Resembles.refl catalog).supertraits, failed]
    rfl
  | above found _ ih =>
    refine .above ?_ ih
    rw [(Catalog.Resembles.refl catalog).supertraits, found]
    rfl
  | later closes _ ih => exact .later ((catalog.closes_substitute f _).mpr closes) ih

/-- What is reported of some traits can be reported of their instances. -/
theorem Catalog.Reports.substitute {α : Type} {catalog : Catalog} {traits : List TraitRef}
    {result : Except CheckError α} (reports : catalog.Reports traits result)
    (f : Int → String → Ty) : catalog.Reports (traits.map (TraitRef.substitute f)) result := by
  cases result with
  | ok value =>
    exact List.forall_mem_map.mpr fun trait member =>
      (catalog.closes_substitute f trait).mpr (reports trait member)
  | error error => exact Catalog.Blames.substitute reports f

theorem TraitSet.Sized.nodup_unlabeled {sizes : String → Nat} {set : TraitSet}
    (sized : set.Sized sizes) : (set.members.map TraitRef.unlabeled).Nodup := by
  refine List.pairwise_map.mpr (set.distinct.imp_of_mem fun left right differ alike => ?_)
  have agree := ((sized _ left).agrees_iff_alike (sized _ right)).mpr alike
  rw [differ] at agree
  cases agree

/-- Sets of fixed sizes are the same as soon as they have the same members, labels aside. -/
theorem TraitSet.Sized.same_of_has_iff {sizes : String → Nat} {left right : TraitSet}
    (sized : left.Sized sizes) (small : right.Sized sizes)
    (has : ∀ other, left.Has other ↔ right.Has other) : left.same right = true := by
  rw [TraitSet.same, Bool.and_eq_true, beq_iff_eq, List.all_eq_true]
  constructor
  · -- Of those that are alike a set holds one only, so without labels no member is there twice.
    have members : (left.members.map TraitRef.unlabeled).Perm
        (right.members.map TraitRef.unlabeled) := by
      rw [List.perm_ext_iff_of_nodup sized.nodup_unlabeled small.nodup_unlabeled]
      intro plain
      simp only [List.mem_map]
      constructor
      · rintro ⟨member, inside, rfl⟩
        exact (has member).mp (TraitSet.has_of_mem inside)
      · rintro ⟨member, inside, rfl⟩
        exact (has member).mpr (TraitSet.has_of_mem inside)
    have length := members.length_eq
    rw [List.length_map, List.length_map] at length
    exact length
  · intro member inside
    obtain ⟨other, there, alike⟩ := (has member).mp (TraitSet.has_of_mem inside)
    exact List.any_eq_true.mpr
      ⟨other, there, ((small other there).agrees_iff_alike (sized member inside)).mpr alike⟩

/-- The closure of an instance holds the instances of what is in the closure, and nothing else. Some
of these may have become one. -/
theorem Catalog.IsClosure.has_instance_iff {catalog : Catalog} {sizes : String → Nat}
    {trait : TraitRef} {θ : Int → Ty} {set image : TraitSet}
    (isClosure : catalog.IsClosure sizes trait set)
    (isClosureToo : catalog.IsClosure sizes (trait.instantiate θ) image) (other : TraitRef) :
    image.Has other ↔ ∃ member ∈ set.members, (member.instantiate θ).Alike other := by
  rw [isClosureToo.has_iff, Catalog.entails_instantiate_iff]
  constructor
  · rintro ⟨source, entails, alike⟩
    obtain ⟨member, inside, same⟩ := (isClosure.has_iff source).mpr entails
    refine ⟨member, inside, ?_⟩
    rw [same.instantiate_eq]
    exact alike
  · rintro ⟨member, inside, alike⟩
    exact ⟨member, (isClosure.has_iff member).mp (TraitSet.has_of_mem inside), alike⟩

theorem Catalog.IsClosure.mentions {catalog : Catalog} {sizes : String → Nat} {trait : TraitRef}
    {set : TraitSet} (isClosure : catalog.IsClosure sizes trait set) {member : TraitRef}
    (inside : member ∈ set.members) {x : Int} (mentions : member.Mentions x) : trait.Mentions x :=
  ((isClosure.has_iff member).mp (TraitSet.has_of_mem inside)).mentions mentions

theorem Catalog.IsClosure.same_instance {catalog : Catalog} {sizes : String → Nat}
    {trait : TraitRef} {θ : Int → Ty} {set image : TraitSet}
    (isClosure : catalog.IsClosure sizes trait set)
    (isClosureToo : catalog.IsClosure sizes (trait.instantiate θ) image)
    (values : ∀ x, trait.Mentions x → (θ x).Sized sizes) :
    image.same (.ofList (set.members.map (TraitRef.instantiate θ))) = true := by
  have small : ∀ other ∈ set.members.map (TraitRef.instantiate θ), other.Sized sizes := by
    refine List.forall_mem_map.mpr fun member inside => ?_
    exact (isClosure.sized member inside).instantiate fun x mentions =>
      values x (isClosure.mentions inside mentions)
  obtain ⟨sized, has⟩ := (TraitSet.Sized.empty sizes).foldl_insert small
  refine isClosureToo.sized.same_of_has_iff sized fun other => ?_
  rw [TraitSet.ofList, has, or_iff_right (TraitSet.not_has_empty other),
    isClosure.has_instance_iff isClosureToo]
  simp only [List.mem_map, exists_exists_and_eq_and]

/-- To instantiate a trait application and then to ask for its supertraits, or for its closure, is to
ask first and then to instantiate the answer, if structs have fixed sizes and nothing is remembered
from before. The questions fail alike, closures are compared as sets, and nothing in a closure
mentions a variable that the trait does not mention. -/
theorem closure_commutes_with_instantiation (catalog : Catalog) (sizes : String → Nat)
    (fits : catalog.Fits sizes) (trait : TraitRef) (small : trait.Sized sizes) (θ : Int → Ty)
    (values : ∀ x, trait.Mentions x → (θ x).Sized sizes) :
    catalog.supertraits (trait.instantiate θ) =
      (catalog.supertraits trait).map (List.map (TraitRef.instantiate θ)) ∧
    (∀ error, (catalog.closure [] (trait.instantiate θ)).2 = .error error ↔
      (catalog.closure [] trait).2 = .error error) ∧
    ∀ set, (catalog.closure [] trait).2 = .ok set →
      (∀ member ∈ set.members, ∀ x, member.Mentions x → trait.Mentions x) ∧
      ∃ image, (catalog.closure [] (trait.instantiate θ)).2 = .ok image ∧
        (∀ other, image.Has other ↔ ∃ member ∈ set.members, (member.instantiate θ).Alike other) ∧
        image.same (.ofList (set.members.map (TraitRef.instantiate θ))) = true := by
  have fresh : Memo.Settled catalog sizes [] := .nil catalog sizes
  have smallToo := small.instantiate values
  have reports := (fits.closure_reports fresh small).2.substitute fun x _ => θ x
  have agree := reports.agree (fits.closure_reports fresh smallToo).2
  refine ⟨(Catalog.Resembles.refl catalog).supertraits _ trait, fun error => ?_, fun set answer => ?_⟩
  · rcases agree with ⟨set, image, here, there⟩ | ⟨cause, here, there⟩
    · rw [here, there]
      exact iff_of_false nofun nofun
    · rw [here, there]
  · have isClosure := (fits.closure [] trait fresh.sound small).2 set answer
    refine ⟨fun member inside x => isClosure.mentions inside, ?_⟩
    rcases agree with ⟨_, image, _, there⟩ | ⟨cause, here, _⟩
    · have isClosureToo := (fits.closure [] _ fresh.sound smallToo).2 image there
      exact ⟨image, there, isClosure.has_instance_iff isClosureToo,
        isClosure.same_instance isClosureToo values⟩
    · cases answer.symm.trans here

/-- `trait Both<X, Y>: Show<X> + Show<Y> {}` and `trait Show<Z> {}`. -/
def bothTraits : Table TraitDecl :=
  let shown (arg : String) : TypeExpr := .apply (.placeless "Show") [.apply (.placeless arg) []]
  ⟨[("Both", ⟨.placeless "Both", [.ofTerms "X" [] [], .ofTerms "Y" [] []],
      some ⟨[shown "X", shown "Y"], []⟩⟩),
    ("Show", ⟨.placeless "Show", [.ofTerms "Z" [] []], none⟩)]⟩

def bothCatalog : Catalog :=
  ⟨⟨[("Vec", ⟨.placeless "Vec", [.ofTerms "T" [] []]⟩)]⟩, bothTraits, [], by decide⟩

/-- `Show<P>` and `Show<Q>` are one in the closure of `Both<Vec<R>, Vec<R>>`. -/
theorem both_closure_instance :
    let trait : TraitRef := ⟨"Both", [.var 0 "P", .var 1 "Q"]⟩
    let θ : Int → Ty := fun _ => .ctor "Vec" [.var 2 "R"]
    trait.Sized bothCatalog.sizes ∧ (∀ x, trait.Mentions x → (θ x).Sized bothCatalog.sizes) ∧
      ∃ set image, (bothCatalog.closure [] trait).2 = .ok set ∧ set.members.length = 3 ∧
        (bothCatalog.closure [] (trait.instantiate θ)).2 = .ok image ∧ image.members.length = 2 ∧
        image.same (.ofList (set.members.map (TraitRef.instantiate θ))) = true := by
  intro trait θ
  have small : trait.Sized bothCatalog.sizes := by
    simp [trait, TraitRef.Sized, Ty.Sized.var]
  have values (x : Int) (_ : trait.Mentions x) : (θ x).Sized bothCatalog.sizes :=
    .ctor rfl (List.forall_mem_singleton.mpr (.var 2 "R"))
  obtain ⟨_, _, closures⟩ := closure_commutes_with_instantiation bothCatalog bothCatalog.sizes
    bothCatalog.fits_sizes trait small θ values
  obtain ⟨_, image, answer, _, same⟩ := closures _ rfl
  refine ⟨small, values, _, image, rfl, rfl, answer, ?_, same⟩
  cases answer
  rfl

end TraitCoherence
