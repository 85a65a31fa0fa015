import TraitCoherence.Proofs.FailureOrder
import TraitCoherence.Proofs.ResolvedBounds

namespace TraitCoherence

/-- A type has two instances that are alike when all of its variables do. -/
theorem Ty.instantiate_alike_iff {θ η : Int → Ty} {ty : Ty} :
    (ty.instantiate θ).Alike (ty.instantiate η) ↔ ∀ x ∈ ty.vars, (θ x).Alike (η x) := by
  induction ty using Ty.ind with
  | var x label => simp only [Ty.instantiate_var, Ty.vars_var, List.mem_singleton, forall_eq]
  | ctor name args ih =>
    simp only [Ty.Alike, Ty.instantiate_ctor, Ty.unlabeled_ctor, List.map_map, Ty.ctor.injEq,
      true_and, List.map_inj_left, Function.comp_apply, Ty.mem_vars_ctor] at ih ⊢
    constructor
    · rintro same x ⟨arg, member, occurs⟩
      exact (ih arg member).mp (same arg member) x occurs
    · intro same arg member
      exact (ih arg member).mpr fun x occurs => same x ⟨arg, member, occurs⟩

/-- The variable stands in the trait arguments or in the target. -/
def ImplScheme.Occurs (scheme : ImplScheme) (x : Int) : Prop :=
  (∃ arg ∈ scheme.trait.args, x ∈ arg.vars) ∨ x ∈ scheme.target.vars

instance (scheme : ImplScheme) : DecidablePred scheme.Occurs :=
  fun _ => inferInstanceAs (Decidable (_ ∨ _))

/-- An impl and a renumbered copy of it are unified by all that gives each variable that occurs what it
gives to its copy, and by nothing else. -/
theorem ImplScheme.unifies_copy_iff {scheme : ImplScheme} {ρ : Int ≃ Int} {θ : Int → Ty} :
    Unifies θ scheme (scheme.renumber ρ) ↔ ∀ x, scheme.Occurs x → (θ x).Alike (θ (ρ x)) := by
  have copies (ty : Ty) : (ty.instantiate θ).Alike ((ty.substitute (renumbered ρ)).instantiate θ) ↔
      ∀ x ∈ ty.vars, (θ x).Alike (θ (ρ x)) := by
    rw [Ty.instantiate_renumber, Ty.instantiate_alike_iff]
  have args : (∀ pair ∈ scheme.trait.args.zip (scheme.renumber ρ).trait.args,
      (pair.1.instantiate θ).Alike (pair.2.instantiate θ)) ↔
      ∀ arg ∈ scheme.trait.args, ∀ x ∈ arg.vars, (θ x).Alike (θ (ρ x)) := by
    simp only [ImplScheme.renumber, TraitRef.substitute, ← List.map_prod_left_eq_zip,
      List.forall_mem_map, copies]
  constructor
  · rintro unifies x (⟨arg, member, occurs⟩ | occurs)
    · exact args.mp unifies.args arg member x occurs
    · exact (copies _).mp unifies.target x occurs
  · intro same
    refine ⟨rfl, args.mpr fun arg member x occurs => ?_, (copies _).mpr fun x occurs => ?_⟩
    · exact same x (Or.inl ⟨arg, member, occurs⟩)
    · exact same x (Or.inr occurs)

/-- The copies of some variables fall back on the variables themselves, and all others stay. -/
def folded (ρ : Int ≃ Int) (copied : Int → Prop) [DecidablePred copied] (y : Int) : Ty :=
  if copied (ρ.symm y) then .var (ρ.symm y) "" else .var y ""

/-- Folding makes nothing one but variables and their copies. -/
theorem exists_of_folded_eq {ρ : Int ≃ Int} {copied : Int → Prop} [DecidablePred copied] {v w : Int}
    (same : folded ρ copied v = folded ρ copied w) (differ : v ≠ w) :
    ∃ x, copied x ∧ folded ρ copied v = .var x "" := by
  by_cases isCopy : copied (ρ.symm v)
  · exact ⟨ρ.symm v, isCopy, by rw [folded, if_pos isCopy]⟩
  · have image : folded ρ copied v = .var v "" := by rw [folded, if_neg isCopy]
    rw [same]
    by_cases isCopyToo : copied (ρ.symm w)
    · exact ⟨ρ.symm w, isCopyToo, by rw [folded, if_pos isCopyToo]⟩
    · have imageToo : folded ρ copied w = .var w "" := by rw [folded, if_neg isCopyToo]
      cases image.symm.trans (same.trans imageToo)
      exact absurd rfl differ

theorem folded_eq_iff {ρ : Int ≃ Int} {copied : Int → Prop} [DecidablePred copied]
    (apart : ∀ x, copied x → ¬ copied (ρ.symm x)) {x : Int} (chosen : copied x) (y : Int) :
    folded ρ copied y = .var x "" ↔ y = x ∨ y = ρ x := by
  rw [folded]
  split
  · rename_i isCopy
    rw [Ty.var.injEq, and_iff_left rfl, ρ.symm_apply_eq]
    refine ⟨Or.inr, fun either => either.resolve_left ?_⟩
    rintro rfl
    exact apart y chosen isCopy
  · rename_i notCopy
    rw [Ty.var.injEq, and_iff_left rfl]
    refine ⟨Or.inl, fun either => either.resolve_right ?_⟩
    rintro rfl
    exact notCopy ((ρ.symm_apply_apply x).symm ▸ chosen)

/-- Folding takes a trait application and its copy to the same one, labels aside. -/
theorem TraitRef.instantiate_folded {ρ : Int ≃ Int} {copied : Int → Prop} [DecidablePred copied]
    (apart : ∀ x, copied x → ¬ copied (ρ.symm x)) {trait : TraitRef}
    (within : ∀ arg ∈ trait.args, ∀ x ∈ arg.vars, copied x) :
    trait.instantiate (folded ρ copied) = trait.unlabeled ∧
      (trait.substitute (renumbered ρ)).instantiate (folded ρ copied) = trait.unlabeled := by
  constructor
  · refine TraitRef.substitute_congr fun arg member x occurs _ => ?_
    exact (folded_eq_iff apart (within arg member x occurs) x).mpr (Or.inl rfl)
  · rw [TraitRef.instantiate, TraitRef.substitute_substitute]
    refine TraitRef.substitute_congr fun arg member x occurs _ => ?_
    exact (folded_eq_iff apart (within arg member x occurs) (ρ x)).mpr (Or.inr rfl)

theorem Catalog.elaborateBound_mentions {catalog : Catalog} {scope : Scope} {expr : BoundExpr}
    {bound : Bound} (elaborated : catalog.elaborateBound scope expr = .ok bound) {x : Int}
    (mentions : bound.Mentions x) : scope.Mentions x := by
  obtain ⟨trait, member, arg, inside, occurs⟩ := mentions
  obtain ⟨source, same⟩ := Catalog.elaborateBound_origin elaborated member
  exact Catalog.elaborateTrait_vars same arg inside x occurs

/-- The bound of a parameter mentions only what was in scope before, and parameters before its own. -/
theorem Catalog.elaborateParams_mentions_earlier {catalog : Catalog} {scope inner : Scope}
    {next after : Int} {params : List Param} {bounds : BoundTable}
    (elaborated : catalog.elaborateParams scope next params = (after, .ok (inner, bounds)))
    {k : Nat} {key : Int} {bound : Bound} (stored : bounds[k]? = some (key, some bound)) {x : Int}
    (mentions : bound.Mentions x) : scope.Mentions x ∨ x ∈ numbersFrom next k := by
  induction params generalizing scope next bounds k with
  | nil =>
    cases elaborated
    cases stored
  | cons param params ih =>
    obtain ⟨first, rest, here, later, rfl⟩ := Catalog.elaborateParams_cons_ok elaborated
    cases k with
    | zero =>
      cases stored
      obtain ⟨expr, _, right⟩ := Catalog.elaborateParam_ok here
      exact Or.inl (Catalog.elaborateBound_mentions right mentions)
    | succ k =>
      rw [numbersFrom]
      rcases ih later stored with ⟨entry, member, occurs⟩ | earlier
      · rcases List.mem_cons.mp member with rfl | outer
        · exact Or.inr (List.mem_singleton.mp occurs ▸ List.mem_cons_self)
        · exact Or.inl ⟨entry, outer, occurs⟩
      · exact Or.inr (List.mem_cons_of_mem _ earlier)

/-- The bound of a parameter mentions no variable but parameters. -/
theorem Catalog.elaborateParams_mentions {catalog : Catalog} {scope inner : Scope} {next after : Int}
    {params : List Param} {bounds : BoundTable}
    (elaborated : catalog.elaborateParams scope next params = (after, .ok (inner, bounds)))
    {y : Int} {bound : Bound} (declared : (y, some bound) ∈ bounds) {x : Int}
    (mentions : bound.Mentions x) : scope.Mentions x ∨ x ∈ bounds.map (·.1) := by
  obtain ⟨k, stored⟩ := List.getElem?_of_mem declared
  refine (Catalog.elaborateParams_mentions_earlier elaborated stored mentions).imp_right ?_
  intro earlier
  have keys := (Catalog.elaborateParams_numbers elaborated).1
  have count := congrArg List.length keys
  have inside := (List.getElem?_eq_some_iff.mp stored).1
  rw [List.length_map, length_numbersFrom] at count
  rw [mem_numbersFrom] at earlier
  rw [keys, mem_numbersFrom]
  omega

/-- A scheme beside a copy of it that shares no parameter with it. All variables are parameters. -/
structure ImplScheme.Doubled (scheme : ImplScheme) (ρ : Int ≃ Int) : Prop where
  apart : ∀ x ∈ scheme.params, ρ.symm x ∉ scheme.params
  occurs : ∀ x, scheme.Occurs x → x ∈ scheme.params
  mentions : ∀ y bound, (y, some bound) ∈ scheme.bounds → ∀ x, bound.Mentions x → x ∈ scheme.params
  functional : ∀ x left right,
    (x, some left) ∈ scheme.bounds ++ (scheme.renumber ρ).bounds →
    (x, some right) ∈ scheme.bounds ++ (scheme.renumber ρ).bounds → left = right

/-- What an impl compared with itself is elaborated to. -/
theorem Catalog.elaboratePair_self {catalog : Catalog} {decl : ImplDecl} {left right : ImplScheme}
    (elaborated : catalog.elaboratePair decl decl = .ok (left, right)) :
    ∃ ρ, right = left.renumber ρ ∧ left.Doubled ρ := by
  have fits := catalog.fits_sizes
  obtain ⟨wellFormed, wellFormedToo⟩ := fits.elaboratePair elaborated
  have pair : WellFormedPair catalog.sizes left right := ⟨_, wellFormed, _, wellFormedToo⟩
  obtain ⟨here, after, there⟩ := Catalog.elaboratePair_ok elaborated
  have same := Catalog.Resembles.refl catalog
  let ρ := exchange decl.params.length decl.params.length
  have copy : right = left.renumber ρ := same.eq_renumber here there fun i below =>
    exchange_first below
  refine ⟨ρ, copy, ?_, ?_, fun y bound declared x mentions => ?_, ?_⟩
  · intro x member memberToo
    rw [wellFormed.params, mem_numbersFrom] at member memberToo
    simp only [ρ, exchange, Equiv.coe_fn_symm_mk] at memberToo
    grind
  · rintro x (⟨arg, member, occurs⟩ | occurs)
    · exact wellFormed.traitVars arg member x occurs
    · exact wellFormed.targetVars x occurs
  · obtain ⟨scope, params, _, _⟩ := Catalog.elaborateImpl_ok here
    refine (Catalog.elaborateParams_mentions params declared mentions).resolve_left ?_
    rintro ⟨entry, member, _⟩
    exact absurd member List.not_mem_nil
  · rw [← copy]
    intro x own other declared declaredToo
    have found := (pair.lookup_iff.mpr declared).symm.trans (pair.lookup_iff.mpr declaredToo)
    exact Option.some.inj (Option.some.inj found)

theorem folded_eq_of_alike {ρ : Int ≃ Int} {copied : Int → Prop} [DecidablePred copied] {v w : Int}
    (alike : (folded ρ copied v).Alike (folded ρ copied w)) :
    folded ρ copied v = folded ρ copied w := by
  have unlabeled (y : Int) : (folded ρ copied y).unlabeled = folded ρ copied y := by
    rw [folded]
    split <;> rfl
  rw [← unlabeled v, ← unlabeled w]
  exact alike

section

variable {catalog : Catalog} {scheme : ImplScheme} {ρ : Int ≃ Int} {x : Int} {bound : Bound}

theorem ImplScheme.Doubled.folded_eq_iff (doubled : scheme.Doubled ρ) (occurs : scheme.Occurs x)
    (y : Int) : folded ρ scheme.Occurs y = .var x "" ↔ y = x ∨ y = ρ x :=
  TraitCoherence.folded_eq_iff (fun z here there =>
    doubled.apart z (doubled.occurs z here) (doubled.occurs _ there)) occurs y

theorem ImplScheme.Doubled.folded_unifies (doubled : scheme.Doubled ρ) :
    Unifies (folded ρ scheme.Occurs) scheme (scheme.renumber ρ) := by
  refine ImplScheme.unifies_copy_iff.mpr fun x occurs => ?_
  rw [(doubled.folded_eq_iff occurs x).mpr (Or.inl rfl),
    (doubled.folded_eq_iff occurs (ρ x)).mpr (Or.inr rfl)]
  rfl

/-- What cannot be told from a variable that occurs, or from its copy, is that variable and its copy:
folding tells all others from them. -/
theorem ImplScheme.Doubled.inseparable_eq (doubled : scheme.Doubled ρ) (occurs : scheme.Occurs x)
    {v : Int} (image : folded ρ scheme.Occurs v = .var x "") :
    inseparable scheme (scheme.renumber ρ) v = {y | y = x ∨ y = ρ x} := by
  ext y
  constructor
  · rintro ⟨_, same⟩
    have one := folded_eq_of_alike (same _ doubled.folded_unifies)
    exact (doubled.folded_eq_iff occurs y).mp (one.symm.trans image)
  · intro inside
    have param := doubled.occurs x occurs
    have paramToo : ρ x ∈ (scheme.renumber ρ).params := by
      obtain ⟨entry, member, rfl⟩ := List.mem_map.mp param
      exact List.mem_map.mpr ⟨_, List.mem_map_of_mem member, rfl⟩
    refine ⟨?_, fun θ unifies => ?_⟩
    · rcases inside with rfl | rfl
      · exact List.mem_append_left _ param
      · exact List.mem_append_right _ paramToo
    · have like (z : Int) (either : z = x ∨ z = ρ x) : (θ x).Alike (θ z) := by
        rcases either with rfl | rfl
        · rfl
        · exact ImplScheme.unifies_copy_iff.mp unifies x occurs
      exact (like v ((doubled.folded_eq_iff occurs v).mp image)).symm.trans (like y inside)

theorem ImplScheme.Doubled.linked (doubled : scheme.Doubled ρ) (occurs : scheme.Occurs x)
    (declared : (x, some bound) ∈ scheme.bounds) :
    Linked scheme (scheme.renumber ρ) {y | y = x ∨ y = ρ x} := by
  have param := doubled.occurs x occurs
  have itself := (doubled.folded_eq_iff occurs x).mpr (Or.inl rfl)
  constructor
  · exact ⟨x, List.mem_append_left _ param, (doubled.inseparable_eq occurs itself).symm⟩
  · refine ⟨x, Or.inl rfl, ρ x, Or.inr rfl, fun same => doubled.apart x param ?_⟩
    rwa [ρ.symm_apply_eq.mpr same]
  · exact ⟨_, doubled.folded_unifies, x, fun v inside =>
      ⟨"", (doubled.folded_eq_iff occurs v).mpr inside⟩⟩
  · rintro v (rfl | rfl)
    · exact ⟨bound, List.mem_append_left _ declared⟩
    · exact ⟨bound.renumber ρ, List.mem_append_right _ (mem_bounds_renumber declared)⟩

/-- Nothing else is linked. -/
theorem ImplScheme.Doubled.of_linked (doubled : scheme.Doubled ρ) {members : Set Int}
    (linked : Linked scheme (scheme.renumber ρ) members) :
    ∃ x bound, scheme.Occurs x ∧ (x, some bound) ∈ scheme.bounds ∧
      members = {y | y = x ∨ y = ρ x} := by
  obtain ⟨v, _, rfl⟩ := linked.whole
  obtain ⟨w, ⟨_, sameW⟩, z, ⟨_, sameZ⟩, differ⟩ := linked.several
  have atW := folded_eq_of_alike (sameW _ doubled.folded_unifies)
  have atZ := folded_eq_of_alike (sameZ _ doubled.folded_unifies)
  obtain ⟨x, occurs, image⟩ := exists_of_folded_eq (atW.symm.trans atZ) differ
  have whole := doubled.inseparable_eq occurs (atW.trans image)
  obtain ⟨bound, declared⟩ := linked.bounded x (whole ▸ Or.inl rfl)
  refine ⟨x, bound, occurs, (List.mem_append.mp declared).resolve_right fun copied => ?_, whole⟩
  obtain ⟨entry, member, same⟩ := List.mem_map.mp copied
  have key : ρ.symm x = entry.1 := ρ.symm_apply_eq.mpr (Prod.mk.inj same).1.symm
  exact doubled.apart x (doubled.occurs x occurs) (key ▸ List.mem_map_of_mem member)

/-- The bounds that count for a variable and its copy are its own and the copy of it. -/
theorem ImplScheme.Doubled.bound_eq (doubled : scheme.Doubled ρ)
    (declared : (x, some bound) ∈ scheme.bounds) {v : Int} (inside : v = x ∨ v = ρ x)
    {own : Bound} (declaredToo : (v, some own) ∈ scheme.bounds ++ (scheme.renumber ρ).bounds) :
    own = bound ∨ own = bound.renumber ρ := by
  rcases inside with rfl | rfl
  · exact Or.inl (doubled.functional _ _ _ declaredToo (List.mem_append_left _ declared))
  · exact Or.inr (doubled.functional _ _ _ declaredToo
      (List.mem_append_right _ (mem_bounds_renumber declared)))

theorem TraitSet.exists_of_folded {copied : Int → Prop} [DecidablePred copied]
    (apart : ∀ x, copied x → ¬ copied (ρ.symm x)) {set : TraitSet}
    (within : ∀ trait ∈ set.members, ∀ arg ∈ trait.args, ∀ x ∈ arg.vars, copied x) {trait : TraitRef}
    (member : trait ∈ set.members ∨ trait ∈ (set.renumber ρ).members) :
    ∃ origin ∈ set.members, trait.instantiate (folded ρ copied) = origin.unlabeled := by
  rcases member with own | copy
  · exact ⟨trait, own, (TraitRef.instantiate_folded apart (within trait own)).1⟩
  · obtain ⟨origin, member, rfl⟩ := List.mem_map.mp copy
    exact ⟨origin, member, (TraitRef.instantiate_folded apart (within origin member)).2⟩

/-- A bound and its copy contradict each other only if the bound contradicts itself. -/
theorem ImplScheme.Doubled.contradictory_iff (doubled : scheme.Doubled ρ)
    (declared : (x, some bound) ∈ scheme.bounds) :
    catalog.Contradictory (scheme.bounds ++ (scheme.renumber ρ).bounds) {y | y = x ∨ y = ρ x} ↔
      catalog.Contradicts bound := by
  constructor
  · rintro ⟨demanded, forbidden, ⟨v, inside, own, declaredV, positive⟩,
      ⟨w, insideToo, other, declaredW, negative⟩, entails⟩
    have within := doubled.mentions x bound declared
    have demands : demanded ∈ bound.positive.members ∨
        demanded ∈ (bound.renumber ρ).positive.members := by
      rcases doubled.bound_eq declared inside declaredV with rfl | rfl
      · exact Or.inl positive
      · exact Or.inr positive
    have forbids : forbidden ∈ bound.negative.members ∨
        forbidden ∈ (bound.renumber ρ).negative.members := by
      rcases doubled.bound_eq declared insideToo declaredW with rfl | rfl
      · exact Or.inl negative
      · exact Or.inr negative
    obtain ⟨source, sourceIn, restored⟩ := TraitSet.exists_of_folded doubled.apart
      (fun trait member arg inArgs z occurs => within z
        ⟨trait, List.mem_append_left _ member, arg, inArgs, occurs⟩) demands
    obtain ⟨sink, sinkIn, restoredToo⟩ := TraitSet.exists_of_folded doubled.apart
      (fun trait member arg inArgs z occurs => within z
        ⟨trait, List.mem_append_right _ member, arg, inArgs, occurs⟩) forbids
    -- Folding carries every link of the chain of supertraits to one between the originals.
    exact ⟨source, sourceIn, sink, sinkIn, entails.undo restored restoredToo⟩
  · rintro ⟨demanded, positive, forbidden, negative, entails⟩
    have here := List.mem_append_left (scheme.renumber ρ).bounds declared
    exact ⟨demanded, forbidden, ⟨x, Or.inl rfl, bound, here, positive⟩,
      ⟨x, Or.inl rfl, bound, here, negative⟩, entails⟩

theorem ImplScheme.Doubled.separated_iff (doubled : scheme.Doubled ρ) :
    catalog.Separated scheme (scheme.renumber ρ) ↔
      ∃ x bound, scheme.Occurs x ∧ (x, some bound) ∈ scheme.bounds ∧ catalog.Contradicts bound := by
  constructor
  · rintro (separate | ⟨members, excludes⟩)
    · exact absurd ⟨_, doubled.folded_unifies⟩ separate
    · obtain ⟨linked, contradictory⟩ := Catalog.excludes_iff.mp excludes
      obtain ⟨x, bound, occurs, declared, rfl⟩ := doubled.of_linked linked
      exact ⟨x, bound, occurs, declared, (doubled.contradictory_iff declared).mp contradictory⟩
  · rintro ⟨x, bound, occurs, declared, contradicts⟩
    refine Or.inr ⟨_, Catalog.excludes_iff.mpr ⟨doubled.linked occurs declared, ?_⟩⟩
    exact (doubled.contradictory_iff declared).mpr contradicts

theorem ImplScheme.Doubled.of_opposed (doubled : scheme.Doubled ρ)
    (opposed : catalog.Opposed scheme (scheme.renumber ρ)) :
    ∃ x bound, scheme.Occurs x ∧ (x, some bound) ∈ scheme.bounds ∧ catalog.Contradicts bound ∧
      ¬ catalog.Breaks bound.positive.members := by
  obtain ⟨members, linked, contradictory, clear⟩ := opposed
  obtain ⟨x, bound, occurs, declared, rfl⟩ := doubled.of_linked linked
  refine ⟨x, bound, occurs, declared, (doubled.contradictory_iff declared).mp contradictory, ?_⟩
  exact fun breaks => clear ⟨x, Or.inl rfl, bound, List.mem_append_left _ declared, breaks⟩

theorem ImplScheme.Doubled.hampered (doubled : scheme.Doubled ρ) (occurs : scheme.Occurs x)
    (declared : (x, some bound) ∈ scheme.bounds) (breaks : catalog.Breaks bound.positive.members) :
    catalog.Hampered scheme (scheme.renumber ρ) :=
  ⟨_, doubled.linked occurs declared, x, Or.inl rfl, bound, List.mem_append_left _ declared, breaks⟩

theorem ImplScheme.Doubled.params_disjoint (doubled : scheme.Doubled ρ) :
    scheme.params.Disjoint (scheme.renumber ρ).params := by
  intro x member copy
  obtain ⟨entry, inside, rfl⟩ := List.mem_map.mp copy
  obtain ⟨origin, declared, rfl⟩ := List.mem_map.mp inside
  refine doubled.apart _ member ?_
  rw [ρ.symm_apply_apply]
  exact List.mem_map_of_mem declared

end

/-- A bound that can be closed is found unsatisfiable or satisfiable, and rightly so. -/
theorem Catalog.Fits.unsatisfiable_answers {catalog : Catalog} {sizes : String → Nat}
    (fits : catalog.Fits sizes) {bound : Bound} (small : bound.Sized sizes)
    (whole : ¬ catalog.Breaks bound.positive.members) :
    ((catalog.unsatisfiable [] bound).2 = .ok true ∧ catalog.Contradicts bound) ∨
      ((catalog.unsatisfiable [] bound).2 = .ok false ∧ ¬ catalog.Contradicts bound) := by
  have reports := (fits.unsatisfiable_reports (.nil catalog sizes) small).2
  have right := (fits.unsatisfiable (.nil catalog sizes) small).2
  match outcome : (catalog.unsatisfiable [] bound).2 with
  | .error error => exact absurd (reports.error_iff.mp ⟨error, outcome⟩) whole
  | .ok true => exact Or.inl ⟨rfl, (right true outcome).mp rfl⟩
  | .ok false => exact Or.inr ⟨rfl, fun contradicts => nomatch (right false outcome).mpr contradicts⟩

/-- An impl and a second copy of it are disjoint exactly when a parameter that occurs in the head or in
the target has a bound that contradicts itself, which asking about that bound alone finds out.
Otherwise they overlap, and then all bounds of parameters that occur are found satisfiable. -/
theorem duplicates_disjoint_iff_bound_unsatisfiable (catalog : Catalog) (decl : ImplDecl)
    (verdict : Verdict) (compared : (catalog.compare decl decl).result = .ok verdict) :
    ∃ left right, catalog.elaboratePair decl decl = .ok (left, right) ∧
      left.params.Disjoint right.params ∧
      (verdict = .disjoint ↔ ∃ x bound, left.Occurs x ∧ (x, some bound) ∈ left.bounds ∧
        catalog.Contradicts bound) ∧
      (verdict = .disjoint ↔ ∃ x bound, left.Occurs x ∧ (x, some bound) ∈ left.bounds ∧
        (catalog.unsatisfiable [] bound).2 = .ok true) ∧
      (verdict = .overlap ↔ ∀ x bound, left.Occurs x → (x, some bound) ∈ left.bounds →
        (catalog.unsatisfiable [] bound).2 = .ok false) := by
  obtain ⟨left, right, elaborated, separated⟩ := Catalog.compare_ok compared
  have explains := Catalog.compare_explains elaborated
  rw [compared] at explains
  have fits := catalog.fits_sizes
  have sized := (fits.elaboratePair elaborated).1.bounds
  obtain ⟨ρ, rfl, doubled⟩ := Catalog.elaboratePair_self elaborated
  rw [doubled.separated_iff] at separated
  have unsatisfiable : verdict = .disjoint ↔ ∃ x bound, left.Occurs x ∧
      (x, some bound) ∈ left.bounds ∧ (catalog.unsatisfiable [] bound).2 = .ok true := by
    constructor
    · rintro rfl
      have opposed := explains.resolve_left fun separate => separate ⟨_, doubled.folded_unifies⟩
      obtain ⟨x, bound, occurs, declared, contradicts, whole⟩ := doubled.of_opposed opposed
      rcases fits.unsatisfiable_answers (sized x bound declared) whole with yes | no
      · exact ⟨x, bound, occurs, declared, yes.1⟩
      · exact absurd contradicts no.2
    · rintro ⟨x, bound, occurs, declared, answer⟩
      have right := (fits.unsatisfiable (.nil catalog _) (sized x bound declared)).2
      exact separated.mpr ⟨x, bound, occurs, declared, (right true answer).mp rfl⟩
  refine ⟨left, _, elaborated, doubled.params_disjoint, separated, unsatisfiable, ?_,
    fun satisfiable => ?_⟩
  · rintro rfl x bound occurs declared
    have whole : ¬ catalog.Breaks bound.positive.members := fun breaks =>
      explains (doubled.hampered occurs declared breaks)
    rcases fits.unsatisfiable_answers (sized x bound declared) whole with yes | no
    · cases separated.mpr ⟨x, bound, occurs, declared, yes.2⟩
    · exact no.1
  · cases verdict with
    | overlap => rfl
    | disjoint =>
      obtain ⟨x, bound, occurs, declared, answer⟩ := unsatisfiable.mp rfl
      cases answer.symm.trans (satisfiable x bound occurs declared)

/-- `impl<P: Copy, P: Copy - Clone> Show for P {}`, where the second `P` hides the first. -/
def showUnsatisfiable : ImplDecl :=
  ⟨[.ofTerms "P" [.apply (.placeless "Copy") []] [],
      .ofTerms "P" [.apply (.placeless "Copy") []] [.apply (.placeless "Clone") []]],
    .apply (.placeless "Show") [], .apply (.placeless "P") []⟩

/-- `impl<P: Copy - Clone, P: Copy> Show for P {}`, where no type fits the `P` that is hidden. -/
def showHidden : ImplDecl :=
  ⟨[.ofTerms "P" [.apply (.placeless "Copy") []] [.apply (.placeless "Clone") []],
      .ofTerms "P" [.apply (.placeless "Copy") []] []],
    .apply (.placeless "Show") [], .apply (.placeless "P") []⟩

/-- Both impls have a parameter that no type fits, and it counts only where it occurs. -/
theorem hidden_parameter_tells_no_duplicates_apart :
    ((showCatalog.compare showUnsatisfiable showUnsatisfiable).result = .ok .disjoint ∧
      ∃ left right, showCatalog.elaboratePair showUnsatisfiable showUnsatisfiable =
          .ok (left, right) ∧
        ∃ x bound, left.Occurs x ∧ (x, some bound) ∈ left.bounds ∧ showCatalog.Contradicts bound) ∧
    ((showCatalog.compare showHidden showHidden).result = .ok .overlap ∧
      ∃ left right, showCatalog.elaboratePair showHidden showHidden = .ok (left, right) ∧
        (∃ x bound, ¬ left.Occurs x ∧ (x, some bound) ∈ left.bounds ∧
          (showCatalog.unsatisfiable [] bound).2 = .ok true) ∧
        ∀ x bound, left.Occurs x → (x, some bound) ∈ left.bounds →
          (showCatalog.unsatisfiable [] bound).2 = .ok false) := by
  have disjoint : (showCatalog.compare showUnsatisfiable showUnsatisfiable).result =
      .ok .disjoint := rfl
  have overlap : (showCatalog.compare showHidden showHidden).result = .ok .overlap := rfl
  obtain ⟨left, right, elaborated, _, contradicts, _⟩ :=
    duplicates_disjoint_iff_bound_unsatisfiable showCatalog showUnsatisfiable _ disjoint
  obtain ⟨hidden, again, elaboratedToo, _, _, _, satisfiable⟩ :=
    duplicates_disjoint_iff_bound_unsatisfiable showCatalog showHidden _ overlap
  refine ⟨⟨disjoint, left, right, elaborated, contradicts.mp rfl⟩, overlap, hidden, again,
    elaboratedToo, ?_, satisfiable.mp rfl⟩
  cases elaboratedToo
  exact ⟨0, _, by decide, List.mem_cons_self, rfl⟩

end TraitCoherence
