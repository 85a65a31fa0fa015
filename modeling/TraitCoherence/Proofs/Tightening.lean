import TraitCoherence.Declaration.Likeness
import TraitCoherence.Proofs.FailureOrder

namespace TraitCoherence

/-- Expressions are alike when they differ at most in where their names stand. -/
def TypeExpr.Alike (a b : TypeExpr) : Prop := a.unplaced = b.unplaced

instance (a b : TypeExpr) : Decidable (a.Alike b) := inferInstanceAs (Decidable (_ = _))

/-- Every term of the second list is in the first, places aside. -/
def Includes (more terms : List TypeExpr) : Prop := ∀ term ∈ terms, ∃ other ∈ more, term.Alike other

instance (more terms : List TypeExpr) : Decidable (Includes more terms) :=
  inferInstanceAs (Decidable (∀ term ∈ terms, ∃ other ∈ more, term.Alike other))

/-- A bound with all the terms of another, and maybe further ones. -/
def BoundExpr.Extends (more bound : BoundExpr) : Prop :=
  Includes more.positive bound.positive ∧ Includes more.negative bound.negative

instance (more bound : BoundExpr) : Decidable (more.Extends bound) :=
  inferInstanceAs (Decidable (_ ∧ _))

/-- A parameter that is bounded where the other is, by all that bounds the other. -/
def Param.Tightens (tight param : Param) : Prop :=
  tight.name.text = param.name.text ∧
    ∀ bound ∈ param.bound, ∃ more ∈ tight.bound, more.Extends bound

instance (tight param : Param) : Decidable (tight.Tightens param) :=
  inferInstanceAs (Decidable (_ ∧ _))

/-- The same impl with tighter parameters. -/
structure ImplDecl.Tightens (tight decl : ImplDecl) : Prop where
  params : List.Forall₂ Param.Tightens tight.params decl.params
  head : decl.head.Alike tight.head
  target : decl.target.Alike tight.target

/-- The same trait with all its positive supertraits, and maybe further ones. -/
structure TraitDecl.Tightens (tight decl : TraitDecl) : Prop where
  params : tight.params.map (·.name.text) = decl.params.map (·.name.text)
  demands : Includes tight.demands decl.demands

/-- Structs stay as they are used, and traits have at least the supertraits they had. -/
structure Catalog.Tightens (tight catalog : Catalog) : Prop where
  structs : ∀ name decl, catalog.structs.get? name = some decl →
    ∃ other, tight.structs.get? name = some other ∧ other.arity = decl.arity
  traits : ∀ name decl, catalog.traits.get? name = some decl →
    ∃ other, tight.traits.get? name = some other ∧ other.Tightens decl

theorem TypeExpr.Alike.parts {name other : Name} {args others : List TypeExpr}
    (alike : (TypeExpr.apply name args).Alike (.apply other others)) :
    name.text = other.text ∧ List.Forall₂ TypeExpr.Alike args others := by
  rw [TypeExpr.Alike, TypeExpr.unplaced, TypeExpr.unplaced, TypeExpr.unplacedAll_eq_map,
    TypeExpr.unplacedAll_eq_map, TypeExpr.apply.injEq] at alike
  refine ⟨(Phrase.mk.inj alike.1).1, ?_⟩
  rw [← List.forall₂_eq_eq_eq, List.forall₂_map_left_iff, List.forall₂_map_right_iff] at alike
  exact alike.2

theorem Catalog.elaborateTypes_alike_of {catalog tight : Catalog} {scope : Scope}
    {exprs images : List TypeExpr} {types : List Ty}
    (each : ∀ expr ∈ exprs, ∀ image ty, expr.Alike image →
      catalog.elaborateType scope expr = .ok ty → tight.elaborateType scope image = .ok ty)
    (alike : List.Forall₂ TypeExpr.Alike exprs images)
    (elaborated : catalog.elaborateTypes scope exprs = .ok types) :
    tight.elaborateTypes scope images = .ok types := by
  rw [catalog.elaborateTypes_eq_mapM, mapM_eq_ok_iff] at elaborated
  rw [tight.elaborateTypes_eq_mapM, mapM_eq_ok_iff]
  induction alike generalizing types with
  | nil =>
    cases elaborated
    exact .nil
  | cons head _ ih =>
    obtain _ | ⟨first, later⟩ := elaborated
    have same := each _ List.mem_cons_self _ _ head first
    exact .cons same (ih (fun expr member => each expr (List.mem_cons_of_mem _ member)) later)

section

variable {catalog tight : Catalog} (tightens : tight.Tightens catalog) {scope : Scope}

include tightens

/-- What an expression means, it means in a tighter catalog, wherever its names stand. -/
theorem Catalog.Tightens.elaborateType {expr image : TypeExpr} {ty : Ty} (alike : expr.Alike image)
    (elaborated : catalog.elaborateType scope expr = .ok ty) :
    tight.elaborateType scope image = .ok ty := by
  induction expr using TypeExpr.ind generalizing image ty with
  | apply name args ih =>
    obtain ⟨other, others⟩ := image
    obtain ⟨text, parts⟩ := alike.parts
    rw [Catalog.elaborateType] at elaborated ⊢
    rw [← text]
    cases found : scope.lookup name.text with
    | some inScope =>
      rw [found] at elaborated
      simp only at elaborated ⊢
      split at elaborated
      · rename_i bare
        rw [List.isEmpty_iff] at bare
        subst bare
        cases parts
        exact elaborated
      · cases elaborated
    | none =>
      rw [found] at elaborated
      simp only at elaborated ⊢
      split at elaborated
      · cases elaborated
      · rename_i decl declared
        obtain ⟨struct, kept, arity⟩ := tightens.structs name.text decl declared
        split at elaborated
        · rename_i count
          split at elaborated
          · cases elaborated
          · rename_i types meanings
            cases elaborated
            have same := Catalog.elaborateTypes_alike_of (fun expr member _ _ => ih expr member) parts
              meanings
            simp only [kept]
            rw [if_pos (arity.trans (count.trans parts.length_eq)), same]
        · cases elaborated

theorem Catalog.Tightens.elaborateTrait {expr image : TypeExpr} {trait : TraitRef}
    (alike : expr.Alike image) (elaborated : catalog.elaborateTrait scope expr = .ok trait) :
    tight.elaborateTrait scope image = .ok trait := by
  obtain ⟨name, args⟩ := expr
  obtain ⟨other, others⟩ := image
  obtain ⟨text, parts⟩ := alike.parts
  obtain ⟨types, meanings, rfl⟩ := Catalog.elaborateTrait_ok elaborated
  have same : tight.elaborateTypes scope others = .ok types :=
    Catalog.elaborateTypes_alike_of (fun _ _ _ _ => tightens.elaborateType) parts meanings
  simp only [Catalog.elaborateTrait, TypeExpr.args, TypeExpr.name, same, text]

end

/-- Further terms add to the traits that the terms mean. -/
theorem Catalog.Tightens.elaborateTraits {catalog tight : Catalog} (tightens : tight.Tightens catalog)
    {scope : Scope} {terms more : List TypeExpr} {traits others : List TraitRef}
    (includes : Includes more terms) (elaborated : catalog.elaborateTraits scope terms = .ok traits)
    (elaboratedToo : tight.elaborateTraits scope more = .ok others) : traits ⊆ others := by
  intro trait member
  obtain ⟨term, written, meaning⟩ := Catalog.elaborateTraits_ok elaborated trait member
  obtain ⟨image, writtenToo, alike⟩ := includes term written
  obtain ⟨other, inside, meaningToo⟩ := Catalog.elaborateTraits_mem elaboratedToo writtenToo
  cases (tightens.elaborateTrait alike meaning).symm.trans meaningToo
  exact inside

theorem Catalog.Tightens.supertraits {catalog tight : Catalog} (tightens : tight.Tightens catalog)
    {trait : TraitRef} {supertraits others : List TraitRef}
    (found : catalog.supertraits trait = .ok supertraits)
    (foundToo : tight.supertraits trait = .ok others) : supertraits ⊆ others := by
  rw [Catalog.supertraits] at found foundToo
  split at found
  · cases found
  · rename_i decl declared
    obtain ⟨other, kept, tighter⟩ := tightens.traits trait.name decl declared
    simp only [kept, tighter.params] at foundToo
    exact tightens.elaborateTraits tighter.demands found foundToo

/-- A chain of supertraits is one in a tighter catalog too, if the supertraits on the way can still be
found there. -/
theorem Catalog.Tightens.obliges {catalog tight : Catalog} (tightens : tight.Tightens catalog)
    {trait image : TraitRef} (closes : tight.Closes trait) (obliges : catalog.Obliges trait image) :
    tight.Obliges trait image := by
  induction obliges with
  | refl => exact .refl
  | tail _ step ih =>
    obtain ⟨supertraits, found, member⟩ := step
    obtain ⟨others, foundToo⟩ := closes _ ih
    exact .tail ih ⟨others, foundToo, tightens.supertraits found foundToo member⟩

/-- Every trait that a bound demands or forbids, another one demands or forbids too, labels aside. -/
structure Bound.Extends (more bound : Bound) : Prop where
  positive : ∀ trait ∈ bound.positive.members, more.positive.Has trait
  negative : ∀ trait ∈ bound.negative.members, more.negative.Has trait

theorem TraitSet.has_ofList {sizes : String → Nat} {traits others : List TraitRef}
    (small : ∀ trait ∈ others, trait.Sized sizes) (included : traits ⊆ others) :
    ∀ trait ∈ (TraitSet.ofList traits).members, (TraitSet.ofList others).Has trait := by
  intro trait member
  have inside := included (TraitSet.mem_of_mem_ofList member)
  exact (((TraitSet.Sized.empty sizes).foldl_insert small).2 trait).mpr (Or.inr ⟨trait, inside, rfl⟩)

theorem Catalog.Tightens.elaborateBound {catalog tight : Catalog} (tightens : tight.Tightens catalog)
    {scope : Scope} (inScope : ∀ entry ∈ scope, entry.2.Sized tight.sizes) {expr more : BoundExpr}
    {bound other : Bound} (extended : more.Extends expr)
    (elaborated : catalog.elaborateBound scope expr = .ok bound)
    (elaboratedToo : tight.elaborateBound scope more = .ok other) : other.Extends bound := by
  obtain ⟨positive, negative, demanded, forbidden, rfl⟩ := Catalog.elaborateBound_ok elaborated
  obtain ⟨demands, bans, demandedToo, forbiddenToo, rfl⟩ := Catalog.elaborateBound_ok elaboratedToo
  have sized {exprs : List TypeExpr} {traits : List TraitRef}
      (meanings : tight.elaborateTraits scope exprs = .ok traits) :
      ∀ trait ∈ traits, trait.Sized tight.sizes := by
    intro trait member
    obtain ⟨source, _, same⟩ := Catalog.elaborateTraits_ok meanings trait member
    exact tight.fits_sizes.elaborateTrait inScope same
  constructor
  · exact TraitSet.has_ofList (sized demandedToo)
      (tightens.elaborateTraits extended.1 demanded demandedToo)
  · exact TraitSet.has_ofList (sized forbiddenToo)
      (tightens.elaborateTraits extended.2 forbidden forbiddenToo)

/-- The variables with a bound keep one, by which they are bound at least as much. -/
def BoundTable.Extends (more bounds : BoundTable) : Prop :=
  ∀ x bound, (x, some bound) ∈ bounds → ∃ other, (x, some other) ∈ more ∧ other.Extends bound

theorem BoundTable.Extends.append {left right more others : BoundTable}
    (first : more.Extends left) (second : others.Extends right) :
    BoundTable.Extends (more ++ others) (left ++ right) := by
  intro x bound declared
  rcases List.mem_append.mp declared with here | there
  · obtain ⟨other, kept, extended⟩ := first x bound here
    exact ⟨other, List.mem_append_left _ kept, extended⟩
  · obtain ⟨other, kept, extended⟩ := second x bound there
    exact ⟨other, List.mem_append_right _ kept, extended⟩

/-- Tighter parameters bring the same names into scope, and extend the table of bounds. -/
theorem Catalog.Tightens.elaborateParams {catalog tight : Catalog}
    (tightens : tight.Tightens catalog) {scope inner innerToo : Scope} {next after last : Int}
    {params images : List Param} {bounds others : BoundTable}
    (tighter : List.Forall₂ Param.Tightens images params)
    (inScope : ∀ entry ∈ scope, entry.2.Sized tight.sizes)
    (elaborated : catalog.elaborateParams scope next params = (after, .ok (inner, bounds)))
    (elaboratedToo : tight.elaborateParams scope next images = (last, .ok (innerToo, others))) :
    innerToo = inner ∧ others.Extends bounds := by
  induction tighter generalizing scope next bounds others with
  | nil =>
    cases elaborated
    cases elaboratedToo
    exact ⟨rfl, fun _ _ declared => absurd declared List.not_mem_nil⟩
  | @cons image param images params head _ ih =>
    obtain ⟨bound, rest, here, later, rfl⟩ := Catalog.elaborateParams_cons_ok elaborated
    obtain ⟨other, restToo, hereToo, laterToo, rfl⟩ := Catalog.elaborateParams_cons_ok elaboratedToo
    rw [head.1] at laterToo
    have inScopeToo : ∀ entry ∈ (param.name.text, Ty.var next param.name.text) :: scope,
        entry.2.Sized tight.sizes :=
      List.forall_mem_cons.mpr ⟨.var next _, inScope⟩
    obtain ⟨same, extended⟩ := ih inScopeToo later laterToo
    refine ⟨same, fun x own declared => ?_⟩
    rcases List.mem_cons.mp declared with same | inside
    · cases same
      obtain ⟨expr, written, meaning⟩ := Catalog.elaborateParam_ok here
      obtain ⟨more, writtenToo, grown⟩ := head.2 expr written
      simp only [Catalog.elaborateParam, Option.mem_def.mp writtenToo] at hereToo
      split at hereToo
      · cases hereToo
      · rename_i wider meaningToo
        cases hereToo
        exact ⟨wider, List.mem_cons_self,
          tightens.elaborateBound inScope grown meaning meaningToo⟩
    · obtain ⟨wider, kept, grown⟩ := extended x own inside
      exact ⟨wider, List.mem_cons_of_mem _ kept, grown⟩

/-- The same head, target and parameters, with bounds that extend the others. -/
structure ImplScheme.Tightens (tight scheme : ImplScheme) : Prop where
  trait : tight.trait = scheme.trait
  target : tight.target = scheme.target
  params : tight.params = scheme.params
  bounds : tight.bounds.Extends scheme.bounds

theorem Catalog.Tightens.elaborateImpl {catalog tight : Catalog} (tightens : tight.Tightens catalog)
    {next after last : Int} {decl image : ImplDecl} {scheme other : ImplScheme}
    (tighter : image.Tightens decl)
    (elaborated : catalog.elaborateImpl next decl = (after, .ok scheme))
    (elaboratedToo : tight.elaborateImpl next image = (last, .ok other)) : other.Tightens scheme := by
  obtain ⟨scope, params, head, target⟩ := Catalog.elaborateImpl_ok elaborated
  obtain ⟨scopeToo, paramsToo, headToo, targetToo⟩ := Catalog.elaborateImpl_ok elaboratedToo
  obtain ⟨rfl, extended⟩ := tightens.elaborateParams tighter.params
    (fun _ member => absurd member List.not_mem_nil) params paramsToo
  have sameHead := (tightens.elaborateTrait tighter.head head).symm.trans headToo
  have sameTarget := (tightens.elaborateType tighter.target target).symm.trans targetToo
  refine ⟨(Except.ok.inj sameHead).symm, (Except.ok.inj sameTarget).symm, ?_, extended⟩
  rw [ImplScheme.params, ImplScheme.params, (Catalog.elaborateParams_numbers params).1,
    (Catalog.elaborateParams_numbers paramsToo).1, tighter.params.length_eq]

theorem Catalog.Tightens.elaboratePair {catalog tight : Catalog} (tightens : tight.Tightens catalog)
    {first second firstToo secondToo : ImplDecl} {left right leftToo rightToo : ImplScheme}
    (tighter : firstToo.Tightens first) (tighterToo : secondToo.Tightens second)
    (elaborated : catalog.elaboratePair first second = .ok (left, right))
    (elaboratedToo : tight.elaboratePair firstToo secondToo = .ok (leftToo, rightToo)) :
    leftToo.Tightens left ∧ rightToo.Tightens right := by
  obtain ⟨here, after, there⟩ := Catalog.elaboratePair_ok elaborated
  obtain ⟨hereToo, last, thereToo⟩ := Catalog.elaboratePair_ok elaboratedToo
  rw [tighter.params.length_eq] at thereToo
  exact ⟨tightens.elaborateImpl tighter here hereToo,
    tightens.elaborateImpl tighterToo there thereToo⟩

section

variable {left right leftToo rightToo : ImplScheme} (tighter : leftToo.Tightens left)
  (tighterToo : rightToo.Tightens right)

include tighter tighterToo

/-- Bounds play no part in unification. -/
theorem ImplScheme.Tightens.unifies_iff {θ : Int → Ty} :
    Unifies θ leftToo rightToo ↔ Unifies θ left right := by
  have same : demandsOf leftToo rightToo = demandsOf left right := by
    rw [demandsOf, demandsOf, tighter.trait, tighter.target, tighterToo.trait, tighterToo.target]
  rw [unifies_iff_met, unifies_iff_met, same]

theorem ImplScheme.Tightens.bounds_append :
    BoundTable.Extends (leftToo.bounds ++ rightToo.bounds) (left.bounds ++ right.bounds) :=
  tighter.bounds.append tighterToo.bounds

theorem ImplScheme.Tightens.linked {members : Set Int} (linked : Linked left right members) :
    Linked leftToo rightToo members := by
  obtain ⟨v, param, whole⟩ := linked.whole
  obtain ⟨θ, unifies, stays⟩ := linked.free
  have same : inseparable leftToo rightToo v = inseparable left right v := by
    simp only [inseparable, tighter.params, tighterToo.params, tighter.unifies_iff tighterToo]
  refine ⟨⟨v, ?_, whole.trans same.symm⟩, linked.several,
    ⟨θ, (tighter.unifies_iff tighterToo).mpr unifies, stays⟩, fun w inside => ?_⟩
  · rw [tighter.params, tighterToo.params]
    exact param
  · obtain ⟨bound, declared⟩ := linked.bounded w inside
    obtain ⟨other, kept, _⟩ := tighter.bounds_append tighterToo w bound declared
    exact ⟨other, kept⟩

end

/-- What contradicts itself still does, unless the bounds can no longer be closed. -/
theorem Catalog.Tightens.contradictory {catalog tight : Catalog} (tightens : tight.Tightens catalog)
    {bounds more : BoundTable} {members : Set Int} (extended : more.Extends bounds)
    (clear : ¬ tight.Stuck more members) (contradictory : catalog.Contradictory bounds members) :
    tight.Contradictory more members := by
  obtain ⟨demanded, forbidden, ⟨v, inside, own, declared, positive⟩,
    ⟨w, insideToo, other, declaredToo, negative⟩, reached, obliges, alike⟩ := contradictory
  obtain ⟨wide, kept, grown⟩ := extended v own declared
  obtain ⟨wideToo, keptToo, grownToo⟩ := extended w other declaredToo
  obtain ⟨demand, demandIn, sameDemand⟩ := grown.positive demanded positive
  obtain ⟨ban, banIn, sameBan⟩ := grownToo.negative forbidden negative
  have whole : ¬ tight.Breaks wide.positive.members := fun breaks =>
    clear ⟨v, inside, wide, kept, breaks⟩
  have closes : tight.Closes demanded :=
    (Catalog.not_breaks_iff.mp whole demand demandIn).alike sameDemand
  have entails : tight.Entails demanded forbidden := ⟨reached, tightens.obliges closes obliges, alike⟩
  exact ⟨demand, ban, ⟨v, inside, wide, kept, demandIn⟩, ⟨w, insideToo, wideToo, keptToo, banIn⟩,
    entails.alike sameDemand.symm sameBan.symm⟩

/-- Impls that are disjoint stay so under further terms in the bounds of their parameters, bounds for
parameters without one and further supertraits of traits, as long as they can be compared. -/
theorem tightening_keeps_impls_disjoint (catalog tight : Catalog)
    (first second firstToo secondToo : ImplDecl) (verdict : Verdict)
    (disjoint : (catalog.compare first second).result = .ok .disjoint)
    (tightens : tight.Tightens catalog) (tighter : firstToo.Tightens first)
    (tighterToo : secondToo.Tightens second)
    (compared : (tight.compare firstToo secondToo).result = .ok verdict) : verdict = .disjoint := by
  obtain ⟨left, right, elaborated, separated⟩ := Catalog.compare_ok disjoint
  obtain ⟨leftToo, rightToo, elaboratedToo, separatedToo⟩ := Catalog.compare_ok compared
  have explains := Catalog.compare_explains elaboratedToo
  rw [compared] at explains
  obtain ⟨here, there⟩ := tightens.elaboratePair tighter tighterToo elaborated elaboratedToo
  cases verdict with
  | disjoint => rfl
  | overlap =>
    -- Nothing was in the way, so what told the impls apart is still found.
    refine separatedToo.mpr ?_
    rcases separated.mp rfl with separate | ⟨members, excludes⟩
    · refine Or.inl fun ⟨θ, unifies⟩ => separate ⟨θ, ?_⟩
      exact (here.unifies_iff there).mp unifies
    · obtain ⟨linked, contradictory⟩ := Catalog.excludes_iff.mp excludes
      have linkedToo := here.linked there linked
      have clear : ¬ tight.Stuck (leftToo.bounds ++ rightToo.bounds) members := fun stuck =>
        explains ⟨members, linkedToo, stuck⟩
      refine Or.inr ⟨members, Catalog.excludes_iff.mpr ⟨linkedToo, ?_⟩⟩
      exact tightens.contradictory (here.bounds_append there) clear contradictory

/-- `trait Show {}`, `trait Clone: Show {}` and `trait Copy: Show + Clone {}`. -/
def tightTraits : Table TraitDecl :=
  ⟨[("Show", ⟨.placeless "Show", [], none⟩),
    ("Clone", ⟨.placeless "Clone", [], some ⟨[.apply (.placeless "Show") []], []⟩⟩),
    ("Copy", ⟨.placeless "Copy", [],
      some ⟨[.apply (.placeless "Show") [], .apply (.placeless "Clone") []], []⟩⟩)]⟩

def tightCatalog : Catalog := ⟨.empty, tightTraits, [], by decide⟩

/-- `impl<R, P: Copy> Show for P {}`. -/
def showSpare : ImplDecl :=
  ⟨[.ofTerms "R" [] [], .ofTerms "P" [.apply (.placeless "Copy") []] []],
    .apply (.placeless "Show") [], .apply (.placeless "P") []⟩

/-- `impl<R: Clone, P: Show + Copy> Show for P {}`. -/
def showSpareTight : ImplDecl :=
  ⟨[.ofTerms "R" [.apply (.placeless "Clone") []] [],
      .ofTerms "P" [.apply (.placeless "Show") [], .apply (.placeless "Copy") []] []],
    .apply (.placeless "Show") [], .apply (.placeless "P") []⟩

/-- `impl<Q: Show - Copy - Clone> Show for Q {}`. -/
def showUnclonedTight : ImplDecl :=
  ⟨[.ofTerms "Q" [.apply (.placeless "Show") []]
      [.apply (.placeless "Copy") [], .apply (.placeless "Clone") []]],
    .apply (.placeless "Show") [], .apply (.placeless "Q") []⟩

/-- All ways to tighten at once: more supertraits, more terms of both signs and a bound for `R`. -/
theorem show_tightened_stays_disjoint :
    (showCatalog.compare showSpare showUncloned).result = .ok .disjoint ∧
      tightCatalog.Tightens showCatalog ∧ showSpareTight.Tightens showSpare ∧
      showUnclonedTight.Tightens showUncloned ∧
      (tightCatalog.compare showSpareTight showUnclonedTight).result = .ok .disjoint := by
  have before : (showCatalog.compare showSpare showUncloned).result = .ok .disjoint := rfl
  have tightens : tightCatalog.Tightens showCatalog := by
    constructor
    · intro name decl found
      exact absurd (mem_of_lookup_eq_some found) List.not_mem_nil
    · intro name decl found
      have entry := mem_of_lookup_eq_some found
      simp only [showCatalog, copyTraits, List.mem_cons, List.not_mem_nil, or_false,
        Prod.mk.injEq] at entry
      rcases entry with ⟨rfl, rfl⟩ | ⟨rfl, rfl⟩ | ⟨rfl, rfl⟩
      · exact ⟨_, rfl, rfl, by decide⟩
      · exact ⟨_, rfl, rfl, by decide⟩
      · exact ⟨_, rfl, rfl, by decide⟩
  have tighter : showSpareTight.Tightens showSpare :=
    ⟨.cons (by decide) (.cons (by decide) .nil), rfl, rfl⟩
  have tighterToo : showUnclonedTight.Tightens showUncloned := ⟨.cons (by decide) .nil, rfl, rfl⟩
  obtain ⟨verdict, compared⟩ :
      ∃ verdict, (tightCatalog.compare showSpareTight showUnclonedTight).result = .ok verdict :=
    ⟨_, rfl⟩
  cases tightening_keeps_impls_disjoint showCatalog tightCatalog showSpare showUncloned
    showSpareTight showUnclonedTight verdict before tightens tighter tighterToo compared
  exact ⟨before, tightens, tighter, tighterToo, compared⟩

end TraitCoherence
