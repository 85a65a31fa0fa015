import TraitCoherence.Source
import TraitCoherence.Proofs.FailureOrder
import TraitCoherence.Proofs.NameUses
import TraitCoherence.Proofs.Occurrences
import TraitCoherence.Proofs.Sweeps

namespace TraitCoherence

/-- The name to blame is one of these occurrences. An undeclared trait is blamed by the text of one
alone, without its place. -/
def CheckError.Sourced (names : List Name) (error : CheckError) : Prop :=
  error.guilty ∈ names ∨ ∃ name ∈ names, error = .undeclaredTrait name.unplaced

theorem TypeExpr.name_mem_occurrences {inScope : List String} {expr : TypeExpr} {use : NameUse}
    (member : use ∈ expr.uses inScope) : use.name ∈ expr.occurrences := by
  induction expr using TypeExpr.ind with
  | apply name args ih =>
    rw [TypeExpr.uses, TypeExpr.usesAll_eq_flatMap, List.mem_cons, List.mem_flatMap] at member
    rw [TypeExpr.occurrences, TypeExpr.occurrencesAll_eq_flatMap, List.mem_cons, List.mem_flatMap]
    rcases member with rfl | ⟨arg, inside, used⟩
    · exact Or.inl rfl
    · exact Or.inr ⟨arg, inside, ih arg inside used⟩

/-- The types in the arguments of a trait are named inside its application. -/
theorem TypeExpr.arg_mem_occurrences {inScope : List String} {expr : TypeExpr} {use : NameUse}
    (member : use ∈ TypeExpr.usesAll inScope expr.args) : use.name ∈ expr.occurrences := by
  obtain ⟨name, args⟩ := expr
  rw [TypeExpr.usesAll_eq_flatMap, TypeExpr.args, List.mem_flatMap] at member
  obtain ⟨arg, inside, used⟩ := member
  rw [TypeExpr.occurrences, TypeExpr.occurrencesAll_eq_flatMap, List.mem_cons, List.mem_flatMap]
  exact Or.inr ⟨arg, inside, TypeExpr.name_mem_occurrences used⟩

theorem mem_occurrences_of_traitUses {inScope : List String} {exprs : List TypeExpr} {use : NameUse}
    (member : use ∈ traitUses inScope exprs) : use.name ∈ exprs.flatMap TypeExpr.occurrences := by
  rw [traitUses, List.mem_flatMap] at member
  obtain ⟨expr, inside, used⟩ := member
  exact List.mem_flatMap.mpr ⟨expr, inside, TypeExpr.arg_mem_occurrences used⟩

theorem mem_occurrences_of_paramUses {before : List String} {params : List Param} {use : NameUse}
    (member : use ∈ paramUses before params) : use.name ∈ params.flatMap Param.occurrences := by
  induction params generalizing before with
  | nil => cases member
  | cons param params ih =>
    rw [List.flatMap_cons, List.mem_append]
    rcases List.mem_append.mp member with here | later
    · refine Or.inl (List.mem_cons_of_mem _ ?_)
      cases written : param.bound with
      | none =>
        rw [written] at here
        cases here
      | some bound =>
        rw [written, Option.elim_some, BoundExpr.uses, List.mem_append] at here
        rw [Option.elim_some, BoundExpr.occurrences, List.flatMap_append, List.mem_append]
        exact here.imp mem_occurrences_of_traitUses mem_occurrences_of_traitUses
    · exact Or.inr (ih later)

theorem ImplDecl.name_mem_occurrences {decl : ImplDecl} {use : NameUse} (member : use ∈ decl.uses) :
    use.name ∈ (Decl.impl decl).occurrences := by
  rw [ImplDecl.uses, List.mem_append, List.mem_append] at member
  rw [Decl.occurrences, List.mem_append, List.mem_append]
  rcases member with (inBound | inHead) | inTarget
  · exact Or.inl (mem_occurrences_of_paramUses inBound)
  · exact Or.inr (Or.inl (TypeExpr.arg_mem_occurrences inHead))
  · exact Or.inr (Or.inr (TypeExpr.name_mem_occurrences inTarget))

theorem Catalog.firstFault?_guilty {catalog : Catalog} {uses : List NameUse} {error : CheckError}
    (found : catalog.firstFault? uses = some error) : ∃ use ∈ uses, error.guilty = use.name := by
  obtain ⟨use, member, fault⟩ := List.exists_of_findSome?_eq_some found
  exact ⟨use, member, NameUse.guilty_of_fault? fault⟩

theorem Scope.holds_names (scope : Scope) : scope.Holds (scope.map (·.1)) := by
  intro name
  induction scope with
  | nil => exact iff_of_false List.not_mem_nil nofun
  | cons entry scope ih =>
    obtain ⟨key, ty⟩ := entry
    rw [List.map_cons, List.mem_cons, ih, lookup_cons_eq_ite]
    by_cases here : name = key
    · rw [if_pos here]
      exact iff_of_true (Or.inl here) ⟨ty, rfl⟩
    · rw [if_neg here, or_iff_right here]

section

variable {catalog : Catalog} {names : List Name}

/-- All names in the supertraits of declared traits are among these. -/
def Catalog.Written (catalog : Catalog) (names : List Name) : Prop :=
  ∀ text decl, catalog.traits.get? text = some decl →
    decl.demands.flatMap TypeExpr.occurrences ⊆ names

theorem Catalog.Written.supertrait (written : catalog.Written names) {trait supertrait : TraitRef}
    (step : catalog.Supertrait trait supertrait) : ∃ name ∈ names, name.text = supertrait.name := by
  obtain ⟨supertraits, found, member⟩ := step
  rw [Catalog.supertraits] at found
  split at found
  · cases found
  · rename_i decl declared
    obtain ⟨expr, inside, elaborated⟩ := Catalog.elaborateTraits_ok found supertrait member
    obtain ⟨types, _, rfl⟩ := Catalog.elaborateTrait_ok elaborated
    refine ⟨expr.name, written _ decl declared (List.mem_flatMap.mpr ⟨expr, inside, ?_⟩), rfl⟩
    obtain ⟨name, args⟩ := expr
    exact List.mem_cons_self

theorem Catalog.Written.obliges (written : catalog.Written names) {trait reached : TraitRef}
    (named : ∃ name ∈ names, name.text = trait.name) (obliges : catalog.Obliges trait reached) :
    ∃ name ∈ names, name.text = reached.name := by
  rcases obliges.cases_tail with rfl | ⟨_, _, step⟩
  · exact named
  · exact written.supertrait step

theorem Catalog.Written.sourced_supertraits (written : catalog.Written names) {trait : TraitRef}
    (named : ∃ name ∈ names, name.text = trait.name) {error : CheckError}
    (failed : catalog.supertraits trait = .error error) : error.Sourced names := by
  rw [Catalog.supertraits] at failed
  split at failed
  · cases failed
    obtain ⟨name, member, same⟩ := named
    exact Or.inr ⟨name, member, by rw [Phrase.unplaced, same]⟩
  · rename_i decl declared
    rw [← cause?_eq_some_iff, catalog.elaborateTraits_cause (Scope.holds_names _)] at failed
    obtain ⟨use, used, guilty⟩ := Catalog.firstFault?_guilty failed
    exact Or.inl (guilty ▸ written _ decl declared (mem_occurrences_of_traitUses used))

/-- A closure fails at some trait on the way, and that trait is named in the source. -/
theorem Catalog.Written.sourced_blames (written : catalog.Written names) {traits : List TraitRef}
    (named : ∀ trait ∈ traits, ∃ name ∈ names, name.text = trait.name) {error : CheckError}
    (blames : catalog.Blames traits error) : error.Sourced names := by
  obtain ⟨trait, member, reached, obliges, failed⟩ := blames.reached
  exact written.sourced_supertraits (written.obliges (named trait member) obliges) failed

end

theorem BoundExpr.name_of_elaborated {catalog : Catalog} {scope : Scope} {expr : BoundExpr}
    {bound : Bound} (elaborated : catalog.elaborateBound scope expr = .ok bound) {trait : TraitRef}
    (member : trait ∈ bound.positive.members) : ∃ name ∈ expr.occurrences, name.text = trait.name := by
  obtain ⟨positive, negative, demanded, _, rfl⟩ := Catalog.elaborateBound_ok elaborated
  obtain ⟨source, inside, same⟩ :=
    Catalog.elaborateTraits_ok demanded trait (TraitSet.mem_of_mem_ofList member)
  obtain ⟨types, _, rfl⟩ := Catalog.elaborateTrait_ok same
  refine ⟨source.name, List.mem_flatMap.mpr ⟨source, List.mem_append_left _ inside, ?_⟩, rfl⟩
  obtain ⟨name, args⟩ := source
  exact List.mem_cons_self

/-- The traits of every bound, all of them named among these occurrences. -/
def BoundTable.Named (names : List Name) (bounds : BoundTable) : Prop :=
  ∀ x bound, (x, some bound) ∈ bounds → ∀ trait ∈ bound.positive.members,
    ∃ name ∈ names, name.text = trait.name

theorem Catalog.elaborateParams_named {catalog : Catalog} {scope inner : Scope} {next after : Int}
    {params : List Param} {bounds : BoundTable}
    (elaborated : catalog.elaborateParams scope next params = (after, .ok (inner, bounds))) :
    bounds.Named (params.flatMap Param.occurrences) := by
  induction params generalizing scope next bounds with
  | nil =>
    cases elaborated
    exact fun _ _ member => absurd member List.not_mem_nil
  | cons param params ih =>
    obtain ⟨first, rest, here, later, rfl⟩ := Catalog.elaborateParams_cons_ok elaborated
    intro x bound member trait demanded
    rw [List.flatMap_cons]
    rcases List.mem_cons.mp member with same | inside
    · obtain ⟨rfl, rfl⟩ := Prod.mk.inj same
      obtain ⟨expr, written, whole⟩ := Catalog.elaborateParam_ok here
      obtain ⟨name, occurs, text⟩ := BoundExpr.name_of_elaborated whole demanded
      refine ⟨name, List.mem_append_left _ (List.mem_cons_of_mem _ ?_), text⟩
      rwa [written, Option.elim_some]
    · obtain ⟨name, occurs, text⟩ := ih later x bound inside trait demanded
      exact ⟨name, List.mem_append_right _ occurs, text⟩

theorem Catalog.elaborateImpl_named {catalog : Catalog} {next after : Int} {decl : ImplDecl}
    {scheme : ImplScheme} (elaborated : catalog.elaborateImpl next decl = (after, .ok scheme))
    {names : List Name} (written : (Decl.impl decl).occurrences ⊆ names) :
    scheme.bounds.Named names := by
  obtain ⟨scope, params, _, _⟩ := Catalog.elaborateImpl_ok elaborated
  intro x bound member trait demanded
  obtain ⟨name, occurs, text⟩ := Catalog.elaborateParams_named params x bound member trait demanded
  exact ⟨name, written (List.mem_append_left _ occurs), text⟩

theorem Catalog.sourced_elaborateImpl {catalog : Catalog} {next : Int} {decl : ImplDecl}
    {error : CheckError} (failed : (catalog.elaborateImpl next decl).2 = .error error)
    {names : List Name} (written : (Decl.impl decl).occurrences ⊆ names) : error.Sourced names := by
  rw [← cause?_eq_some_iff, catalog.elaborateImpl_cause] at failed
  obtain ⟨use, used, guilty⟩ := Catalog.firstFault?_guilty failed
  exact Or.inl (guilty ▸ written (ImplDecl.name_mem_occurrences used))

/-- A judgment fails where the joined bound of some class cannot be closed. -/
theorem Catalog.Fits.judgeClasses_blames {catalog : Catalog} {sizes : String → Nat}
    (fits : catalog.Fits sizes) {bounds : BoundTable} (small : bounds.Sized sizes) {memo : Memo}
    (settled : memo.Settled catalog sizes) {classes : List VarClass}
    (covers : ∀ varClass ∈ classes, bounds.Covers varClass.members) {error : CheckError}
    (failed : (catalog.judgeClasses bounds memo classes).result = .error error) :
    ∃ members bound, joinBounds bounds .empty members = .bound bound ∧
      catalog.Blames bound.positive.members error := by
  induction classes generalizing memo with
  | nil => cases failed
  | cons first classes ih =>
    obtain ⟨here, later⟩ := List.forall_mem_cons.mp covers
    obtain ⟨members, anchor⟩ := first
    cases anchor with
    | some anchor =>
      rw [Catalog.judgeClasses] at failed
      exact ih settled later failed
    | none =>
      rw [Catalog.judgeClasses] at failed
      split at failed
      · rename_i x missing
        exact absurd missing (here.joinBounds_ne_missing .empty x)
      · exact ih settled later failed
      · rename_i bound joined
        have sized := (joinBounds_has small (.empty sizes) joined).1
        obtain ⟨next, reports⟩ := fits.unsatisfiable_reports settled sized
        split at failed
        · rename_i after cause outcome
          cases failed
          rw [outcome] at reports
          exact ⟨members, bound, joined, reports⟩
        · cases failed
        · rename_i after outcome
          rw [outcome] at next
          exact ih next later failed

theorem joinBounds_named {sizes : String → Nat} {bounds : BoundTable} (small : bounds.Sized sizes)
    {names : List Name} (named : bounds.Named names) {members : List Int} {bound : Bound}
    (joined : joinBounds bounds .empty members = .bound bound) :
    ∀ trait ∈ bound.positive.members, ∃ name ∈ names, name.text = trait.name := by
  obtain ⟨_, positive, _⟩ := joinBounds_has small (.empty sizes) joined
  intro trait member
  rcases (positive trait).mp (TraitSet.has_of_mem member) with nothing | ⟨x, _, own, found, has⟩
  · exact absurd nothing (TraitSet.not_has_empty trait)
  · obtain ⟨origin, inside, alike⟩ := has
    obtain ⟨name, occurs, text⟩ := named x own (mem_of_lookup_eq_some found) origin inside
    exact ⟨name, occurs, text.trans (TraitRef.alike_iff.mp alike).1⟩

/-- Whatever a comparison fails for is blamed on a name of the two impls or of a trait. -/
theorem Catalog.Written.sourced_compare {catalog : Catalog} {names : List Name}
    (written : catalog.Written names) {first second : ImplDecl} {cause : CheckError}
    (here : (Decl.impl first).occurrences ⊆ names) (there : (Decl.impl second).occurrences ⊆ names)
    (failed : (catalog.compare first second).result = .error cause) : cause.Sourced names := by
  cases elaborated : catalog.elaboratePair first second with
  | error error =>
    cases (Catalog.compare_of_refused elaborated).symm.trans failed
    rw [catalog.elaboratePair_eq] at elaborated
    cases left : (catalog.elaborateImpl 0 first).2 with
    | error other =>
      rw [left] at elaborated
      cases elaborated
      exact Catalog.sourced_elaborateImpl left here
    | ok scheme =>
      cases right : (catalog.elaborateImpl first.params.length second).2 with
      | error other =>
        rw [left, right] at elaborated
        cases elaborated
        exact Catalog.sourced_elaborateImpl right there
      | ok other =>
        rw [left, right] at elaborated
        cases elaborated
  | ok schemes =>
    obtain ⟨left, right⟩ := schemes
    have fits := catalog.fits_sizes
    obtain ⟨wellFormed, wellFormedToo⟩ := fits.elaboratePair elaborated
    have pair : WellFormedPair catalog.sizes left right := ⟨_, wellFormed, _, wellFormedToo⟩
    obtain ⟨elaboratedHere, after, elaboratedThere⟩ := Catalog.elaboratePair_ok elaborated
    have named : BoundTable.Named names (left.bounds ++ right.bounds) := by
      intro x bound member
      rcases List.mem_append.mp member with inLeft | inRight
      · exact Catalog.elaborateImpl_named elaboratedHere here x bound inLeft
      · exact Catalog.elaborateImpl_named elaboratedThere there x bound inRight
    rw [Catalog.compare, elaborated] at failed
    dsimp only at failed
    split at failed
    · cases failed
    · rename_i σ done
      have unified := wellFormed.unified wellFormedToo done
      obtain ⟨members, bound, joined, blames⟩ :=
        fits.judgeClasses_blames pair.bounds_sized (.nil catalog _) (unified.covers pair) failed
      exact written.sourced_blames (joinBounds_named pair.bounds_sized named joined) blames

theorem Catalog.judge_error {catalog : Catalog} {pairs : List (ImplDecl × ImplDecl)}
    {failure : CheckFailure} (failed : (catalog.judge pairs).result = .error failure) :
    ∃ first second cause, (first, second) ∈ pairs ∧ failure = .aborted first second cause ∧
      (catalog.compare first second).result = .error cause := by
  induction pairs with
  | nil => cases failed
  | cons pair pairs ih =>
    obtain ⟨first, second⟩ := pair
    rw [Catalog.judge] at failed
    dsimp only at failed
    split at failed
    · rename_i cause compared
      cases failed
      exact ⟨first, second, cause, List.mem_cons_self, rfl, compared⟩
    · split at failed
      · rename_i later rest
        cases failed
        obtain ⟨one, two, cause, member, found⟩ := ih rest
        exact ⟨one, two, cause, List.mem_cons_of_mem _ member, found⟩
      · cases failed

/-- Why a check failed, whether or not it came to comparing impls. -/
def CheckFailure.cause : CheckFailure → CheckError
  | .rejected cause => cause
  | .aborted _ _ cause => cause

theorem mem_of_mem_pairsOf {α : Type} {items : List α} {a b : α} (member : (a, b) ∈ pairsOf items) :
    a ∈ items ∧ b ∈ items := by
  have anyOrder : items.Pairwise fun _ _ => True := List.pairwise_of_forall fun _ _ => trivial
  obtain ⟨left, right, _⟩ := mem_pairsOf_of_sorted anyOrder member
  exact ⟨left, right⟩

theorem Program.subset_occurrences {program : Program} {decl : Decl} (member : decl ∈ program.decls) :
    decl.occurrences ⊆ program.occurrences :=
  fun _ occurs => List.mem_flatMap.mpr ⟨decl, member, occurs⟩

theorem Program.impl_mem_decls {program : Program} {impl : ImplDecl} (member : impl ∈ program.impls) :
    .impl impl ∈ program.decls := by
  obtain ⟨decl, inside, isImpl⟩ := List.mem_filterMap.mp member
  cases decl with
  | impl other =>
    cases isImpl
    exact inside
  | struct other => cases isImpl
  | trait other => cases isImpl

theorem Program.Declares.mem {program : Program} {decl : TraitDecl} (declares : program.Declares decl) :
    .trait decl ∈ program.decls := by
  obtain ⟨before, after, split, _⟩ := declares
  rw [split]
  exact List.mem_append_right _ List.mem_cons_self

theorem Program.written_occurrences {program : Program} {catalog : Catalog}
    (collected : program.catalog = .ok catalog) : catalog.Written program.occurrences := by
  intro text decl found name occurs
  rw [(Program.catalog_ok collected).2.1] at found
  have declared := (Program.traits_get?_iff.mp found).1.mem
  refine Program.subset_occurrences declared (List.mem_cons_of_mem _ (List.mem_append_right _ ?_))
  rw [TraitDecl.demands] at occurs
  split at occurs
  · cases occurs
  · rename_i bound written
    rw [written, Option.elim_some, BoundExpr.occurrences, List.flatMap_append]
    exact List.mem_append_left _ occurs

/-- Whatever a check fails for is blamed on a name of the program. -/
theorem Program.sourced_check {program : Program} {failure : CheckFailure}
    (failed : program.check.result = .error failure) :
    failure.cause.Sourced program.occurrences := by
  rw [Program.check] at failed
  split at failed
  · rename_i cause rejected
    cases failed
    rw [Program.catalog] at rejected
    split at rejected
    · rename_i circle found
      obtain ⟨guilty, names, reported, shape⟩ := Program.circle_of_found found
      cases rejected
      obtain ⟨decl, declares, same⟩ := shape.declared guilty (List.mem_of_mem_head? shape.first)
      rw [CheckFailure.cause, reported]
      refine Or.inl (Program.subset_occurrences declares.mem ?_)
      rw [CheckError.guilty, ← same]
      exact List.mem_cons_self
    · cases rejected
  · rename_i catalog collected
    obtain ⟨first, second, cause, member, rfl, compared⟩ := Catalog.judge_error failed
    rw [Catalog.pairs, (Program.catalog_ok collected).2.2] at member
    obtain ⟨here, there⟩ := mem_of_mem_pairsOf member
    exact (Program.written_occurrences collected).sourced_compare
      (Program.subset_occurrences (Program.impl_mem_decls here))
      (Program.subset_occurrences (Program.impl_mem_decls there)) compared

/-- If a program that was read cannot be checked, the text spells the name to blame somewhere. Unless it
is that of an undeclared trait, the name has a place, it is what stands at that place, and it is drawn
there. -/
theorem check_errors_point_into_source (text : String) (program : Program) (failure : CheckFailure)
    (read : parse text = .ok program) (failed : program.check.result = .error failure) :
    (∃ token ∈ (scan text).tokens, token.terminal = .name ∧
      token.text = failure.cause.guilty.text) ∧
    ((∀ name, failure.cause ≠ .undeclaredTrait name) →
      ∃ span, failure.cause.guilty.span = some span ∧
        span.cut text = failure.cause.guilty.text ∧
        ∀ path caption, illustrate (some ⟨path, text⟩) failure.cause.guilty caption =
          drawing (placeOf text span.start) (span.stop - span.start) caption) := by
  rcases Program.sourced_check failed with guilty | ⟨name, occurs, undeclared⟩
  · obtain ⟨token, member, isName, same, cut⟩ := Program.cut_of_mem_occurrences read guilty
    rw [← same] at cut ⊢
    exact ⟨⟨token, member, isName, rfl⟩, fun _ => ⟨token.span, rfl, cut, fun _ _ => rfl⟩⟩
  · obtain ⟨token, member, isName, same, _⟩ := Program.cut_of_mem_occurrences read occurs
    refine ⟨⟨token, member, isName, ?_⟩, fun declared => absurd undeclared (declared _)⟩
    rw [undeclared]
    exact congrArg Phrase.text same

/-- Why the program in a text cannot be checked, if it is one and cannot be checked. -/
def checkCause? (text : String) : Option CheckError :=
  match parse text with
  | .error _ => none
  | .ok program =>
    match program.check.result with
    | .error failure => some failure.cause
    | .ok _ => none

theorem exists_failure_of_checkCause? {text : String} {cause : CheckError}
    (found : checkCause? text = some cause) :
    ∃ program failure, parse text = .ok program ∧ program.check.result = .error failure ∧
      failure.cause = cause := by
  rw [checkCause?] at found
  split at found
  · cases found
  · rename_i program read
    split at found
    · rename_i failure failed
      exact ⟨program, failure, read, failed, Option.some.inj found⟩
    · cases found

/-- A supertrait has an argument that nothing declares. -/
def ghostArgument : String :=
  "struct A; trait S<X>: E<X, Ghost> \x7b\x7d trait E<X, Y> \x7b\x7d " ++
    "impl<P: S<A>> T<P> for A \x7b\x7d impl<Q: S<A>> T<Q> for A \x7b\x7d"

/-- The argument is only met when the bounds of two impls are closed. -/
theorem ghost_argument_pointed_at :
    ∃ program failure, parse ghostArgument = .ok program ∧ program.check.result = .error failure ∧
      failure.cause = .undefinedSymbol ⟨"Ghost", some ⟨27, 32⟩⟩ ∧
      ∃ span, failure.cause.guilty.span = some span ∧ span.cut ghostArgument = "Ghost" ∧
        ∀ path caption, illustrate (some ⟨path, ghostArgument⟩) failure.cause.guilty caption =
          drawing (placeOf ghostArgument span.start) (span.stop - span.start) caption := by
  have found : checkCause? ghostArgument = some (.undefinedSymbol ⟨"Ghost", some ⟨27, 32⟩⟩) := by
    decide +kernel
  obtain ⟨program, failure, read, failed, cause⟩ := exists_failure_of_checkCause? found
  refine ⟨program, failure, read, failed, cause, ?_⟩
  obtain ⟨_, points⟩ := check_errors_point_into_source ghostArgument program failure read failed
  have declared (name : Name) : failure.cause ≠ .undeclaredTrait name := by
    rw [cause]
    exact nofun
  obtain ⟨span, placed, cut, drawn⟩ := points declared
  refine ⟨span, placed, ?_, drawn⟩
  rw [cut, cause]
  rfl

/-- A bound demands a trait that nothing declares. -/
def ghostBound : String :=
  "struct A; trait T<X> \x7b\x7d trait Show \x7b\x7d " ++
    "impl<P: Ghost> T<P> for A \x7b\x7d impl<Q: Show> T<Q> for A \x7b\x7d"

/-- An undeclared trait stands in the text, but the name that is blamed for it has no place there. -/
theorem undeclared_trait_has_no_place :
    ∃ program failure, parse ghostBound = .ok program ∧ program.check.result = .error failure ∧
      failure.cause.guilty.text = "Ghost" ∧ Span.cut ⟨46, 51⟩ ghostBound = "Ghost" ∧
      failure.cause.guilty.span = none := by
  have found : checkCause? ghostBound = some (.undeclaredTrait ⟨"Ghost", none⟩) := by
    decide +kernel
  have stands : Span.cut ⟨46, 51⟩ ghostBound = "Ghost" := by decide +kernel
  obtain ⟨program, failure, read, failed, cause⟩ := exists_failure_of_checkCause? found
  refine ⟨program, failure, read, failed, ?_, stands, ?_⟩
  · rw [cause]
    rfl
  · rw [cause]
    rfl

end TraitCoherence
