import TraitCoherence.Proofs.Endings
import TraitCoherence.Proofs.ExactTypes
import TraitCoherence.Proofs.FailureOrder

namespace TraitCoherence

/-- A symbol that is not defined, a wrong number of arguments for a parameter or a struct, or a trait
that is not declared. -/
inductive CheckError.Foreseen : CheckError → Prop
  | undefinedSymbol (name : Name) : Foreseen (.undefinedSymbol name)
  | appliedParameter (name : Name) (given : Int) : Foreseen (.appliedParameter name given)
  | wrongArity (name : Name) (given needed : Int) : Foreseen (.wrongArity name given needed)
  | undeclaredTrait (name : Name) : Foreseen (.undeclaredTrait name)

/-- Where everything fits, no entry is missing. -/
theorem Stage.Raises.foreseen {catalog : Catalog} {sizes : String → Nat} {stage : Stage}
    {error : CheckError} (raises : stage.Raises catalog error) (fit : stage.Fit catalog sizes) :
    error.Foreseen := by
  cases raises with
  | applied _ _ => exact .appliedParameter _ _
  | unknown _ _ => exact .undefinedSymbol _
  | arity _ _ _ => exact .wrongArity _ _ _
  | undeclared _ _ => exact .undeclaredTrait _
  | missing absent =>
    obtain ⟨entry, found⟩ := fit.2.2 _ List.mem_cons_self
    cases absent.symm.trans found

theorem Catalog.compare_foreseen {catalog : Catalog} {first second : ImplDecl} {error : CheckError}
    (failed : (catalog.compare first second).result = .error error) :
    error.Foreseen ∧ ∃ stage, catalog.Reaches first second stage ∧ stage.Raises catalog error := by
  have finishes := catalog.compare_finishes first second
  rw [failed] at finishes
  obtain ⟨stage, reaches, ⟨raises⟩⟩ := finishes
  exact ⟨raises.foreseen (catalog.fits_sizes.reaches reaches), stage, reaches, raises⟩

theorem Stage.Fit.bindings_triangular {catalog : Catalog} {sizes : String → Nat} {stage : Stage}
    (fit : stage.Fit catalog sizes) : stage.bindings.Triangular := by
  cases stage with
  | solve σ equations => exact fit.1
  | classify bounds σ => exact fit.2.1
  | _ => exact .empty

/-- A comparison finds an overlap or none, or fails for one of the reasons that are foreseen, in a stage
that it passes through. It never misses a bound: every variable whose bound is looked up in a stage has
an entry. The two tables of bounds have no key in common, the members of a class are parameters, a type
is a variable or an application of a declared struct to such types, and following its bindings comes to
an end. -/
theorem comparisons_fail_only_as_foreseen (catalog : Catalog) (first second : ImplDecl) :
    ((catalog.compare first second).result = .ok .overlap ∨
      (catalog.compare first second).result = .ok .disjoint ∨
      ∃ error, (catalog.compare first second).result = .error error ∧ error.Foreseen ∧
        ∃ stage, catalog.Reaches first second stage ∧ stage.Raises catalog error) ∧
    (∀ x, (catalog.compare first second).result ≠ .error (.missingBound x)) ∧
    (∀ bounds sofar x members, catalog.Reaches first second (.join bounds sofar (x :: members)) →
      ∃ entry, bounds.lookup x = some entry) ∧
    (∀ left right, catalog.elaboratePair first second = .ok (left, right) →
      (left.params ++ right.params).Nodup ∧
      (∀ x entry, (left.bounds ++ right.bounds).lookup x = some entry ↔
        (x, entry) ∈ left.bounds ∨ (x, entry) ∈ right.bounds) ∧
      ∀ σ, unifySchemes left right = some σ → ∀ varClass ∈ σ.classes, ∀ x ∈ varClass.members,
        x ∈ left.params ∨ x ∈ right.params) ∧
    ∀ stage, catalog.Reaches first second stage → ∀ ty, catalog.Handles stage ty →
      ((∃ x label, ty = .var x label) ∨ ∃ name args decl, ty = .ctor name args ∧
        catalog.structs.get? name = some decl ∧ args.length = decl.arity ∧
        ∀ arg ∈ args, catalog.Handles stage arg) ∧
      stage.bindings.Follows ty (stage.bindings.resolve ty) := by
  have fits := catalog.fits_sizes
  refine ⟨?_, fun x missed => ?_, ?_, ?_, ?_⟩
  · cases result : (catalog.compare first second).result with
    | ok verdict =>
      cases verdict with
      | overlap => exact Or.inl rfl
      | disjoint => exact Or.inr (Or.inl rfl)
    | error error => exact Or.inr (Or.inr ⟨error, rfl, Catalog.compare_foreseen result⟩)
  · cases (Catalog.compare_foreseen missed).1
  · intro bounds sofar x members reaches
    obtain ⟨_, _, entries⟩ := fits.reaches reaches
    exact entries x List.mem_cons_self
  · intro left right elaborated
    obtain ⟨wellFormed, wellFormedToo⟩ := fits.elaboratePair elaborated
    have pair : WellFormedPair catalog.sizes left right := ⟨_, wellFormed, _, wellFormedToo⟩
    refine ⟨pair.nodup_params, fun x entry => ?_, fun σ done varClass member x inside => ?_⟩
    · rw [pair.lookup_iff, List.mem_append]
    · have unified := wellFormed.unified wellFormedToo done
      exact List.mem_append.mp (unified.mem_params member inside)
  · intro stage reaches ty handles
    have shape := Ty.exact_of_sized fun sizes fits => fits.handles (fits.reaches reaches) handles
    refine ⟨?_, (fits.reaches reaches).bindings_triangular.follows_iff.mpr rfl⟩
    cases shape with
    | var x label => exact Or.inl ⟨x, label, rfl⟩
    | ctor declared length _ =>
      exact Or.inr ⟨_, _, _, rfl, declared, length, fun arg member => .part handles member⟩

/-- `P` and `S` are one class, `Q` and `R` another. Every bound is found, and the second class fails for
the trait that is not declared. -/
theorem cross_shown_fails_as_foreseen :
    let shown : Bound := ⟨.singleton ⟨"Show", []⟩, .empty⟩
    let ghost : Bound := ⟨.singleton ⟨"Ghost", []⟩, .empty⟩
    let bounds : BoundTable := [(0, some shown), (1, some ghost), (2, some shown), (3, some shown)]
    (∃ error, (crossCatalog.compare crossGhost crossShown).result = .error error ∧ error.Foreseen ∧
      ∃ stage, crossCatalog.Reaches crossGhost crossShown stage ∧ stage.Raises crossCatalog error) ∧
    crossCatalog.Reaches crossGhost crossShown (.join bounds .empty [1, 2]) ∧
    (∃ entry, bounds.lookup 1 = some entry) ∧
    (∀ x entry, bounds.lookup x = some entry ↔
      (x, entry) ∈ bounds.take 2 ∨ (x, entry) ∈ bounds.drop 2) := by
  intro shown ghost bounds
  obtain ⟨outcome, _, found, tables, _⟩ :=
    comparisons_fail_only_as_foreseen crossCatalog crossGhost crossShown
  let args (a b : Ty) : TraitRef := ⟨"Rel", [a, b]⟩
  let left : ImplScheme := ⟨args (.var 0 "P") (.var 1 "Q"), .ctor "A" [], bounds.take 2⟩
  let right : ImplScheme := ⟨args (.var 3 "S") (.var 2 "R"), .ctor "A" [], bounds.drop 2⟩
  have elaborated : crossCatalog.elaboratePair crossGhost crossShown = .ok (left, right) := rfl
  have unified : unifySchemes left right = some ⟨[(0, .var 3 "S"), (1, .var 2 "R")]⟩ := rfl
  have judged : crossCatalog.Reaches crossGhost crossShown
      (.judge bounds [] [⟨[0, 3], none⟩, ⟨[1, 2], none⟩]) :=
    .tail (.single (.unified elaborated unified)) .classes
  have joined : crossCatalog.Reaches crossGhost crossShown (.join bounds .empty [1, 2]) :=
    (judged.tail (.satisfiable rfl rfl)).tail .members
  have failed : (crossCatalog.compare crossGhost crossShown).result =
      .error (.undeclaredTrait (.placeless "Ghost")) := rfl
  refine ⟨?_, joined, found _ _ _ _ joined, (tables left right elaborated).2.1⟩
  rcases outcome with overlap | disjoint | raised
  · cases failed.symm.trans overlap
  · cases failed.symm.trans disjoint
  · exact raised

end TraitCoherence
