import TraitCoherence.Verdict
import TraitCoherence.Proofs.Scoping
import TraitCoherence.Proofs.TraitSets

namespace TraitCoherence

theorem Catalog.elaborateBound_ok {catalog : Catalog} {scope : Scope} {expr : BoundExpr}
    {bound : Bound} (elaborated : catalog.elaborateBound scope expr = .ok bound) :
    ∃ positive negative, catalog.elaborateTraits scope expr.positive = .ok positive ∧
      catalog.elaborateTraits scope expr.negative = .ok negative ∧
      bound = ⟨.ofList positive, .ofList negative⟩ := by
  rw [Catalog.elaborateBound] at elaborated
  split at elaborated
  · exact absurd elaborated nofun
  · rename_i positive demanded
    split at elaborated
    · exact absurd elaborated nofun
    · rename_i negative forbidden
      cases elaborated
      exact ⟨positive, negative, demanded, forbidden, rfl⟩

theorem Catalog.elaborateBound_origin {catalog : Catalog} {scope : Scope} {expr : BoundExpr}
    {bound : Bound} (elaborated : catalog.elaborateBound scope expr = .ok bound) {trait : TraitRef}
    (member : trait ∈ bound.positive.members ++ bound.negative.members) :
    ∃ source, catalog.elaborateTrait scope source = .ok trait := by
  obtain ⟨positive, negative, demanded, forbidden, rfl⟩ := Catalog.elaborateBound_ok elaborated
  rcases List.mem_append.mp member with isPositive | isNegative
  · obtain ⟨source, _, same⟩ :=
      Catalog.elaborateTraits_ok demanded trait (TraitSet.mem_of_mem_ofList isPositive)
    exact ⟨source, same⟩
  · obtain ⟨source, _, same⟩ :=
      Catalog.elaborateTraits_ok forbidden trait (TraitSet.mem_of_mem_ofList isNegative)
    exact ⟨source, same⟩

theorem Catalog.elaborateParam_ok {catalog : Catalog} {scope : Scope} {param : Param} {bound : Bound}
    (elaborated : catalog.elaborateParam scope param = .ok (some bound)) :
    ∃ expr, param.bound = some expr ∧ catalog.elaborateBound scope expr = .ok bound := by
  rw [Catalog.elaborateParam] at elaborated
  split at elaborated
  · exact absurd elaborated nofun
  · rename_i expr written
    split at elaborated
    · exact absurd elaborated nofun
    · rename_i result right
      cases elaborated
      exact ⟨expr, written, right⟩

theorem Catalog.elaborateParams_cons_ok {catalog : Catalog} {scope inner : Scope} {next after : Int}
    {param : Param} {params : List Param} {bounds : BoundTable}
    (elaborated : catalog.elaborateParams scope next (param :: params) = (after, .ok (inner, bounds))) :
    ∃ bound rest, catalog.elaborateParam scope param = .ok bound ∧
      catalog.elaborateParams ((param.name.text, .var next param.name.text) :: scope) (next + 1)
        params = (after, .ok (inner, rest)) ∧ bounds = (next, bound) :: rest := by
  rw [Catalog.elaborateParams] at elaborated
  split at elaborated
  · cases elaborated
  · rename_i bound first
    dsimp only at elaborated
    split at elaborated
    · cases elaborated
    · rename_i last scope rest later
      cases elaborated
      exact ⟨bound, rest, first, later, rfl⟩

theorem Catalog.elaborateImpl_ok {catalog : Catalog} {next after : Int} {decl : ImplDecl}
    {scheme : ImplScheme} (elaborated : catalog.elaborateImpl next decl = (after, .ok scheme)) :
    ∃ scope, catalog.elaborateParams [] next decl.params = (after, .ok (scope, scheme.bounds)) ∧
      catalog.elaborateTrait scope decl.head = .ok scheme.trait ∧
      catalog.elaborateType scope decl.target = .ok scheme.target := by
  rw [Catalog.elaborateImpl] at elaborated
  split at elaborated
  · cases elaborated
  · rename_i last scope bounds params
    split at elaborated
    · cases elaborated
    · rename_i trait head
      split at elaborated
      · cases elaborated
      · rename_i target body
        cases elaborated
        exact ⟨scope, params, head, body⟩

/-- The numbers of the parameters of an impl. -/
def ImplScheme.params (scheme : ImplScheme) : List Int := scheme.bounds.map (·.1)

/-- As many numbers in a row, from `next` on. -/
def numbersFrom (next : Int) : Nat → List Int
  | 0 => []
  | count + 1 => next :: numbersFrom (next + 1) count

theorem length_numbersFrom (next : Int) (count : Nat) : (numbersFrom next count).length = count := by
  induction count generalizing next with
  | zero => rfl
  | succ count ih => rw [numbersFrom, List.length_cons, ih]

theorem mem_numbersFrom {next x : Int} {count : Nat} :
    x ∈ numbersFrom next count ↔ next ≤ x ∧ x < next + count := by
  induction count generalizing next with
  | zero =>
    simp only [numbersFrom, List.not_mem_nil, false_iff]
    omega
  | succ count ih =>
    rw [numbersFrom, List.mem_cons, ih]
    omega

theorem nodup_numbersFrom (next : Int) (count : Nat) : (numbersFrom next count).Nodup := by
  induction count generalizing next with
  | zero => exact List.nodup_nil
  | succ count ih =>
    refine List.nodup_cons.mpr ⟨fun member => ?_, ih (next + 1)⟩
    have above := (mem_numbersFrom.mp member).1
    omega

theorem Catalog.elaborateParams_numbers {catalog : Catalog} {scope inner : Scope} {next after : Int}
    {params : List Param} {bounds : BoundTable}
    (elaborated : catalog.elaborateParams scope next params = (after, .ok (inner, bounds))) :
    bounds.map (·.1) = numbersFrom next params.length ∧ after = next + params.length := by
  induction params generalizing scope next bounds with
  | nil =>
    cases elaborated
    exact ⟨rfl, by simp⟩
  | cons param params ih =>
    obtain ⟨bound, rest, _, later, rfl⟩ := Catalog.elaborateParams_cons_ok elaborated
    obtain ⟨keys, last⟩ := ih later
    rw [List.map_cons, keys, List.length_cons]
    exact ⟨rfl, by omega⟩

theorem Catalog.elaborateImpl_next {catalog : Catalog} {next after : Int} {decl : ImplDecl}
    {scheme : ImplScheme} (elaborated : catalog.elaborateImpl next decl = (after, .ok scheme)) :
    after = next + decl.params.length := by
  obtain ⟨scope, params, _, _⟩ := Catalog.elaborateImpl_ok elaborated
  exact (Catalog.elaborateParams_numbers params).2

/-- The second of two impls is numbered on from the parameters of the first. -/
theorem Catalog.elaboratePair_ok {catalog : Catalog} {first second : ImplDecl}
    {left right : ImplScheme} (elaborated : catalog.elaboratePair first second = .ok (left, right)) :
    catalog.elaborateImpl 0 first = ((first.params.length : Int), .ok left) ∧
      ∃ after, catalog.elaborateImpl first.params.length second = (after, .ok right) := by
  rw [Catalog.elaboratePair] at elaborated
  split at elaborated
  · cases elaborated
  · rename_i next scheme here
    split at elaborated
    · cases elaborated
    · rename_i after other there
      cases elaborated
      have count := Catalog.elaborateImpl_next here
      rw [Int.zero_add] at count
      subst count
      exact ⟨here, after, there⟩

theorem Catalog.elaborateParams_scope {catalog : Catalog} {scope inner : Scope} {next after : Int}
    {params : List Param} {bounds : BoundTable}
    (elaborated : catalog.elaborateParams scope next params = (after, .ok (inner, bounds))) :
    ∀ entry ∈ inner, entry ∈ scope ∨ ∃ x ∈ bounds.map (·.1), ∃ label, entry.2 = .var x label := by
  induction params generalizing scope next bounds with
  | nil =>
    cases elaborated
    exact fun entry => Or.inl
  | cons param params ih =>
    obtain ⟨bound, rest, _, later, rfl⟩ := Catalog.elaborateParams_cons_ok elaborated
    intro entry member
    rcases ih later entry member with old | ⟨x, key, label, same⟩
    · rcases List.mem_cons.mp old with rfl | outer
      · exact Or.inr ⟨next, List.mem_cons_self, _, rfl⟩
      · exact Or.inl outer
    · exact Or.inr ⟨x, List.mem_cons_of_mem _ key, label, same⟩

theorem Catalog.Fits.elaborateBound {catalog : Catalog} {sizes : String → Nat}
    (fits : catalog.Fits sizes) {scope : Scope} (inScope : ∀ entry ∈ scope, entry.2.Sized sizes)
    {expr : BoundExpr} {bound : Bound} (elaborated : catalog.elaborateBound scope expr = .ok bound) :
    bound.Sized sizes := by
  have sized (trait : TraitRef)
      (member : trait ∈ bound.positive.members ++ bound.negative.members) : trait.Sized sizes := by
    obtain ⟨source, same⟩ := Catalog.elaborateBound_origin elaborated member
    exact fits.elaborateTrait inScope same
  exact ⟨fun trait member => sized trait (List.mem_append_left _ member),
    fun trait member => sized trait (List.mem_append_right _ member)⟩

/-- The declared bounds in a table fit `sizes`. -/
def BoundTable.Sized (sizes : String → Nat) (bounds : BoundTable) : Prop :=
  ∀ x bound, (x, some bound) ∈ bounds → bound.Sized sizes

theorem Catalog.Fits.elaborateParams {catalog : Catalog} {sizes : String → Nat}
    (fits : catalog.Fits sizes) {scope inner : Scope} {next after : Int} {params : List Param}
    {bounds : BoundTable} (inScope : ∀ entry ∈ scope, entry.2.Sized sizes)
    (elaborated : catalog.elaborateParams scope next params = (after, .ok (inner, bounds))) :
    bounds.Sized sizes := by
  induction params generalizing scope next bounds with
  | nil =>
    cases elaborated
    exact fun _ _ member => absurd member List.not_mem_nil
  | cons param params ih =>
    obtain ⟨first, rest, here, later, rfl⟩ := Catalog.elaborateParams_cons_ok elaborated
    intro x bound member
    rcases List.mem_cons.mp member with same | inside
    · cases same
      obtain ⟨expr, _, right⟩ := Catalog.elaborateParam_ok here
      exact fits.elaborateBound inScope right
    · refine ih (fun entry shown => ?_) later x bound inside
      rcases List.mem_cons.mp shown with rfl | outer
      · exact .var next _
      · exact inScope entry outer

/-- What elaboration makes of an impl: parameters numbered in a row, heads, targets and bounds of the
declared sizes, and no variable but a parameter in the head and in the target. -/
structure ImplScheme.WellFormed (sizes : String → Nat) (next : Int) (count : Nat)
    (scheme : ImplScheme) : Prop where
  params : scheme.params = numbersFrom next count
  bounds : scheme.bounds.Sized sizes
  trait : scheme.trait.Sized sizes
  target : scheme.target.Sized sizes
  traitVars : ∀ arg ∈ scheme.trait.args, ∀ x ∈ arg.vars, x ∈ scheme.params
  targetVars : ∀ x ∈ scheme.target.vars, x ∈ scheme.params

theorem Catalog.Fits.elaborateImpl {catalog : Catalog} {sizes : String → Nat}
    (fits : catalog.Fits sizes) {next after : Int} {decl : ImplDecl} {scheme : ImplScheme}
    (elaborated : catalog.elaborateImpl next decl = (after, .ok scheme)) :
    scheme.WellFormed sizes next decl.params.length := by
  obtain ⟨scope, params, head, body⟩ := Catalog.elaborateImpl_ok elaborated
  have entries (entry : String × Ty) (member : entry ∈ scope) :
      ∃ x ∈ scheme.params, ∃ label, entry.2 = .var x label :=
    (Catalog.elaborateParams_scope params entry member).resolve_left List.not_mem_nil
  have inScope (entry : String × Ty) (member : entry ∈ scope) : entry.2.Sized sizes := by
    obtain ⟨x, _, label, same⟩ := entries entry member
    exact same ▸ .var x label
  have mentioned (x : Int) (shown : scope.Mentions x) : x ∈ scheme.params := by
    obtain ⟨entry, member, occurs⟩ := shown
    obtain ⟨y, key, label, same⟩ := entries entry member
    rw [same] at occurs
    exact List.mem_singleton.mp occurs ▸ key
  have nothing (entry : String × Ty) (member : entry ∈ ([] : Scope)) : entry.2.Sized sizes :=
    absurd member List.not_mem_nil
  exact {
    params := (Catalog.elaborateParams_numbers params).1
    bounds := fits.elaborateParams nothing params
    trait := fits.elaborateTrait inScope head
    target := fits.elaborateType inScope body
    traitVars := fun arg member x occurs =>
      mentioned x (Catalog.elaborateTrait_vars head arg member x occurs)
    targetVars := fun x occurs => mentioned x (Catalog.elaborateType_vars body x occurs) }

theorem Catalog.Fits.elaboratePair {catalog : Catalog} {sizes : String → Nat}
    (fits : catalog.Fits sizes) {first second : ImplDecl} {left right : ImplScheme}
    (elaborated : catalog.elaboratePair first second = .ok (left, right)) :
    left.WellFormed sizes 0 first.params.length ∧
      right.WellFormed sizes first.params.length second.params.length := by
  obtain ⟨here, after, there⟩ := Catalog.elaboratePair_ok elaborated
  exact ⟨fits.elaborateImpl here, fits.elaborateImpl there⟩

end TraitCoherence
