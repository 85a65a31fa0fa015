import TraitCoherence.Proofs.Tracking

namespace TraitCoherence

/-- A name that is used as a type: the parameters in scope there, the occurrence, and how many
arguments it was given. -/
structure NameUse where
  inScope : List String
  name : Name
  given : Nat
deriving DecidableEq, Repr

/-- A parameter takes no arguments, and any other name is that of a struct which takes just as many. -/
structure NameUse.Proper (structs : Table StructDecl) (use : NameUse) : Prop where
  parameter : use.name.text ∈ use.inScope → use.given = 0
  struct : use.name.text ∉ use.inScope →
    ∃ decl, structs.get? use.name.text = some decl ∧ decl.arity = use.given

/-- What is wrong with a use. -/
def NameUse.fault? (structs : Table StructDecl) (use : NameUse) : Option CheckError :=
  if use.name.text ∈ use.inScope then
    if use.given = 0 then none else some (.appliedParameter use.name use.given)
  else
    match structs.get? use.name.text with
    | none => some (.undefinedSymbol use.name)
    | some decl =>
      if decl.arity = use.given then none else some (.wrongArity use.name use.given decl.arity)

mutual

/-- The names in a type expression, outermost first and then from left to right. -/
def TypeExpr.uses (inScope : List String) : TypeExpr → List NameUse
  | .apply name args => ⟨inScope, name, args.length⟩ :: TypeExpr.usesAll inScope args

def TypeExpr.usesAll (inScope : List String) : List TypeExpr → List NameUse
  | [] => []
  | expr :: exprs => expr.uses inScope ++ TypeExpr.usesAll inScope exprs

end

theorem TypeExpr.usesAll_eq_flatMap (inScope : List String) (exprs : List TypeExpr) :
    TypeExpr.usesAll inScope exprs = exprs.flatMap (TypeExpr.uses inScope) := by
  induction exprs with
  | nil => rfl
  | cons expr exprs ih => rw [TypeExpr.usesAll, ih, List.flatMap_cons]

/-- The types in trait applications. The names of the traits themselves are no types. -/
def traitUses (inScope : List String) (exprs : List TypeExpr) : List NameUse :=
  exprs.flatMap fun expr => TypeExpr.usesAll inScope expr.args

/-- The types in a bound, first in what it demands and then in what it forbids. -/
def BoundExpr.uses (inScope : List String) (bound : BoundExpr) : List NameUse :=
  traitUses inScope bound.positive ++ traitUses inScope bound.negative

/-- The types in the bounds of parameters, each of which sees the parameters before its own. -/
def paramUses (before : List String) : List Param → List NameUse
  | [] => []
  | param :: params =>
    param.bound.elim [] (BoundExpr.uses before) ++ paramUses (before ++ [param.name.text]) params

/-- The names that an impl uses as types: in the bounds of its parameters, in the arguments of its
trait, and in its target, where all parameters are in scope. -/
def ImplDecl.uses (decl : ImplDecl) : List NameUse :=
  let inScope := decl.params.map (·.name.text)
  paramUses [] decl.params ++ TypeExpr.usesAll inScope decl.head.args ++ decl.target.uses inScope

theorem NameUse.fault?_eq_none_iff {structs : Table StructDecl} {use : NameUse} :
    use.fault? structs = none ↔ use.Proper structs := by
  rw [NameUse.fault?]
  by_cases known : use.name.text ∈ use.inScope
  · rw [if_pos known, ite_eq_left_iff]
    constructor
    · intro faultless
      refine ⟨fun _ => ?_, fun unknown => absurd known unknown⟩
      by_contra applied
      cases faultless applied
    · exact fun proper applied => absurd (proper.parameter known) applied
  · rw [if_neg known]
    cases found : structs.get? use.name.text with
    | none =>
      refine iff_of_false nofun fun proper => ?_
      obtain ⟨decl, declared, _⟩ := proper.struct known
      cases found.symm.trans declared
    | some decl =>
      simp only [ite_eq_left_iff, reduceCtorEq, imp_false, not_not]
      constructor
      · exact fun arity => ⟨fun here => absurd here known, fun _ => ⟨decl, found, arity⟩⟩
      · intro proper
        obtain ⟨other, declared, arity⟩ := proper.struct known
        cases found.symm.trans declared
        exact arity

/-- Whatever is wrong with a use is blamed on the name that is used. -/
theorem NameUse.guilty_of_fault? {structs : Table StructDecl} {use : NameUse} {error : CheckError}
    (fault : use.fault? structs = some error) : error.guilty = use.name := by
  rw [NameUse.fault?] at fault
  split at fault
  · split at fault
    · cases fault
    · cases fault
      rfl
  · split at fault
    · cases fault
      rfl
    · split at fault
      · cases fault
      · cases fault
        rfl

/-- The cause of a failure. -/
def cause? {α : Type} : Except CheckError α → Option CheckError
  | .ok _ => none
  | .error cause => some cause

theorem cause?_eq_none_iff {α : Type} {attempt : Except CheckError α} :
    cause? attempt = none ↔ ∃ result, attempt = .ok result := by
  cases attempt with
  | ok result => exact iff_of_true rfl ⟨result, rfl⟩
  | error cause => exact iff_of_false nofun nofun

theorem cause?_eq_some_iff {α : Type} {attempt : Except CheckError α} {cause : CheckError} :
    cause? attempt = some cause ↔ attempt = .error cause := by
  cases attempt with
  | ok result => exact iff_of_false nofun nofun
  | error other => rw [cause?, Option.some.injEq, Except.error.injEq]

/-- If what comes next fails in one way only, it decides where the first attempt succeeds. -/
theorem cause?_bind {α β : Type} {first : Except CheckError α} {next : α → Except CheckError β}
    {later : Option CheckError} (rest : ∀ a, first = .ok a → cause? (next a) = later) :
    cause? (first.bind next) = (cause? first).or later := by
  cases first with
  | ok a => exact rest a rfl
  | error cause => rfl

theorem cause?_bind_ok {α β : Type} (first : Except CheckError α) (result : α → β) :
    cause? (first.bind fun a => .ok (result a)) = cause? first := by
  cases first <;> rfl

/-- The names in scope are just these. -/
def Scope.Holds (scope : Scope) (names : List String) : Prop :=
  ∀ name, name ∈ names ↔ ∃ ty, scope.lookup name = some ty

theorem Scope.Holds.nil : Scope.Holds [] [] := fun _ => iff_of_false List.not_mem_nil nofun

theorem Scope.Holds.concat {scope : Scope} {names : List String} (holds : scope.Holds names)
    (name : String) (ty : Ty) : Scope.Holds ((name, ty) :: scope) (names ++ [name]) := by
  intro other
  rw [List.mem_append, List.mem_singleton, holds other, lookup_cons_eq_ite]
  by_cases here : other = name
  · rw [if_pos here]
    exact iff_of_true (Or.inr here) ⟨ty, rfl⟩
  · rw [if_neg here, or_iff_left here]

section

variable (catalog : Catalog) {scope : Scope} {names : List String}

/-- The first fault in some uses. -/
def Catalog.firstFault? (uses : List NameUse) : Option CheckError :=
  uses.findSome? (NameUse.fault? catalog.structs)

theorem Catalog.firstFault?_append (first second : List NameUse) :
    catalog.firstFault? (first ++ second) =
      (catalog.firstFault? first).or (catalog.firstFault? second) := by
  rw [Catalog.firstFault?, List.findSome?_append]
  rfl

/-- Attempts at expressions fail for the first fault in all their uses, if each attempt does so for the
first in its own. -/
theorem Catalog.mapM_cause_of {α : Type} {attempt : TypeExpr → Except CheckError α}
    {uses : TypeExpr → List NameUse} {exprs : List TypeExpr}
    (each : ∀ expr ∈ exprs, cause? (attempt expr) = catalog.firstFault? (uses expr)) :
    cause? (exprs.mapM attempt) = catalog.firstFault? (exprs.flatMap uses) := by
  induction exprs with
  | nil => rfl
  | cons expr exprs ih =>
    obtain ⟨here, rest⟩ := List.forall_mem_cons.mp each
    rw [mapM_cons_eq_bind, List.flatMap_cons, catalog.firstFault?_append, ← here, ← ih rest]
    exact cause?_bind fun value _ => cause?_bind_ok _ _

theorem Catalog.elaborateTypes_cause_of {exprs : List TypeExpr}
    (each : ∀ expr ∈ exprs, cause? (catalog.elaborateType scope expr) =
      catalog.firstFault? (expr.uses names)) :
    cause? (catalog.elaborateTypes scope exprs) =
      catalog.firstFault? (TypeExpr.usesAll names exprs) := by
  rw [catalog.elaborateTypes_eq_mapM, TypeExpr.usesAll_eq_flatMap]
  exact catalog.mapM_cause_of each

/-- A type expression is at fault where its first improper use is. -/
theorem Catalog.elaborateType_cause (holds : scope.Holds names) (expr : TypeExpr) :
    cause? (catalog.elaborateType scope expr) = catalog.firstFault? (expr.uses names) := by
  induction expr using TypeExpr.ind with
  | apply name args ih =>
    have parts := catalog.elaborateTypes_cause_of ih
    rw [TypeExpr.uses, Catalog.firstFault?, List.findSome?_cons, ← Catalog.firstFault?, ← parts,
      NameUse.fault?, Catalog.elaborateType]
    cases found : scope.lookup name.text with
    | some ty =>
      have known : name.text ∈ names := (holds _).mpr ⟨ty, found⟩
      cases args with
      | nil => simp [known, cause?, Catalog.elaborateTypes]
      | cons arg args => simp [known, cause?]
    | none =>
      have unknown : name.text ∉ names := by
        rw [holds, found]
        rintro ⟨ty, same⟩
        cases same
      cases declared : catalog.structs.get? name.text with
      | none => simp [unknown, cause?]
      | some decl =>
        by_cases arity : decl.arity = args.length
        · simp only [unknown, arity, if_true, if_false]
          cases catalog.elaborateTypes scope args <;> rfl
        · simp only [unknown, arity, if_false]
          rfl

theorem Catalog.elaborateTrait_cause (holds : scope.Holds names) (expr : TypeExpr) :
    cause? (catalog.elaborateTrait scope expr) =
      catalog.firstFault? (TypeExpr.usesAll names expr.args) := by
  rw [catalog.elaborateTrait_eq, cause?_bind_ok]
  exact catalog.elaborateTypes_cause_of fun arg _ => catalog.elaborateType_cause holds arg

theorem Catalog.elaborateTraits_cause (holds : scope.Holds names) (exprs : List TypeExpr) :
    cause? (catalog.elaborateTraits scope exprs) =
      catalog.firstFault? (traitUses names exprs) :=
  catalog.mapM_cause_of fun expr _ => catalog.elaborateTrait_cause holds expr

theorem Catalog.elaborateParam_cause (holds : scope.Holds names) (param : Param) :
    cause? (catalog.elaborateParam scope param) =
      catalog.firstFault? (param.bound.elim [] (BoundExpr.uses names)) := by
  rw [Catalog.elaborateParam]
  cases param.bound with
  | none => rfl
  | some bound =>
    rw [Option.elim_some, BoundExpr.uses, catalog.firstFault?_append,
      ← catalog.elaborateTraits_cause holds, ← catalog.elaborateTraits_cause holds]
    have whole : cause? (catalog.elaborateBound scope bound) =
        (cause? (catalog.elaborateTraits scope bound.positive)).or
          (cause? (catalog.elaborateTraits scope bound.negative)) := by
      rw [catalog.elaborateBound_eq]
      exact cause?_bind fun positive _ => cause?_bind_ok _ _
    rw [← whole]
    dsimp only
    cases catalog.elaborateBound scope bound <;> rfl

theorem Catalog.elaborateParams_cause (holds : scope.Holds names) (next : Int) (params : List Param) :
    cause? (catalog.elaborateParams scope next params).2 =
        catalog.firstFault? (paramUses names params) ∧
      ∀ result, (catalog.elaborateParams scope next params).2 = .ok result →
        result.1.Holds (names ++ params.map (·.name.text)) := by
  induction params generalizing scope names next with
  | nil =>
    refine ⟨rfl, fun result same => ?_⟩
    cases same
    rwa [List.map_nil, List.append_nil]
  | cons param params ih =>
    obtain ⟨later, inner⟩ := ih (holds.concat param.name.text (.var next param.name.text)) (next + 1)
    rw [catalog.elaborateParams_cons]
    constructor
    · rw [paramUses, catalog.firstFault?_append, ← catalog.elaborateParam_cause holds, ← later]
      exact cause?_bind fun bound _ => cause?_bind_ok _ _
    · intro result same
      rw [List.map_cons, List.append_cons]
      cases first : catalog.elaborateParam scope param with
      | error cause =>
        rw [first] at same
        cases same
      | ok bound =>
        rw [first] at same
        cases rest : (catalog.elaborateParams ((param.name.text, .var next param.name.text) :: scope)
            (next + 1) params).2 with
        | error cause =>
          simp only [Except.bind, rest] at same
          cases same
        | ok found =>
          simp only [Except.bind, rest] at same
          cases same
          exact inner found rest

end

/-- Elaboration fails exactly at the first improper use of a name, whatever numbers it starts from. -/
theorem Catalog.elaborateImpl_cause (catalog : Catalog) (next : Int) (decl : ImplDecl) :
    cause? (catalog.elaborateImpl next decl).2 = catalog.firstFault? decl.uses := by
  obtain ⟨params, inner⟩ := catalog.elaborateParams_cause .nil next decl.params
  rw [catalog.elaborateImpl_snd, ImplDecl.uses, List.append_assoc, catalog.firstFault?_append, ← params]
  refine cause?_bind fun result same => ?_
  have holds := inner result same
  rw [List.nil_append] at holds
  rw [catalog.firstFault?_append, ← catalog.elaborateTrait_cause holds,
    ← catalog.elaborateType_cause holds]
  exact cause?_bind fun trait _ => cause?_bind_ok _ _

/-- An impl can be elaborated exactly if it uses all names properly. -/
theorem Catalog.elaborateImpl_ok_iff (catalog : Catalog) (next : Int) (decl : ImplDecl) :
    (∃ scheme, (catalog.elaborateImpl next decl).2 = .ok scheme) ↔
      ∀ use ∈ decl.uses, use.Proper catalog.structs := by
  rw [← cause?_eq_none_iff, catalog.elaborateImpl_cause, Catalog.firstFault?,
    List.findSome?_eq_none_iff]
  simp only [NameUse.fault?_eq_none_iff]

end TraitCoherence
