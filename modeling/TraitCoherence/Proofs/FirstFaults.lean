import TraitCoherence.Proofs.NameUses

namespace TraitCoherence

/-- The ways to use a name improperly, and what each of them is reported as. -/
inductive NameUse.Fault (structs : Table StructDecl) (use : NameUse) : CheckError → Prop where
  | applied (known : use.name.text ∈ use.inScope) (given : use.given ≠ 0) :
    NameUse.Fault structs use (.appliedParameter use.name use.given)
  | undefined (unknown : use.name.text ∉ use.inScope)
      (undeclared : structs.get? use.name.text = none) :
    NameUse.Fault structs use (.undefinedSymbol use.name)
  | missized {decl : StructDecl} (unknown : use.name.text ∉ use.inScope)
      (declared : structs.get? use.name.text = some decl) (differ : decl.arity ≠ use.given) :
    NameUse.Fault structs use (.wrongArity use.name use.given decl.arity)

theorem NameUse.fault?_eq_some_iff {structs : Table StructDecl} {use : NameUse}
    {error : CheckError} : use.fault? structs = some error ↔ use.Fault structs error := by
  constructor
  · intro found
    rw [NameUse.fault?] at found
    split at found
    · rename_i known
      split at found
      · cases found
      · rename_i given
        cases found
        exact .applied known given
    · rename_i unknown
      split at found
      · rename_i undeclared
        cases found
        exact .undefined unknown undeclared
      · rename_i decl declared
        split at found
        · cases found
        · rename_i differ
          cases found
          exact .missized unknown declared differ
  · intro fault
    cases fault with
    | applied known given => rw [NameUse.fault?, if_pos known, if_neg given]
    | undefined unknown undeclared => rw [NameUse.fault?, if_neg unknown, undeclared]
    | missized unknown declared differ =>
      simp only [NameUse.fault?, if_neg unknown, declared, if_neg differ]

theorem NameUse.fault?_eq_none_iff_forall {structs : Table StructDecl} {use : NameUse} :
    use.fault? structs = none ↔ ∀ error, ¬ use.Fault structs error := by
  simp only [← NameUse.fault?_eq_some_iff, Option.eq_none_iff_forall_ne_some, ne_eq]

theorem Catalog.firstFault?_eq_some_iff {catalog : Catalog} {uses : List NameUse}
    {error : CheckError} :
    catalog.firstFault? uses = some error ↔
      ∃ before use after, uses = before ++ use :: after ∧ use.Fault catalog.structs error ∧
        ∀ earlier ∈ before, ∀ other, ¬ earlier.Fault catalog.structs other := by
  simp only [Catalog.firstFault?, List.findSome?_eq_some_iff, NameUse.fault?_eq_some_iff,
    NameUse.fault?_eq_none_iff_forall]

/-- A type expression is another one, or stands somewhere in its arguments. -/
inductive TypeExpr.Within (part : TypeExpr) : TypeExpr → Prop where
  | whole : TypeExpr.Within part part
  | inside {name : Name} {args : List TypeExpr} {arg : TypeExpr} (member : arg ∈ args)
      (within : TypeExpr.Within part arg) : TypeExpr.Within part (.apply name args)

/-- A type expression stands in an impl where just these parameters are in scope: those before its own
parameter in a bound, and all of them in the arguments of the trait and in the target. -/
inductive ImplDecl.Site (decl : ImplDecl) : List String → TypeExpr → Prop where
  | bound {k : Nat} {param : Param} {bound : BoundExpr} {trait arg expr : TypeExpr}
      (found : decl.params[k]? = some param) (bounded : param.bound = some bound)
      (term : trait ∈ bound.positive ++ bound.negative) (member : arg ∈ trait.args)
      (within : expr.Within arg) :
    ImplDecl.Site decl ((decl.params.take k).map (·.name.text)) expr
  | head {arg expr : TypeExpr} (member : arg ∈ decl.head.args) (within : expr.Within arg) :
    ImplDecl.Site decl (decl.params.map (·.name.text)) expr
  | target {expr : TypeExpr} (within : expr.Within decl.target) :
    ImplDecl.Site decl (decl.params.map (·.name.text)) expr

/-- The name at the front of a type expression, as it is used there. -/
def TypeExpr.use (inScope : List String) (expr : TypeExpr) : NameUse :=
  ⟨inScope, expr.name, expr.args.length⟩

theorem TypeExpr.mem_uses_iff {inScope : List String} {use : NameUse} {expr : TypeExpr} :
    use ∈ expr.uses inScope ↔ ∃ part : TypeExpr, part.Within expr ∧ use = part.use inScope := by
  induction expr using TypeExpr.ind with
  | apply name args ih =>
    rw [TypeExpr.uses, List.mem_cons, TypeExpr.usesAll_eq_flatMap, List.mem_flatMap]
    constructor
    · rintro (rfl | ⟨arg, member, shown⟩)
      · exact ⟨.apply name args, .whole, rfl⟩
      · obtain ⟨part, within, same⟩ := (ih arg member).mp shown
        exact ⟨part, .inside member within, same⟩
    · rintro ⟨part, within, rfl⟩
      cases within with
      | whole => exact Or.inl rfl
      | inside member within => exact Or.inr ⟨_, member, (ih _ member).mpr ⟨part, within, rfl⟩⟩

theorem TypeExpr.mem_usesAll_iff {inScope : List String} {use : NameUse} {exprs : List TypeExpr} :
    use ∈ TypeExpr.usesAll inScope exprs ↔
      ∃ arg ∈ exprs, ∃ part : TypeExpr, part.Within arg ∧ use = part.use inScope := by
  simp only [TypeExpr.usesAll_eq_flatMap, List.mem_flatMap, TypeExpr.mem_uses_iff]

theorem BoundExpr.mem_uses_iff {inScope : List String} {use : NameUse} {bound : BoundExpr} :
    use ∈ bound.uses inScope ↔ ∃ trait ∈ bound.positive ++ bound.negative, ∃ arg ∈ trait.args,
      ∃ part : TypeExpr, part.Within arg ∧ use = part.use inScope := by
  simp only [BoundExpr.uses, traitUses, ← List.flatMap_append, List.mem_flatMap,
    TypeExpr.mem_usesAll_iff]

theorem mem_paramUses_iff {before : List String} {use : NameUse} {params : List Param} :
    use ∈ paramUses before params ↔ ∃ (k : Nat) (param : Param) (bound : BoundExpr),
      params[k]? = some param ∧ param.bound = some bound ∧
        use ∈ bound.uses (before ++ (params.take k).map (·.name.text)) := by
  induction params generalizing before with
  | nil =>
    refine iff_of_false List.not_mem_nil ?_
    rintro ⟨k, param, bound, found, _⟩
    cases found
  | cons first params ih =>
    rw [paramUses, List.mem_append, ih]
    constructor
    · rintro (here | ⟨k, param, bound, found, bounded, member⟩)
      · cases bounded : first.bound with
        | none =>
          rw [bounded] at here
          exact absurd here List.not_mem_nil
        | some bound =>
          rw [bounded] at here
          refine ⟨0, first, bound, rfl, bounded, ?_⟩
          rwa [List.take_zero, List.map_nil, List.append_nil]
      · refine ⟨k + 1, param, bound, found, bounded, ?_⟩
        rwa [List.take_succ_cons, List.map_cons, List.append_cons]
    · rintro ⟨k, param, bound, found, bounded, member⟩
      cases k with
      | zero =>
        cases found
        rw [List.take_zero, List.map_nil, List.append_nil] at member
        rw [bounded]
        exact Or.inl member
      | succ k =>
        rw [List.take_succ_cons, List.map_cons, List.append_cons] at member
        exact Or.inr ⟨k, param, bound, found, bounded, member⟩

/-- The names an impl uses as types are those at the front of its type expressions. -/
theorem ImplDecl.mem_uses_iff {decl : ImplDecl} {use : NameUse} :
    use ∈ decl.uses ↔ ∃ inScope expr, decl.Site inScope expr ∧ use = expr.use inScope := by
  rw [ImplDecl.uses, List.mem_append, List.mem_append, mem_paramUses_iff, TypeExpr.mem_usesAll_iff,
    TypeExpr.mem_uses_iff]
  constructor
  · rintro ((⟨k, param, bound, found, bounded, member⟩ | ⟨arg, member, part, within, same⟩) |
      ⟨part, within, same⟩)
    · obtain ⟨trait, term, arg, inside, part, within, same⟩ := BoundExpr.mem_uses_iff.mp member
      exact ⟨_, part, .bound found bounded term inside within, same⟩
    · exact ⟨_, part, .head member within, same⟩
    · exact ⟨_, part, .target within, same⟩
  · rintro ⟨inScope, expr, site, rfl⟩
    cases site with
    | bound found bounded term member within =>
      exact Or.inl (Or.inl ⟨_, _, _, found, bounded,
        BoundExpr.mem_uses_iff.mpr ⟨_, term, _, member, expr, within, rfl⟩⟩)
    | head member within => exact Or.inl (Or.inr ⟨_, member, expr, within, rfl⟩)
    | target within => exact Or.inr ⟨expr, within, rfl⟩

/-- Takes the name off a trait application. -/
def TypeExpr.untitled (trait : TypeExpr) : TypeExpr := .apply (.placeless "") trait.args

def BoundExpr.untitled (bound : BoundExpr) : BoundExpr :=
  ⟨bound.positive.map TypeExpr.untitled, bound.negative.map TypeExpr.untitled⟩

def Param.untitled (param : Param) : Param := ⟨param.name, param.bound.map BoundExpr.untitled⟩

/-- Takes all the names of traits out of an impl. -/
def ImplDecl.untitled (decl : ImplDecl) : ImplDecl :=
  ⟨decl.params.map Param.untitled, decl.head.untitled, decl.target⟩

theorem BoundExpr.uses_untitled (inScope : List String) (bound : BoundExpr) :
    bound.untitled.uses inScope = bound.uses inScope := by
  simp only [BoundExpr.uses, BoundExpr.untitled, traitUses, List.flatMap_map]
  rfl

theorem paramUses_untitled (before : List String) (params : List Param) :
    paramUses before (params.map Param.untitled) = paramUses before params := by
  induction params generalizing before with
  | nil => rfl
  | cons param params ih =>
    rw [List.map_cons, paramUses, paramUses, ih, Param.untitled]
    cases param.bound with
    | none => rfl
    | some bound =>
      rw [Option.map_some, Option.elim_some, Option.elim_some, BoundExpr.uses_untitled]

/-- The names of traits are not used as types. -/
theorem ImplDecl.uses_untitled (decl : ImplDecl) : decl.untitled.uses = decl.uses := by
  have names : (decl.params.map Param.untitled).map (·.name.text) =
      decl.params.map (·.name.text) := by
    rw [List.map_map]
    rfl
  simp only [ImplDecl.uses, ImplDecl.untitled, paramUses_untitled, names]
  rfl

/-- Elaboration fails exactly if some name in the impl is used improperly, and then for the first of
them: parameters from left to right, what a bound demands before what it forbids, then the arguments of
the trait, then the target, and every name before those in its arguments. What the traits are called
makes no difference. -/
theorem elaboration_fails_exactly_at_first_fault (catalog : Catalog) (next : Int) (decl : ImplDecl) :
    ((∃ error, (catalog.elaborateImpl next decl).2 = .error error) ↔
      ∃ inScope expr, decl.Site inScope expr ∧
        ∃ error, (expr.use inScope).Fault catalog.structs error) ∧
    (∀ error, (catalog.elaborateImpl next decl).2 = .error error ↔
      ∃ before use after, decl.uses = before ++ use :: after ∧ use.Fault catalog.structs error ∧
        ∀ earlier ∈ before, ∀ other, ¬ earlier.Fault catalog.structs other) ∧
    ∀ other : ImplDecl, other.untitled = decl.untitled → ∀ error,
      (catalog.elaborateImpl next other).2 = .error error ↔
        (catalog.elaborateImpl next decl).2 = .error error := by
  have blames (decl : ImplDecl) (error : CheckError) :
      (catalog.elaborateImpl next decl).2 = .error error ↔
        catalog.firstFault? decl.uses = some error := by
    rw [← catalog.elaborateImpl_cause next, cause?_eq_some_iff]
  refine ⟨?_, fun error => (blames decl error).trans Catalog.firstFault?_eq_some_iff, ?_⟩
  · simp only [blames]
    constructor
    · rintro ⟨error, found⟩
      obtain ⟨before, use, after, split, fault, _⟩ := Catalog.firstFault?_eq_some_iff.mp found
      have member : use ∈ decl.uses := split ▸ List.mem_append_right _ List.mem_cons_self
      obtain ⟨inScope, expr, site, rfl⟩ := ImplDecl.mem_uses_iff.mp member
      exact ⟨inScope, expr, site, error, fault⟩
    · rintro ⟨inScope, expr, site, error, fault⟩
      have member := ImplDecl.mem_uses_iff.mpr ⟨inScope, expr, site, rfl⟩
      rw [← Option.isSome_iff_exists, Catalog.firstFault?, List.findSome?_isSome_iff]
      exact ⟨_, member, Option.isSome_of_eq_some (NameUse.fault?_eq_some_iff.mpr fault)⟩
  · intro other same error
    rw [blames, blames, ← other.uses_untitled, same, decl.uses_untitled]

/-- `impl<P: Has<A> - Has<Ghost<P>>, Q> Rel<P<Q>> for Ghost {}`, by what its traits are called. -/
def hauntedImpl (has rel : String) : ImplDecl :=
  let p : TypeExpr := .apply (.placeless "P") []
  let ghost : Name := ⟨"Ghost", some ⟨21, 26⟩⟩
  ⟨[⟨.placeless "P", some ⟨[.apply (.placeless has) [.apply (.placeless "A") []]],
        [.apply (.placeless has) [.apply ghost [p]]]⟩⟩, ⟨.placeless "Q", none⟩],
    .apply (.placeless rel) [.apply (.placeless "P") [.apply (.placeless "Q") []]],
    .apply ⟨"Ghost", some ⟨49, 54⟩⟩ []⟩

/-- Of the four improper uses in the impl only the first is blamed, and not the trait `Ghost`. -/
theorem haunted_impl_blamed_at_first_ghost :
    let catalog : Catalog := ⟨⟨[("A", ⟨.placeless "A", []⟩)]⟩, .empty, [], by decide⟩
    let blamed : CheckError := .undefinedSymbol ⟨"Ghost", some ⟨21, 26⟩⟩
    (hauntedImpl "Ghost" "Ghost").untitled = (hauntedImpl "Has" "Rel").untitled ∧
      (catalog.elaborateImpl 0 (hauntedImpl "Has" "Rel")).2 = .error blamed ∧
      (catalog.elaborateImpl 0 (hauntedImpl "Ghost" "Ghost")).2 = .error blamed := by
  intro catalog blamed
  obtain ⟨_, blames, titles⟩ :=
    elaboration_fails_exactly_at_first_fault catalog 0 (hauntedImpl "Has" "Rel")
  have first : (catalog.elaborateImpl 0 (hauntedImpl "Has" "Rel")).2 = .error blamed := by
    refine (blames blamed).mpr ⟨[⟨[], .placeless "A", 0⟩], ⟨[], ⟨"Ghost", some ⟨21, 26⟩⟩, 1⟩, _, rfl,
      .undefined (by decide) rfl, ?_⟩
    rw [List.forall_mem_singleton]
    exact NameUse.fault?_eq_none_iff_forall.mp rfl
  exact ⟨rfl, first, (titles _ rfl blamed).mpr first⟩

end TraitCoherence
