import TraitCoherence.Proofs.Stages

namespace TraitCoherence

/-- What may go wrong in a stage itself, and not in one that it leads to. -/
inductive Stage.Raises (catalog : Catalog) : Stage → CheckError → Prop
  | applied {scope : Scope} {name : Name} {args : List TypeExpr} {ty : Ty} :
      scope.lookup name.text = some ty → args ≠ [] →
      Raises catalog (.type scope (.apply name args)) (.appliedParameter name args.length)
  | unknown {scope : Scope} {name : Name} {args : List TypeExpr} :
      scope.lookup name.text = none → catalog.structs.get? name.text = none →
      Raises catalog (.type scope (.apply name args)) (.undefinedSymbol name)
  | arity {scope : Scope} {name : Name} {args : List TypeExpr} {decl : StructDecl} :
      scope.lookup name.text = none → catalog.structs.get? name.text = some decl →
      decl.arity ≠ args.length →
      Raises catalog (.type scope (.apply name args)) (.wrongArity name args.length decl.arity)
  | missing {bounds : BoundTable} {sofar : Bound} {x : Int} {members : List Int} :
      bounds.lookup x = none →
      Raises catalog (.join bounds sofar (x :: members)) (.missingBound x)
  | undeclared {memo : Memo} {trait : TraitRef} : memo.get? trait = none →
      catalog.traits.get? trait.name = none →
      Raises catalog (.close memo trait) (.undeclaredTrait (.placeless trait.name))

/-- A stage leads to one where this goes wrong. -/
def Catalog.Strands (catalog : Catalog) (stage : Stage) (error : CheckError) : Prop :=
  catalog.ComesTo stage fun last => last.Raises catalog error

theorem Catalog.elaborateBound_error {catalog : Catalog} {scope : Scope} {bound : BoundExpr}
    {error : CheckError} (failed : catalog.elaborateBound scope bound = .error error) :
    ∃ expr ∈ bound.positive ++ bound.negative, catalog.elaborateTrait scope expr = .error error := by
  rw [Catalog.elaborateBound] at failed
  split at failed
  · rename_i demanded
    cases failed
    obtain ⟨expr, member, same⟩ := exists_of_mapM_error demanded
    exact ⟨expr, List.mem_append_left _ member, same⟩
  · split at failed
    · rename_i forbidden
      cases failed
      obtain ⟨expr, member, same⟩ := exists_of_mapM_error forbidden
      exact ⟨expr, List.mem_append_right _ member, same⟩
    · cases failed

theorem Catalog.elaborateParam_error {catalog : Catalog} {scope : Scope} {param : Param}
    {error : CheckError} (failed : catalog.elaborateParam scope param = .error error) :
    ∃ bound, param.bound = some bound ∧ catalog.elaborateBound scope bound = .error error := by
  rw [Catalog.elaborateParam] at failed
  split at failed
  · cases failed
  · rename_i bound written
    split at failed
    · rename_i refused
      cases failed
      exact ⟨bound, written, refused⟩
    · cases failed

theorem Catalog.elaborateType_strands {catalog : Catalog} {scope : Scope} {expr : TypeExpr}
    {error : CheckError} (failed : catalog.elaborateType scope expr = .error error) :
    catalog.Strands (.type scope expr) error := by
  induction expr using TypeExpr.ind with
  | apply name args ih =>
    rw [Catalog.elaborateType] at failed
    split at failed
    · rename_i ty found
      split at failed
      · cases failed
      · rename_i applied
        cases failed
        have given : args ≠ [] := fun none => applied (List.isEmpty_iff.mpr none)
        exact Catalog.comesTo_self (Stage.Raises.applied found given)
    · rename_i free
      split at failed
      · rename_i missing
        cases failed
        exact Catalog.comesTo_self (Stage.Raises.unknown free missing)
      · rename_i decl declared
        split at failed
        · rename_i arity
          split at failed
          · rename_i parts
            cases failed
            rw [catalog.elaborateTypes_eq_mapM] at parts
            obtain ⟨arg, member, same⟩ := exists_of_mapM_error parts
            exact (ih arg member same).enter (.part free declared arity member)
          · cases failed
        · rename_i arity
          cases failed
          exact Catalog.comesTo_self (Stage.Raises.arity free declared arity)

theorem Catalog.elaborateTrait_strands {catalog : Catalog} {scope : Scope} {expr : TypeExpr}
    {error : CheckError} (failed : catalog.elaborateTrait scope expr = .error error) :
    catalog.Strands (.trait scope expr) error := by
  rw [Catalog.elaborateTrait] at failed
  split at failed
  · rename_i parts
    cases failed
    rw [catalog.elaborateTypes_eq_mapM] at parts
    obtain ⟨arg, member, same⟩ := exists_of_mapM_error parts
    exact (Catalog.elaborateType_strands same).enter (.argument member)
  · cases failed

theorem Catalog.elaborateParams_strands {catalog : Catalog} {scope : Scope} {next : Int}
    {params : List Param} {error : CheckError}
    (failed : (catalog.elaborateParams scope next params).2 = .error error) :
    catalog.Strands (.params scope next params) error := by
  induction params generalizing scope next with
  | nil => cases failed
  | cons param params ih =>
    rw [Catalog.elaborateParams] at failed
    split at failed
    · rename_i refused
      cases failed
      obtain ⟨bound, written, failed⟩ := Catalog.elaborateParam_error refused
      obtain ⟨expr, member, same⟩ := Catalog.elaborateBound_error failed
      exact (Catalog.elaborateTrait_strands same).enter (.term written member)
    · rename_i bound here
      dsimp only at failed
      split at failed
      · rename_i after later rest
        cases failed
        exact (ih (congrArg Prod.snd rest)).enter (.param here)
      · cases failed

theorem Catalog.elaborateImpl_strands {catalog : Catalog} {next : Int} {decl : ImplDecl}
    {error : CheckError} (failed : (catalog.elaborateImpl next decl).2 = .error error) :
    catalog.Strands (.impl next decl) error := by
  rw [Catalog.elaborateImpl] at failed
  split at failed
  · rename_i after refused params
    cases failed
    exact (Catalog.elaborateParams_strands (congrArg Prod.snd params)).enter .params
  · rename_i after scope bounds params
    split at failed
    · rename_i head
      cases failed
      exact (Catalog.elaborateTrait_strands head).enter (.head params)
    · split at failed
      · rename_i target
        cases failed
        exact (Catalog.elaborateType_strands target).enter (.target params)
      · cases failed

theorem Catalog.elaboratePair_strands {catalog : Catalog} {first second : ImplDecl}
    {error : CheckError} (failed : catalog.elaboratePair first second = .error error) :
    catalog.Strands (.compare first second) error := by
  rw [Catalog.elaboratePair] at failed
  split at failed
  · rename_i refused
    cases failed
    exact (Catalog.elaborateImpl_strands (congrArg Prod.snd refused)).enter .first
  · rename_i next left here
    split at failed
    · rename_i refused
      cases failed
      exact (Catalog.elaborateImpl_strands (congrArg Prod.snd refused)).enter (.second here)
    · cases failed

theorem Catalog.supertraits_strands {catalog : Catalog} {memo : Memo} {trait : TraitRef}
    {error : CheckError} (missing : memo.get? trait = none)
    (failed : catalog.supertraits trait = .error error) :
    catalog.Strands (.close memo trait) error := by
  rw [Catalog.supertraits] at failed
  split at failed
  · rename_i undeclared
    cases failed
    exact Catalog.comesTo_self (Stage.Raises.undeclared missing undeclared)
  · rename_i decl declared
    obtain ⟨expr, member, same⟩ := exists_of_mapM_error failed
    exact (Catalog.elaborateTrait_strands same).enter (.demand missing declared member)

theorem Catalog.gather_strands {catalog : Catalog} {traits : List TraitRef}
    (each : ∀ trait ∈ traits, ∀ memo error, (catalog.closure memo trait).2 = .error error →
      catalog.Strands (.close memo trait) error)
    {memo : Memo} {sofar : TraitSet} {error : CheckError}
    (failed : (gather catalog.closure memo sofar traits).2 = .error error) :
    catalog.Strands (.gather memo sofar traits) error := by
  induction traits generalizing memo sofar with
  | nil => cases failed
  | cons trait traits ih =>
    rw [gather] at failed
    split at failed
    · rename_i after refused outcome
      cases failed
      exact (each trait List.mem_cons_self memo _ (congrArg Prod.snd outcome)).enter .close
    · rename_i after closure outcome
      exact (ih (fun later member => each later (List.mem_cons_of_mem _ member)) failed).enter
        (.closed outcome)

/-- Since no chain of supertraits comes back, depth is never what a closure fails for. -/
theorem Catalog.closure_strands {catalog : Catalog} {memo : Memo} {trait : TraitRef}
    {error : CheckError} (failed : (catalog.closure memo trait).2 = .error error) :
    catalog.Strands (.close memo trait) error := by
  induction trait using catalog.supertrait_induction generalizing memo error with
  | step trait ih =>
    rw [catalog.closure_eq, Catalog.closeStep] at failed
    split at failed
    · cases failed
    · rename_i missing
      split at failed
      · rename_i refused
        cases failed
        exact Catalog.supertraits_strands missing refused
      · rename_i supertraits found
        split at failed
        · rename_i after refused outcome
          cases failed
          have inner := Catalog.gather_strands (fun supertrait member memo error =>
            ih supertrait ⟨_, found, member⟩) (congrArg Prod.snd outcome)
          exact inner.enter (.supertraits missing found)
        · cases failed

theorem Catalog.unsatisfiable_strands {catalog : Catalog} {memo : Memo} {bound : Bound}
    {error : CheckError} (failed : (catalog.unsatisfiable memo bound).2 = .error error) :
    catalog.Strands (.ask memo bound) error := by
  rw [Catalog.unsatisfiable] at failed
  split at failed
  · rename_i after refused outcome
    cases failed
    have inner := Catalog.gather_strands (fun _ _ _ _ => Catalog.closure_strands)
      (congrArg Prod.snd outcome)
    exact inner.enter .implied
  · cases failed

theorem joinBounds_strands {catalog : Catalog} {bounds : BoundTable} {sofar : Bound}
    {members : List Int} {x : Int} (missing : joinBounds bounds sofar members = .missing x) :
    catalog.Strands (.join bounds sofar members) (.missingBound x) := by
  induction members generalizing sofar with
  | nil => cases missing
  | cons y members ih =>
    rw [joinBounds] at missing
    split at missing
    · rename_i absent
      cases missing
      exact Catalog.comesTo_self (Stage.Raises.missing absent)
    · cases missing
    · rename_i bound found
      exact (ih missing).enter (.member found)

/-- Equations that are not taken further: none of them is left, or the first one that is left cannot be
solved. -/
inductive Substitution.Settles (σ : Substitution) (equations : List Equation) : Bool → Prop
  | done : σ.next? equations = none → Settles σ equations true
  | stuck {equation : Equation} {others : List Equation} :
      σ.next? equations = some (equation, others) → equation.binding? = none →
      Settles σ equations false
  | circular {equation : Equation} {others : List Equation} {x : Int} {value : Ty} :
      σ.next? equations = some (equation, others) → equation.binding? = some (x, value) →
      x ∈ value.vars → Settles σ equations false

/-- Solving goes from binding to binding, up to equations that what was bound by then settles. -/
theorem Solving.settles {catalog : Catalog} {σ result : Substitution} {equations : List Equation}
    {ok : Bool} (solving : Solving σ equations result ok) :
    catalog.ComesTo (.solve σ equations) fun last =>
      ∃ rest, last = .solve result rest ∧ result.Settles rest ok := by
  induction solving with
  | done finished => exact Catalog.comesTo_self ⟨_, rfl, .done finished⟩
  | stuck next unbound => exact Catalog.comesTo_self ⟨_, rfl, .stuck next unbound⟩
  | circular next found occurs => exact Catalog.comesTo_self ⟨_, rfl, .circular next found occurs⟩
  | bind next found absent _ ih => exact ih.enter (.bind next found absent)

/-- Where closures are gathered without a failure, the last one leaves what they come to. -/
theorem Catalog.gather_ends {catalog : Catalog} {memo after : Memo} {sofar closure : TraitSet}
    {traits : List TraitRef}
    (gathered : gather catalog.closure memo sofar traits = (after, .ok closure)) :
    Relation.ReflTransGen catalog.Enters (.gather memo sofar traits) (.gather after closure []) := by
  induction traits generalizing memo sofar with
  | nil =>
    cases gathered
    exact .refl
  | cons trait traits ih =>
    rw [gather] at gathered
    split at gathered
    · cases gathered
    · rename_i next closed outcome
      exact .head (.closed outcome) (ih gathered)

/-- A closure is remembered, or it is gathered and then remembered. -/
theorem Catalog.closure_ends {catalog : Catalog} {memo after : Memo} {trait : TraitRef}
    {closure : TraitSet} (closed : catalog.closure memo trait = (after, .ok closure)) :
    memo.get? trait = some closure ∧ after = memo ∨ ∃ before,
      Relation.ReflTransGen catalog.Enters (.close memo trait) (.gather before closure []) ∧
        after = before ++ [(trait, closure)] := by
  rw [catalog.closure_eq, Catalog.closeStep] at closed
  split at closed
  · rename_i known
    cases closed
    exact Or.inl ⟨known, rfl⟩
  · rename_i missing
    split at closed
    · cases closed
    · rename_i supertraits found
      split at closed
      · cases closed
      · rename_i before gathered outcome
        cases closed
        exact Or.inr ⟨before, .head (.supertraits missing found) (Catalog.gather_ends outcome), rfl⟩

theorem Catalog.unsatisfiable_ends {catalog : Catalog} {memo after : Memo} {bound : Bound}
    {answer : Bool} (asked : catalog.unsatisfiable memo bound = (after, .ok answer)) :
    ∃ closure, Relation.ReflTransGen catalog.Enters (.ask memo bound) (.gather after closure []) ∧
      closure.meets bound.negative = answer := by
  rw [Catalog.unsatisfiable] at asked
  split at asked
  · cases asked
  · rename_i next closure outcome
    cases asked
    exact ⟨closure, .head .implied (Catalog.gather_ends outcome), rfl⟩

/-- A stage where a comparison stops, and what it has come to. Impls are disjoint for different traits,
for equations that cannot be solved, or for a bound that forbids something in its closure. They overlap
where no class is left to be judged. -/
inductive Stage.Stops (catalog : Catalog) : Stage → Except CheckError Verdict → Prop
  | raised {stage : Stage} {error : CheckError} : stage.Raises catalog error →
      Stops catalog stage (.error error)
  | otherTrait {first second : ImplDecl} {left right : ImplScheme} :
      catalog.elaboratePair first second = .ok (left, right) → left.trait.name ≠ right.trait.name →
      Stops catalog (.compare first second) (.ok .disjoint)
  | unsolvable {σ : Substitution} {equations : List Equation} : σ.Settles equations false →
      Stops catalog (.solve σ equations) (.ok .disjoint)
  | contradiction {memo after : Memo} {bound : Bound} {closure : TraitSet} :
      Relation.ReflTransGen catalog.Enters (.ask memo bound) (.gather after closure []) →
      closure.meets bound.negative = true → Stops catalog (.ask memo bound) (.ok .disjoint)
  | exhausted {bounds : BoundTable} {memo : Memo} :
      Stops catalog (.judge bounds memo []) (.ok .overlap)

/-- A stage leads to one where the comparison stops with this outcome. -/
def Catalog.Finishes (catalog : Catalog) (stage : Stage) (outcome : Except CheckError Verdict) : Prop :=
  catalog.ComesTo stage fun last => last.Stops catalog outcome

theorem Catalog.Strands.finishes {catalog : Catalog} {stage : Stage} {error : CheckError}
    (strands : catalog.Strands stage error) : catalog.Finishes stage (.error error) := by
  obtain ⟨last, rest, raises⟩ := strands
  exact ⟨last, rest, .raised raises⟩

theorem Catalog.judgeClasses_finishes (catalog : Catalog) (bounds : BoundTable) (memo : Memo)
    (classes : List VarClass) :
    catalog.Finishes (.judge bounds memo classes)
      (catalog.judgeClasses bounds memo classes).result := by
  induction classes generalizing memo with
  | nil => exact Catalog.comesTo_self .exhausted
  | cons first classes ih =>
    obtain ⟨members, anchor⟩ := first
    cases anchor with
    | some anchor => exact (ih memo).enter .anchored
    | none =>
      rw [Catalog.judgeClasses]
      cases joined : joinBounds bounds .empty members with
      | missing x =>
        have strands : catalog.Strands _ _ := joinBounds_strands joined
        exact strands.finishes.enter .members
      | unbounded => exact (ih memo).enter (.unbounded joined)
      | bound bound =>
        dsimp only
        split
        · rename_i after error outcome
          have strands := Catalog.unsatisfiable_strands (congrArg Prod.snd outcome)
          exact strands.finishes.enter (.joined joined)
        · rename_i after outcome
          obtain ⟨closure, gathered, meets⟩ := Catalog.unsatisfiable_ends outcome
          have stops : catalog.Finishes _ _ := Catalog.comesTo_self (.contradiction gathered meets)
          exact stops.enter (.joined joined)
        · rename_i after outcome
          exact (ih after).enter (.satisfiable joined outcome)

section

variable {catalog : Catalog} {first second : ImplDecl} {left right : ImplScheme}
  (elaborated : catalog.elaboratePair first second = .ok (left, right)) {σ τ : Substitution} {ok : Bool}

include elaborated

/-- What unifying the heads gives is what a stage of solving settles with. -/
theorem Catalog.heads_settle (sameTrait : left.trait.name = right.trait.name)
    (heads : Substitution.empty.unifyTraits left.trait right.trait = (σ, ok)) :
    catalog.ComesTo (.compare first second) fun last =>
      ∃ rest, last = .solve σ rest ∧ σ.Settles rest ok := by
  rw [Substitution.unifyTraits, if_pos sameTrait] at heads
  have start : Substitution.empty.Triangular := .empty
  have solving := start.solving_extend (List.zipWith Equation.mk left.trait.args right.trait.args)
  rw [heads] at solving
  exact solving.settles.enter (.heads elaborated sameTrait)

/-- From there on the same holds of the targets. -/
theorem Catalog.targets_settle
    (heads : Substitution.empty.unifyTraits left.trait right.trait = (σ, true))
    (targets : σ.unify left.target right.target = (τ, ok)) :
    catalog.ComesTo (.compare first second) fun last =>
      ∃ rest, last = .solve τ rest ∧ τ.Settles rest ok := by
  have start : Substitution.empty.Triangular := .empty
  have triangular := start.serve (.traits left.trait right.trait)
  rw [Substitution.serve, heads] at triangular
  have solving := triangular.solving_extend [⟨left.target, right.target⟩]
  rw [← Substitution.unify, targets] at solving
  exact solving.settles.enter (.targets elaborated heads)

/-- Heads or targets that do not unify leave an equation that cannot be solved, unless the heads are of
different traits. -/
theorem Catalog.refused_finishes (refused : unifySchemes left right = none) :
    catalog.Finishes (.compare first second) (.ok .disjoint) := by
  have unsolvable {σ : Substitution} (settles : catalog.ComesTo (.compare first second) fun last =>
      ∃ rest, last = .solve σ rest ∧ σ.Settles rest false) :
      catalog.Finishes (.compare first second) (.ok .disjoint) := by
    obtain ⟨_, reaches, rest, rfl, settles⟩ := settles
    exact ⟨_, reaches, .unsolvable settles⟩
  by_cases sameTrait : left.trait.name = right.trait.name
  · rw [unifySchemes] at refused
    split at refused
    · rename_i heads
      exact unsolvable (Catalog.heads_settle elaborated sameTrait heads)
    · rename_i heads
      split at refused
      · rename_i targets
        exact unsolvable (Catalog.targets_settle elaborated heads targets)
      · cases refused
  · exact Catalog.comesTo_self (.otherTrait elaborated sameTrait)

/-- Impls are unified by what is left once all equations of their heads, and then of their targets, are
solved. -/
theorem Catalog.unified_settles (done : unifySchemes left right = some τ) :
    ∃ σ before after, catalog.Reaches first second (.solve σ before) ∧ σ.Settles before true ∧
      catalog.Reaches first second (.solve τ after) ∧ τ.Settles after true := by
  rw [unifySchemes] at done
  split at done
  · cases done
  · rename_i σ heads
    split at done
    · cases done
    · rename_i targets
      cases done
      have sameTrait : left.trait.name = right.trait.name := by
        by_contra differ
        rw [Substitution.unifyTraits, if_neg differ] at heads
        cases heads
      obtain ⟨_, reaches, before, rfl, settles⟩ := Catalog.heads_settle elaborated sameTrait heads
      obtain ⟨_, reachesToo, after, rfl, settlesToo⟩ := Catalog.targets_settle elaborated heads targets
      exact ⟨σ, before, after, reaches, settles, reachesToo, settlesToo⟩

end

/-- A comparison passes through stages up to one where it stops, and its outcome is the one there. -/
theorem Catalog.compare_finishes (catalog : Catalog) (first second : ImplDecl) :
    catalog.Finishes (.compare first second) (catalog.compare first second).result := by
  rw [Catalog.compare]
  split
  · rename_i refused
    exact (Catalog.elaboratePair_strands refused).finishes
  · rename_i left right elaborated
    split
    · rename_i refused
      exact Catalog.refused_finishes elaborated refused
    · rename_i σ unified
      have judged := catalog.judgeClasses_finishes (left.bounds ++ right.bounds) [] σ.classes
      exact (judged.enter .classes).enter (.unified elaborated unified)

end TraitCoherence
