import TraitCoherence.Proofs.Duplicates

namespace TraitCoherence

theorem numbersFrom_append (next : Int) (first second : Nat) :
    numbersFrom next first ++ numbersFrom (next + first) second =
      numbersFrom next (first + second) := by
  induction first generalizing next with
  | zero => simp [numbersFrom]
  | succ first ih =>
    have shifted : next + (first + 1 : Nat) = next + 1 + first := by omega
    rw [Nat.succ_add, numbersFrom, numbersFrom, shifted, List.cons_append, ih]

theorem take_numbersFrom (next : Int) {first count : Nat} (fits : first ≤ count) :
    (numbersFrom next count).take first = numbersFrom next first := by
  induction first generalizing next count with
  | zero => exact List.take_zero
  | succ first ih =>
    obtain ⟨rest, rfl⟩ := Nat.exists_eq_add_of_lt fits
    rw [numbersFrom, numbersFrom, List.take_succ_cons, ih (next + 1) (Nat.le_add_right _ _)]

/-- The numbers that are drawn for parameters, one for each up to the first whose bound is at fault. A
number is drawn before the bound is looked at. -/
def Catalog.drawn (catalog : Catalog) (scope : Scope) (next : Int) : List Param → List Int
  | [] => []
  | param :: params =>
    next :: match catalog.elaborateParam scope param with
      | .error _ => []
      | .ok _ => catalog.drawn ((param.name.text, .var next param.name.text) :: scope) (next + 1) params

/-- Numbers are drawn in a row, and the counter stands behind the last of them. -/
theorem Catalog.drawn_eq_numbersFrom (catalog : Catalog) (scope : Scope) (next : Int)
    (params : List Param) :
    catalog.drawn scope next params = numbersFrom next (catalog.drawn scope next params).length ∧
      (catalog.elaborateParams scope next params).1 =
        next + (catalog.drawn scope next params).length := by
  induction params generalizing scope next with
  | nil => exact ⟨rfl, (Int.add_zero next).symm⟩
  | cons param params ih =>
    rw [Catalog.drawn, Catalog.elaborateParams]
    cases catalog.elaborateParam scope param with
    | error error => exact ⟨rfl, rfl⟩
    | ok bound =>
      obtain ⟨row, counter⟩ := ih ((param.name.text, .var next param.name.text) :: scope) (next + 1)
      dsimp only
      rw [List.length_cons, numbersFrom, ← row]
      refine ⟨rfl, ?_⟩
      have shifted (count : Nat) : next + (count + 1 : Nat) = next + 1 + count := by omega
      rw [shifted, ← counter]
      rcases catalog.elaborateParams ((param.name.text, .var next param.name.text) :: scope) (next + 1)
        params with ⟨after, error | ⟨inner, bounds⟩⟩ <;> rfl

/-- The arguments of the trait and the target draw no numbers. -/
theorem Catalog.elaborateImpl_fst (catalog : Catalog) (next : Int) (decl : ImplDecl) :
    (catalog.elaborateImpl next decl).1 = (catalog.elaborateParams [] next decl.params).1 := by
  rw [Catalog.elaborateImpl]
  rcases catalog.elaborateParams [] next decl.params with ⟨after, error | ⟨scope, bounds⟩⟩
  · rfl
  · dsimp only
    cases catalog.elaborateTrait scope decl.head with
    | error error => rfl
    | ok trait => cases catalog.elaborateType scope decl.target <;> rfl

/-- One impl given to an elaborator: where its counter stood before and after, the numbers that were
drawn in between, and what came of it. -/
structure Attempt where
  decl : ImplDecl
  start : Int
  drawn : List Int
  after : Int
  result : Except CheckError ImplScheme

def Catalog.attempt (catalog : Catalog) (next : Int) (decl : ImplDecl) : Attempt :=
  let (after, result) := catalog.elaborateImpl next decl
  ⟨decl, next, catalog.drawn [] next decl.params, after, result⟩

/-- Impls that are given to one elaborator in turn. The counter goes on where it stood, also after a
failure. -/
def Catalog.attempts (catalog : Catalog) (next : Int) : List ImplDecl → List Attempt
  | [] => []
  | decl :: decls =>
    catalog.attempt next decl :: catalog.attempts (catalog.attempt next decl).after decls

/-- What an attempt leaves behind: the counter stands behind the numbers drawn, which are in a row. -/
structure Attempt.Counted (attempt : Attempt) : Prop where
  row : attempt.drawn = numbersFrom attempt.start attempt.drawn.length
  counter : attempt.after = attempt.start + attempt.drawn.length

/-- The variables of a scheme are those drawn for its parameters, and a bound is about parameters
before its own. -/
structure ImplScheme.Owns (scheme : ImplScheme) (drawn : List Int) : Prop where
  keys : scheme.bounds.map (·.1) = drawn
  trait : ∀ arg ∈ scheme.trait.args, ∀ x ∈ arg.vars, x ∈ drawn
  target : ∀ x ∈ scheme.target.vars, x ∈ drawn
  bounds : ∀ (k : Nat) (key : Int) (bound : Bound), scheme.bounds[k]? = some (key, some bound) →
    ∀ x, bound.Mentions x → x ∈ drawn.take k

theorem Catalog.attempt_counted (catalog : Catalog) (next : Int) (decl : ImplDecl) :
    (catalog.attempt next decl).Counted := by
  obtain ⟨row, counter⟩ := catalog.drawn_eq_numbersFrom [] next decl.params
  exact ⟨row, (catalog.elaborateImpl_fst next decl).trans counter⟩

theorem Catalog.attempt_owns {catalog : Catalog} {next : Int} {decl : ImplDecl} {scheme : ImplScheme}
    (elaborated : (catalog.attempt next decl).result = .ok scheme) :
    (catalog.attempt next decl).drawn.length = decl.params.length ∧
      scheme.Owns (catalog.attempt next decl).drawn := by
  have counted := catalog.attempt_counted next decl
  have run : catalog.elaborateImpl next decl =
      ((catalog.attempt next decl).after, .ok scheme) := Prod.ext rfl elaborated
  have wellFormed := catalog.fits_sizes.elaborateImpl run
  have length : (catalog.attempt next decl).drawn.length = decl.params.length := by
    have last := (Catalog.elaborateImpl_next run).symm.trans counted.counter
    exact Int.ofNat.inj (Int.add_left_cancel last).symm
  have keys : scheme.params = (catalog.attempt next decl).drawn := by
    rw [wellFormed.params, counted.row, length]
    rfl
  refine ⟨length, keys, keys ▸ wellFormed.traitVars, keys ▸ wellFormed.targetVars, ?_⟩
  intro k key bound stored x mentions
  obtain ⟨scope, params, _, _⟩ := Catalog.elaborateImpl_ok run
  have below : k ≤ decl.params.length := by
    have inside := (List.getElem?_eq_some_iff.mp stored).1
    have count := congrArg List.length keys
    rw [ImplScheme.params, List.length_map, length] at count
    omega
  rw [counted.row, length, take_numbersFrom _ below]
  refine (Catalog.elaborateParams_mentions_earlier params stored mentions).resolve_left ?_
  rintro ⟨entry, member, _⟩
  exact absurd member List.not_mem_nil

theorem Catalog.attempts_drawn (catalog : Catalog) (next : Int) (decls : List ImplDecl) :
    ∃ total, (catalog.attempts next decls).flatMap Attempt.drawn = numbersFrom next total := by
  induction decls generalizing next with
  | nil => exact ⟨0, rfl⟩
  | cons decl decls ih =>
    obtain ⟨row, counter⟩ := catalog.attempt_counted next decl
    obtain ⟨total, later⟩ := ih (catalog.attempt next decl).after
    refine ⟨(catalog.attempt next decl).drawn.length + total, ?_⟩
    rw [Catalog.attempts, List.flatMap_cons, later, counter, ← numbersFrom_append]
    exact congrArg (· ++ _) row

theorem Catalog.mem_attempts {catalog : Catalog} {next : Int} {decls : List ImplDecl}
    {attempt : Attempt} (member : attempt ∈ catalog.attempts next decls) :
    ∃ start, ∃ decl ∈ decls, attempt = catalog.attempt start decl := by
  induction decls generalizing next with
  | nil => exact absurd member List.not_mem_nil
  | cons decl decls ih =>
    rcases List.mem_cons.mp member with rfl | later
    · exact ⟨next, decl, List.mem_cons_self, rfl⟩
    · obtain ⟨start, other, inside, same⟩ := ih later
      exact ⟨start, other, List.mem_cons_of_mem _ inside, same⟩

/-- However often one elaborator is used, and whether it succeeds or not, no number is drawn twice. A
scheme that comes out has one variable for each parameter, in order, and no other variables. -/
theorem elaborator_draws_fresh_scoped_variables (catalog : Catalog) (next : Int)
    (decls : List ImplDecl) :
    ((catalog.attempts next decls).flatMap Attempt.drawn).Nodup ∧
      ∀ attempt ∈ catalog.attempts next decls, attempt.Counted ∧
        ∀ scheme, attempt.result = .ok scheme →
          attempt.drawn.length = attempt.decl.params.length ∧ scheme.Owns attempt.drawn := by
  constructor
  · obtain ⟨total, row⟩ := catalog.attempts_drawn next decls
    rw [row]
    exact nodup_numbersFrom next total
  · intro attempt member
    obtain ⟨start, decl, _, rfl⟩ := Catalog.mem_attempts member
    exact ⟨catalog.attempt_counted start decl, fun scheme => Catalog.attempt_owns⟩

/-- `impl<P, P: Has<P>> Show for P {}`, where the second `P` hides the first. -/
def hidingImpl : ImplDecl :=
  let p : TypeExpr := .apply (.placeless "P") []
  ⟨[.ofTerms "P" [] [], .ofTerms "P" [.apply (.placeless "Has") [p]] []],
    .apply (.placeless "Show") [], p⟩

/-- `impl<P, Q: Has<Ghost>, R> Show for P {}`, which fails at its second parameter. -/
def interruptedImpl : ImplDecl :=
  ⟨[.ofTerms "P" [] [],
      .ofTerms "Q" [.apply (.placeless "Has") [.apply (.placeless "Ghost") []]] [],
      .ofTerms "R" [] []],
    .apply (.placeless "Show") [], .apply (.placeless "P") []⟩

/-- Two numbers are lost to the impl that fails. The third impl is numbered on from there, and its
bound is about the `P` that is hidden. -/
theorem interrupted_elaborator_goes_on :
    let history := (⟨.empty, .empty, [], by decide⟩ : Catalog).attempts 0
      [hidingImpl, interruptedImpl, hidingImpl]
    let scheme : ImplScheme := ⟨⟨"Show", []⟩, .var 5 "P",
      [(4, none), (5, some ⟨.singleton ⟨"Has", [.var 4 "P"]⟩, .empty⟩)]⟩
    history.map Attempt.drawn = [[0, 1], [2, 3], [4, 5]] ∧
      (history.flatMap Attempt.drawn).Nodup ∧
      history.map (·.result.toOption.isSome) = [true, false, true] ∧
      history[2]?.map Attempt.result = some (.ok scheme) ∧ scheme.Owns [4, 5] := by
  intro history scheme
  obtain ⟨fresh, each⟩ := elaborator_draws_fresh_scoped_variables ⟨.empty, .empty, [], by decide⟩ 0
    [hidingImpl, interruptedImpl, hidingImpl]
  have last : history[2] ∈ history := List.getElem_mem _
  obtain ⟨_, owns⟩ := (each _ last).2 scheme rfl
  exact ⟨rfl, fresh, rfl, rfl, owns⟩

end TraitCoherence
