import TraitCoherence.Proofs.Acyclicity
import TraitCoherence.Proofs.LastingAgreement

namespace TraitCoherence

/-- The calls that unification is made of: on two types or two trait applications as they are given,
on two types in which no binding is left to follow, on a variable and the application it is to stand
for, and on pairs of types in turn. -/
inductive Call where
  | types (a b : Ty)
  | traits (a b : TraitRef)
  | meet (a b : Ty)
  | bind (x : Int) (value : Ty)
  | each (pairs : List Equation)

/-- A call comes to an end, with these bindings before and after it and this answer. Nothing limits
how deep calls are nested or how often bindings are followed, but both are finite in all that is
derived by these rules. -/
inductive Halts : Substitution → Call → Substitution → Bool → Prop
  | types {σ τ : Substitution} {a b a' b' : Ty} {ok : Bool} : σ.Follows a a' → σ.Follows b b' →
      Halts σ (.meet a' b') τ ok → Halts σ (.types a b) τ ok
  | traits {σ τ : Substitution} {a b : TraitRef} {ok : Bool} : a.name = b.name →
      Halts σ (.each (List.zipWith Equation.mk a.args b.args)) τ ok → Halts σ (.traits a b) τ ok
  | strangers {σ : Substitution} {a b : TraitRef} : a.name ≠ b.name → Halts σ (.traits a b) σ false
  | args {σ τ : Substitution} {name : String} {as bs : List Ty} {ok : Bool} :
      Halts σ (.each (List.zipWith Equation.mk as bs)) τ ok →
      Halts σ (.meet (.ctor name as) (.ctor name bs)) τ ok
  | clash {σ : Substitution} {f g : String} {as bs : List Ty} : f ≠ g →
      Halts σ (.meet (.ctor f as) (.ctor g bs)) σ false
  | right {σ τ : Substitution} {name : String} {args : List Ty} {y : Int} {label : String}
      {ok : Bool} : Halts σ (.bind y (.ctor name args)) τ ok →
      Halts σ (.meet (.ctor name args) (.var y label)) τ ok
  | left {σ τ : Substitution} {x : Int} {label name : String} {args : List Ty} {ok : Bool} :
      Halts σ (.bind x (.ctor name args)) τ ok →
      Halts σ (.meet (.var x label) (.ctor name args)) τ ok
  | same {σ : Substitution} {x : Int} {label label' : String} :
      Halts σ (.meet (.var x label) (.var x label')) σ true
  | link {σ : Substitution} {x y : Int} {label label' : String} : x ≠ y →
      Halts σ (.meet (.var x label) (.var y label')) (σ.bind x (.var y label')) true
  | bound {σ : Substitution} {x : Int} {value : Ty} : x ∉ value.vars →
      Halts σ (.bind x value) (σ.bind x value) true
  | circular {σ : Substitution} {x : Int} {value : Ty} : x ∈ value.vars →
      Halts σ (.bind x value) σ false
  | done {σ : Substitution} : Halts σ (.each []) σ true
  | next {σ τ υ : Substitution} {pair : Equation} {pairs : List Equation} {ok : Bool} :
      Halts σ (.types pair.left pair.right) τ true → Halts τ (.each pairs) υ ok →
      Halts σ (.each (pair :: pairs)) υ ok
  | stop {σ τ : Substitution} {pair : Equation} {pairs : List Equation} :
      Halts σ (.types pair.left pair.right) τ false → Halts σ (.each (pair :: pairs)) τ false

theorem Substitution.Follows.unique {σ : Substitution} {ty result other : Ty}
    (follows : σ.Follows ty result) (followsToo : σ.Follows ty other) : result = other := by
  induction follows generalizing other with
  | free missing =>
    cases followsToo with
    | free _ => rfl
    | bound found _ => cases missing.symm.trans found
  | bound found _ ih =>
    cases followsToo with
    | free missing => cases missing.symm.trans found
    | bound foundToo rest =>
      cases found.symm.trans foundToo
      exact ih rest
  | ctor _ ih =>
    cases followsToo with
    | ctor each =>
      exact congrArg _ (List.map_congr_left fun arg member => ih arg member (each arg member))

theorem Halts.unique {σ τ υ : Substitution} {call : Call} {ok other : Bool}
    (halts : Halts σ call τ ok) (haltsToo : Halts σ call υ other) : (τ, ok) = (υ, other) := by
  induction halts generalizing υ other with
  | types left right _ ih =>
    cases haltsToo with
    | types left' right' rest =>
      cases left.unique left'
      cases right.unique right'
      exact ih rest
  | traits same _ ih =>
    cases haltsToo with
    | traits _ rest => exact ih rest
    | strangers differ => exact absurd same differ
  | strangers differ =>
    cases haltsToo with
    | traits same _ => exact absurd same differ
    | strangers _ => rfl
  | args _ ih =>
    cases haltsToo with
    | args rest => exact ih rest
    | clash differ => exact absurd rfl differ
  | clash differ =>
    cases haltsToo with
    | args _ => exact absurd rfl differ
    | clash _ => rfl
  | right _ ih =>
    cases haltsToo with
    | right rest => exact ih rest
  | left _ ih =>
    cases haltsToo with
    | left rest => exact ih rest
  | same =>
    cases haltsToo with
    | same => rfl
    | link differ => exact absurd rfl differ
  | link differ =>
    cases haltsToo with
    | same => exact absurd rfl differ
    | link _ => rfl
  | bound absent =>
    cases haltsToo with
    | bound _ => rfl
    | circular occurs => exact absurd occurs absent
  | circular occurs =>
    cases haltsToo with
    | bound absent => exact absurd occurs absent
    | circular _ => rfl
  | done =>
    cases haltsToo with
    | done => rfl
  | next _ _ first rest =>
    cases haltsToo with
    | next first' rest' =>
      cases first first'
      exact rest rest'
    | stop first' => cases first first'
  | stop _ first =>
    cases haltsToo with
    | next first' _ => cases first first'
    | stop first' =>
      cases first first'
      rfl

/-- Where nothing is left to follow, what a call is about is free. -/
def Call.Free (σ : Substitution) : Call → Prop
  | .meet a b => ∀ x, x ∈ a.vars ∨ x ∈ b.vars → x ∉ σ.bound
  | .bind x value => x ∉ σ.bound ∧ ∀ y ∈ value.vars, y ∉ σ.bound
  | _ => True

/-- The substitution has grown, and it has grown as solving makes it grow. -/
structure Substitution.Grown (σ τ : Substitution) : Prop where
  triangular : τ.Triangular
  isPrefix : σ.bindings <+: τ.bindings

theorem Substitution.Triangular.grown_self {σ : Substitution} (triangular : σ.Triangular) :
    σ.Grown σ :=
  ⟨triangular, List.prefix_rfl⟩

theorem Substitution.Triangular.grown_bind {σ : Substitution} (triangular : σ.Triangular) {x : Int}
    {value : Ty} (free : x ∉ σ.bound) (freeValue : ∀ y ∈ value.vars, y ∉ σ.bound)
    (absent : x ∉ value.vars) : σ.Grown (σ.bind x value) :=
  ⟨.bind triangular free freeValue absent, List.prefix_append _ _⟩

theorem Substitution.Grown.trans {σ τ υ : Substitution} (first : σ.Grown τ) (second : τ.Grown υ) :
    σ.Grown υ :=
  ⟨second.triangular, first.isPrefix.trans second.isPrefix⟩

theorem Halts.grown {σ τ : Substitution} {call : Call} {ok : Bool} (halts : Halts σ call τ ok)
    (triangular : σ.Triangular) (free : call.Free σ) : σ.Grown τ := by
  induction halts with
  | types left right _ ih =>
    refine ih triangular fun x occurs => ?_
    rw [triangular.follows_iff.mp left, triangular.follows_iff.mp right] at occurs
    exact occurs.elim triangular.resolve_free triangular.resolve_free
  | traits _ _ ih => exact ih triangular trivial
  | strangers _ => exact triangular.grown_self
  | args _ ih => exact ih triangular trivial
  | clash _ => exact triangular.grown_self
  | right _ ih =>
    exact ih triangular
      ⟨free _ (Or.inr (List.mem_singleton_self _)), fun y occurs => free y (Or.inl occurs)⟩
  | left _ ih =>
    exact ih triangular
      ⟨free _ (Or.inl (List.mem_singleton_self _)), fun y occurs => free y (Or.inr occurs)⟩
  | same => exact triangular.grown_self
  | link differ =>
    exact triangular.grown_bind (free _ (Or.inl (List.mem_singleton_self _)))
      (fun y occurs => free y (Or.inr occurs)) fun occurs => differ (List.mem_singleton.mp occurs)
  | bound absent => exact triangular.grown_bind free.1 free.2 absent
  | circular _ => exact triangular.grown_self
  | done => exact triangular.grown_self
  | next _ _ first rest =>
    have grown := first triangular trivial
    exact grown.trans (rest grown.triangular trivial)
  | stop _ first => exact first triangular trivial

/-- A type that has been resolved before resolves to what it came from. -/
theorem Substitution.Grown.resolve_resolve {σ τ : Substitution} (grown : σ.Grown τ)
    (triangular : σ.Triangular) (ty : Ty) : τ.resolve (σ.resolve ty) = τ.resolve ty := by
  obtain ⟨added, same⟩ := grown.isPrefix
  have split (ty : Ty) : τ.resolve ty = (Substitution.mk added).resolve (σ.resolve ty) := by
    rw [Substitution.resolve, ← same, List.foldl_append]
    rfl
  have settled : σ.resolve (σ.resolve ty) = σ.resolve ty :=
    Substitution.resolve_of_free fun _ => triangular.resolve_free
  rw [split, split, settled]

/-- A call sees of its types only what they resolve to. -/
theorem Halts.of_resolve_eq {σ τ : Substitution} {a b a' b' : Ty} {ok : Bool}
    (halts : Halts σ (.types a b) τ ok) (triangular : σ.Triangular)
    (left : σ.resolve a' = σ.resolve a) (right : σ.resolve b' = σ.resolve b) :
    Halts σ (.types a' b') τ ok := by
  cases halts with
  | types followsA followsB rest =>
    rw [triangular.follows_iff, ← left, ← triangular.follows_iff] at followsA
    rw [triangular.follows_iff, ← right, ← triangular.follows_iff] at followsB
    exact .types followsA followsB rest

theorem Halts.each_of_forall {σ : Substitution} {pairs : List Equation}
    (all : ∀ pair ∈ pairs, Halts σ (.types pair.left pair.right) σ true) :
    Halts σ (.each pairs) σ true := by
  induction pairs with
  | nil => exact .done
  | cons pair pairs ih =>
    refine .next (all pair List.mem_cons_self) (ih fun other member => ?_)
    exact all other (List.mem_cons_of_mem _ member)

theorem Substitution.Triangular.follows_of_free {σ : Substitution} (triangular : σ.Triangular)
    {ty : Ty} (free : ∀ x ∈ ty.vars, x ∉ σ.bound) : σ.Follows ty ty :=
  triangular.follows_iff.mpr (Substitution.resolve_of_free free).symm

theorem Substitution.Triangular.meet_of_agrees {σ : Substitution} (triangular : σ.Triangular)
    {a b : Ty} (agree : a.agrees b = true) (freeA : ∀ x ∈ a.vars, x ∉ σ.bound)
    (freeB : ∀ x ∈ b.vars, x ∉ σ.bound) : Halts σ (.meet a b) σ true := by
  induction a using Ty.ind generalizing b with
  | var x label =>
    cases b with
    | var y label' =>
      cases beq_iff_eq.mp agree
      exact .same
    | ctor name args => cases agree
  | ctor name as ih =>
    cases b with
    | var y label => cases agree
    | ctor other bs =>
      simp only [Ty.agrees, Bool.and_eq_true, beq_iff_eq, Ty.agreeAll_eq_all,
        List.all_eq_true] at agree
      obtain ⟨rfl, pairs⟩ := agree
      refine .args (Halts.each_of_forall fun pair member => ?_)
      have paired := Equation.mem_zipWith_mk.mp member
      have inside := List.of_mem_zip paired
      have freeLeft (x : Int) (occurs : x ∈ pair.left.vars) : x ∉ σ.bound :=
        freeA x (Ty.mem_vars_ctor.mpr ⟨_, inside.1, occurs⟩)
      have freeRight (x : Int) (occurs : x ∈ pair.right.vars) : x ∉ σ.bound :=
        freeB x (Ty.mem_vars_ctor.mpr ⟨_, inside.2, occurs⟩)
      exact .types (triangular.follows_of_free freeLeft) (triangular.follows_of_free freeRight)
        (ih _ inside.1 (pairs _ paired) freeLeft freeRight)

/-- A call on types that agree already binds nothing. -/
theorem Substitution.Triangular.halts_of_agrees {σ : Substitution} (triangular : σ.Triangular)
    {a b : Ty} (agree : (σ.resolve a).agrees (σ.resolve b) = true) :
    Halts σ (.types a b) σ true := by
  refine .types (triangular.follows_iff.mpr rfl) (triangular.follows_iff.mpr rfl) ?_
  exact triangular.meet_of_agrees agree (fun _ => triangular.resolve_free)
    fun _ => triangular.resolve_free

/-- Calls in turn stop in the first part or go on to the second. -/
theorem Halts.split {σ υ : Substitution} {front back : List Equation} {ok : Bool}
    (halts : Halts σ (.each (front ++ back)) υ ok) :
    (∃ τ, Halts σ (.each front) τ true ∧ Halts τ (.each back) υ ok) ∨
      Halts σ (.each front) υ false ∧ ok = false := by
  induction front generalizing σ with
  | nil => exact Or.inl ⟨σ, .done, halts⟩
  | cons pair front ih =>
    cases halts with
    | next first rest =>
      rcases ih rest with ⟨τ, middle, last⟩ | ⟨failed, rfl⟩
      · exact Or.inl ⟨τ, .next first middle, last⟩
      · exact Or.inr ⟨.next first failed, rfl⟩
    | stop first => exact Or.inr ⟨.stop first, rfl⟩

theorem Halts.single {σ υ : Substitution} {pair : Equation} {ok : Bool}
    (halts : Halts σ (.each [pair]) υ ok) : Halts σ (.types pair.left pair.right) υ ok := by
  cases halts with
  | next first rest =>
    cases rest with
    | done => exact first
  | stop first => exact first

/-- Arguments are handed on as they resolved when their call began, and by the time of their turn
bindings may have been added. -/
theorem Halts.each_resolve {σ τ υ : Substitution} {pairs : List (Ty × Ty)} {ok : Bool}
    (halts : Halts τ (.each (pairs.flatMap fun pair => pair.1.equations pair.2)) υ ok)
    (triangular : σ.Triangular) (grown : σ.Grown τ)
    (regroup : ∀ pair ∈ pairs, ∀ {τ υ : Substitution} {ok : Bool}, τ.Triangular →
      Halts τ (.each (pair.1.equations pair.2)) υ ok → Halts τ (.types pair.1 pair.2) υ ok) :
    Halts τ (.each (pairs.map fun pair => ⟨σ.resolve pair.1, σ.resolve pair.2⟩)) υ ok := by
  induction pairs generalizing τ with
  | nil => exact halts
  | cons pair pairs ih =>
    have resolved {υ : Substitution} {ok : Bool} (first : Halts τ (.types pair.1 pair.2) υ ok) :
        Halts τ (.types (σ.resolve pair.1) (σ.resolve pair.2)) υ ok :=
      first.of_resolve_eq grown.triangular (grown.resolve_resolve triangular _)
        (grown.resolve_resolve triangular _)
    rw [List.flatMap_cons] at halts
    rcases halts.split with ⟨middle, front, back⟩ | ⟨failed, rfl⟩
    · have first := regroup pair List.mem_cons_self grown.triangular front
      have further := first.grown grown.triangular trivial
      exact .next (resolved first) (ih back (grown.trans further)
        fun other member => regroup other (List.mem_cons_of_mem _ member))
    · exact .stop (resolved (regroup pair List.mem_cons_self grown.triangular failed))

/-- It makes no difference whether types are taken apart one level at a time or all at once. -/
theorem Halts.of_equations {σ υ : Substitution} {a b : Ty} {ok : Bool}
    (halts : Halts σ (.each (a.equations b)) υ ok) (triangular : σ.Triangular) :
    Halts σ (.types a b) υ ok := by
  induction a using Ty.ind generalizing b σ υ ok with
  | var x label =>
    rcases Ty.equations_cases (.var x label) b with ⟨single, _⟩ |
      ⟨y, _, label', same, rfl, nothing⟩ | ⟨_, _, _, differ, _⟩
    · rw [single] at halts
      exact halts.single
    · cases same
      rw [nothing] at halts
      cases halts
      have alike : (Ty.var x label).Alike (.var x label') := rfl
      exact triangular.halts_of_agrees (σ.resolve_alike alike).agrees
    · cases differ
  | ctor name as ih =>
    rcases Ty.equations_cases (.ctor name as) b with ⟨single, _⟩ | ⟨_, _, _, differ, _⟩ |
      ⟨other, as', bs, same, rfl, parts⟩
    · rw [single] at halts
      exact halts.single
    · cases differ
    · -- One level of calls, on arguments that are resolved before the first of them is made.
      cases same
      rw [parts] at halts
      have inside := halts.each_resolve triangular triangular.grown_self
        fun pair paired _ _ _ later part => ih pair.1 (List.of_mem_zip paired).1 part later
      refine .types (triangular.follows_iff.mpr rfl) (triangular.follows_iff.mpr rfl) ?_
      rw [Substitution.resolve_ctor, Substitution.resolve_ctor]
      refine .args ?_
      rw [List.zipWith_map, ← List.map_uncurry_zip_eq_zipWith]
      exact inside

/-- Calls in turn do nothing before the next equation that is left to solve, and then all that it
was taken out of. -/
theorem Halts.of_next {σ υ : Substitution} {equations others : List Equation} {equation : Equation}
    {ok : Bool} (halts : Halts σ (.each (equation :: others)) υ ok) (triangular : σ.Triangular)
    (next : σ.next? equations = some (equation, others)) : Halts σ (.each equations) υ ok := by
  induction equations with
  | nil => cases next
  | cons head equations ih =>
    rw [Substitution.next?_cons] at next
    split at next
    · rename_i nothing
      exact .next (triangular.halts_of_agrees (Ty.equations_eq_nil_iff.mp nothing)) (ih next)
    · rename_i rest parts
      cases next
      have whole {υ : Substitution} {ok : Bool} (halts : Halts σ (.each (equation :: rest)) υ ok) :
          Halts σ (.types head.left head.right) υ ok := by
        rw [← parts] at halts
        exact (halts.of_equations triangular).of_resolve_eq triangular
          (triangular.grown_self.resolve_resolve triangular _).symm
          (triangular.grown_self.resolve_resolve triangular _).symm
      rw [← List.cons_append] at halts
      rcases halts.split with ⟨τ, front, back⟩ | ⟨failed, rfl⟩
      · exact .next (whole front) back
      · exact .stop (whole failed)

theorem Equation.Reduced.meet_of_bind {σ τ : Substitution} {equation : Equation} {x : Int}
    {value : Ty} {ok : Bool} (reduced : equation.Reduced)
    (found : equation.binding? = some (x, value)) (halts : Halts σ (.bind x value) τ ok) :
    Halts σ (.meet equation.left equation.right) τ ok := by
  obtain ⟨left, right⟩ := equation
  cases left with
  | var y label =>
    cases right with
    | var z label' =>
      cases found
      cases halts with
      | bound _ => exact .link reduced
      | circular occurs => exact absurd (List.mem_singleton.mp occurs) reduced
    | ctor name args =>
      cases found
      exact .left halts
  | ctor name args =>
    cases right with
    | var y label =>
      cases found
      exact .right halts
    | ctor other args' => cases found

theorem Equation.Reduced.meet_of_stuck {σ : Substitution} {equation : Equation}
    (reduced : equation.Reduced) (missing : equation.binding? = none) :
    Halts σ (.meet equation.left equation.right) σ false := by
  obtain ⟨left, right⟩ := equation
  cases left with
  | var x label => cases missing
  | ctor name args =>
    cases right with
    | var y label => cases missing
    | ctor other args' => exact .clash reduced

/-- There is nothing to follow in the next equation. -/
theorem Substitution.Triangular.halts_next {σ τ : Substitution} (triangular : σ.Triangular)
    {equations others : List Equation} {equation : Equation} {ok : Bool}
    (next : σ.next? equations = some (equation, others))
    (meets : equation.Reduced → Halts σ (.meet equation.left equation.right) τ ok) :
    Halts σ (.types equation.left equation.right) τ ok := by
  obtain ⟨⟨whole, _, part⟩, _⟩ := Substitution.next?_origin next
  have free (x : Int) (occurs : x ∈ equation.vars) : x ∉ σ.bound :=
    triangular.free_of_mem_reduce part occurs
  exact .types
    (triangular.follows_of_free fun x occurs => free x (Equation.mem_vars.mpr (Or.inl occurs)))
    (triangular.follows_of_free fun x occurs => free x (Equation.mem_vars.mpr (Or.inr occurs)))
    (meets (Ty.reduced_of_mem_equations part))

theorem Solving.halts {σ τ : Substitution} {equations : List Equation} {ok : Bool}
    (solving : Solving σ equations τ ok) (triangular : σ.Triangular) :
    Halts σ (.each equations) τ ok := by
  induction solving with
  | done finished =>
    refine Halts.each_of_forall fun equation member => triangular.halts_of_agrees ?_
    exact Ty.equations_eq_nil_iff.mp (Substitution.reduce_of_next?_eq_none finished equation member)
  | stuck next missing =>
    have first := triangular.halts_next next fun reduced => reduced.meet_of_stuck missing
    exact Halts.of_next (.stop first) triangular next
  | circular next found occurs =>
    have first := triangular.halts_next next fun reduced =>
      reduced.meet_of_bind found (.circular occurs)
    exact Halts.of_next (.stop first) triangular next
  | bind next found absent _ ih =>
    have first := triangular.halts_next next fun reduced =>
      reduced.meet_of_bind found (.bound absent)
    exact Halts.of_next (.next first (ih (triangular.bind_next next found absent))) triangular next

theorem Substitution.Triangular.halts_unify {σ : Substitution} (triangular : σ.Triangular)
    (a b : Ty) : Halts σ (.types a b) (σ.unify a b).1 (σ.unify a b).2 :=
  ((triangular.solving_extend [⟨a, b⟩]).halts triangular).single

theorem Substitution.Triangular.halts_unifyTraits {σ : Substitution} (triangular : σ.Triangular)
    (a b : TraitRef) : Halts σ (.traits a b) (σ.unifyTraits a b).1 (σ.unifyTraits a b).2 := by
  rw [Substitution.unifyTraits]
  split
  · rename_i same
    exact .traits same ((triangular.solving_extend _).halts triangular)
  · rename_i differ
    exact .strangers differ

theorem Halts.iff_eq {σ : Substitution} {call : Call} {result : Substitution × Bool}
    (halts : Halts σ call result.1 result.2) {τ : Substitution} {ok : Bool} :
    Halts σ call τ ok ↔ result = (τ, ok) := by
  constructor
  · exact fun haltsToo => halts.unique haltsToo
  · rintro rfl
    exact halts

/-- Whatever has been demanded before, met or not, and of types of whatever shape: every call on two
types or on two trait applications comes to an end, each in one way, which is what solving their
equations from a worklist comes to. -/
theorem unification_calls_come_to_an_end (demands : List Demand) :
    let σ := (Substitution.empty.serveAll demands).1
    (∀ a b : Ty, (∃ τ ok, Halts σ (.types a b) τ ok) ∧
      ∀ τ ok, Halts σ (.types a b) τ ok ↔ σ.unify a b = (τ, ok)) ∧
    ∀ a b : TraitRef, (∃ τ ok, Halts σ (.traits a b) τ ok) ∧
      ∀ τ ok, Halts σ (.traits a b) τ ok ↔ σ.unifyTraits a b = (τ, ok) := by
  intro σ
  have triangular : σ.Triangular := Substitution.Triangular.empty.serveAll demands
  refine ⟨fun a b => ?_, fun a b => ?_⟩
  · have halts := triangular.halts_unify a b
    exact ⟨⟨_, _, halts⟩, fun _ _ => halts.iff_eq⟩
  · have halts := triangular.halts_unifyTraits a b
    exact ⟨⟨_, _, halts⟩, fun _ _ => halts.iff_eq⟩

end TraitCoherence
