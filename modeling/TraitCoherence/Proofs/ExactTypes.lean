import TraitCoherence.Proofs.ClosureInstances
import TraitCoherence.Proofs.Labels
import TraitCoherence.Proofs.Stages

namespace TraitCoherence

/-- Every application in a type is of a declared struct and has as many arguments as its declaration
gives it parameters. -/
inductive Ty.Exact (catalog : Catalog) : Ty → Prop
  | var (x : Int) (label : String) : Ty.Exact catalog (.var x label)
  | ctor {name : String} {args : List Ty} {decl : StructDecl} :
      catalog.structs.get? name = some decl → args.length = decl.arity →
      (∀ arg ∈ args, Ty.Exact catalog arg) → Ty.Exact catalog (.ctor name args)

/-- To be exact is to fit all sizes that the declarations leave open. -/
theorem Ty.exact_of_sized {catalog : Catalog} {ty : Ty}
    (sized : ∀ sizes, catalog.Fits sizes → ty.Sized sizes) : ty.Exact catalog := by
  induction ty using Ty.ind with
  | var x label => exact .var x label
  | ctor name args ih =>
    have parts (arg : Ty) (member : arg ∈ args) : arg.Exact catalog :=
      ih arg member fun sizes fits => (Ty.sized_ctor.mp (sized sizes fits)).2 arg member
    cases declared : catalog.structs.get? name with
    | some decl =>
      have length := (Ty.sized_ctor.mp (sized _ catalog.fits_sizes)).1
      exact .ctor declared (length.trans (catalog.fits_sizes name decl declared).symm) parts
    | none =>
      -- Nothing fixes the size of a struct that is not declared, so one more fits as well.
      have other : catalog.Fits (Function.update catalog.sizes name (args.length + 1)) := by
        intro declName decl found
        have differ : declName ≠ name := by
          rintro rfl
          cases declared.symm.trans found
        rw [Function.update_of_ne differ]
        exact catalog.fits_sizes declName decl found
      have length := (Ty.sized_ctor.mp (sized _ other)).1
      rw [Function.update_self] at length
      omega

def Bound.Holds (bound : Bound) (trait : TraitRef) : Prop :=
  trait ∈ bound.positive.members ∨ trait ∈ bound.negative.members

def BoundTable.Holds (bounds : BoundTable) (trait : TraitRef) : Prop :=
  ∃ x bound, (x, some bound) ∈ bounds ∧ bound.Holds trait

def Memo.Holds (memo : Memo) (trait : TraitRef) : Prop :=
  ∃ entry ∈ memo, trait = entry.1 ∨ trait ∈ entry.2.members

/-- The trait applications at hand in a stage, and those that come out of it. -/
def Catalog.HandlesTrait (catalog : Catalog) (trait : TraitRef) : Stage → Prop
  | .trait scope expr => catalog.elaborateTrait scope expr = .ok trait
  | .classify bounds _ => bounds.Holds trait
  | .judge bounds memo _ => bounds.Holds trait ∨ memo.Holds trait
  | .join bounds sofar _ => bounds.Holds trait ∨ sofar.Holds trait
  | .ask memo bound =>
    memo.Holds trait ∨ bound.Holds trait ∨
      ∃ set, (catalog.implied memo bound).2 = .ok set ∧ trait ∈ set.members
  | .gather memo sofar traits => memo.Holds trait ∨ trait ∈ sofar.members ∨ trait ∈ traits
  | .close memo closing =>
    memo.Holds trait ∨ trait = closing ∨ catalog.Supertrait closing trait ∨
      ∃ set, (catalog.closure memo closing).2 = .ok set ∧ trait ∈ set.members
  | _ => False

/-- The types at hand in a stage, and those that come out of it, arguments of traits aside. -/
def Catalog.Shows (catalog : Catalog) (ty : Ty) : Stage → Prop
  | .params scope _ _ => ∃ entry ∈ scope, ty = entry.2
  | .trait scope _ => ∃ entry ∈ scope, ty = entry.2
  | .type scope expr => (∃ entry ∈ scope, ty = entry.2) ∨ catalog.elaborateType scope expr = .ok ty
  | .solve σ equations =>
    (∃ binding ∈ σ.bindings, ty = binding.2) ∨
      ∃ equation ∈ equations, ty = equation.left ∨ ty = equation.right
  | .classify _ σ => ∃ binding ∈ σ.bindings, ty = binding.2
  | .judge _ _ classes => ∃ varClass ∈ classes, varClass.anchor = some ty
  | _ => False

/-- The bindings that a stage can resolve types with. -/
def Stage.bindings : Stage → Substitution
  | .solve σ _ => σ
  | .classify _ σ => σ
  | _ => .empty

/-- The types that a stage may come to look at: those at hand, the arguments of traits at hand, what
they resolve to, and all parts of these. -/
inductive Catalog.Handles (catalog : Catalog) (stage : Stage) : Ty → Prop
  | shown {ty : Ty} : catalog.Shows ty stage → Handles catalog stage ty
  | argument {trait : TraitRef} {arg : Ty} : catalog.HandlesTrait trait stage → arg ∈ trait.args →
      Handles catalog stage arg
  | part {name : String} {args : List Ty} {arg : Ty} : Handles catalog stage (.ctor name args) →
      arg ∈ args → Handles catalog stage arg
  | resolved {ty : Ty} : Handles catalog stage ty → Handles catalog stage (stage.bindings.resolve ty)

theorem Bound.Sized.of_holds {sizes : String → Nat} {bound : Bound} {trait : TraitRef}
    (sized : bound.Sized sizes) (holds : bound.Holds trait) : trait.Sized sizes :=
  holds.elim (sized.1 trait) (sized.2 trait)

theorem BoundTable.Sized.of_holds {sizes : String → Nat} {bounds : BoundTable} {trait : TraitRef}
    (sized : bounds.Sized sizes) (holds : bounds.Holds trait) : trait.Sized sizes := by
  obtain ⟨x, bound, member, holds⟩ := holds
  exact (sized x bound member).of_holds holds

theorem Memo.Sound.of_holds {catalog : Catalog} {sizes : String → Nat} {memo : Memo}
    {trait : TraitRef} (sound : memo.Sound catalog sizes) (holds : memo.Holds trait) :
    trait.Sized sizes := by
  obtain ⟨entry, member, rfl | inside⟩ := holds
  · exact (sound entry member).1
  · exact (sound entry member).2.sized trait inside

section

variable {catalog : Catalog} {sizes : String → Nat} (fits : catalog.Fits sizes) {stage : Stage}
  (fit : stage.Fit catalog sizes)

include fits fit

theorem Catalog.Fits.handlesTrait {trait : TraitRef} (handles : catalog.HandlesTrait trait stage) :
    trait.Sized sizes := by
  cases stage with
  | trait scope expr => exact fits.elaborateTrait fit handles
  | classify bounds σ => exact fit.1.of_holds handles
  | judge bounds memo classes => exact handles.elim fit.1.of_holds fit.2.1.of_holds
  | join bounds sofar members => exact handles.elim fit.1.of_holds fit.2.1.of_holds
  | ask memo bound =>
    rcases handles with known | held | ⟨set, implied, member⟩
    · exact fit.1.of_holds known
    · exact fit.2.of_holds held
    · exact ((fits.implied fit.1 fit.2).2 set implied).1 trait member
  | gather memo sofar traits =>
    rcases handles with known | member | member
    · exact fit.1.of_holds known
    · exact fit.2.1 trait member
    · exact fit.2.2 trait member
  | close memo closing =>
    rcases handles with known | rfl | above | ⟨set, closed, member⟩
    · exact fit.1.of_holds known
    · exact fit.2
    · exact fits.supertrait fit.2 above
    · exact ((fits.closure memo closing fit.1 fit.2).2 set closed).sized trait member
  | _ => cases handles

theorem Catalog.Fits.shows {ty : Ty} (shows : catalog.Shows ty stage) : ty.Sized sizes := by
  cases stage with
  | params scope _ _ =>
    obtain ⟨entry, member, rfl⟩ := shows
    exact fit entry member
  | trait scope _ =>
    obtain ⟨entry, member, rfl⟩ := shows
    exact fit entry member
  | type scope expr =>
    rcases shows with ⟨entry, member, rfl⟩ | elaborated
    · exact fit entry member
    · exact fits.elaborateType fit elaborated
  | solve σ equations =>
    obtain ⟨_, sized, each⟩ := fit
    rcases shows with ⟨binding, member, rfl⟩ | ⟨equation, member, rfl | rfl⟩
    · exact sized binding member
    · exact (each equation member).1
    · exact (each equation member).2
  | classify bounds σ =>
    obtain ⟨binding, member, rfl⟩ := shows
    exact fit.2.2.1 binding member
  | judge bounds memo classes =>
    obtain ⟨varClass, member, anchored⟩ := shows
    exact fit.2.2.1 varClass member ty anchored
  | _ => cases shows

end

theorem Stage.Fit.bindings_sized {catalog : Catalog} {sizes : String → Nat} {stage : Stage}
    (fit : stage.Fit catalog sizes) : stage.bindings.Sized sizes := by
  have nothing : Substitution.empty.Sized sizes := fun _ member => absurd member List.not_mem_nil
  cases stage with
  | solve σ equations => exact fit.2.1
  | classify bounds σ => exact fit.2.2.1
  | _ => exact nothing

theorem Catalog.Fits.handles {catalog : Catalog} {sizes : String → Nat} (fits : catalog.Fits sizes)
    {stage : Stage} (fit : stage.Fit catalog sizes) {ty : Ty} (handles : catalog.Handles stage ty) :
    ty.Sized sizes := by
  induction handles with
  | shown shows => exact fits.shows fit shows
  | argument handles member => exact fits.handlesTrait fit handles _ member
  | part _ member ih => exact (Ty.sized_ctor.mp ih).2 _ member
  | resolved _ ih => exact fit.bindings_sized.resolve ih

/-- A type that a comparison of two impls comes to look at. -/
def Catalog.Occurs (catalog : Catalog) (first second : ImplDecl) (ty : Ty) : Prop :=
  catalog.ComesTo (.compare first second) fun stage => catalog.Handles stage ty

/-- A trait application that a comparison of two impls comes to look at. -/
def Catalog.OccursTrait (catalog : Catalog) (first second : ImplDecl) (trait : TraitRef) : Prop :=
  catalog.ComesTo (.compare first second) (catalog.HandlesTrait trait)

theorem Catalog.Fits.occurs {catalog : Catalog} {sizes : String → Nat} (fits : catalog.Fits sizes)
    {first second : ImplDecl} {ty : Ty} (occurs : catalog.Occurs first second ty) :
    ty.Sized sizes := by
  obtain ⟨stage, reaches, handles⟩ := occurs
  exact fits.handles (fits.reaches reaches) handles

theorem Catalog.Fits.occursTrait {catalog : Catalog} {sizes : String → Nat}
    (fits : catalog.Fits sizes) {first second : ImplDecl} {trait : TraitRef}
    (occurs : catalog.OccursTrait first second trait) : trait.Sized sizes := by
  obtain ⟨stage, reaches, handles⟩ := occurs
  exact fits.handlesTrait (fits.reaches reaches) handles

theorem Catalog.elaborateParam_comesTo {catalog : Catalog} {scope : Scope} {param : Param}
    {bound : Bound} (elaborated : catalog.elaborateParam scope param = .ok (some bound))
    {trait : TraitRef} (holds : bound.Holds trait) (next : Int) (params : List Param) :
    catalog.ComesTo (.params scope next (param :: params)) (catalog.HandlesTrait trait) := by
  obtain ⟨written, declared, right⟩ := Catalog.elaborateParam_ok elaborated
  obtain ⟨positive, negative, demanded, forbidden, rfl⟩ := Catalog.elaborateBound_ok right
  have handled {expr : TypeExpr} (elaborated : catalog.elaborateTrait scope expr = .ok trait) :
      catalog.ComesTo (.trait scope expr) (catalog.HandlesTrait trait) :=
    Catalog.comesTo_self elaborated
  rcases holds with member | member
  · obtain ⟨expr, inside, same⟩ :=
      Catalog.elaborateTraits_ok demanded trait (TraitSet.mem_of_mem_ofList member)
    exact (handled same).enter (.term declared (List.mem_append_left _ inside))
  · obtain ⟨expr, inside, same⟩ :=
      Catalog.elaborateTraits_ok forbidden trait (TraitSet.mem_of_mem_ofList member)
    exact (handled same).enter (.term declared (List.mem_append_right _ inside))

theorem Catalog.elaborateParams_comesTo {catalog : Catalog} {scope inner : Scope}
    {next after : Int} {params : List Param} {bounds : BoundTable}
    (elaborated : catalog.elaborateParams scope next params = (after, .ok (inner, bounds)))
    {trait : TraitRef} (holds : bounds.Holds trait) :
    catalog.ComesTo (.params scope next params) (catalog.HandlesTrait trait) := by
  induction params generalizing scope next bounds with
  | nil =>
    cases elaborated
    obtain ⟨_, _, member, _⟩ := holds
    exact absurd member List.not_mem_nil
  | cons param params ih =>
    obtain ⟨first, rest, here, later, rfl⟩ := Catalog.elaborateParams_cons_ok elaborated
    obtain ⟨x, bound, member, held⟩ := holds
    rcases List.mem_cons.mp member with same | inside
    · cases same
      exact Catalog.elaborateParam_comesTo here held next params
    · exact (ih later ⟨x, bound, inside, held⟩).enter (.param here)

/-- Elaboration comes by all that there is in its result. -/
theorem Catalog.elaborateImpl_comesTo {catalog : Catalog} {next after : Int} {decl : ImplDecl}
    {scheme : ImplScheme} (elaborated : catalog.elaborateImpl next decl = (after, .ok scheme)) :
    catalog.ComesTo (.impl next decl) (catalog.HandlesTrait scheme.trait) ∧
      catalog.ComesTo (.impl next decl) (fun stage => catalog.Handles stage scheme.target) ∧
      ∀ trait, scheme.bounds.Holds trait →
        catalog.ComesTo (.impl next decl) (catalog.HandlesTrait trait) := by
  obtain ⟨scope, params, head, body⟩ := Catalog.elaborateImpl_ok elaborated
  have trait : catalog.ComesTo (.trait scope decl.head) (catalog.HandlesTrait scheme.trait) :=
    Catalog.comesTo_self head
  have target : catalog.ComesTo (.type scope decl.target)
      (fun stage => catalog.Handles stage scheme.target) :=
    Catalog.comesTo_self (.shown (Or.inr body))
  exact ⟨trait.enter (.head params), target.enter (.target params),
    fun trait holds => (Catalog.elaborateParams_comesTo params holds).enter .params⟩

/-- Types that agree, among these, cannot be told apart: agreement is an equivalence, it passes to
applications and back to their arguments, it sees all variables, and it stays when types that agree
are put in for variables. -/
structure Ty.Congruence (among : Ty → Prop) : Prop extends EquivalenceAmong Ty.agrees among where
  application : ∀ name as bs, List.Forall₂ (fun a b => a.agrees b = true) as bs →
    (Ty.ctor name as).agrees (.ctor name bs) = true
  arguments : ∀ f g as bs, among (.ctor f as) → among (.ctor g bs) →
    (Ty.ctor f as).agrees (.ctor g bs) = true →
    f = g ∧ List.Forall₂ (fun a b => a.agrees b = true) as bs
  vars : ∀ a b, among a → among b → a.agrees b = true → a.vars = b.vars
  instantiate : ∀ a b, among a → among b → a.agrees b = true → ∀ θ θ' : Int → Ty,
    (∀ x, (θ x).agrees (θ' x) = true) → (a.instantiate θ).agrees (b.instantiate θ') = true

theorem Ty.agrees_ctor_of_forall₂ {name : String} {as bs : List Ty}
    (each : List.Forall₂ (fun a b => a.agrees b = true) as bs) :
    (Ty.ctor name as).agrees (.ctor name bs) = true := by
  rw [Ty.agrees, beq_self_eq_true, Bool.true_and, Ty.agreeAll_eq_all, List.all_eq_true]
  exact fun pair member => (List.forall₂_iff_zip.mp each).2 member

theorem Ty.agrees_instantiate {θ θ' : Int → Ty} (same : ∀ x, (θ x).agrees (θ' x) = true) (ty : Ty) :
    (ty.instantiate θ).agrees (ty.instantiate θ') = true := by
  induction ty using Ty.ind with
  | var x label => exact same x
  | ctor name args ih =>
    rw [Ty.instantiate_ctor, Ty.instantiate_ctor]
    refine Ty.agrees_ctor_of_forall₂ (List.forall₂_map_left_iff.mpr (List.forall₂_map_right_iff.mpr ?_))
    exact List.forall₂_same.mpr ih

theorem Ty.congruence_of_sized {sizes : String → Nat} {among : Ty → Prop}
    (sized : ∀ ty, among ty → ty.Sized sizes) : Ty.Congruence among := by
  have alike {a b : Ty} (amongA : among a) (amongB : among b) : a.agrees b = true ↔ a.Alike b :=
    (sized a amongA).agrees_iff_alike (sized b amongB)
  refine ⟨.of_image Ty.unlabeled fun a b => alike, fun _ _ _ => Ty.agrees_ctor_of_forall₂, ?_, ?_, ?_⟩
  · intro f g as bs left right agree
    have same := (alike left right).mp agree
    rw [Ty.Alike, Ty.unlabeled_ctor, Ty.unlabeled_ctor, Ty.ctor.injEq, map_eq_map_iff_zip] at same
    obtain ⟨names, length, pairs⟩ := same
    exact ⟨names, List.forall₂_iff_zip.mpr ⟨length, fun member => Ty.Alike.agrees (pairs _ member)⟩⟩
  · intro a b left right agree
    rw [← Ty.vars_unlabeled a, ← Ty.vars_unlabeled b, (alike left right).mp agree]
  · intro a b left right agree θ θ' same
    rw [((alike left right).mp agree).instantiate_eq]
    exact Ty.agrees_instantiate same b

/-- Every application that a comparison comes to look at, in heads, targets and bounds, in bindings and
what they resolve to, in supertraits and closures, has the declared number of arguments. So agreement,
which looks no further than the shorter list of arguments goes, is there nothing but equality up to
labels. In general it is not even transitive, and types that agree need not have the same
variables. -/
theorem agreement_is_equality_in_comparisons (catalog : Catalog) (first second : ImplDecl) :
    (∀ ty, catalog.Occurs first second ty → ty.Exact catalog) ∧
    (∀ trait, catalog.OccursTrait first second trait → ∀ arg ∈ trait.args,
      catalog.Occurs first second arg) ∧
    (∀ left right, catalog.elaboratePair first second = .ok (left, right) →
      (∀ scheme ∈ [left, right], catalog.OccursTrait first second scheme.trait ∧
        catalog.Occurs first second scheme.target ∧
        ∀ trait, scheme.bounds.Holds trait → catalog.OccursTrait first second trait) ∧
      ∀ σ, unifySchemes left right = some σ → ∀ binding ∈ σ.bindings,
        catalog.Occurs first second binding.2) ∧
    (∀ a b, catalog.Occurs first second a → catalog.Occurs first second b →
      (a.agrees b = true ↔ a.Alike b)) ∧
    (∀ a b, catalog.OccursTrait first second a → catalog.OccursTrait first second b →
      (a.agrees b = true ↔ a.Alike b)) ∧
    Ty.Congruence (catalog.Occurs first second) ∧
    EquivalenceAmong TraitRef.agrees (catalog.OccursTrait first second) ∧
    (∃ a b c : Ty, a.agrees b = true ∧ b.agrees c = true ∧ a.agrees c = false) ∧
    (∃ a b c : TraitRef, a.agrees b = true ∧ b.agrees c = true ∧ a.agrees c = false) ∧
    ∃ a b : Ty, a.agrees b = true ∧ a.vars ≠ b.vars := by
  have fits := catalog.fits_sizes
  have traits (a b : TraitRef) (left : catalog.OccursTrait first second a)
      (right : catalog.OccursTrait first second b) : a.agrees b = true ↔ a.Alike b :=
    (fits.occursTrait left).agrees_iff_alike (fits.occursTrait right)
  refine ⟨fun ty occurs => Ty.exact_of_sized fun sizes fits => fits.occurs occurs, ?_, ?_, ?_, traits,
    Ty.congruence_of_sized fun ty => fits.occurs, .of_image TraitRef.unlabeled traits, ?_, ?_, ?_⟩
  · rintro trait ⟨stage, reaches, handles⟩ arg member
    exact ⟨stage, reaches, .argument handles member⟩
  · intro left right elaborated
    obtain ⟨here, after, there⟩ := Catalog.elaboratePair_ok elaborated
    refine ⟨List.forall_mem_cons.mpr ⟨?_, List.forall_mem_singleton.mpr ?_⟩, ?_⟩
    · obtain ⟨head, target, bounds⟩ := Catalog.elaborateImpl_comesTo here
      exact ⟨head.enter .first, target.enter .first, fun trait holds => (bounds trait holds).enter .first⟩
    · obtain ⟨head, target, bounds⟩ := Catalog.elaborateImpl_comesTo there
      exact ⟨head.enter (.second here), target.enter (.second here),
        fun trait holds => (bounds trait holds).enter (.second here)⟩
    · intro σ unified binding member
      exact ⟨_, .single (.unified elaborated unified), .shown ⟨binding, member, rfl⟩⟩
  · exact fun a b left right => (fits.occurs left).agrees_iff_alike (fits.occurs right)
  · exact ⟨.ctor "F" [.ctor "A" []], .ctor "F" [], .ctor "F" [.ctor "B" []], rfl, rfl, rfl⟩
  · exact ⟨⟨"T", [.ctor "F" [.ctor "A" []]]⟩, ⟨"T", [.ctor "F" []]⟩,
      ⟨"T", [.ctor "F" [.ctor "B" []]]⟩, rfl, rfl, rfl⟩
  · exact ⟨.ctor "F" [.var 0 "X"], .ctor "F" [], rfl, List.cons_ne_nil _ _⟩

/-- `impl<P, Q: Both<Vec<P>, P>> Show<Vec<P>> for Q {}`, for any two names. -/
def bothImpl (p q : String) : ImplDecl :=
  let param : TypeExpr := .apply (.placeless p) []
  let vec : TypeExpr := .apply (.placeless "Vec") [param]
  ⟨[.ofTerms p [] [], .ofTerms q [.apply (.placeless "Both") [vec, param]] []],
    .apply (.placeless "Show") [vec], .apply (.placeless q) []⟩

/-- The closure of `Both<Vec<P>, P>` is asked for, which comes to `Show<Vec<P>>`. Both impls have a
`Vec`, and these differ. -/
theorem both_impls_compare_exact_types :
    let reaches := bothCatalog.Reaches (bothImpl "P" "Q") (bothImpl "R" "S")
    let occurs := bothCatalog.Occurs (bothImpl "P" "Q") (bothImpl "R" "S")
    let vecP : Ty := .ctor "Vec" [.var 0 "P"]
    let vecR : Ty := .ctor "Vec" [.var 2 "R"]
    reaches (.close [] ⟨"Both", [vecP, .var 0 "P"]⟩) ∧
      bothCatalog.OccursTrait (bothImpl "P" "Q") (bothImpl "R" "S") ⟨"Show", [vecP]⟩ ∧
      occurs vecP ∧ vecP.Exact bothCatalog ∧ occurs vecR ∧ vecR.Exact bothCatalog ∧
      vecP.agrees vecR = false ∧ ¬ vecP.Alike vecR := by
  intro reaches occurs vecP vecR
  obtain ⟨exactness, arguments, schemes, types, _⟩ := agreement_is_equality_in_comparisons bothCatalog
    (bothImpl "P" "Q") (bothImpl "R" "S")
  let demand (vec param : Ty) : TraitSet := .singleton ⟨"Both", [vec, param]⟩
  let left : ImplScheme := ⟨⟨"Show", [vecP]⟩, .var 1 "Q",
    [(0, none), (1, some ⟨demand vecP (.var 0 "P"), .empty⟩)]⟩
  let right : ImplScheme := ⟨⟨"Show", [vecR]⟩, .var 3 "S",
    [(2, none), (3, some ⟨demand vecR (.var 2 "R"), .empty⟩)]⟩
  have elaborated : bothCatalog.elaboratePair (bothImpl "P" "Q") (bothImpl "R" "S") =
      .ok (left, right) := rfl
  have unified : unifySchemes left right = some ⟨[(0, .var 2 "R"), (1, .var 3 "S")]⟩ := rfl
  have judged : reaches
      (.judge (left.bounds ++ right.bounds) [] [⟨[0, 2], none⟩, ⟨[1, 3], none⟩]) :=
    .tail (.single (.unified elaborated unified)) .classes
  have asked : reaches (.ask []
      ⟨(demand vecP (.var 0 "P")).union (demand vecR (.var 2 "R")), .empty⟩) :=
    (judged.tail (.unbounded rfl)).tail (.joined rfl)
  have closing : reaches (.close [] ⟨"Both", [vecP, .var 0 "P"]⟩) :=
    (asked.tail .implied).tail .close
  have shown : bothCatalog.OccursTrait (bothImpl "P" "Q") (bothImpl "R" "S") ⟨"Show", [vecP]⟩ :=
    ⟨_, closing, Or.inr (Or.inr (Or.inl ⟨_, rfl, List.mem_cons_self⟩))⟩
  have first : occurs vecP := arguments _ shown vecP (List.mem_singleton_self _)
  have head := ((schemes left right elaborated).1 right (List.mem_cons_of_mem _ List.mem_cons_self)).1
  have second : occurs vecR := arguments _ head vecR (List.mem_singleton_self _)
  have differ : vecP.agrees vecR = false := rfl
  refine ⟨closing, shown, first, exactness _ first, second, exactness _ second, differ, fun alike => ?_⟩
  have agree := (types vecP vecR first second).mpr alike
  rw [differ] at agree
  cases agree

end TraitCoherence
