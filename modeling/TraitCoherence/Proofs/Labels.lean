import Mathlib.Data.List.Forall2
import TraitCoherence.Verdict
import TraitCoherence.Proofs.Equations
import TraitCoherence.Proofs.TraitSets

namespace TraitCoherence

theorem TraitRef.Alike.agrees_eq {a b c d : TraitRef} (first : a.Alike b) (second : c.Alike d) :
    a.agrees c = b.agrees d := by
  have unlabeled (a b : TraitRef) : a.unlabeled.agrees b.unlabeled = a.agrees b :=
    TraitRef.agrees_rename (fun _ _ same => same) (fun _ => "") a b
  rw [← unlabeled a c, first, second, unlabeled b d]

theorem exists_of_rel_some {α β : Type} {same : α → β → Prop} {a : α} {other : Option β}
    (related : Option.Rel same (some a) other) : ∃ b, other = some b ∧ same a b := by
  cases related with
  | some holds => exact ⟨_, rfl, holds⟩

theorem eq_none_of_rel_none {α β : Type} {same : α → β → Prop} {other : Option β}
    (related : Option.Rel same none other) : other = none := by
  cases related
  rfl

/-- Sets are alike when their members are, one by one. -/
def TraitSet.Alike (left right : TraitSet) : Prop :=
  List.Forall₂ TraitRef.Alike left.members right.members

theorem any_agrees_eq {traits others : List TraitRef}
    (alike : List.Forall₂ TraitRef.Alike traits others) {trait other : TraitRef}
    (same : trait.Alike other) : traits.any (·.agrees trait) = others.any (·.agrees other) := by
  induction alike with
  | nil => rfl
  | cons head _ ih => rw [List.any_cons, List.any_cons, head.agrees_eq same, ih]

theorem TraitSet.Alike.insert {left right : TraitSet} (alike : left.Alike right)
    {trait other : TraitRef} (same : trait.Alike other) :
    (left.insert trait).Alike (right.insert other) := by
  simp only [TraitSet.Alike, TraitSet.insert, addNew, any_agrees_eq alike same]
  split
  · exact alike
  · exact List.rel_append alike (.cons same .nil)

theorem TraitSet.Alike.foldl_insert {left right : TraitSet} (alike : left.Alike right)
    {traits others : List TraitRef} (each : List.Forall₂ TraitRef.Alike traits others) :
    (traits.foldl TraitSet.insert left).Alike (others.foldl TraitSet.insert right) := by
  induction each generalizing left right with
  | nil => exact alike
  | cons head _ ih => exact ih (alike.insert head)

theorem TraitSet.Alike.union {left right other otherToo : TraitSet} (first : left.Alike right)
    (second : other.Alike otherToo) : (left.union other).Alike (right.union otherToo) :=
  first.foldl_insert second

theorem TraitSet.Alike.ofList {traits others : List TraitRef}
    (each : List.Forall₂ TraitRef.Alike traits others) :
    (TraitSet.ofList traits).Alike (TraitSet.ofList others) := by
  have empty : TraitSet.empty.Alike TraitSet.empty := List.Forall₂.nil
  exact empty.foldl_insert each

theorem TraitSet.Alike.meets_eq {left right other otherToo : TraitSet} (first : left.Alike right)
    (second : other.Alike otherToo) : left.meets other = right.meets otherToo := by
  have each {traits others : List TraitRef} (alike : List.Forall₂ TraitRef.Alike traits others) :
      traits.any other.contains = others.any otherToo.contains := by
    induction alike with
    | nil => rfl
    | cons head _ ih =>
      rw [List.any_cons, List.any_cons, ih, TraitSet.contains, TraitSet.contains,
        any_agrees_eq second head]
  exact each first

/-- Bounds are alike when what they demand and what they forbid is. -/
structure Bound.Alike (left right : Bound) : Prop where
  positive : left.positive.Alike right.positive
  negative : left.negative.Alike right.negative

theorem Bound.Alike.join {left right other otherToo : Bound} (first : left.Alike right)
    (second : other.Alike otherToo) : (left.join other).Alike (right.join otherToo) :=
  ⟨first.positive.union second.positive, first.negative.union second.negative⟩

/-- The same variables with bounds that are alike. -/
def BoundTable.Alike (left right : BoundTable) : Prop :=
  List.Forall₂ (fun a b => a.1 = b.1 ∧ Option.Rel Bound.Alike a.2 b.2) left right

theorem BoundTable.Alike.lookup {left right : BoundTable} (alike : left.Alike right) (x : Int) :
    Option.Rel (Option.Rel Bound.Alike) (left.lookup x) (right.lookup x) := by
  induction alike with
  | nil => exact .none
  | @cons a b _ _ head _ ih =>
    rw [List.lookup_cons, List.lookup_cons, head.1]
    cases x == b.1 with
    | true => exact .some head.2
    | false => exact ih

/-- The same outcome of joining, with bounds that are alike. -/
inductive Joined.Alike : Joined → Joined → Prop
  | bound {left right : Bound} : left.Alike right → Alike (.bound left) (.bound right)
  | unbounded : Alike .unbounded .unbounded
  | missing (x : Int) : Alike (.missing x) (.missing x)

theorem BoundTable.Alike.joinBounds {left right : BoundTable} (alike : left.Alike right)
    {sofar other : Bound} (same : sofar.Alike other) (members : List Int) :
    (TraitCoherence.joinBounds left sofar members).Alike
      (TraitCoherence.joinBounds right other members) := by
  induction members generalizing sofar other with
  | nil => exact .bound same
  | cons x members ih =>
    have found := alike.lookup x
    rw [TraitCoherence.joinBounds, TraitCoherence.joinBounds]
    generalize left.lookup x = here at found ⊢
    generalize right.lookup x = there at found ⊢
    cases found with
    | none => exact .missing x
    | some entry =>
      cases entry with
      | none => exact .unbounded
      | some bound => exact ih (same.join bound)

/-- The same closures for the same trait applications, labels aside. -/
def Memo.Alike (left right : Memo) : Prop :=
  List.Forall₂ (fun a b => a.1.Alike b.1 ∧ a.2.Alike b.2) left right

theorem Memo.Alike.get? {left right : Memo} (alike : left.Alike right) {trait other : TraitRef}
    (same : trait.Alike other) : Option.Rel TraitSet.Alike (left.get? trait) (right.get? other) := by
  induction alike with
  | nil => exact .none
  | @cons a b _ _ head _ ih =>
    rw [Memo.get?, Memo.get?, List.find?_cons, List.find?_cons, head.1.agrees_eq same]
    cases b.1.agrees other with
    | true => exact .some head.2
    | false => exact ih

@[simp] theorem Ty.vars_unlabeled (ty : Ty) : ty.unlabeled.vars = ty.vars := by
  induction ty using Ty.ind with
  | var x label => rfl
  | ctor name args ih =>
    rw [Ty.unlabeled_ctor, Ty.vars, Ty.vars, Ty.varsAll_eq_flatMap, Ty.varsAll_eq_flatMap,
      List.flatMap_map]
    exact List.flatMap_congr ih

theorem Ty.replace_unlabeled (ty : Ty) (x : Int) (value : Ty) :
    ty.unlabeled.replace x value.unlabeled = (ty.replace x value).unlabeled := by
  induction ty using Ty.ind with
  | var y label =>
    rw [Ty.unlabeled_var, Ty.replace, Ty.replace]
    split <;> rfl
  | ctor name args ih =>
    rw [Ty.unlabeled_ctor, Ty.replace, Ty.replace, Ty.unlabeled_ctor, Ty.replaceAll_eq_map,
      Ty.replaceAll_eq_map, List.map_map, List.map_map]
    exact congrArg _ (List.map_congr_left ih)

def Equation.unlabeled (equation : Equation) : Equation :=
  ⟨equation.left.unlabeled, equation.right.unlabeled⟩

/-- The bindings with the labels of their values forgotten. -/
def Substitution.unlabeled (σ : Substitution) : Substitution :=
  ⟨σ.bindings.map fun binding => (binding.1, binding.2.unlabeled)⟩

theorem Substitution.resolve_unlabeled (σ : Substitution) (ty : Ty) :
    σ.unlabeled.resolve ty.unlabeled = (σ.resolve ty).unlabeled := by
  obtain ⟨bindings⟩ := σ
  simp only [Substitution.resolve, Substitution.unlabeled, List.foldl_map]
  induction bindings generalizing ty with
  | nil => rfl
  | cons binding bindings ih => rw [List.foldl_cons, List.foldl_cons, Ty.replace_unlabeled, ih]

theorem Ty.equations_unlabeled (a b : Ty) :
    a.unlabeled.equations b.unlabeled = (a.equations b).map Equation.unlabeled := by
  induction a using Ty.ind generalizing b with
  | var x label =>
    cases b with
    | var y other =>
      rw [Ty.unlabeled_var, Ty.unlabeled_var, Ty.equations, Ty.equations]
      split <;> rfl
    | ctor name args =>
      simp only [Ty.unlabeled_var, Ty.unlabeled_ctor, Ty.equations, Equation.unlabeled, List.map_cons,
        List.map_nil]
  | ctor name args ih =>
    cases b with
    | var y other =>
      simp only [Ty.unlabeled_var, Ty.unlabeled_ctor, Ty.equations, Equation.unlabeled, List.map_cons,
        List.map_nil]
    | ctor other others =>
      rw [Ty.unlabeled_ctor, Ty.unlabeled_ctor, Ty.equations, Ty.equations]
      split
      · rw [Ty.equationsAll_eq_flatMap, Ty.equationsAll_eq_flatMap, List.zip_map, List.flatMap_map,
          List.map_flatMap]
        exact List.flatMap_congr fun pair member => ih pair.1 (List.of_mem_zip member).1 pair.2
      · simp only [Equation.unlabeled, Ty.unlabeled_ctor, List.map_cons, List.map_nil]

theorem Equation.binding?_unlabeled (equation : Equation) :
    equation.unlabeled.binding? =
      equation.binding?.map fun binding => (binding.1, binding.2.unlabeled) := by
  obtain ⟨left, right⟩ := equation
  cases left with
  | var x label => rfl
  | ctor name args => cases right <;> rfl

theorem Substitution.next?_unlabeled (σ : Substitution) (equations : List Equation) :
    σ.unlabeled.next? (equations.map Equation.unlabeled) =
      (σ.next? equations).map fun next => (next.1.unlabeled, next.2.map Equation.unlabeled) := by
  induction equations with
  | nil => rfl
  | cons equation others ih =>
    rw [List.map_cons, Substitution.next?, Substitution.next?, Equation.unlabeled,
      σ.resolve_unlabeled, σ.resolve_unlabeled, Ty.equations_unlabeled]
    cases (σ.resolve equation.left).equations (σ.resolve equation.right) with
    | nil => exact ih
    | cons first rest => rw [List.map_cons, Option.map_some, List.map_append]

theorem Substitution.bind_unlabeled (σ : Substitution) (x : Int) (value : Ty) :
    σ.unlabeled.bind x value.unlabeled = (σ.bind x value).unlabeled := by
  simp only [Substitution.bind, Substitution.unlabeled, List.map_append, List.map_cons, List.map_nil]

/-- One binding after the other is the same, labels aside. -/
theorem Substitution.solve_unlabeled (σ : Substitution) (fuel : Nat) (equations : List Equation) :
    σ.unlabeled.solve fuel (equations.map Equation.unlabeled) =
      ((σ.solve fuel equations).1.unlabeled, (σ.solve fuel equations).2) := by
  induction fuel generalizing σ equations with
  | zero =>
    rw [Substitution.solve, Substitution.solve, σ.next?_unlabeled]
    cases σ.next? equations <;> rfl
  | succ fuel ih =>
    rw [Substitution.solve, Substitution.solve, σ.next?_unlabeled]
    cases σ.next? equations with
    | none => rfl
    | some next =>
      obtain ⟨equation, others⟩ := next
      simp only [Option.map_some, Equation.binding?_unlabeled]
      cases equation.binding? with
      | none => rfl
      | some binding =>
        obtain ⟨x, value⟩ := binding
        simp only [Option.map_some, Ty.mentions, Ty.vars_unlabeled, σ.bind_unlabeled, ih]
        by_cases occurs : value.vars.contains x = true
        · simp only [occurs, if_true]
        · simp only [occurs]
          rfl

theorem Substitution.extend_unlabeled (σ : Substitution) (equations : List Equation) :
    σ.unlabeled.extend (equations.map Equation.unlabeled) =
      ((σ.extend equations).1.unlabeled, (σ.extend equations).2) := by
  have values : σ.unlabeled.valueVars = σ.valueVars := by
    simp only [Substitution.valueVars, Substitution.unlabeled, List.flatMap_map, Ty.vars_unlabeled]
  have vars : (equations.map Equation.unlabeled).flatMap Equation.vars =
      equations.flatMap Equation.vars := by
    rw [List.flatMap_map]
    refine List.flatMap_congr fun equation _ => ?_
    rw [Equation.vars, Equation.unlabeled, Ty.vars_unlabeled, Ty.vars_unlabeled, Equation.vars]
  rw [Substitution.extend, values, vars, σ.solve_unlabeled, Substitution.extend]

theorem Substitution.unify_unlabeled (σ : Substitution) (a b : Ty) :
    σ.unlabeled.unify a.unlabeled b.unlabeled = ((σ.unify a b).1.unlabeled, (σ.unify a b).2) :=
  σ.extend_unlabeled [⟨a, b⟩]

theorem Substitution.unifyTraits_unlabeled (σ : Substitution) (a b : TraitRef) :
    σ.unlabeled.unifyTraits a.unlabeled b.unlabeled =
      ((σ.unifyTraits a b).1.unlabeled, (σ.unifyTraits a b).2) := by
  have paired : List.zipWith Equation.mk a.unlabeled.args b.unlabeled.args =
      (List.zipWith Equation.mk a.args b.args).map Equation.unlabeled := by
    rw [List.map_zipWith]
    exact List.zipWith_map
  have names : (a.unlabeled.name = b.unlabeled.name) = (a.name = b.name) := rfl
  simp only [Substitution.unifyTraits, names, paired, σ.extend_unlabeled]
  split <;> rfl

/-- Elaborated impls that differ at most in what their variables are called. -/
structure ImplScheme.Alike (left right : ImplScheme) : Prop where
  trait : left.trait.Alike right.trait
  target : left.target.Alike right.target
  bounds : left.bounds.Alike right.bounds

theorem unifySchemes_alike {left right leftToo rightToo : ImplScheme} (first : left.Alike leftToo)
    (second : right.Alike rightToo) :
    (unifySchemes left right).map Substitution.unlabeled =
      (unifySchemes leftToo rightToo).map Substitution.unlabeled := by
  have plain (a b : ImplScheme) : (unifySchemes a b).map Substitution.unlabeled =
      unifySchemes ⟨a.trait.unlabeled, a.target.unlabeled, []⟩
        ⟨b.trait.unlabeled, b.target.unlabeled, []⟩ := by
    have heads := Substitution.empty.unifyTraits_unlabeled a.trait b.trait
    rw [show Substitution.empty.unlabeled = Substitution.empty from rfl] at heads
    simp only [unifySchemes, heads]
    generalize Substitution.empty.unifyTraits a.trait b.trait = result
    obtain ⟨σ, done⟩ := result
    cases done with
    | false => rfl
    | true =>
      simp only [σ.unify_unlabeled]
      generalize σ.unify a.target b.target = result
      obtain ⟨τ, done⟩ := result
      cases done <;> rfl
  rw [plain, plain, first.trait, first.target, second.trait, second.target]

/-- The same variables, anchored alike or not at all. -/
structure VarClass.Alike (left right : VarClass) : Prop where
  members : left.members = right.members
  anchor : left.anchor.map Ty.unlabeled = right.anchor.map Ty.unlabeled

theorem Substitution.groups_unlabeled (σ : Substitution) : σ.unlabeled.groups = σ.groups := by
  have linked (binding : Int × Ty) :
      linkedBy (binding.1, binding.2.unlabeled) = linkedBy binding := by
    obtain ⟨x, value⟩ := binding
    cases value with
    | var y label => rfl
    | ctor name args => rw [Ty.unlabeled_ctor]; rfl
  simp only [Substitution.groups, Substitution.unlabeled, List.foldl_map, linked]

theorem Substitution.anchor?_unlabeled (σ : Substitution) (members : List Int) :
    σ.unlabeled.anchor? members = (σ.anchor? members).map Ty.unlabeled := by
  have stored (x : Int) : σ.unlabeled.get? x = (σ.get? x).map Ty.unlabeled := by
    simp only [Substitution.get?, Substitution.unlabeled]
    induction σ.bindings with
    | nil => rfl
    | cons binding bindings ih =>
      rw [List.map_cons, List.lookup_cons, List.lookup_cons, ih]
      cases x == binding.1 <;> rfl
  rw [Substitution.anchor?, Substitution.anchor?, List.map_findSome?]
  congr 1
  funext x
  rw [stored, Function.comp_apply]
  cases σ.get? x with
  | none => rfl
  | some value =>
    cases value with
    | var y label => rfl
    | ctor name args => simp only [Option.map_some, Ty.unlabeled_ctor]

theorem Substitution.classes_alike {σ τ : Substitution} (same : σ.unlabeled = τ.unlabeled) :
    List.Forall₂ VarClass.Alike σ.classes τ.classes := by
  have groups : σ.groups = τ.groups := by
    rw [← σ.groups_unlabeled, same, τ.groups_unlabeled]
  rw [Substitution.classes, Substitution.classes, groups, List.forall₂_map_left_iff,
    List.forall₂_map_right_iff, List.forall₂_same]
  refine fun members _ => ⟨rfl, ?_⟩
  simp only [← Substitution.anchor?_unlabeled, same]

end TraitCoherence
