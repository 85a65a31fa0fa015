import Mathlib.Data.List.Nodup
import Mathlib.Logic.Relation
import TraitCoherence.Proofs.Anchors
import TraitCoherence.Proofs.MostGeneral

namespace TraitCoherence

/-- A bound variable leads to every variable of its value, however deep inside. -/
def Substitution.Leads (σ : Substitution) (x y : Int) : Prop :=
  ∃ value, σ.get? x = some value ∧ y ∈ value.vars

theorem Substitution.Triangular.mem_bound_iff {σ : Substitution} (triangular : σ.Triangular)
    {x : Int} : x ∈ σ.bound ↔ ∃ value, σ.get? x = some value := by
  simp only [triangular.get?_eq_some_iff, Substitution.bound, List.mem_map, Prod.exists]
  constructor
  · rintro ⟨_, value, member, rfl⟩
    exact ⟨value, member⟩
  · rintro ⟨value, member⟩
    exact ⟨x, value, member, rfl⟩

theorem Substitution.Triangular.get?_eq_none_iff {σ : Substitution} (triangular : σ.Triangular)
    {x : Int} : σ.get? x = none ↔ x ∉ σ.bound := by
  rw [triangular.mem_bound_iff, ← Option.isSome_iff_exists, Option.not_isSome_iff_eq_none]

theorem Substitution.Triangular.nodup_bound {σ : Substitution} (triangular : σ.Triangular) :
    σ.bound.Nodup := by
  induction triangular with
  | empty => exact List.nodup_nil
  | bind _ free _ _ ih =>
    rw [Substitution.bound_bind]
    exact ih.append (List.nodup_singleton _) (List.disjoint_singleton.mpr free)

/-- Bindings lead from older variables to younger ones, and in the end to those that are not bound. -/
theorem Substitution.Triangular.idxOf_lt_of_leads {σ : Substitution} (triangular : σ.Triangular)
    {x y : Int} (leads : σ.Leads x y) : σ.bound.idxOf x < σ.bound.idxOf y := by
  obtain ⟨value, found, occurs⟩ := leads
  have member := triangular.get?_eq_some_iff.mp found
  clear found
  induction triangular with
  | empty => exact absurd member List.not_mem_nil
  | @bind σ z newest _ free freeValue notSelf ih =>
    rw [Substitution.bound_bind, List.idxOf_append, List.idxOf_append]
    rcases Substitution.mem_bind.mp member with old | new
    · have before := ih old
      have inside : x ∈ σ.bound := List.mem_map.mpr ⟨_, old, rfl⟩
      have below := List.idxOf_lt_length_of_mem inside
      rw [if_pos inside]
      split <;> omega
    · -- The newest value mentions nothing that is bound, its own variable included.
      cases new
      have elsewhere : y ≠ x := fun here => notSelf (here ▸ occurs)
      rw [if_neg free, if_neg (freeValue y occurs), List.idxOf_cons_self,
        List.idxOf_cons_ne _ elsewhere.symm]
      omega

theorem Substitution.Triangular.idxOf_lt_of_path {σ : Substitution} (triangular : σ.Triangular)
    {x y : Int} (path : Relation.TransGen σ.Leads x y) : σ.bound.idxOf x < σ.bound.idxOf y := by
  induction path with
  | single leads => exact triangular.idxOf_lt_of_leads leads
  | tail _ leads ih => exact Nat.lt_trans ih (triangular.idxOf_lt_of_leads leads)

/-- Following bindings comes to an end at a type: a variable that is bound is replaced by its value,
and what comes of that is followed in turn. The bindings need not be in any order. -/
inductive Substitution.Follows (σ : Substitution) : Ty → Ty → Prop
  | free {x : Int} {label : String} : σ.get? x = none →
      Substitution.Follows σ (.var x label) (.var x label)
  | bound {x : Int} {label : String} {value result : Ty} : σ.get? x = some value →
      Substitution.Follows σ value result → Substitution.Follows σ (.var x label) result
  | ctor {name : String} {args : List Ty} {result : Ty → Ty} :
      (∀ arg ∈ args, Substitution.Follows σ arg (result arg)) →
      Substitution.Follows σ (.ctor name args) (.ctor name (args.map result))

theorem Substitution.Triangular.eq_resolve_of_follows {σ : Substitution}
    (triangular : σ.Triangular) {ty result : Ty} (follows : σ.Follows ty result) :
    result = σ.resolve ty := by
  induction follows with
  | free missing =>
    refine (Substitution.resolve_of_free fun y occurs => ?_).symm
    rw [List.mem_singleton.mp occurs]
    exact triangular.get?_eq_none_iff.mp missing
  | bound found _ ih =>
    rw [ih, triangular.resolve_bound (triangular.get?_eq_some_iff.mp found)]
  | ctor _ ih => rw [Substitution.resolve_ctor, List.map_congr_left ih]

theorem Substitution.follows_of_vars {σ : Substitution} {ty : Ty}
    (each : ∀ x ∈ ty.vars, ∀ label, σ.Follows (.var x label) (σ.resolve (.var x label))) :
    σ.Follows ty (σ.resolve ty) := by
  induction ty using Ty.ind with
  | var x label => exact each x (List.mem_singleton_self x) label
  | ctor name args ih =>
    rw [Substitution.resolve_ctor]
    refine .ctor fun arg member => ih arg member fun x occurs => ?_
    exact each x (Ty.mem_vars_ctor.mpr ⟨arg, member, occurs⟩)

/-- From a variable on there are fewer bindings left to follow with each that is followed. -/
theorem Substitution.Triangular.follows_var {σ : Substitution} (triangular : σ.Triangular)
    (x : Int) (label : String) : σ.Follows (.var x label) (σ.resolve (.var x label)) := by
  induction left : σ.bound.length - σ.bound.idxOf x using Nat.strongRecOn
    generalizing x label with
  | ind left ih =>
    cases found : σ.get? x with
    | none =>
      have stays : σ.resolve (.var x label) = .var x label :=
        Substitution.resolve_of_free fun y occurs =>
          List.mem_singleton.mp occurs ▸ triangular.get?_eq_none_iff.mp found
      rw [stays]
      exact .free found
    | some value =>
      have below := List.idxOf_lt_length_of_mem (triangular.mem_bound_iff.mpr ⟨value, found⟩)
      rw [triangular.resolve_bound (triangular.get?_eq_some_iff.mp found)]
      refine .bound found (Substitution.follows_of_vars fun y occurs label => ?_)
      have later := triangular.idxOf_lt_of_leads ⟨value, found, occurs⟩
      exact ih _ (by omega) y label rfl

theorem Substitution.Triangular.follows_iff {σ : Substitution} (triangular : σ.Triangular)
    {ty result : Ty} : σ.Follows ty result ↔ result = σ.resolve ty := by
  refine ⟨triangular.eq_resolve_of_follows, ?_⟩
  rintro rfl
  exact Substitution.follows_of_vars fun x _ => triangular.follows_var x

theorem Substitution.Triangular.serve_isPrefix {σ : Substitution} (triangular : σ.Triangular)
    (demand : Demand) : σ.bindings <+: (σ.serve demand).1.bindings := by
  rcases triangular.serve_cases demand with ⟨_, _, solving⟩ | ⟨_, unchanged⟩
  · exact solving.isPrefix
  · have same : (σ.serve demand).1.bindings = σ.bindings := by rw [unchanged]
    exact same ▸ List.prefix_rfl

theorem Substitution.Triangular.serveAll_isPrefix {σ : Substitution} (triangular : σ.Triangular)
    (demands : List Demand) : σ.bindings <+: (σ.serveAll demands).1.bindings := by
  induction demands generalizing σ with
  | nil => exact List.prefix_rfl
  | cons demand demands ih =>
    exact (triangular.serve_isPrefix demand).trans (ih (triangular.serve demand))

theorem Substitution.get?_of_isPrefix {σ later : Substitution} (grown : σ.bindings <+: later.bindings)
    {x : Int} {value : Ty} (found : σ.get? x = some value) : later.get? x = some value := by
  obtain ⟨added, same⟩ := grown
  rw [Substitution.get?, ← same, List.lookup_append, ← Substitution.get?, found, Option.some_or]

/-- Whatever has been demanded, met or not, and of types of whatever shape: no variable leads back to
itself, none is bound twice, and later demands change and remove no binding. Following the bindings
ends for every type, at what resolution gives, which mentions nothing bound and resolves to
itself. -/
theorem served_bindings_acyclic_kept_and_resolved (demands : List Demand) :
    let σ := (Substitution.empty.serveAll demands).1
    (∀ x, ¬ Relation.TransGen σ.Leads x x) ∧
    (σ.bindings.map (·.1)).Nodup ∧
    (∀ later x value, σ.get? x = some value → (σ.serveAll later).1.get? x = some value) ∧
    (∀ ty, ∃ result, σ.Follows ty result) ∧
    (∀ ty result, σ.Follows ty result ↔ result = σ.resolve ty) ∧
    (∀ ty, ∀ y ∈ (σ.resolve ty).vars, σ.get? y = none) ∧
    ∀ ty, σ.resolve (σ.resolve ty) = σ.resolve ty := by
  intro σ
  have triangular : σ.Triangular := Substitution.Triangular.empty.serveAll demands
  refine ⟨fun x path => ?_, triangular.nodup_bound, fun later x value => ?_, fun ty => ?_,
    fun ty result => triangular.follows_iff, fun ty y occurs => ?_, fun ty => ?_⟩
  · exact Nat.lt_irrefl _ (triangular.idxOf_lt_of_path path)
  · exact Substitution.get?_of_isPrefix (triangular.serveAll_isPrefix later)
  · exact ⟨σ.resolve ty, triangular.follows_iff.mpr rfl⟩
  · exact triangular.get?_eq_none_iff.mpr (triangular.resolve_free occurs)
  · exact Substitution.resolve_of_free fun y occurs => triangular.resolve_free occurs

/-- `Pair<P, A> = Pair<Vec<Q>, B, P>` fails at its second arguments and leaves `P` bound. -/
example :
    let served := Substitution.empty.serve (.types (.ctor "Pair" [.var 0 "P", .ctor "A" []])
      (.ctor "Pair" [.ctor "Vec" [.var 1 "Q"], .ctor "B" [], .var 0 "P"]))
    served.2 = false ∧ served.1.get? 0 = some (.ctor "Vec" [.var 1 "Q"]) :=
  ⟨rfl, rfl⟩

end TraitCoherence
