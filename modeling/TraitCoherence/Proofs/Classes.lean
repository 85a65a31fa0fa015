import Mathlib.Data.Int.Order.Basic
import Mathlib.Data.List.Pairwise
import TraitCoherence.Proofs.Acyclicity
import TraitCoherence.Proofs.Circularity

namespace TraitCoherence

theorem nodup_eraseDups (numbers : List Int) : numbers.eraseDups.Nodup := by
  cases numbers with
  | nil => exact List.nodup_nil
  | cons number numbers =>
    rw [List.eraseDups_cons, List.nodup_cons, List.mem_eraseDups]
    exact ⟨by simp, nodup_eraseDups _⟩
termination_by numbers.length
decreasing_by exact Nat.lt_succ_of_le (List.length_filter_le _ _)

theorem pairwise_ascending {numbers : List Int} (distinct : numbers.Nodup) :
    (ascending numbers).Pairwise (· < ·) :=
  (pairwise_arrange (· ≤ ·) distinct).imp fun both => lt_of_le_of_ne both.1 both.2

/-- Groups that have nothing in common are merged into groups that have nothing in common: those that
are left as they are meet neither the linked variables nor what these touch. -/
theorem disjoint_linkGroups {groups : List (List Int)} (disjoint : groups.Pairwise List.Disjoint)
    (ids : List Int) : (linkGroups ids groups).Pairwise List.Disjoint := by
  refine List.pairwise_cons.mpr ⟨fun group left z merged inside => ?_, disjoint.filter _⟩
  obtain ⟨member, apart⟩ : group ∈ groups ∧ ∀ i ∈ ids, i ∉ group := by
    simpa only [List.mem_filter, Bool.not_eq_true', List.any_eq_false, List.contains_iff_mem,
      imp_not_comm] using left
  rcases mem_head_linkGroups.mp merged with chosen | ⟨touched, memberToo, ⟨i, chosen, meets⟩, here⟩
  · exact apart z chosen inside
  · have differ : touched ≠ group := fun same => apart i chosen (same ▸ meets)
    have : Std.Symm (List.Disjoint (α := Int)) := ⟨fun _ _ => List.Disjoint.symm⟩
    exact disjoint.forall memberToo member differ here inside

theorem Substitution.Triangular.disjoint_linked {σ : Substitution} (triangular : σ.Triangular) :
    σ.linked.Pairwise List.Disjoint := by
  induction triangular with
  | empty => exact .nil
  | bind _ _ _ _ ih =>
    rw [Substitution.linked_bind]
    exact disjoint_linkGroups ih _

theorem Substitution.Triangular.ascending_of_mem_linked {σ : Substitution}
    (triangular : σ.Triangular) {group : List Int} (member : group ∈ σ.linked) :
    group.Pairwise (· < ·) := by
  induction triangular with
  | empty => exact absurd member List.not_mem_nil
  | bind _ _ _ _ ih =>
    rw [Substitution.linked_bind, mem_linkGroups] at member
    rcases member with rfl | ⟨old, _⟩
    · exact pairwise_ascending (nodup_eraseDups _)
    · exact ih old

/-- One group comes before another one: it holds something smaller than all of that one. -/
def Leading (a b : List Int) : Prop := ∃ x ∈ a, ∀ y ∈ b, x < y

theorem leading_of_headD {a b : List Int} (nonempty : a ≠ []) (ascending : b.Pairwise (· < ·))
    (heads : a.headD 0 ≤ b.headD 0) (disjoint : a.Disjoint b) : Leading a b := by
  obtain ⟨x, as, rfl⟩ := List.exists_cons_of_ne_nil nonempty
  refine ⟨x, List.mem_cons_self, fun y inside => ?_⟩
  cases b with
  | nil => exact absurd inside List.not_mem_nil
  | cons z bs =>
    have apart : x ≠ z := fun same =>
      disjoint List.mem_cons_self (same ▸ List.mem_cons_self)
    have least : z ≤ y := (List.mem_cons.mp inside).elim (fun here => here ▸ le_rfl)
      fun later => le_of_lt (List.rel_of_pairwise_cons ascending later)
    exact lt_of_lt_of_le (lt_of_le_of_ne heads apart) least

/-- Groups have a root, so none is empty. -/
theorem Substitution.Triangular.groups_ordered {σ : Substitution} (triangular : σ.Triangular) :
    σ.groups.Pairwise List.Disjoint ∧ σ.groups.Pairwise Leading := by
  have heads : Std.Total fun a b : List Int => a.headD 0 ≤ b.headD 0 := ⟨fun _ _ => le_total _ _⟩
  have chain : IsTrans (List Int) fun a b => a.headD 0 ≤ b.headD 0 := ⟨fun _ _ _ => le_trans⟩
  have nonempty (group : List Int) (member : group ∈ σ.groups) : group ≠ [] := by
    obtain ⟨root, inside, _⟩ := triangular.isGroup (Substitution.mem_groups.mp member)
    exact List.ne_nil_of_mem inside
  have sorted : σ.groups = σ.linked.insertionSort fun a b => a.headD 0 ≤ b.headD 0 :=
    arrange_eq_insertionSort _ _
  have disjoint : σ.groups.Pairwise List.Disjoint := by
    rw [sorted]
    have permuted := List.perm_insertionSort (fun a b : List Int => a.headD 0 ≤ b.headD 0) σ.linked
    exact (permuted.pairwise_iff List.Disjoint.symm).mpr triangular.disjoint_linked
  refine ⟨disjoint, ?_⟩
  have order : σ.groups.Pairwise fun a b => a.headD 0 ≤ b.headD 0 := by
    rw [sorted]
    exact List.pairwise_insertionSort _ _
  refine (order.and disjoint).imp_of_mem fun member memberToo both => ?_
  have ascending := triangular.ascending_of_mem_linked (Substitution.mem_groups.mp memberToo)
  exact leading_of_headD (nonempty _ member) ascending both.1 both.2

/-- A variable is bound to another one. -/
def Substitution.Binds (σ : Substitution) (x y : Int) : Prop :=
  ∃ label, σ.get? x = some (.var y label)

theorem Substitution.Triangular.links_iff {σ : Substitution} (triangular : σ.Triangular) {x : Int} :
    σ.Links x ↔ (∃ value, σ.get? x = some value) ∨ ∃ y, σ.Binds y x := by
  rw [← triangular.mem_bound_iff]
  constructor
  · intro linked
    by_cases bound : x ∈ σ.bound
    · exact Or.inl bound
    · obtain ⟨y, label, member⟩ := Substitution.bound_to_of_links linked bound
      exact Or.inr ⟨y, label, triangular.get?_eq_some_iff.mpr member⟩
  · rintro (bound | ⟨y, label, found⟩)
    · exact Substitution.links_of_bound bound
    · exact ⟨_, triangular.get?_eq_some_iff.mp found, mem_linkedBy.mpr (Or.inr rfl)⟩

theorem Substitution.Triangular.root_eq_of_binds {σ : Substitution} (triangular : σ.Triangular)
    {x y : Int} (binds : σ.Binds x y) : σ.root x = σ.root y := by
  obtain ⟨label, found⟩ := binds
  have member := triangular.get?_eq_some_iff.mp found
  clear found
  induction triangular with
  | empty => exact absurd member List.not_mem_nil
  | bind _ free freeValue notSelf ih =>
    rw [Substitution.root_bind, Substitution.root_bind]
    rcases Substitution.mem_bind.mp member with old | new
    · rw [ih old]
    · cases new
      have freeNext := freeValue y (List.mem_singleton_self y)
      rw [Substitution.root_of_free free, Substitution.root_of_free freeNext, if_pos rfl]
      split <;> rfl

theorem Substitution.Triangular.eqvGen_root {σ : Substitution} (triangular : σ.Triangular)
    (z : Int) : Relation.EqvGen σ.Binds z (σ.root z) := by
  induction triangular with
  | empty => exact .refl z
  | @bind σ x value previous free freeValue notSelf ih =>
    have grown : (σ.bind x value).Triangular := .bind previous free freeValue notSelf
    have older : σ.Binds ≤ (σ.bind x value).Binds := by
      rintro a b ⟨label, found⟩
      exact ⟨label, Substitution.get?_of_isPrefix (List.prefix_append _ _) found⟩
    have before := Relation.EqvGen.mono older z _ ih
    rw [Substitution.root_bind]
    split
    · -- The chain from `z` used to end at `x`, and now it goes on from there.
      rename_i here
      rw [here] at before
      cases value with
      | var y label =>
        have newest := grown.get?_eq_some_iff.mpr (Substitution.mem_bind.mpr (Or.inr rfl))
        exact before.trans _ _ _ (.rel _ _ ⟨label, newest⟩)
      | ctor name args => exact before
    · exact before

/-- Variables have one root exactly when bindings connect them, forth or back. -/
theorem Substitution.Triangular.eqvGen_iff {σ : Substitution} (triangular : σ.Triangular)
    {x y : Int} : Relation.EqvGen σ.Binds x y ↔ σ.root x = σ.root y := by
  constructor
  · intro connected
    have roots : Equivalence fun x y => σ.root x = σ.root y := eq_equivalence.comap σ.root
    exact roots.eqvGen_iff.mp
      (Relation.EqvGen.mono (fun _ _ => triangular.root_eq_of_binds) x y connected)
  · intro same
    have there := triangular.eqvGen_root x
    rw [same] at there
    exact there.trans _ _ _ ((triangular.eqvGen_root y).symm _ _)

theorem Substitution.Triangular.root_of_application {σ : Substitution} (triangular : σ.Triangular)
    {x : Int} {name : String} {args : List Ty} (found : σ.get? x = some (.ctor name args)) :
    σ.root x = x := by
  have member := triangular.get?_eq_some_iff.mp found
  clear found
  induction triangular with
  | empty => exact absurd member List.not_mem_nil
  | @bind σ y newest _ free _ _ ih =>
    rw [Substitution.root_bind]
    rcases Substitution.mem_bind.mp member with old | new
    · have bound : x ∈ σ.bound := List.mem_map.mpr ⟨_, old, rfl⟩
      have elsewhere : x ≠ y := fun here => free (here ▸ bound)
      rw [ih old, if_neg elsewhere]
    · cases new
      rw [Substitution.root_of_free free, if_pos rfl]
      rfl

theorem Substitution.mem_classes {σ : Substitution} {c : VarClass} :
    c ∈ σ.classes ↔ c.members ∈ σ.groups ∧ c.anchor = σ.anchor? c.members := by
  rw [Substitution.classes, List.mem_map]
  constructor
  · rintro ⟨group, member, rfl⟩
    exact ⟨member, rfl⟩
  · rintro ⟨member, anchor⟩
    exact ⟨c.members, member, by rw [← anchor]⟩

/-- What a class is told by: it has a root, its members are the linked variables with that root, and
only the root can be bound to an application. The root is bound to the anchor, or there is none and
the root is free. -/
structure Substitution.RootOf (σ : Substitution) (c : VarClass) (root : Int) : Prop where
  inside : root ∈ c.members
  mem_iff : ∀ z, z ∈ c.members ↔ σ.Links z ∧ σ.root z = root
  only : ∀ z ∈ c.members, ∀ name args, σ.get? z = some (.ctor name args) → z = root
  anchor : σ.get? root = none ∧ c.anchor = none ∨
    ∃ name args, σ.get? root = some (.ctor name args) ∧ c.anchor = some (.ctor name args)

theorem Substitution.Triangular.exists_rootOf {σ : Substitution} (triangular : σ.Triangular)
    {c : VarClass} (member : c ∈ σ.classes) : ∃ root, σ.RootOf c root := by
  obtain ⟨group, anchored⟩ := Substitution.mem_classes.mp member
  obtain ⟨root, inside, same⟩ := triangular.isGroup (Substitution.mem_groups.mp group)
  have rootSelf := ((same root).mp inside).2
  have only (z : Int) (here : z ∈ c.members) (name : String) (args : List Ty)
      (found : σ.get? z = some (.ctor name args)) : z = root :=
    (triangular.root_of_application found).symm.trans ((same z).mp here).2
  refine ⟨root, inside, same, only, ?_⟩
  rcases triangular.root_end root with free | ⟨name, args, bound⟩
  · rw [rootSelf] at free
    have missing := triangular.get?_eq_none_iff.mpr free
    refine Or.inl ⟨missing, anchored.trans (triangular.anchor?_eq_none_iff.mpr ?_)⟩
    intro z here name args bound
    have found := triangular.get?_eq_some_iff.mpr bound
    rw [only z here name args found, missing] at found
    cases found
  · rw [rootSelf] at bound
    have found := triangular.get?_eq_some_iff.mpr bound
    refine Or.inr ⟨name, args, found, anchored.trans ?_⟩
    cases anchor : σ.anchor? c.members with
    | none => exact absurd bound (triangular.anchor?_eq_none_iff.mp anchor root inside name args)
    | some ty =>
      -- The anchor was found at some member, which can only be the root.
      obtain ⟨z, here, value⟩ := List.exists_of_findSome?_eq_some anchor
      split at value
      · rename_i other args' foundToo
        cases only z here other args' foundToo
        cases found.symm.trans foundToo
        exact value.symm
      · cases value

theorem Substitution.Triangular.exists_class_iff {σ : Substitution} (triangular : σ.Triangular)
    {x : Int} : (∃ c ∈ σ.classes, x ∈ c.members) ↔ σ.Links x := by
  constructor
  · rintro ⟨c, member, inside⟩
    obtain ⟨root, rootOf⟩ := triangular.exists_rootOf member
    exact ((rootOf.mem_iff x).mp inside).1
  · intro linked
    obtain ⟨group, member, inside⟩ := Substitution.exists_mem_linked triangular linked
    exact ⟨⟨group, σ.anchor? group⟩,
      Substitution.mem_classes.mpr ⟨Substitution.mem_groups.mpr member, rfl⟩, inside⟩

theorem Substitution.Triangular.shared_class_iff {σ : Substitution} (triangular : σ.Triangular)
    {c d : VarClass} (member : c ∈ σ.classes) (memberToo : d ∈ σ.classes) {x y : Int}
    (inside : x ∈ c.members) (insideToo : y ∈ d.members) :
    (∃ e ∈ σ.classes, x ∈ e.members ∧ y ∈ e.members) ↔ σ.root x = σ.root y := by
  constructor
  · rintro ⟨e, common, here, there⟩
    obtain ⟨root, rootOf⟩ := triangular.exists_rootOf common
    exact ((rootOf.mem_iff x).mp here).2.trans ((rootOf.mem_iff y).mp there).2.symm
  · intro roots
    obtain ⟨root, rootOf⟩ := triangular.exists_rootOf member
    have atX := ((rootOf.mem_iff x).mp inside).2
    have linked := triangular.exists_class_iff.mp ⟨d, memberToo, insideToo⟩
    exact ⟨c, member, inside, (rootOf.mem_iff y).mpr ⟨linked, roots ▸ atX⟩⟩

theorem Substitution.RootOf.anchor_iff {σ : Substitution} {c : VarClass} {root : Int}
    (rootOf : σ.RootOf c root) (ty : Ty) : c.anchor = some ty ↔
      ∃ x ∈ c.members, σ.get? x = some ty ∧ ∃ name args, ty = .ctor name args := by
  rcases rootOf.anchor with ⟨missing, none⟩ | ⟨name, args, found, some⟩
  · rw [none]
    refine iff_of_false nofun ?_
    rintro ⟨x, here, found, name, args, rfl⟩
    rw [rootOf.only x here name args found, missing] at found
    cases found
  · rw [some, Option.some.injEq]
    constructor
    · rintro rfl
      exact ⟨root, rootOf.inside, found, name, args, rfl⟩
    · rintro ⟨x, here, foundToo, other, args', rfl⟩
      rw [rootOf.only x here other args' foundToo] at foundToo
      exact Option.some.inj (found.symm.trans foundToo)

theorem Substitution.unlabeled_resolve_var (σ : Substitution) (x : Int) (label : String) :
    (σ.resolve (.var x label)).unlabeled = σ.solution x :=
  σ.unlabeled_resolve (.var x label)

theorem Substitution.RootOf.solution {σ : Substitution} {c : VarClass} {root x : Int}
    (rootOf : σ.RootOf c root) (triangular : σ.Triangular) (inside : x ∈ c.members) :
    σ.solution x = σ.solution root := by
  rw [← ((rootOf.mem_iff x).mp inside).2, triangular.absorbedBy_solution.root]

theorem Substitution.RootOf.anchored_iff {σ : Substitution} {c : VarClass} {root x : Int}
    (rootOf : σ.RootOf c root) (triangular : σ.Triangular) (inside : x ∈ c.members) (label : String) :
    c.anchor.isSome ↔ ∃ name args, σ.resolve (.var x label) = .ctor name args := by
  have stands := (σ.unlabeled_resolve_var x label).trans (rootOf.solution triangular inside)
  rcases rootOf.anchor with ⟨missing, none⟩ | ⟨name, args, found, some⟩
  · rw [Substitution.solution_of_free (triangular.get?_eq_none_iff.mp missing)] at stands
    rw [none]
    refine iff_of_false Bool.false_ne_true ?_
    rintro ⟨name, args, resolved⟩
    rw [resolved, Ty.unlabeled_ctor] at stands
    cases stands
  · rw [triangular.solution_of_ctor (triangular.get?_eq_some_iff.mp found)] at stands
    rw [some]
    refine iff_of_true rfl ?_
    cases resolved : σ.resolve (.var x label) with
    | var y other =>
      rw [resolved, Ty.unlabeled_var] at stands
      cases stands
    | ctor other args' => exact ⟨other, args', rfl⟩

/-- What classes of variables must be to tell what variables resolve to. -/
structure Substitution.Classified (σ : Substitution) (classes : List VarClass) : Prop where
  nonempty : ∀ c ∈ classes, c.members ≠ []
  ascending : ∀ c ∈ classes, c.members.Pairwise (· < ·)
  disjoint : classes.Pairwise fun c d => c.members.Disjoint d.members
  ordered : classes.Pairwise fun c d => Leading c.members d.members
  covers_iff : ∀ x, (∃ c ∈ classes, x ∈ c.members) ↔
    (∃ value, σ.get? x = some value) ∨ ∃ y, σ.Binds y x
  shares_iff : ∀ c ∈ classes, ∀ d ∈ classes, ∀ x ∈ c.members, ∀ y ∈ d.members,
    (∃ e ∈ classes, x ∈ e.members ∧ y ∈ e.members) ↔ Relation.EqvGen σ.Binds x y
  alike : ∀ c ∈ classes, ∀ x ∈ c.members, ∀ y ∈ c.members, ∀ label label',
    (σ.resolve (.var x label)).Alike (σ.resolve (.var y label'))
  anchor_unique : ∀ c ∈ classes, ∀ x ∈ c.members, ∀ y ∈ c.members, ∀ f as g bs,
    σ.get? x = some (.ctor f as) → σ.get? y = some (.ctor g bs) → x = y
  anchor_iff : ∀ c ∈ classes, ∀ ty, c.anchor = some ty ↔
    ∃ x ∈ c.members, σ.get? x = some ty ∧ ∃ name args, ty = .ctor name args
  anchored_iff : ∀ c ∈ classes, ∀ x ∈ c.members, ∀ label,
    c.anchor.isSome ↔ ∃ name args, σ.resolve (.var x label) = .ctor name args
  /-- No two classes stand for one variable. -/
  meet : ∀ c ∈ classes, ∀ d ∈ classes, ∀ x ∈ c.members, ∀ y ∈ d.members,
    ∀ label label' z other other', σ.resolve (.var x label) = .var z other →
      σ.resolve (.var y label') = .var z other' → ∃ e ∈ classes, x ∈ e.members ∧ y ∈ e.members

theorem Substitution.Triangular.classified {σ : Substitution} (triangular : σ.Triangular) :
    σ.Classified σ.classes where
  nonempty c member := by
    obtain ⟨root, rootOf⟩ := triangular.exists_rootOf member
    exact List.ne_nil_of_mem rootOf.inside
  ascending c member := by
    have group := (Substitution.mem_classes.mp member).1
    exact triangular.ascending_of_mem_linked (Substitution.mem_groups.mp group)
  disjoint := List.pairwise_map.mpr triangular.groups_ordered.1
  ordered := List.pairwise_map.mpr triangular.groups_ordered.2
  covers_iff x := triangular.exists_class_iff.trans triangular.links_iff
  shares_iff c member d memberToo x inside y insideToo := by
    rw [triangular.eqvGen_iff]
    exact triangular.shared_class_iff member memberToo inside insideToo
  alike c member x inside y insideToo label label' := by
    obtain ⟨root, rootOf⟩ := triangular.exists_rootOf member
    rw [Ty.Alike, σ.unlabeled_resolve_var, σ.unlabeled_resolve_var,
      rootOf.solution triangular inside, rootOf.solution triangular insideToo]
  anchor_unique c member x inside y insideToo f as g bs found foundToo := by
    obtain ⟨root, rootOf⟩ := triangular.exists_rootOf member
    exact (rootOf.only x inside f as found).trans (rootOf.only y insideToo g bs foundToo).symm
  anchor_iff c member ty := by
    obtain ⟨root, rootOf⟩ := triangular.exists_rootOf member
    exact rootOf.anchor_iff ty
  anchored_iff c member x inside label := by
    obtain ⟨root, rootOf⟩ := triangular.exists_rootOf member
    exact rootOf.anchored_iff triangular inside label
  meet c member d memberToo x inside y insideToo label label' z other other' stands standsToo := by
    have atX := (σ.unlabeled_resolve_var x label).symm
    have atY := (σ.unlabeled_resolve_var y label').symm
    rw [stands, Ty.unlabeled_var] at atX
    rw [standsToo, Ty.unlabeled_var] at atY
    refine (triangular.shared_class_iff member memberToo inside insideToo).mpr ?_
    exact (triangular.solution_eq_var_iff.mp atX).2.1.trans
      (triangular.solution_eq_var_iff.mp atY).2.1.symm

/-- Whatever has been demanded, met or not: the classes of linked variables are pairwise disjoint, in
order, and hold exactly the variables that are bound or that one is bound to. Variables share one
exactly when bindings connect them. They resolve to one type then, which is an application exactly
when the class has an anchor, and variables that resolve to one variable share a class. -/
theorem classes_tell_what_variables_resolve_to (demands : List Demand) :
    let σ := (Substitution.empty.serveAll demands).1
    σ.Classified σ.classes :=
  (Substitution.Triangular.empty.serveAll demands).classified

/-- `R = P`, `Q = P`, and `Pair<P, A> = Pair<S, B>`, which fails: `P` is linked to `S` all the same,
and nothing anchors their class. -/
example :
    let served := Substitution.empty.serveAll
      [.types (.var 2 "R") (.var 0 "P"), .types (.var 1 "Q") (.var 0 "P"),
        .types (.ctor "Pair" [.var 0 "P", .ctor "A" []]) (.ctor "Pair" [.var 3 "S", .ctor "B" []])]
    served.2 = [true, true, false] ∧ served.1.classes = [⟨[0, 1, 2, 3], none⟩] :=
  ⟨rfl, rfl⟩

end TraitCoherence
