import TraitCoherence.Proofs.ClosureInstances
import TraitCoherence.Proofs.FailureOrder

namespace TraitCoherence

/-- A semilattice on all that fits, with an identity, where `same` is equality. -/
structure SemilatticeUpTo {α : Type} (fits : α → Prop) (same : α → α → Bool) (join : α → α → α)
    (bottom : α) : Prop extends EquivalenceAmong same fits where
  fits_bottom : fits bottom
  fits_join : ∀ a b, fits a → fits b → fits (join a b)
  congr : ∀ a b c d, fits a → fits b → fits c → fits d → same a c = true → same b d = true →
    same (join a b) (join c d) = true
  comm : ∀ a b, fits a → fits b → same (join a b) (join b a) = true
  assoc : ∀ a b c, fits a → fits b → fits c → same (join (join a b) c) (join a (join b c)) = true
  idem : ∀ a, fits a → same (join a a) a = true
  bottom_join : ∀ a, fits a → same (join bottom a) a = true
  join_bottom : ∀ a, fits a → same (join a bottom) a = true

theorem TraitSet.has_iff_mem_map {set : TraitSet} {trait : TraitRef} :
    set.Has trait ↔ trait.unlabeled ∈ set.members.map TraitRef.unlabeled :=
  List.mem_map.symm

/-- Sets are compared by their sizes and one inclusion. The other inclusion follows by counting, since
no two members of a set are alike. -/
theorem TraitSet.Sized.has_iff_of_same {sizes : String → Nat} {left right : TraitSet}
    (sized : left.Sized sizes) (small : right.Sized sizes) (same : left.same right = true)
    (other : TraitRef) : left.Has other ↔ right.Has other := by
  rw [TraitSet.same, Bool.and_eq_true, beq_iff_eq, List.all_eq_true] at same
  obtain ⟨length, each⟩ := same
  have included : left.members.map TraitRef.unlabeled ⊆ right.members.map TraitRef.unlabeled := by
    intro plain member
    obtain ⟨trait, inside, rfl⟩ := List.mem_map.mp member
    obtain ⟨found, there, agree⟩ := List.any_eq_true.mp (each trait inside)
    have alike := ((small found there).agrees_iff_alike (sized trait inside)).mp agree
    exact List.mem_map.mpr ⟨found, there, alike⟩
  have permuted : (left.members.map TraitRef.unlabeled).Perm
      (right.members.map TraitRef.unlabeled) := by
    refine (List.subperm_of_subset sized.nodup_unlabeled included).perm_of_length_le ?_
    rw [List.length_map, List.length_map, length]
  rw [TraitSet.has_iff_mem_map, TraitSet.has_iff_mem_map, permuted.mem_iff]

theorem TraitSet.Sized.same_iff_has {sizes : String → Nat} {left right : TraitSet}
    (sized : left.Sized sizes) (small : right.Sized sizes) :
    left.same right = true ↔ ∀ other, left.Has other ↔ right.Has other :=
  ⟨sized.has_iff_of_same small, sized.same_of_has_iff small⟩

/-- Which of several traits that agree a union keeps depends on the order, but all of them are alike. -/
theorem TraitSet.union_semilattice (sizes : String → Nat) :
    SemilatticeUpTo (TraitSet.Sized sizes) TraitSet.same TraitSet.union .empty where
  toEquivalenceAmong := by
    refine .of_image TraitSet.Has fun a b fitsA fitsB => ?_
    rw [fitsA.same_iff_has fitsB, funext_iff]
    exact forall_congr' fun other => eq_iff_iff.symm
  fits_bottom := .empty sizes
  fits_join a b fitsA fitsB := fitsA.union fitsB
  congr a b c d fitsA fitsB fitsC fitsD first second := by
    rw [fitsA.same_iff_has fitsC] at first
    rw [fitsB.same_iff_has fitsD] at second
    refine ((fitsA.union fitsB).same_iff_has (fitsC.union fitsD)).mpr fun other => ?_
    rw [fitsA.has_union fitsB, fitsC.has_union fitsD, first, second]
  comm a b fitsA fitsB := by
    refine ((fitsA.union fitsB).same_iff_has (fitsB.union fitsA)).mpr fun other => ?_
    rw [fitsA.has_union fitsB, fitsB.has_union fitsA, or_comm]
  assoc a b c fitsA fitsB fitsC := by
    have left := fitsA.union fitsB
    have right := fitsB.union fitsC
    refine ((left.union fitsC).same_iff_has (fitsA.union right)).mpr fun other => ?_
    rw [left.has_union fitsC, fitsA.has_union fitsB, fitsA.has_union right, fitsB.has_union fitsC,
      or_assoc]
  idem a fitsA := by
    refine ((fitsA.union fitsA).same_iff_has fitsA).mpr fun other => ?_
    rw [fitsA.has_union fitsA, or_self]
  bottom_join a fitsA := by
    have nothing := TraitSet.Sized.empty sizes
    refine ((nothing.union fitsA).same_iff_has fitsA).mpr fun other => ?_
    rw [nothing.has_union fitsA, or_iff_right (TraitSet.not_has_empty other)]
  join_bottom a fitsA := by
    have nothing := TraitSet.Sized.empty sizes
    refine ((fitsA.union nothing).same_iff_has fitsA).mpr fun other => ?_
    rw [fitsA.has_union nothing, or_iff_left (TraitSet.not_has_empty other)]

theorem Bound.same_iff {left right : Bound} : left.same right = true ↔
    left.positive.same right.positive = true ∧ left.negative.same right.negative = true :=
  Bool.and_eq_true_iff

/-- A bound is two sets, and each law holds of both. -/
theorem Bound.join_semilattice (sizes : String → Nat) :
    SemilatticeUpTo (Bound.Sized sizes) Bound.same Bound.join .empty := by
  have sets := TraitSet.union_semilattice sizes
  refine ⟨⟨?refl, ?symm, ?trans⟩, .empty sizes, fun a b => Bound.Sized.join, ?congr, ?comm, ?assoc,
    ?idem, ?bottom_join, ?join_bottom⟩
  all_goals simp only [Bound.same_iff]
  case refl => exact fun a fitsA => ⟨sets.refl _ fitsA.1, sets.refl _ fitsA.2⟩
  case symm =>
    exact fun a b fitsA fitsB same =>
      ⟨sets.symm _ _ fitsA.1 fitsB.1 same.1, sets.symm _ _ fitsA.2 fitsB.2 same.2⟩
  case trans =>
    exact fun a b c fitsA fitsB fitsC first second =>
      ⟨sets.trans _ _ _ fitsA.1 fitsB.1 fitsC.1 first.1 second.1,
        sets.trans _ _ _ fitsA.2 fitsB.2 fitsC.2 first.2 second.2⟩
  case congr =>
    exact fun a b c d fitsA fitsB fitsC fitsD first second =>
      ⟨sets.congr _ _ _ _ fitsA.1 fitsB.1 fitsC.1 fitsD.1 first.1 second.1,
        sets.congr _ _ _ _ fitsA.2 fitsB.2 fitsC.2 fitsD.2 first.2 second.2⟩
  case comm =>
    exact fun a b fitsA fitsB => ⟨sets.comm _ _ fitsA.1 fitsB.1, sets.comm _ _ fitsA.2 fitsB.2⟩
  case assoc =>
    exact fun a b c fitsA fitsB fitsC =>
      ⟨sets.assoc _ _ _ fitsA.1 fitsB.1 fitsC.1, sets.assoc _ _ _ fitsA.2 fitsB.2 fitsC.2⟩
  case idem => exact fun a fitsA => ⟨sets.idem _ fitsA.1, sets.idem _ fitsA.2⟩
  case bottom_join =>
    exact fun a fitsA => ⟨sets.bottom_join _ fitsA.1, sets.bottom_join _ fitsA.2⟩
  case join_bottom =>
    exact fun a fitsA => ⟨sets.join_bottom _ fitsA.1, sets.join_bottom _ fitsA.2⟩

/-- The whole has every term of the bound, labels aside. -/
structure Bound.Within (bound whole : Bound) : Prop where
  positive : ∀ trait, bound.positive.Has trait → whole.positive.Has trait
  negative : ∀ trait, bound.negative.Has trait → whole.negative.Has trait

theorem Bound.Sized.within_of_same {sizes : String → Nat} {left right : Bound}
    (sized : left.Sized sizes) (small : right.Sized sizes) (same : left.same right = true) :
    left.Within right ∧ right.Within left := by
  obtain ⟨positive, negative⟩ := Bound.same_iff.mp same
  have demands := sized.1.has_iff_of_same small.1 positive
  have forbids := sized.2.has_iff_of_same small.2 negative
  exact ⟨⟨fun trait => (demands trait).mp, fun trait => (forbids trait).mp⟩,
    ⟨fun trait => (demands trait).mpr, fun trait => (forbids trait).mpr⟩⟩

theorem Bound.Sized.within_join {sizes : String → Nat} {left right : Bound}
    (sized : left.Sized sizes) (small : right.Sized sizes) : left.Within (left.join right) :=
  ⟨fun _ has => (sized.1.has_union small.1).mpr (Or.inl has),
    fun _ has => (sized.2.has_union small.2).mpr (Or.inl has)⟩

theorem Catalog.Contradicts.mono {catalog : Catalog} {bound whole : Bound}
    (contradicts : catalog.Contradicts bound) (within : bound.Within whole) :
    catalog.Contradicts whole := by
  obtain ⟨demanded, positive, forbidden, negative, entails⟩ := contradicts
  obtain ⟨source, sourceIn, same⟩ := within.positive demanded (TraitSet.has_of_mem positive)
  obtain ⟨sink, sinkIn, sameToo⟩ := within.negative forbidden (TraitSet.has_of_mem negative)
  exact ⟨source, sourceIn, sink, sinkIn, entails.alike same.symm sameToo.symm⟩

theorem Catalog.Breaks.mono {catalog : Catalog} {bound whole : Bound}
    (breaks : catalog.Breaks bound.positive.members) (within : bound.Within whole) :
    catalog.Breaks whole.positive.members := by
  obtain ⟨trait, has, stuck⟩ := Catalog.breaks_iff_has.mp breaks
  exact Catalog.breaks_iff_has.mpr ⟨trait, within.positive trait has, stuck⟩

section

variable {catalog : Catalog} {sizes : String → Nat} (fits : catalog.Fits sizes)

include fits

/-- What is asked about a bound is answered by what the bound demands and forbids, whatever was asked
before. -/
theorem Catalog.Fits.unsatisfiable_eq_ok_iff {memo : Memo} (settled : memo.Settled catalog sizes)
    {bound : Bound} (small : bound.Sized sizes) {answer : Bool} :
    (catalog.unsatisfiable memo bound).2 = .ok answer ↔
      ¬ catalog.Breaks bound.positive.members ∧ (answer = true ↔ catalog.Contradicts bound) := by
  have fails := (fits.unsatisfiable_reports settled small).2.error_iff
  have right := (fits.unsatisfiable settled.sound small).2
  constructor
  · intro result
    refine ⟨fun breaks => ?_, right answer result⟩
    obtain ⟨error, failed⟩ := fails.mpr breaks
    cases result.symm.trans failed
  · rintro ⟨whole, rightToo⟩
    cases result : (catalog.unsatisfiable memo bound).2 with
    | error error => exact absurd (fails.mp ⟨error, result⟩) whole
    | ok found =>
      rw [Except.ok.injEq, Bool.eq_iff_iff]
      exact (right found result).trans rightToo.symm

theorem Catalog.Fits.unsatisfiable_congr {memo other : Memo} (settled : memo.Settled catalog sizes)
    (settledToo : other.Settled catalog sizes) {a b : Bound} (sized : a.Sized sizes)
    (small : b.Sized sizes) (there : a.Within b) (back : b.Within a) (answer : Bool) :
    (catalog.unsatisfiable memo a).2 = .ok answer ↔
      (catalog.unsatisfiable other b).2 = .ok answer := by
  have breaks : catalog.Breaks a.positive.members ↔ catalog.Breaks b.positive.members :=
    ⟨fun stuck => stuck.mono there, fun stuck => stuck.mono back⟩
  have contradicts : catalog.Contradicts a ↔ catalog.Contradicts b :=
    ⟨fun clash => clash.mono there, fun clash => clash.mono back⟩
  rw [fits.unsatisfiable_eq_ok_iff settled sized, fits.unsatisfiable_eq_ok_iff settledToo small,
    breaks, contradicts]

/-- A join can be judged when both of its parts can. -/
theorem Catalog.Fits.unsatisfiable_join_ok_iff {memo : Memo} (settled : memo.Settled catalog sizes)
    {a b : Bound} (sized : a.Sized sizes) (small : b.Sized sizes) :
    (∃ answer, (catalog.unsatisfiable memo (a.join b)).2 = .ok answer) ↔
      (∃ answer, (catalog.unsatisfiable memo a).2 = .ok answer) ∧
        ∃ answer, (catalog.unsatisfiable memo b).2 = .ok answer := by
  have answers {bound : Bound} (fit : bound.Sized sizes) :
      (∃ answer, (catalog.unsatisfiable memo bound).2 = .ok answer) ↔
        ¬ catalog.Breaks bound.positive.members := by
    simp only [fits.unsatisfiable_eq_ok_iff settled fit, exists_and_left]
    classical exact and_iff_left ⟨decide (catalog.Contradicts bound), decide_eq_true_iff⟩
  rw [answers (sized.join small), answers sized, answers small, ← not_or]
  simp only [Catalog.breaks_iff_has, Bound.join, sized.1.has_union small.1, or_and_right, exists_or]

end

/-- The same members in any order, each of them any number of times, and the same anchor. -/
structure VarClass.Rearranges (left right : VarClass) : Prop where
  members : ∀ x, x ∈ left.members ↔ x ∈ right.members
  anchor : left.anchor = right.anchor

theorem joinBounds_rearranged {sizes : String → Nat} {bounds : BoundTable}
    (small : bounds.Sized sizes) {members others : List Int}
    (same : ∀ x, x ∈ members ↔ x ∈ others) {bound : Bound}
    (joined : joinBounds bounds .empty members = .bound bound) :
    ∃ other, joinBounds bounds .empty others = .bound other ∧ other.Sized sizes ∧
      bound.Within other ∧ other.Within bound := by
  have each := joinBounds_eq_bound_iff.mp ⟨bound, joined⟩
  simp only [same] at each
  obtain ⟨other, joinedToo⟩ := joinBounds_eq_bound_iff.mpr each
  obtain ⟨_, positive, negative⟩ := joinBounds_has small (.empty sizes) joined
  obtain ⟨fit, positiveToo, negativeToo⟩ := joinBounds_has small (.empty sizes) joinedToo
  simp only [same, ← positiveToo] at positive
  simp only [same, ← negativeToo] at negative
  exact ⟨other, joinedToo, fit, ⟨fun trait => (positive trait).mp, fun trait => (negative trait).mp⟩,
    ⟨fun trait => (positive trait).mpr, fun trait => (negative trait).mpr⟩⟩

theorem Catalog.judgeClasses_joined {catalog : Catalog} {bounds : BoundTable} {memo : Memo}
    {members : List Int} {bound : Bound} (joined : joinBounds bounds .empty members = .bound bound)
    (classes : List VarClass) :
    (catalog.judgeClasses bounds memo (⟨members, none⟩ :: classes)).result =
      match (catalog.unsatisfiable memo bound).2 with
      | .error error => .error error
      | .ok true => .ok .disjoint
      | .ok false =>
        (catalog.judgeClasses bounds (catalog.unsatisfiable memo bound).1 classes).result := by
  rw [Catalog.judgeClasses, joined]
  dsimp only
  rcases catalog.unsatisfiable memo bound with ⟨after, error | _ | _⟩ <;> rfl

/-- Classes rearranged give the same verdict or fail together. Which failure it is may change, since a
bound is closed in the order of its traits. -/
theorem Catalog.Fits.judgeClasses_rearranged {catalog : Catalog} {sizes : String → Nat}
    (fits : catalog.Fits sizes) {bounds : BoundTable} (small : bounds.Sized sizes)
    {classes others : List VarClass} (rearranged : List.Forall₂ VarClass.Rearranges classes others)
    (covers : ∀ varClass ∈ classes, bounds.Covers varClass.members)
    {memo memoToo : Memo} (settled : memo.Settled catalog sizes)
    (settledToo : memoToo.Settled catalog sizes) (verdict : Verdict) :
    (catalog.judgeClasses bounds memo classes).result = .ok verdict ↔
      (catalog.judgeClasses bounds memoToo others).result = .ok verdict := by
  induction rearranged generalizing memo memoToo with
  | nil => rfl
  | @cons first second classes others same _ ih =>
    obtain ⟨covered, later⟩ := List.forall_mem_cons.mp covers
    obtain ⟨members, anchor⟩ := first
    obtain ⟨membersToo, anchorToo⟩ := second
    obtain ⟨same, rfl⟩ := same
    cases anchor with
    | some anchor =>
      rw [Catalog.judgeClasses, Catalog.judgeClasses]
      exact ih later settled settledToo
    | none =>
      have coveredToo : bounds.Covers membersToo := fun x inside => covered x ((same x).mpr inside)
      cases joined : joinBounds bounds .empty members with
      | missing x => exact absurd joined (covered.joinBounds_ne_missing .empty x)
      | unbounded =>
        have joinedToo : joinBounds bounds .empty membersToo = .unbounded := by
          cases found : joinBounds bounds .empty membersToo with
          | missing x => exact absurd found (coveredToo.joinBounds_ne_missing .empty x)
          | unbounded => rfl
          | bound other =>
            obtain ⟨_, back, _⟩ := joinBounds_rearranged small (fun x => (same x).symm) found
            cases joined.symm.trans back
        rw [Catalog.judgeClasses, Catalog.judgeClasses, joined, joinedToo]
        exact ih later settled settledToo
      | bound bound =>
        have sized := (joinBounds_has small (.empty sizes) joined).1
        obtain ⟨other, joinedToo, fit, there, back⟩ := joinBounds_rearranged small same joined
        have agree := fits.unsatisfiable_congr settled settledToo sized fit there back
        -- What is remembered may differ from here on, but all of it is right on both sides.
        have next := (fits.unsatisfiable_reports settled sized).1
        have nextToo := (fits.unsatisfiable_reports settledToo fit).1
        rw [Catalog.judgeClasses_joined joined, Catalog.judgeClasses_joined joinedToo]
        cases here : (catalog.unsatisfiable memo bound).2 with
        | ok answer =>
          rw [(agree answer).mp here]
          cases answer with
          | true => rfl
          | false => exact ih later next nextToo
        | error error =>
          cases again : (catalog.unsatisfiable memoToo other).2 with
          | ok answer => cases here.symm.trans ((agree answer).mpr again)
          | error errorToo => simp only [reduceCtorEq]

/-- Where structs have fixed sizes, joining bounds is commutative, associative and idempotent, and the
empty bound changes nothing. Bounds that are the same contradict themselves alike, whatever was asked
before, and a contradiction stays when something is joined. So the bounds of a class can be joined in
any order. -/
theorem bounds_join_in_any_order (sizes : String → Nat) :
    SemilatticeUpTo (Bound.Sized sizes) Bound.same Bound.join .empty ∧
    ∀ catalog : Catalog, catalog.Fits sizes →
      (∀ memo other, catalog.Asked sizes memo → catalog.Asked sizes other →
        ∀ a b : Bound, a.Sized sizes → b.Sized sizes →
          (a.same b = true → ∀ answer, (catalog.unsatisfiable memo a).2 = .ok answer ↔
            (catalog.unsatisfiable other b).2 = .ok answer) ∧
          ((∃ answer, (catalog.unsatisfiable memo (a.join b)).2 = .ok answer) ↔
            (∃ answer, (catalog.unsatisfiable memo a).2 = .ok answer) ∧
              ∃ answer, (catalog.unsatisfiable memo b).2 = .ok answer) ∧
          ((catalog.unsatisfiable memo a).2 = .ok true → ∀ answer,
            (catalog.unsatisfiable other (a.join b)).2 = .ok answer → answer = true)) ∧
      ∀ first second left right σ, catalog.elaboratePair first second = .ok (left, right) →
        unifySchemes left right = some σ →
        ∀ classes, List.Forall₂ VarClass.Rearranges σ.classes classes → ∀ verdict,
          (catalog.compare first second).result = .ok verdict ↔
            (catalog.judgeClasses (left.bounds ++ right.bounds) [] classes).result = .ok verdict := by
  refine ⟨Bound.join_semilattice sizes, fun catalog fits => ⟨?_, ?_⟩⟩
  · intro memo other asked askedToo a b sized small
    have settled := asked.settled fits
    have settledToo := askedToo.settled fits
    refine ⟨fun same => ?_, fits.unsatisfiable_join_ok_iff settled sized small, ?_⟩
    · obtain ⟨there, back⟩ := sized.within_of_same small same
      exact fits.unsatisfiable_congr settled settledToo sized small there back
    · intro clash answer result
      have contradicts := ((fits.unsatisfiable_eq_ok_iff settled sized).mp clash).2.mp rfl
      have judged := (fits.unsatisfiable_eq_ok_iff settledToo (sized.join small)).mp result
      exact judged.2.mpr (contradicts.mono (sized.within_join small))
  · intro first second left right σ elaborated unified classes rearranged verdict
    obtain ⟨wellFormed, wellFormedToo⟩ := fits.elaboratePair elaborated
    have pair : WellFormedPair sizes left right := ⟨_, wellFormed, _, wellFormedToo⟩
    have fresh : Memo.Settled catalog sizes [] := .nil catalog sizes
    have covers := (wellFormed.unified wellFormedToo unified).covers pair
    simp only [Catalog.compare, elaborated, unified]
    exact fits.judgeClasses_rearranged pair.bounds_sized rearranged covers fresh fresh verdict

/-- `P: Copy` and `Q: - Clone` joined both ways, and a contradiction that outlasts a further bound. -/
theorem show_joins_in_any_order :
    let copied : Bound := ⟨.singleton ⟨"Copy", []⟩, .empty⟩
    let uncloned : Bound := ⟨.empty, .singleton ⟨"Clone", []⟩⟩
    let shown : Bound := ⟨.singleton ⟨"Show", []⟩, .empty⟩
    let both := copied.join uncloned
    (showCatalog.unsatisfiable [] copied).2 = .ok false ∧
      both.same (uncloned.join copied) = true ∧
      (showCatalog.unsatisfiable [] both).2 = .ok true ∧
      (showCatalog.unsatisfiable [] (uncloned.join copied)).2 = .ok true ∧
      (showCatalog.unsatisfiable [] (both.join shown)).2 = .ok true ∧
      (showCatalog.compare showCopied showUncloned).result = .ok .disjoint ∧
      (showCatalog.judgeClasses [(0, some copied), (1, some uncloned)] []
        [⟨[1, 0, 1], none⟩]).result = .ok .disjoint := by
  intro copied uncloned shown both
  have bare (name : String) : (TraitSet.singleton ⟨name, []⟩).Sized showCatalog.sizes :=
    List.forall_mem_singleton.mpr fun _ member => absurd member List.not_mem_nil
  have nothing := TraitSet.Sized.empty showCatalog.sizes
  have fitCopied : copied.Sized showCatalog.sizes := ⟨bare _, nothing⟩
  have fitUncloned : uncloned.Sized showCatalog.sizes := ⟨nothing, bare _⟩
  have fitShown : shown.Sized showCatalog.sizes := ⟨bare _, nothing⟩
  obtain ⟨laws, judged⟩ := bounds_join_in_any_order showCatalog.sizes
  obtain ⟨asked, ordered⟩ := judged showCatalog showCatalog.fits_sizes
  have fitBoth := laws.fits_join _ _ fitCopied fitUncloned
  have same := laws.comm _ _ fitCopied fitUncloned
  have clash : (showCatalog.unsatisfiable [] both).2 = .ok true := rfl
  have swapped := (asked [] [] .nothing .nothing _ _ fitBoth
    (laws.fits_join _ _ fitUncloned fitCopied)).1 same true
  obtain ⟨_, whole, stays⟩ := asked [] [] .nothing .nothing _ _ fitBoth fitShown
  obtain ⟨answer, result⟩ := whole.mpr ⟨⟨true, clash⟩, false, rfl⟩
  have compared : (showCatalog.compare showCopied showUncloned).result = .ok .disjoint := rfl
  have rearranged : VarClass.Rearranges ⟨[0, 1], none⟩ ⟨[1, 0, 1], none⟩ := by
    refine ⟨fun x => ?_, rfl⟩
    simp only [List.mem_cons, List.not_mem_nil, or_false]
    omega
  refine ⟨rfl, same, clash, swapped.mp clash, ?_, compared, ?_⟩
  · rw [result, stays clash answer result]
  · exact (ordered showCopied showUncloned _ _ _ rfl rfl _ (.cons rearranged .nil) _).mp compared

/-- Without fixed sizes it matters how three bounds are joined: `T<F>` agrees with both others, which
differ. -/
example :
    let bound (args : List Ty) : Bound := ⟨.singleton ⟨"T", [.ctor "F" args]⟩, .empty⟩
    let a := bound [.ctor "A" []]
    let b := bound [.ctor "B" []]
    ((a.join (bound [])).join b).same (a.join ((bound []).join b)) = false := rfl

end TraitCoherence
