import TraitCoherence.Proofs.MemoisedClosure
import TraitCoherence.Proofs.Schemes

namespace TraitCoherence

theorem lookup_eq_some_of_mem {α : Type} {entries : List (Int × α)}
    (distinct : (entries.map (·.1)).Nodup) {x : Int} {value : α} (member : (x, value) ∈ entries) :
    entries.lookup x = some value := by
  induction entries with
  | nil => exact absurd member List.not_mem_nil
  | cons entry entries ih =>
    rw [List.map_cons, List.nodup_cons] at distinct
    rcases List.mem_cons.mp member with rfl | later
    · exact List.lookup_cons_self
    · have differ : (x == entry.1) = false :=
        beq_false_of_ne fun same => distinct.1 (List.mem_map.mpr ⟨_, later, same⟩)
      rw [List.lookup_cons, differ]
      exact ih distinct.2 later

theorem joinBounds_eq_bound_iff {bounds : BoundTable} {sofar : Bound} {members : List Int} :
    (∃ bound, joinBounds bounds sofar members = .bound bound) ↔
      ∀ x ∈ members, ∃ bound, bounds.lookup x = some (some bound) := by
  induction members generalizing sofar with
  | nil => exact ⟨fun _ x member => absurd member List.not_mem_nil, fun _ => ⟨sofar, rfl⟩⟩
  | cons x members ih =>
    rw [joinBounds, List.forall_mem_cons]
    match bounds.lookup x with
    | none => simp
    | some none => simp
    | some (some bound) => simpa using ih

/-- A table that has an entry for every variable in question. -/
def BoundTable.Covers (bounds : BoundTable) (members : List Int) : Prop :=
  ∀ x ∈ members, ∃ entry, bounds.lookup x = some entry

theorem BoundTable.Covers.joinBounds_ne_missing {bounds : BoundTable} {members : List Int}
    (covers : bounds.Covers members) (sofar : Bound) (x : Int) :
    joinBounds bounds sofar members ≠ .missing x := by
  induction members generalizing sofar with
  | nil => nofun
  | cons y members ih =>
    obtain ⟨⟨entry, found⟩, later⟩ := List.forall_mem_cons.mp covers
    rw [joinBounds, found]
    cases entry with
    | none => nofun
    | some bound => exact ih later (sofar.join bound)

/-- A joined bound has what the bounds of the members have, and nothing else. -/
theorem joinBounds_has {sizes : String → Nat} {bounds : BoundTable} (small : bounds.Sized sizes)
    {sofar bound : Bound} (sized : sofar.Sized sizes) {members : List Int}
    (joined : joinBounds bounds sofar members = .bound bound) :
    bound.Sized sizes ∧
      (∀ trait, bound.positive.Has trait ↔ sofar.positive.Has trait ∨
        ∃ x ∈ members, ∃ own, bounds.lookup x = some (some own) ∧ own.positive.Has trait) ∧
      ∀ trait, bound.negative.Has trait ↔ sofar.negative.Has trait ∨
        ∃ x ∈ members, ∃ own, bounds.lookup x = some (some own) ∧ own.negative.Has trait := by
  induction members generalizing sofar with
  | nil =>
    cases joined
    exact ⟨sized, fun trait => by simp, fun trait => by simp⟩
  | cons x members ih =>
    rw [joinBounds] at joined
    split at joined
    · cases joined
    · cases joined
    · rename_i own found
      have ownSized := small x own (mem_of_lookup_eq_some found)
      obtain ⟨whole, positive, negative⟩ := ih (sized.join ownSized) joined
      refine ⟨whole, fun trait => ?_, fun trait => ?_⟩
      · rw [positive, Bound.join, sized.1.has_union ownSized.1, or_assoc]
        simp only [List.mem_cons, exists_eq_or_imp, found, Option.some.injEq, exists_eq_left']
      · rw [negative, Bound.join, sized.2.has_union ownSized.2, or_assoc]
        simp only [List.mem_cons, exists_eq_or_imp, found, Option.some.injEq, exists_eq_left']

/-- A joined bound contradicts itself when one of its members demands what another, or the same,
forbids. Which of several traits alike the join keeps makes no difference. -/
theorem joinBounds_contradicts_iff {catalog : Catalog} {sizes : String → Nat} {bounds : BoundTable}
    (small : bounds.Sized sizes) {bound : Bound} {members : List Int}
    (joined : joinBounds bounds .empty members = .bound bound) :
    catalog.Contradicts bound ↔ ∃ demanded forbidden,
      (∃ x ∈ members, ∃ own, bounds.lookup x = some (some own) ∧ demanded ∈ own.positive.members) ∧
      (∃ x ∈ members, ∃ own, bounds.lookup x = some (some own) ∧ forbidden ∈ own.negative.members) ∧
      catalog.Entails demanded forbidden := by
  obtain ⟨_, positive, negative⟩ := joinBounds_has small (.empty sizes) joined
  have demands (trait : TraitRef) :=
    (positive trait).trans (or_iff_right (TraitSet.not_has_empty trait))
  have forbids (trait : TraitRef) :=
    (negative trait).trans (or_iff_right (TraitSet.not_has_empty trait))
  constructor
  · rintro ⟨demanded, member, forbidden, memberToo, entails⟩
    obtain ⟨x, inside, own, found, source, sourceMember, same⟩ :=
      (demands demanded).mp (TraitSet.has_of_mem member)
    obtain ⟨y, insideToo, ownToo, foundToo, target, targetMember, sameToo⟩ :=
      (forbids forbidden).mp (TraitSet.has_of_mem memberToo)
    exact ⟨source, target, ⟨x, inside, own, found, sourceMember⟩,
      ⟨y, insideToo, ownToo, foundToo, targetMember⟩, entails.alike same.symm sameToo.symm⟩
  · rintro ⟨demanded, forbidden, ⟨x, inside, own, found, member⟩,
      ⟨y, insideToo, ownToo, foundToo, memberToo⟩, entails⟩
    obtain ⟨source, sourceMember, same⟩ :=
      (demands demanded).mpr ⟨x, inside, own, found, TraitSet.has_of_mem member⟩
    obtain ⟨target, targetMember, sameToo⟩ :=
      (forbids forbidden).mpr ⟨y, insideToo, ownToo, foundToo, TraitSet.has_of_mem memberToo⟩
    exact ⟨source, sourceMember, target, targetMember, entails.alike same.symm sameToo.symm⟩

/-- No anchor, no member without a bound, and a joined bound that contradicts itself. -/
def Catalog.Refutes (catalog : Catalog) (bounds : BoundTable) (varClass : VarClass) : Prop :=
  varClass.anchor = none ∧
    ∃ bound, joinBounds bounds .empty varClass.members = .bound bound ∧ catalog.Contradicts bound

/-- A judgment that is reached says whether some class is refuted, although the search ends at the
first of them. -/
theorem Catalog.Fits.judgeClasses {catalog : Catalog} {sizes : String → Nat}
    (fits : catalog.Fits sizes) {bounds : BoundTable} (small : bounds.Sized sizes) {memo : Memo}
    (sound : memo.Sound catalog sizes) {classes : List VarClass} {verdict : Verdict}
    (judged : (catalog.judgeClasses bounds memo classes).result = .ok verdict) :
    verdict = .disjoint ↔ ∃ varClass ∈ classes, catalog.Refutes bounds varClass := by
  induction classes generalizing memo with
  | nil =>
    cases judged
    exact ⟨nofun, fun ⟨_, member, _⟩ => absurd member List.not_mem_nil⟩
  | cons first classes ih =>
    have skip (irrefutable : ¬ catalog.Refutes bounds first) :
        (∃ varClass ∈ first :: classes, catalog.Refutes bounds varClass) ↔
          ∃ varClass ∈ classes, catalog.Refutes bounds varClass := by
      simp only [List.mem_cons, exists_eq_or_imp, irrefutable, false_or]
    obtain ⟨members, anchor⟩ := first
    cases anchor with
    | some anchor =>
      rw [Catalog.judgeClasses, Traced.after] at judged
      rw [skip fun refuted => absurd refuted.1 nofun]
      exact ih sound judged
    | none =>
      rw [Catalog.judgeClasses] at judged
      cases joined : joinBounds bounds .empty members with
      | missing x =>
        rw [joined] at judged
        cases judged
      | unbounded =>
        simp only [joined, Traced.after] at judged
        rw [skip]
        · exact ih sound judged
        · rintro ⟨_, bound, found, _⟩
          exact absurd (joined.symm.trans found) nofun
      | bound bound =>
        have sized := (joinBounds_has small (.empty sizes) joined).1
        obtain ⟨next, right⟩ := fits.unsatisfiable sound sized
        simp only [joined] at judged
        split at judged
        · cases judged
        · rename_i after outcome
          cases judged
          refine ⟨fun _ => ⟨_, List.mem_cons_self, rfl, bound, joined, ?_⟩, fun _ => rfl⟩
          exact (right true (by rw [outcome])).mp rfl
        · rename_i after outcome
          rw [outcome] at next right
          rw [skip]
          · exact ih next judged
          · rintro ⟨_, other, found, contradicts⟩
            cases joined.symm.trans found
            exact absurd ((right false rfl).mpr contradicts) Bool.false_ne_true

end TraitCoherence
