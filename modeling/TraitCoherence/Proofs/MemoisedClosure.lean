import TraitCoherence.Proofs.Obligations

namespace TraitCoherence

/-- The set holds, labels aside, exactly what the trait entails. -/
structure Catalog.IsClosure (catalog : Catalog) (sizes : String → Nat) (trait : TraitRef)
    (closure : TraitSet) : Prop where
  sized : closure.Sized sizes
  has_iff : ∀ other, closure.Has other ↔ catalog.Entails trait other

/-- Every remembered closure is the closure of the trait application it is remembered for. -/
def Memo.Sound (catalog : Catalog) (sizes : String → Nat) (memo : Memo) : Prop :=
  ∀ entry ∈ memo, entry.1.Sized sizes ∧ catalog.IsClosure sizes entry.1 entry.2

theorem Memo.Sound.nil (catalog : Catalog) (sizes : String → Nat) : Memo.Sound catalog sizes [] :=
  fun _ member => absurd member List.not_mem_nil

theorem Catalog.IsClosure.alike {catalog : Catalog} {sizes : String → Nat} {a b : TraitRef}
    {closure : TraitSet} (isClosure : catalog.IsClosure sizes a closure) (alike : a.Alike b) :
    catalog.IsClosure sizes b closure := by
  refine ⟨isClosure.sized, fun other => (isClosure.has_iff other).trans ?_⟩
  exact ⟨fun entails => entails.alike alike rfl, fun entails => entails.alike alike.symm rfl⟩

/-- Agreement finds what was remembered for a trait application that is alike. -/
theorem Memo.Sound.mem_of_get? {catalog : Catalog} {sizes : String → Nat} {memo : Memo}
    (sound : memo.Sound catalog sizes) {trait : TraitRef} (small : trait.Sized sizes)
    {closure : TraitSet} (found : memo.get? trait = some closure) :
    ∃ known, (known, closure) ∈ memo ∧ known.Alike trait := by
  obtain ⟨entry, first, rfl⟩ := Option.map_eq_some_iff.mp found
  have member := List.mem_of_find?_eq_some first
  have agree := List.find?_some first
  exact ⟨entry.1, member, ((sound entry member).1.agrees_iff_alike small).mp agree⟩

theorem Memo.Sound.get? {catalog : Catalog} {sizes : String → Nat} {memo : Memo}
    (sound : memo.Sound catalog sizes) {trait : TraitRef} (small : trait.Sized sizes)
    {closure : TraitSet} (found : memo.get? trait = some closure) :
    catalog.IsClosure sizes trait closure := by
  obtain ⟨known, member, alike⟩ := sound.mem_of_get? small found
  exact (sound _ member).2.alike alike

theorem Memo.Sound.append {catalog : Catalog} {sizes : String → Nat} {memo : Memo}
    (sound : memo.Sound catalog sizes) {trait : TraitRef} (small : trait.Sized sizes)
    {closure : TraitSet} (isClosure : catalog.IsClosure sizes trait closure) :
    Memo.Sound catalog sizes (memo ++ [(trait, closure)]) := by
  intro entry member
  rcases List.mem_append.mp member with old | new
  · exact sound entry old
  · rw [List.mem_singleton.mp new]
    exact ⟨small, isClosure⟩

/-- Queries keep the memory sound, whether they succeed or not, and what they answer is right. -/
def AnswersClosures (catalog : Catalog) (sizes : String → Nat)
    (close : Memo → TraitRef → Memo × Except CheckError TraitSet) : Prop :=
  ∀ memo trait, memo.Sound catalog sizes → trait.Sized sizes →
    (close memo trait).1.Sound catalog sizes ∧
      ∀ closure, (close memo trait).2 = .ok closure → catalog.IsClosure sizes trait closure

theorem AnswersClosures.gather {catalog : Catalog} {sizes : String → Nat}
    {close : Memo → TraitRef → Memo × Except CheckError TraitSet}
    (answers : AnswersClosures catalog sizes close) {memo : Memo}
    (sound : memo.Sound catalog sizes) {sofar : TraitSet} (sized : sofar.Sized sizes)
    {traits : List TraitRef} (small : ∀ trait ∈ traits, trait.Sized sizes) :
    (gather close memo sofar traits).1.Sound catalog sizes ∧
      ∀ set, (gather close memo sofar traits).2 = .ok set → set.Sized sizes ∧
        ∀ other, set.Has other ↔ sofar.Has other ∨
          ∃ trait ∈ traits, catalog.Entails trait other := by
  induction traits generalizing memo sofar with
  | nil =>
    refine ⟨sound, fun set result => ?_⟩
    cases result
    exact ⟨sized, fun other => by simp⟩
  | cons trait traits ih =>
    obtain ⟨next, right⟩ := answers memo trait sound (small trait List.mem_cons_self)
    rw [TraitCoherence.gather]
    split
    · rename_i after error outcome
      rw [outcome] at next
      exact ⟨next, nofun⟩
    · rename_i after closure outcome
      rw [outcome] at next right
      have here := right closure rfl
      obtain ⟨last, rest⟩ := ih next (sized.union here.sized)
        fun other member => small other (List.mem_cons_of_mem _ member)
      refine ⟨last, fun set result => ?_⟩
      obtain ⟨setSized, has⟩ := rest set result
      refine ⟨setSized, fun other => ?_⟩
      rw [has, sized.has_union here.sized, here.has_iff, or_assoc]
      simp only [List.mem_cons, exists_eq_or_imp]

theorem TraitSet.has_singleton {trait other : TraitRef} :
    (TraitSet.singleton trait).Has other ↔ trait.Alike other := by
  simp only [TraitSet.Has, TraitSet.singleton, List.mem_singleton, exists_eq_left]

theorem Catalog.Fits.closeWithin {catalog : Catalog} {sizes : String → Nat}
    (fits : catalog.Fits sizes) (depth : Nat) :
    AnswersClosures catalog sizes (catalog.closeWithin depth) := by
  induction depth with
  | zero => exact fun memo trait sound _ => ⟨sound, nofun⟩
  | succ depth ih =>
    intro memo trait sound small
    rw [Catalog.closeWithin]
    split
    · rename_i closure found
      refine ⟨sound, fun result same => ?_⟩
      cases same
      exact sound.get? small found
    · split
      · exact ⟨sound, nofun⟩
      · rename_i supertraits found
        have single : (TraitSet.singleton trait).Sized sizes :=
          fun member inside => List.mem_singleton.mp inside ▸ small
        obtain ⟨next, right⟩ := ih.gather sound single
          fun supertrait member => fits.supertrait small ⟨supertraits, found, member⟩
        split
        · -- A failure keeps what was remembered on the way to it.
          rename_i after error outcome
          rw [outcome] at next
          exact ⟨next, nofun⟩
        · rename_i after closure outcome
          rw [outcome] at next right
          obtain ⟨sized, has⟩ := right closure rfl
          have isClosure : catalog.IsClosure sizes trait closure := by
            refine ⟨sized, fun other => ?_⟩
            rw [has, TraitSet.has_singleton, Catalog.entails_iff found]
          refine ⟨next.append small isClosure, fun result same => ?_⟩
          cases same
          exact isClosure

theorem Catalog.Fits.closure {catalog : Catalog} {sizes : String → Nat} (fits : catalog.Fits sizes) :
    AnswersClosures catalog sizes catalog.closure :=
  fits.closeWithin (catalog.traits.entries.length + 1)

theorem Catalog.Fits.implied {catalog : Catalog} {sizes : String → Nat} (fits : catalog.Fits sizes)
    {memo : Memo} (sound : memo.Sound catalog sizes) {bound : Bound} (small : bound.Sized sizes) :
    (catalog.implied memo bound).1.Sound catalog sizes ∧
      ∀ set, (catalog.implied memo bound).2 = .ok set → set.Sized sizes ∧
        ∀ other, set.Has other ↔ ∃ trait ∈ bound.positive.members, catalog.Entails trait other := by
  obtain ⟨next, right⟩ := fits.closure.gather sound (.empty sizes) small.1
  refine ⟨next, fun set result => ?_⟩
  obtain ⟨sized, has⟩ := right set result
  exact ⟨sized, fun other => (has other).trans (or_iff_right (TraitSet.not_has_empty other))⟩

/-- A bound demands something that entails what it forbids. -/
def Catalog.Contradicts (catalog : Catalog) (bound : Bound) : Prop :=
  ∃ demanded ∈ bound.positive.members, ∃ forbidden ∈ bound.negative.members,
    catalog.Entails demanded forbidden

theorem Catalog.Fits.unsatisfiable {catalog : Catalog} {sizes : String → Nat}
    (fits : catalog.Fits sizes) {memo : Memo} (sound : memo.Sound catalog sizes) {bound : Bound}
    (small : bound.Sized sizes) :
    (catalog.unsatisfiable memo bound).1.Sound catalog sizes ∧
      ∀ answer, (catalog.unsatisfiable memo bound).2 = .ok answer →
        (answer = true ↔ catalog.Contradicts bound) := by
  obtain ⟨next, right⟩ := fits.implied sound small
  rw [Catalog.unsatisfiable]
  split
  · rename_i after error outcome
    rw [outcome] at next
    exact ⟨next, nofun⟩
  · rename_i after implied outcome
    rw [outcome] at next right
    refine ⟨next, fun answer same => ?_⟩
    cases same
    obtain ⟨sized, has⟩ := right implied rfl
    rw [sized.meets_iff small.2]
    constructor
    · rintro ⟨forbidden, member, inside⟩
      obtain ⟨demanded, positive, entails⟩ := (has forbidden).mp inside
      exact ⟨demanded, positive, forbidden, member, entails⟩
    · rintro ⟨demanded, positive, forbidden, member, entails⟩
      exact ⟨forbidden, member, (has forbidden).mpr ⟨demanded, positive, entails⟩⟩

end TraitCoherence
