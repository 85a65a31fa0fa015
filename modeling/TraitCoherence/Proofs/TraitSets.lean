import TraitCoherence.Bound
import TraitCoherence.Proofs.Sizes

namespace TraitCoherence

theorem TraitRef.Alike.symm {a b : TraitRef} (alike : a.Alike b) : b.Alike a := Eq.symm alike

theorem TraitRef.Alike.trans {a b c : TraitRef} (left : a.Alike b) (right : b.Alike c) : a.Alike c :=
  Eq.trans left right

/-- Every member fits `sizes`. -/
def TraitSet.Sized (sizes : String → Nat) (set : TraitSet) : Prop :=
  ∀ member ∈ set.members, member.Sized sizes

/-- Some member differs from the trait application in labels at most. -/
def TraitSet.Has (set : TraitSet) (trait : TraitRef) : Prop :=
  ∃ member ∈ set.members, member.Alike trait

theorem TraitSet.has_of_mem {set : TraitSet} {trait : TraitRef} (member : trait ∈ set.members) :
    set.Has trait :=
  ⟨trait, member, rfl⟩

theorem TraitSet.not_has_empty (trait : TraitRef) : ¬ TraitSet.empty.Has trait := by
  rintro ⟨member, inside, _⟩
  exact absurd inside List.not_mem_nil

theorem TraitSet.Sized.empty (sizes : String → Nat) : TraitSet.empty.Sized sizes :=
  fun _ member => absurd member List.not_mem_nil

theorem TraitSet.mem_of_mem_insert {set : TraitSet} {trait member : TraitRef}
    (inside : member ∈ (set.insert trait).members) : member ∈ set.members ∨ member = trait := by
  simp only [TraitSet.insert, addNew] at inside
  split at inside
  · exact Or.inl inside
  · exact (List.mem_append.mp inside).imp id List.mem_singleton.mp

theorem TraitSet.Sized.insert {sizes : String → Nat} {set : TraitSet} {trait : TraitRef}
    (sized : set.Sized sizes) (small : trait.Sized sizes) : (set.insert trait).Sized sizes := by
  intro member inside
  rcases TraitSet.mem_of_mem_insert inside with old | rfl
  · exact sized member old
  · exact small

/-- What is left out of a set because it agrees with a member is alike to that member, sizes being
fixed. -/
theorem TraitSet.Sized.has_insert {sizes : String → Nat} {set : TraitSet} {trait : TraitRef}
    (sized : set.Sized sizes) (small : trait.Sized sizes) {other : TraitRef} :
    (set.insert trait).Has other ↔ set.Has other ∨ trait.Alike other := by
  simp only [TraitSet.Has, TraitSet.insert, addNew]
  split
  · rename_i present
    obtain ⟨member, inside, agree⟩ := List.any_eq_true.mp present
    have alike := ((sized member inside).agrees_iff_alike small).mp agree
    exact ⟨Or.inl, fun has => has.elim id fun same => ⟨member, inside, alike.trans same⟩⟩
  · constructor
    · rintro ⟨member, inside, same⟩
      rcases List.mem_append.mp inside with old | new
      · exact Or.inl ⟨member, old, same⟩
      · exact Or.inr (List.mem_singleton.mp new ▸ same)
    · rintro (⟨member, old, same⟩ | same)
      · exact ⟨member, List.mem_append_left _ old, same⟩
      · exact ⟨trait, List.mem_append_right _ List.mem_cons_self, same⟩

theorem TraitSet.Sized.foldl_insert {sizes : String → Nat} {set : TraitSet} {traits : List TraitRef}
    (sized : set.Sized sizes) (small : ∀ trait ∈ traits, trait.Sized sizes) :
    (traits.foldl TraitSet.insert set).Sized sizes ∧
      ∀ other, (traits.foldl TraitSet.insert set).Has other ↔
        set.Has other ∨ ∃ trait ∈ traits, trait.Alike other := by
  induction traits generalizing set with
  | nil => exact ⟨sized, fun other => by simp⟩
  | cons trait traits ih =>
    have head := small trait List.mem_cons_self
    obtain ⟨rest, has⟩ := ih (sized.insert head)
      fun other member => small other (List.mem_cons_of_mem _ member)
    refine ⟨rest, fun other => ?_⟩
    rw [List.foldl_cons, has, sized.has_insert head, or_assoc]
    simp only [List.mem_cons, exists_eq_or_imp]

theorem TraitSet.Sized.union {sizes : String → Nat} {left right : TraitSet}
    (sized : left.Sized sizes) (small : right.Sized sizes) : (left.union right).Sized sizes :=
  (sized.foldl_insert small).1

theorem TraitSet.Sized.has_union {sizes : String → Nat} {left right : TraitSet}
    (sized : left.Sized sizes) (small : right.Sized sizes) {trait : TraitRef} :
    (left.union right).Has trait ↔ left.Has trait ∨ right.Has trait :=
  (sized.foldl_insert small).2 trait

theorem TraitSet.mem_of_mem_foldl {set : TraitSet} {traits : List TraitRef} {trait : TraitRef}
    (member : trait ∈ (traits.foldl TraitSet.insert set).members) :
    trait ∈ set.members ∨ trait ∈ traits := by
  induction traits generalizing set with
  | nil => exact Or.inl member
  | cons head traits ih =>
    rcases ih member with inserted | later
    · rcases TraitSet.mem_of_mem_insert inserted with old | rfl
      · exact Or.inl old
      · exact Or.inr List.mem_cons_self
    · exact Or.inr (List.mem_cons_of_mem _ later)

theorem TraitSet.mem_of_mem_ofList {traits : List TraitRef} {trait : TraitRef}
    (member : trait ∈ (TraitSet.ofList traits).members) : trait ∈ traits :=
  (TraitSet.mem_of_mem_foldl member).resolve_left List.not_mem_nil

theorem TraitSet.Sized.meets_iff {sizes : String → Nat} {left right : TraitSet}
    (sized : left.Sized sizes) (small : right.Sized sizes) :
    left.meets right = true ↔ ∃ trait ∈ right.members, left.Has trait := by
  simp only [TraitSet.meets, TraitSet.contains, TraitSet.Has, List.any_eq_true]
  constructor
  · rintro ⟨member, inside, trait, forbidden, agree⟩
    have alike := ((small trait forbidden).agrees_iff_alike (sized member inside)).mp agree
    exact ⟨trait, forbidden, member, inside, alike.symm⟩
  · rintro ⟨trait, forbidden, member, inside, alike⟩
    have agree := ((small trait forbidden).agrees_iff_alike (sized member inside)).mpr alike.symm
    exact ⟨member, inside, trait, forbidden, agree⟩

/-- Both parts of a bound fit `sizes`. -/
def Bound.Sized (sizes : String → Nat) (bound : Bound) : Prop :=
  bound.positive.Sized sizes ∧ bound.negative.Sized sizes

theorem Bound.Sized.empty (sizes : String → Nat) : Bound.empty.Sized sizes :=
  ⟨.empty sizes, .empty sizes⟩

theorem Bound.Sized.join {sizes : String → Nat} {left right : Bound} (sized : left.Sized sizes)
    (small : right.Sized sizes) : (left.join right).Sized sizes :=
  ⟨sized.1.union small.1, sized.2.union small.2⟩

end TraitCoherence
