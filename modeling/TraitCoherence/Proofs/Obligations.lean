import Mathlib.Logic.Relation
import TraitCoherence.Closure
import TraitCoherence.Proofs.Scoping
import TraitCoherence.Proofs.TraitSets

namespace TraitCoherence

/-- A supertrait that is named by the declaration of a trait, with its arguments filled in. -/
def Catalog.Supertrait (catalog : Catalog) (trait supertrait : TraitRef) : Prop :=
  ∃ supertraits, catalog.supertraits trait = .ok supertraits ∧ supertrait ∈ supertraits

/-- What implementing a trait obliges to: itself and, link by link, its supertraits. -/
def Catalog.Obliges (catalog : Catalog) : TraitRef → TraitRef → Prop :=
  Relation.ReflTransGen catalog.Supertrait

theorem Catalog.Resembles.supertraits {catalog other : Catalog} (same : catalog.Resembles other)
    (f : Int → String → Ty) (trait : TraitRef) :
    other.supertraits (trait.substitute f) =
      (catalog.supertraits trait).map (List.map (TraitRef.substitute f)) := by
  rw [Catalog.supertraits, Catalog.supertraits, same.traits]
  simp only [TraitRef.substitute]
  cases catalog.traits.get? trait.name with
  | none => rfl
  | some decl =>
    have scope : ((decl.params.map (·.name.text)).zip (trait.args.map (Ty.substitute f))).reverse =
        Scope.substitute f ((decl.params.map (·.name.text)).zip trait.args).reverse := by
      rw [Scope.substitute, List.map_reverse, List.zip_map_right]
      rfl
    simp only [scope]
    exact same.elaborateTraits f _ decl.demands

theorem Catalog.Resembles.supertrait {catalog other : Catalog} (same : catalog.Resembles other)
    {trait supertrait : TraitRef} (step : catalog.Supertrait trait supertrait)
    (f : Int → String → Ty) :
    other.Supertrait (trait.substitute f) (supertrait.substitute f) := by
  obtain ⟨supertraits, found, member⟩ := step
  refine ⟨supertraits.map (TraitRef.substitute f), ?_, List.mem_map_of_mem member⟩
  rw [same.supertraits, found]
  rfl

theorem Catalog.Resembles.obliges {catalog other : Catalog} (same : catalog.Resembles other)
    {trait image : TraitRef} (obliges : catalog.Obliges trait image) (f : Int → String → Ty) :
    other.Obliges (trait.substitute f) (image.substitute f) := by
  induction obliges with
  | refl => exact .refl
  | tail _ step ih => exact .tail ih (same.supertrait step f)

/-- Labels play no part in what a trait obliges to. -/
theorem Catalog.Supertrait.alike {catalog : Catalog} {a b supertrait : TraitRef}
    (step : catalog.Supertrait a supertrait) (alike : a.Alike b) :
    ∃ other, catalog.Supertrait b other ∧ supertrait.Alike other := by
  obtain ⟨supertraits, found, member⟩ := step
  have left := (Catalog.Resembles.refl catalog).supertraits (fun x _ => .var x "") a
  have right := (Catalog.Resembles.refl catalog).supertraits (fun x _ => .var x "") b
  have same : a.substitute (fun x _ => .var x "") = b.substitute fun x _ => .var x "" := alike
  rw [← same, left, found] at right
  cases atB : catalog.supertraits b with
  | error error =>
    rw [atB] at right
    exact absurd right nofun
  | ok others =>
    rw [atB] at right
    have images : supertraits.map TraitRef.unlabeled = others.map TraitRef.unlabeled :=
      Except.ok.inj right
    have image : supertrait.unlabeled ∈ others.map TraitRef.unlabeled :=
      images ▸ List.mem_map_of_mem member
    obtain ⟨other, inside, alikeToo⟩ := List.mem_map.mp image
    exact ⟨other, ⟨others, atB, inside⟩, alikeToo.symm⟩

theorem Catalog.Obliges.alike {catalog : Catalog} {a b other : TraitRef}
    (obliges : catalog.Obliges a other) (alike : a.Alike b) :
    ∃ image, catalog.Obliges b image ∧ other.Alike image := by
  induction obliges with
  | refl => exact ⟨b, .refl, alike⟩
  | tail _ step ih =>
    obtain ⟨middle, reached, same⟩ := ih
    obtain ⟨image, last, sameToo⟩ := step.alike same
    exact ⟨image, .tail reached last, sameToo⟩

/-- What implements the first trait implements the second, which may differ in labels from what the
first obliges to. -/
def Catalog.Entails (catalog : Catalog) (trait other : TraitRef) : Prop :=
  ∃ image, catalog.Obliges trait image ∧ image.Alike other

theorem Catalog.Entails.alike {catalog : Catalog} {a b c d : TraitRef} (entails : catalog.Entails a b)
    (left : a.Alike c) (right : b.Alike d) : catalog.Entails c d := by
  obtain ⟨image, obliges, same⟩ := entails
  obtain ⟨reached, obligesToo, sameToo⟩ := obliges.alike left
  exact ⟨reached, obligesToo, sameToo.symm.trans (same.trans right)⟩

/-- An instance of an entailment is one. Where instantiating gives back traits that were there before,
they entailed each other already. -/
theorem Catalog.Entails.undo {catalog : Catalog} {trait other source sink : TraitRef} {θ : Int → Ty}
    (entails : catalog.Entails trait other) (restored : trait.instantiate θ = source.unlabeled)
    (restoredToo : other.instantiate θ = sink.unlabeled) : catalog.Entails source sink := by
  obtain ⟨image, obliges, alike⟩ := entails
  have instances := (Catalog.Resembles.refl catalog).obliges obliges fun x _ => θ x
  rw [← TraitRef.instantiate, ← TraitRef.instantiate, restored, alike.instantiate_eq,
    restoredToo] at instances
  have unlabeled : catalog.Entails source.unlabeled sink.unlabeled := ⟨_, instances, rfl⟩
  exact unlabeled.alike (TraitRef.instantiate_unlabeled _ source)
    (TraitRef.instantiate_unlabeled _ sink)

theorem Catalog.entails_iff {catalog : Catalog} {trait other : TraitRef}
    {supertraits : List TraitRef} (found : catalog.supertraits trait = .ok supertraits) :
    catalog.Entails trait other ↔
      trait.Alike other ∨ ∃ supertrait ∈ supertraits, catalog.Entails supertrait other := by
  constructor
  · rintro ⟨image, obliges, alike⟩
    rcases obliges.cases_head with rfl | ⟨supertrait, ⟨others, foundToo, member⟩, rest⟩
    · exact Or.inl alike
    · cases found.symm.trans foundToo
      exact Or.inr ⟨supertrait, member, image, rest, alike⟩
  · rintro (alike | ⟨supertrait, member, image, rest, alike⟩)
    · exact ⟨trait, .refl, alike⟩
    · exact ⟨image, .head ⟨supertraits, found, member⟩ rest, alike⟩

theorem Catalog.Fits.supertrait {catalog : Catalog} {sizes : String → Nat}
    (fits : catalog.Fits sizes) {trait supertrait : TraitRef} (sized : trait.Sized sizes)
    (step : catalog.Supertrait trait supertrait) : supertrait.Sized sizes := by
  obtain ⟨supertraits, found, member⟩ := step
  rw [Catalog.supertraits] at found
  split at found
  · exact absurd found nofun
  · obtain ⟨expr, _, elaborated⟩ := Catalog.elaborateTraits_ok found supertrait member
    refine fits.elaborateTrait (fun entry inScope => ?_) elaborated
    exact sized entry.2 (List.of_mem_zip (List.mem_reverse.mp inScope)).2

end TraitCoherence
