import TraitCoherence.Proofs.Circularity
import TraitCoherence.Proofs.Obligations

namespace TraitCoherence

theorem Catalog.no_path_home (catalog : Catalog) (name : String) :
    ¬ (supertraitGraph catalog.traits).Path name name :=
  (supertraitGraph_proper catalog.traits).acyclic_of_circle? catalog.acyclic name

theorem Catalog.Supertrait.names {catalog : Catalog} {trait supertrait : TraitRef}
    (step : catalog.Supertrait trait supertrait) :
    trait.name ∈ catalog.traits.names ∧ (supertrait.name ∈ catalog.traits.names →
      (supertraitGraph catalog.traits).Edge trait.name supertrait.name) := by
  obtain ⟨supertraits, found, member⟩ := step
  rw [Catalog.supertraits] at found
  split at found
  · cases found
  · rename_i decl declared
    obtain ⟨expr, demanded, elaborated⟩ := Catalog.elaborateTraits_ok found supertrait member
    obtain ⟨types, _, rfl⟩ := Catalog.elaborateTrait_ok elaborated
    refine ⟨Table.mem_names_iff.mpr ⟨decl, declared⟩, fun named => ?_⟩
    exact supertraitGraph_edge.mpr ⟨named, decl, declared, expr, demanded, rfl⟩

/-- A chain of supertraits is a path of names, but for a last name that is not declared. -/
theorem Catalog.path_of_supertraits {catalog : Catalog} {trait last : TraitRef}
    (chain : Relation.TransGen catalog.Supertrait trait last) :
    trait.name ∈ catalog.traits.names ∧ (last.name ∈ catalog.traits.names →
      (supertraitGraph catalog.traits).Path trait.name last.name) := by
  induction chain with
  | single step => exact ⟨step.names.1, fun named => .single (step.names.2 named)⟩
  | tail _ step ih =>
    exact ⟨ih.1, fun named => .tail (ih.2 step.names.1) (step.names.2 named)⟩

theorem Catalog.name_ne_of_supertraits {catalog : Catalog} {trait last : TraitRef}
    (chain : Relation.TransGen catalog.Supertrait trait last) : trait.name ≠ last.name := by
  intro same
  obtain ⟨named, path⟩ := Catalog.path_of_supertraits chain
  have home := path (same ▸ named)
  rw [← same] at home
  exact catalog.no_path_home trait.name home

/-- Traits of which each is followed by one of its supertraits. -/
def Catalog.Chain (catalog : Catalog) (traits : List TraitRef) : Prop :=
  traits.IsChain catalog.Supertrait

theorem Catalog.Chain.pairwise {catalog : Catalog} {traits : List TraitRef}
    (chain : catalog.Chain traits) : traits.Pairwise (Relation.TransGen catalog.Supertrait) := by
  have links : traits.IsChain (Relation.TransGen catalog.Supertrait) :=
    List.IsChain.imp (fun _ _ step => .single step) chain
  exact links.pairwise

theorem Catalog.Chain.nodup {catalog : Catalog} {traits : List TraitRef}
    (chain : catalog.Chain traits) : (traits.map (·.name)).Nodup := by
  rw [List.Nodup, List.pairwise_map]
  exact chain.pairwise.imp Catalog.name_ne_of_supertraits

theorem Catalog.Chain.declared {catalog : Catalog} {traits : List TraitRef}
    (chain : catalog.Chain traits) :
    ∀ trait ∈ traits.dropLast, trait.name ∈ catalog.traits.names := by
  intro trait member
  have nonempty : traits ≠ [] := by
    rintro rfl
    exact absurd member List.not_mem_nil
  have ordered := chain.pairwise
  rw [← List.dropLast_concat_getLast nonempty, List.pairwise_append] at ordered
  have links := ordered.2.2 trait member _ (List.mem_singleton_self _)
  exact (Catalog.path_of_supertraits links).1

theorem Catalog.Chain.length_le {catalog : Catalog} {traits : List TraitRef}
    (chain : catalog.Chain traits) :
    traits.length ≤ catalog.traits.names.toFinset.card + 1 := by
  have front : (traits.dropLast.map (·.name)).toFinset ⊆ catalog.traits.names.toFinset := by
    intro name member
    obtain ⟨trait, inside, rfl⟩ := List.mem_map.mp (List.mem_toFinset.mp member)
    exact List.mem_toFinset.mpr (chain.declared trait inside)
  have distinct : (traits.dropLast.map (·.name)).Nodup :=
    chain.nodup.sublist ((List.dropLast_sublist traits).map _)
  have few := Finset.card_le_card front
  rw [List.toFinset_card_of_nodup distinct, List.length_map, List.length_dropLast] at few
  omega

/-- Supertraits of supertraits come to an end after so many traits. -/
def Catalog.Shallow (catalog : Catalog) (depth : Nat) (trait : TraitRef) : Prop :=
  ∀ traits, catalog.Chain (trait :: traits) → (trait :: traits).length ≤ depth

theorem Catalog.Shallow.supertrait {catalog : Catalog} {depth : Nat} {trait supertrait : TraitRef}
    (shallow : catalog.Shallow (depth + 1) trait) (step : catalog.Supertrait trait supertrait) :
    catalog.Shallow depth supertrait := by
  intro traits chain
  have longer := shallow (supertrait :: traits) (List.isChain_cons_cons.mpr ⟨step, chain⟩)
  exact Nat.le_of_succ_le_succ longer

theorem Catalog.Shallow.positive {catalog : Catalog} {depth : Nat} {trait : TraitRef}
    (shallow : catalog.Shallow depth trait) : 0 < depth :=
  shallow [] (.singleton trait)

theorem Catalog.shallow (catalog : Catalog) (trait : TraitRef) :
    catalog.Shallow (catalog.traits.names.toFinset.card + 1) trait :=
  fun _ chain => chain.length_le

/-- What passes from the supertraits of a trait to the trait holds of every trait. -/
theorem Catalog.supertrait_induction (catalog : Catalog) {motive : TraitRef → Prop}
    (step : ∀ trait, (∀ supertrait, catalog.Supertrait trait supertrait → motive supertrait) →
      motive trait) (trait : TraitRef) : motive trait := by
  have within (depth : Nat) (trait : TraitRef) (shallow : catalog.Shallow depth trait) :
      motive trait := by
    induction depth generalizing trait with
    | zero => exact absurd shallow.positive (Nat.lt_irrefl 0)
    | succ depth ih => exact step trait fun supertrait link => ih _ (shallow.supertrait link)
  exact within _ trait (catalog.shallow trait)

/-- One call of the closure, where `close` answers the calls that it makes. -/
def Catalog.closeStep (catalog : Catalog)
    (close : Memo → TraitRef → Memo × Except CheckError TraitSet) (memo : Memo) (trait : TraitRef) :
    Memo × Except CheckError TraitSet :=
  match memo.get? trait with
  | some closure => (memo, .ok closure)
  | none =>
    match catalog.supertraits trait with
    | .error error => (memo, .error error)
    | .ok supertraits =>
      match gather close memo (.singleton trait) supertraits with
      | (memo, .error error) => (memo, .error error)
      | (memo, .ok closure) => (memo ++ [(trait, closure)], .ok closure)

theorem Catalog.closeWithin_succ (catalog : Catalog) (depth : Nat) (memo : Memo) (trait : TraitRef) :
    catalog.closeWithin (depth + 1) memo trait =
      catalog.closeStep (catalog.closeWithin depth) memo trait := rfl

theorem gather_congr {close other : Memo → TraitRef → Memo × Except CheckError TraitSet}
    {traits : List TraitRef} (same : ∀ trait ∈ traits, ∀ memo, close memo trait = other memo trait)
    (memo : Memo) (sofar : TraitSet) :
    gather close memo sofar traits = gather other memo sofar traits := by
  induction traits generalizing memo sofar with
  | nil => rfl
  | cons trait traits ih =>
    rw [gather, gather, same trait List.mem_cons_self]
    split
    · rfl
    · exact ih (fun later member => same later (List.mem_cons_of_mem _ member)) _ _

/-- A call passes nothing on but supertraits. -/
theorem Catalog.closeStep_congr {catalog : Catalog}
    {close other : Memo → TraitRef → Memo × Except CheckError TraitSet} {trait : TraitRef}
    (same : ∀ supertrait, catalog.Supertrait trait supertrait →
      ∀ memo, close memo supertrait = other memo supertrait) (memo : Memo) :
    catalog.closeStep close memo trait = catalog.closeStep other memo trait := by
  rw [Catalog.closeStep, Catalog.closeStep]
  cases found : catalog.supertraits trait with
  | error error => rfl
  | ok supertraits =>
    have gathered := gather_congr (fun supertrait member => same supertrait ⟨_, found, member⟩) memo
      (.singleton trait)
    simp only [gathered]

theorem Catalog.Shallow.closeWithin_eq {catalog : Catalog} {depth more : Nat} {trait : TraitRef}
    (shallow : catalog.Shallow depth trait) (enough : depth ≤ more) (memo : Memo) :
    catalog.closeWithin more memo trait = catalog.closeWithin depth memo trait := by
  induction depth generalizing more trait memo with
  | zero => exact absurd shallow.positive (Nat.lt_irrefl 0)
  | succ depth ih =>
    obtain ⟨more, rfl⟩ : ∃ rest, more = rest + 1 := ⟨more - 1, by omega⟩
    rw [Catalog.closeWithin_succ, Catalog.closeWithin_succ]
    exact Catalog.closeStep_congr
      (fun supertrait link => ih (shallow.supertrait link) (by omega)) memo

theorem Catalog.closeWithin_eq_closure {catalog : Catalog} {depth : Nat}
    (enough : catalog.traits.names.toFinset.card + 1 ≤ depth) (memo : Memo) (trait : TraitRef) :
    catalog.closeWithin depth memo trait = catalog.closure memo trait := by
  have few := catalog.traits.names.toFinset_card_le
  rw [Table.names, List.length_map, ← Table.names] at few
  have shallow := catalog.shallow trait
  rw [Catalog.closure, shallow.closeWithin_eq enough]
  exact (shallow.closeWithin_eq (by omega) memo).symm

/-- The closure calls itself on supertraits, with no limit in sight. -/
theorem Catalog.closure_eq (catalog : Catalog) (memo : Memo) (trait : TraitRef) :
    catalog.closure memo trait = catalog.closeStep catalog.closure memo trait := by
  have deeper : catalog.traits.names.toFinset.card + 1 ≤
      catalog.traits.names.toFinset.card + 1 + 1 := Nat.le_succ _
  rw [← Catalog.closeWithin_eq_closure deeper, Catalog.closeWithin_succ]
  exact Catalog.closeStep_congr
    (fun supertrait _ memo => Catalog.closeWithin_eq_closure le_rfl memo supertrait) memo

theorem Catalog.eq_closure {catalog : Catalog}
    {close : Memo → TraitRef → Memo × Except CheckError TraitSet}
    (solves : ∀ memo trait, close memo trait = catalog.closeStep close memo trait) :
    close = catalog.closure := by
  have each (trait : TraitRef) : ∀ memo, close memo trait = catalog.closure memo trait := by
    induction trait using catalog.supertrait_induction with
    | step trait ih =>
      intro memo
      rw [solves, catalog.closure_eq]
      exact Catalog.closeStep_congr ih memo
  exact funext fun memo => funext fun trait => each trait memo

/-- The calls that are open at one time are on a chain of supertraits: their names are distinct and,
but for the last, declared. So the closure is what the recursion says, and nothing else is, and as
much depth as there are declared traits, and one more, is never used up, however large arguments
grow. -/
theorem closure_recursion_bottoms_out (catalog : Catalog) :
    (∀ traits, catalog.Chain traits → (traits.map (·.name)).Nodup ∧
      (∀ trait ∈ traits.dropLast, trait.name ∈ catalog.traits.names) ∧
      traits.length ≤ catalog.traits.names.toFinset.card + 1) ∧
    (∀ close, (∀ memo trait, close memo trait = catalog.closeStep close memo trait) ↔
      close = catalog.closure) ∧
    ∀ depth, catalog.traits.names.toFinset.card + 1 ≤ depth →
      catalog.closeWithin depth = catalog.closure := by
  refine ⟨fun traits chain => ⟨chain.nodup, chain.declared, chain.length_le⟩, fun close => ?_,
    fun depth enough => ?_⟩
  · constructor
    · exact Catalog.eq_closure
    · rintro rfl
      exact catalog.closure_eq
  · exact funext fun memo => funext (Catalog.closeWithin_eq_closure enough memo)

/-- `trait Sub<X>: Other<Vec<X>> {}` and `trait Other<Z>: Deep<Vec<Z>> {}`. -/
def growingTraits : Table TraitDecl :=
  let nested (trait arg : String) : TypeExpr :=
    .apply (.placeless trait) [.apply (.placeless "Vec") [.apply (.placeless arg) []]]
  ⟨[("Sub", ⟨.placeless "Sub", [.ofTerms "X" [] []], some ⟨[nested "Other" "X"], []⟩⟩),
    ("Other", ⟨.placeless "Other", [.ofTerms "Z" [] []], some ⟨[nested "Deep" "Z"], []⟩⟩)]⟩

def growingCatalog : Catalog :=
  ⟨⟨[("Vec", ⟨.placeless "Vec", [.ofTerms "T" [] []]⟩)]⟩, growingTraits, [], by decide⟩

/-- The longest chain there is ends at a trait that is not declared. -/
theorem growing_chain_bounded :
    let x : Ty := .var 0 "x"
    let chain : List TraitRef :=
      [⟨"Sub", [x]⟩, ⟨"Other", [.ctor "Vec" [x]]⟩, ⟨"Deep", [.ctor "Vec" [.ctor "Vec" [x]]]⟩]
    growingCatalog.Chain chain ∧ (chain.map (·.name)).Nodup ∧
      (∀ trait ∈ chain.dropLast, trait.name ∈ growingCatalog.traits.names) ∧
      chain.length ≤ growingCatalog.traits.names.toFinset.card + 1 := by
  intro x chain
  have linked : growingCatalog.Chain chain := by
    refine .cons_cons ⟨_, rfl, List.mem_cons_self⟩ ?_
    exact .cons_cons ⟨_, rfl, List.mem_cons_self⟩ (.singleton _)
  exact ⟨linked, (closure_recursion_bottoms_out growingCatalog).1 chain linked⟩

end TraitCoherence
