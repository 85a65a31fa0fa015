import Mathlib.Data.List.Forall2
import TraitCoherence.Elaboration
import TraitCoherence.Proofs.Sizes

namespace TraitCoherence

theorem exists_related_of_mem {α β : Type} {related : α → β → Prop} {items : List α}
    {others : List β} (each : List.Forall₂ related items others) {item : α} (member : item ∈ items) :
    ∃ other ∈ others, related item other := by
  induction each with
  | nil => cases member
  | @cons a b _ _ head _ ih =>
    rcases List.mem_cons.mp member with rfl | later
    · exact ⟨b, List.mem_cons_self, head⟩
    · obtain ⟨other, inside, same⟩ := ih later
      exact ⟨other, List.mem_cons_of_mem _ inside, same⟩

section

variable {ε α β γ : Type} {f : α → Except ε β} {items : List α}

/-- An attempt at every item of a list makes the first one, then the others. -/
theorem mapM_cons_eq_bind (f : α → Except ε β) (item : α) (items : List α) :
    (item :: items).mapM f =
      (f item).bind fun value => (items.mapM f).bind fun values => .ok (value :: values) :=
  List.mapM_cons

/-- It succeeds where every single attempt does. -/
theorem mapM_eq_ok_iff {values : List β} :
    items.mapM f = .ok values ↔ List.Forall₂ (fun item value => f item = .ok value) items values := by
  induction items generalizing values with
  | nil =>
    constructor
    · rintro ⟨⟩
      exact .nil
    · rintro ⟨⟩
      rfl
  | cons item items ih =>
    rw [mapM_cons_eq_bind]
    constructor
    · intro succeeds
      cases first : f item with
      | error error => simp [first, Except.bind] at succeeds
      | ok value =>
        cases rest : items.mapM f with
        | error error => simp [first, rest, Except.bind] at succeeds
        | ok others =>
          rw [first, rest] at succeeds
          cases succeeds
          exact .cons first (ih.mp rest)
    · rintro (_ | ⟨first, rest⟩)
      rw [first, ih.mpr rest]
      rfl

/-- It fails for what some single attempt fails for. -/
theorem exists_of_mapM_error {error : ε} (failed : items.mapM f = .error error) :
    ∃ item ∈ items, f item = .error error := by
  induction items with
  | nil => cases failed
  | cons item items ih =>
    rw [mapM_cons_eq_bind] at failed
    cases first : f item with
    | error other =>
      rw [first] at failed
      cases failed
      exact ⟨item, List.mem_cons_self, first⟩
    | ok value =>
      cases rest : items.mapM f with
      | error other =>
        rw [first, rest] at failed
        cases failed
        obtain ⟨source, member, same⟩ := ih rest
        exact ⟨source, List.mem_cons_of_mem _ member, same⟩
      | ok values =>
        rw [first, rest] at failed
        cases failed

/-- Attempts that differ in their results only differ in those on a list too. -/
theorem mapM_map_of {g : α → Except ε γ} {image : β → γ}
    (each : ∀ item ∈ items, g item = (f item).map image) :
    items.mapM g = (items.mapM f).map (List.map image) := by
  induction items with
  | nil => rfl
  | cons item items ih =>
    rw [mapM_cons_eq_bind, mapM_cons_eq_bind, each item List.mem_cons_self,
      ih fun later member => each later (List.mem_cons_of_mem _ member)]
    cases f item with
    | error error => rfl
    | ok value => cases items.mapM f <;> rfl

end

/-- A name in scope means its type and takes no arguments. Any other name is a struct with the number
of arguments that its declaration gives. -/
theorem Catalog.elaborateType_ok {catalog : Catalog} {scope : Scope} {name : Name}
    {args : List TypeExpr} {ty : Ty}
    (elaborated : catalog.elaborateType scope (.apply name args) = .ok ty) :
    scope.lookup name.text = some ty ∨
      ∃ decl types, catalog.structs.get? name.text = some decl ∧ decl.arity = args.length ∧
        catalog.elaborateTypes scope args = .ok types ∧ ty = .ctor name.text types := by
  rw [Catalog.elaborateType] at elaborated
  split at elaborated
  · rename_i found
    split at elaborated
    · cases elaborated
      exact Or.inl found
    · exact absurd elaborated nofun
  · split at elaborated
    · exact absurd elaborated nofun
    · rename_i decl declared
      split at elaborated
      · rename_i arity
        split at elaborated
        · exact absurd elaborated nofun
        · rename_i types parts
          cases elaborated
          exact Or.inr ⟨decl, types, declared, arity, parts, rfl⟩
      · exact absurd elaborated nofun

/-- The types of several expressions are those of each. -/
theorem Catalog.elaborateTypes_eq_mapM (catalog : Catalog) (scope : Scope) (exprs : List TypeExpr) :
    catalog.elaborateTypes scope exprs = exprs.mapM (catalog.elaborateType scope) := by
  induction exprs with
  | nil => rfl
  | cons expr exprs ih =>
    rw [Catalog.elaborateTypes, mapM_cons_eq_bind, ih]
    cases catalog.elaborateType scope expr with
    | error error => rfl
    | ok ty => cases exprs.mapM (catalog.elaborateType scope) <;> rfl

theorem Catalog.elaborateTypes_ok {catalog : Catalog} {scope : Scope} {exprs : List TypeExpr}
    {types : List Ty} (elaborated : catalog.elaborateTypes scope exprs = .ok types) :
    types.length = exprs.length ∧
      ∀ ty ∈ types, ∃ expr ∈ exprs, catalog.elaborateType scope expr = .ok ty := by
  rw [catalog.elaborateTypes_eq_mapM, mapM_eq_ok_iff] at elaborated
  exact ⟨elaborated.length_eq.symm, fun ty => exists_related_of_mem elaborated.flip⟩

theorem Catalog.elaborateTrait_ok {catalog : Catalog} {scope : Scope} {expr : TypeExpr}
    {trait : TraitRef} (elaborated : catalog.elaborateTrait scope expr = .ok trait) :
    ∃ types, catalog.elaborateTypes scope expr.args = .ok types ∧ trait = ⟨expr.name.text, types⟩ := by
  rw [Catalog.elaborateTrait] at elaborated
  split at elaborated
  · exact absurd elaborated nofun
  · rename_i types parts
    cases elaborated
    exact ⟨types, parts, rfl⟩

theorem Catalog.elaborateTrait_origin {catalog : Catalog} {scope : Scope} {expr : TypeExpr}
    {trait : TraitRef} (elaborated : catalog.elaborateTrait scope expr = .ok trait) {arg : Ty}
    (member : arg ∈ trait.args) : ∃ source, catalog.elaborateType scope source = .ok arg := by
  obtain ⟨types, parts, rfl⟩ := Catalog.elaborateTrait_ok elaborated
  obtain ⟨source, _, same⟩ := (Catalog.elaborateTypes_ok parts).2 arg member
  exact ⟨source, same⟩

theorem Catalog.elaborateTraits_ok {catalog : Catalog} {scope : Scope} {exprs : List TypeExpr}
    {traits : List TraitRef} (elaborated : catalog.elaborateTraits scope exprs = .ok traits) :
    ∀ trait ∈ traits, ∃ expr ∈ exprs, catalog.elaborateTrait scope expr = .ok trait :=
  fun _ => exists_related_of_mem (mapM_eq_ok_iff.mp elaborated).flip

theorem Catalog.elaborateTraits_mem {catalog : Catalog} {scope : Scope} {exprs : List TypeExpr}
    {traits : List TraitRef} (elaborated : catalog.elaborateTraits scope exprs = .ok traits)
    {expr : TypeExpr} (member : expr ∈ exprs) :
    ∃ trait ∈ traits, catalog.elaborateTrait scope expr = .ok trait :=
  exists_related_of_mem (mapM_eq_ok_iff.mp elaborated) member

theorem mem_of_lookup_eq_some {α β : Type} [BEq α] [LawfulBEq α] {entries : List (α × β)} {key : α}
    {value : β} (found : entries.lookup key = some value) : (key, value) ∈ entries := by
  obtain ⟨before, after, rfl, _⟩ := List.lookup_eq_some_iff.mp found
  exact List.mem_append_right _ List.mem_cons_self

/-- What holds of all types in scope, and passes from arguments to declared structs, holds of all
types that elaboration gives. -/
theorem Catalog.elaborateType_induction {catalog : Catalog} {scope : Scope} {motive : Ty → Prop}
    (inScope : ∀ entry ∈ scope, motive entry.2)
    (struct : ∀ name decl types, catalog.structs.get? name = some decl →
      types.length = decl.arity → (∀ ty ∈ types, motive ty) → motive (.ctor name types))
    {expr : TypeExpr} {ty : Ty} (elaborated : catalog.elaborateType scope expr = .ok ty) :
    motive ty := by
  induction expr using TypeExpr.ind generalizing ty with
  | apply name args ih =>
    rcases Catalog.elaborateType_ok elaborated with found | ⟨decl, types, declared, arity, parts, rfl⟩
    · exact inScope _ (mem_of_lookup_eq_some found)
    · obtain ⟨length, origin⟩ := Catalog.elaborateTypes_ok parts
      refine struct name.text decl types declared (length.trans arity.symm) fun ty member => ?_
      obtain ⟨source, inside, same⟩ := origin ty member
      exact ih source inside same

/-- The sizes that declarations give to structs. -/
def Catalog.Fits (catalog : Catalog) (sizes : String → Nat) : Prop :=
  ∀ name decl, catalog.structs.get? name = some decl → decl.arity = sizes name

/-- Declared structs have the size of their declaration, and nothing else matters. -/
def Catalog.sizes (catalog : Catalog) (name : String) : Nat :=
  match catalog.structs.get? name with
  | some decl => decl.arity
  | none => 0

theorem Catalog.fits_sizes (catalog : Catalog) : catalog.Fits catalog.sizes := by
  intro name decl declared
  simp only [Catalog.sizes, declared]

theorem Catalog.Fits.elaborateType {catalog : Catalog} {sizes : String → Nat}
    (fits : catalog.Fits sizes) {scope : Scope} (inScope : ∀ entry ∈ scope, entry.2.Sized sizes)
    {expr : TypeExpr} {ty : Ty} (elaborated : catalog.elaborateType scope expr = .ok ty) :
    ty.Sized sizes :=
  Catalog.elaborateType_induction inScope
    (fun name decl _ declared length parts => .ctor (length.trans (fits name decl declared)) parts)
    elaborated

theorem Catalog.Fits.elaborateTrait {catalog : Catalog} {sizes : String → Nat}
    (fits : catalog.Fits sizes) {scope : Scope} (inScope : ∀ entry ∈ scope, entry.2.Sized sizes)
    {expr : TypeExpr} {trait : TraitRef}
    (elaborated : catalog.elaborateTrait scope expr = .ok trait) : trait.Sized sizes := by
  intro arg member
  obtain ⟨source, same⟩ := Catalog.elaborateTrait_origin elaborated member
  exact fits.elaborateType inScope same

/-- The variables of the types in scope. -/
def Scope.Mentions (scope : Scope) (x : Int) : Prop := ∃ entry ∈ scope, x ∈ entry.2.vars

theorem Catalog.elaborateType_vars {catalog : Catalog} {scope : Scope} {expr : TypeExpr} {ty : Ty}
    (elaborated : catalog.elaborateType scope expr = .ok ty) :
    ∀ x ∈ ty.vars, scope.Mentions x := by
  refine Catalog.elaborateType_induction (motive := fun ty => ∀ x ∈ ty.vars, scope.Mentions x)
    (fun entry member x occurs => ⟨entry, member, occurs⟩)
    (fun _ _ types _ _ parts x occurs => ?_) elaborated
  obtain ⟨arg, member, inside⟩ := Ty.mem_vars_ctor.mp occurs
  exact parts arg member x inside

theorem Catalog.elaborateTrait_vars {catalog : Catalog} {scope : Scope} {expr : TypeExpr}
    {trait : TraitRef} (elaborated : catalog.elaborateTrait scope expr = .ok trait) :
    ∀ arg ∈ trait.args, ∀ x ∈ arg.vars, scope.Mentions x := by
  intro arg member
  obtain ⟨source, same⟩ := Catalog.elaborateTrait_origin elaborated member
  exact Catalog.elaborateType_vars same

def Scope.substitute (f : Int → String → Ty) (scope : Scope) : Scope :=
  scope.map fun entry => (entry.1, entry.2.substitute f)

theorem Scope.lookup_substitute (f : Int → String → Ty) (scope : Scope) (name : String) :
    (scope.substitute f).lookup name = (scope.lookup name).map (Ty.substitute f) := by
  induction scope with
  | nil => rfl
  | cons entry scope ih =>
    obtain ⟨key, ty⟩ := entry
    rw [Scope.substitute, List.map_cons, lookup_cons_eq_ite, lookup_cons_eq_ite]
    split
    · rfl
    · exact ih

theorem Catalog.elaborateTypes_substitute_of {catalog other : Catalog} {f : Int → String → Ty}
    {scope : Scope} {exprs : List TypeExpr}
    (each : ∀ expr ∈ exprs, other.elaborateType (scope.substitute f) expr =
      (catalog.elaborateType scope expr).map (Ty.substitute f)) :
    other.elaborateTypes (scope.substitute f) exprs =
      (catalog.elaborateTypes scope exprs).map (List.map (Ty.substitute f)) := by
  rw [catalog.elaborateTypes_eq_mapM, other.elaborateTypes_eq_mapM]
  exact mapM_map_of each

/-- Two catalogs that differ at most in their impls. -/
structure Catalog.Resembles (catalog other : Catalog) : Prop where
  structs : other.structs = catalog.structs
  traits : other.traits = catalog.traits

theorem Catalog.Resembles.refl (catalog : Catalog) : catalog.Resembles catalog := ⟨rfl, rfl⟩

theorem Catalog.Resembles.symm {catalog other : Catalog} (same : catalog.Resembles other) :
    other.Resembles catalog :=
  ⟨same.structs.symm, same.traits.symm⟩

/-- Elaboration looks no more closely at what is in scope than at its names, and not at the impls. -/
theorem Catalog.Resembles.elaborateType {catalog other : Catalog} (same : catalog.Resembles other)
    (f : Int → String → Ty) (scope : Scope) (expr : TypeExpr) :
    other.elaborateType (scope.substitute f) expr =
      (catalog.elaborateType scope expr).map (Ty.substitute f) := by
  induction expr using TypeExpr.ind with
  | apply name args ih =>
    have parts := Catalog.elaborateTypes_substitute_of ih
    rw [Catalog.elaborateType, Catalog.elaborateType, Scope.lookup_substitute, same.structs]
    cases scope.lookup name.text with
    | some ty =>
      simp only [Option.map_some]
      split <;> rfl
    | none =>
      simp only [Option.map_none]
      cases catalog.structs.get? name.text with
      | none => rfl
      | some decl =>
        by_cases arity : decl.arity = args.length
        · simp only [arity, if_true, parts]
          cases catalog.elaborateTypes scope args with
          | error error => rfl
          | ok types => exact congrArg Except.ok (Ty.substitute_ctor f name.text types).symm
        · simp only [arity, if_false]
          rfl

theorem Catalog.Resembles.elaborateTrait {catalog other : Catalog} (same : catalog.Resembles other)
    (f : Int → String → Ty) (scope : Scope) (expr : TypeExpr) :
    other.elaborateTrait (scope.substitute f) expr =
      (catalog.elaborateTrait scope expr).map (TraitRef.substitute f) := by
  rw [Catalog.elaborateTrait, Catalog.elaborateTrait,
    Catalog.elaborateTypes_substitute_of fun part _ => same.elaborateType f scope part]
  cases catalog.elaborateTypes scope expr.args <;> rfl

theorem Catalog.Resembles.elaborateTraits {catalog other : Catalog} (same : catalog.Resembles other)
    (f : Int → String → Ty) (scope : Scope) (exprs : List TypeExpr) :
    other.elaborateTraits (scope.substitute f) exprs =
      (catalog.elaborateTraits scope exprs).map (List.map (TraitRef.substitute f)) :=
  mapM_map_of fun expr _ => same.elaborateTrait f scope expr

end TraitCoherence
