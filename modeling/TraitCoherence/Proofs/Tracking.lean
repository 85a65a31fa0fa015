import TraitCoherence.Proofs.ClosureDepth
import TraitCoherence.Proofs.Labels
import TraitCoherence.Proofs.Schemes

namespace TraitCoherence

/-- A second attempt succeeds where a first one does, with a related result, and fails where the first
one does, for a related cause. If it is not strict, it may do anything where the first one fails. -/
inductive Tracks {α β : Type} (blame : CheckError → CheckError → Prop) (strict : Prop)
    (same : α → β → Prop) : Except CheckError α → Except CheckError β → Prop
  | ok {a : α} {b : β} : same a b → Tracks blame strict same (.ok a) (.ok b)
  | error {cause other : CheckError} : blame cause other →
      Tracks blame strict same (.error cause) (.error other)
  | lost {cause : CheckError} {other : Except CheckError β} : ¬ strict →
      Tracks blame strict same (.error cause) other

theorem Tracks.bind {α β γ δ : Type} {blame : CheckError → CheckError → Prop} {strict : Prop}
    {same : α → β → Prop} {sameToo : γ → δ → Prop} {first : Except CheckError α}
    {second : Except CheckError β} {next : α → Except CheckError γ} {nextToo : β → Except CheckError δ}
    (tracks : Tracks blame strict same first second)
    (rest : ∀ a b, same a b → Tracks blame strict sameToo (next a) (nextToo b)) :
    Tracks blame strict sameToo (first.bind next) (second.bind nextToo) := by
  cases tracks with
  | ok related => exact rest _ _ related
  | error related => exact .error related
  | lost loose => exact .lost loose

/-- Attempts at the items of two lists track each other if those at paired items do. -/
theorem Tracks.mapM {α β γ δ : Type} {blame : CheckError → CheckError → Prop} {strict : Prop}
    {same : γ → δ → Prop} {first : α → Except CheckError γ} {second : β → Except CheckError δ}
    {items : List α} {others : List β}
    (each : List.Forall₂ (fun item other => Tracks blame strict same (first item) (second other))
      items others) :
    Tracks blame strict (List.Forall₂ same) (items.mapM first) (others.mapM second) := by
  induction each with
  | nil => exact .ok .nil
  | cons head _ ih =>
    rw [mapM_cons_eq_bind, mapM_cons_eq_bind]
    refine head.bind fun value other related => ?_
    exact ih.bind fun values others rest => .ok (.cons related rest)

/-- The same names for types that are alike. -/
def Scope.Alike (scope other : Scope) : Prop :=
  List.Forall₂ (fun a b => a.1 = b.1 ∧ a.2.Alike b.2) scope other

theorem Scope.Alike.lookup {scope other : Scope} (alike : scope.Alike other) (name : String) :
    Option.Rel Ty.Alike (scope.lookup name) (other.lookup name) := by
  induction alike with
  | nil => exact .none
  | @cons a b _ _ head _ ih =>
    rw [List.lookup_cons, List.lookup_cons, head.1]
    cases name == b.1 with
    | true => exact .some head.2
    | false => exact ih

/-- Occurrences of one name that get the same blame. -/
structure SameName (blame : CheckError → CheckError → Prop) (name other : Name) : Prop where
  text : name.text = other.text
  undefinedSymbol : blame (.undefinedSymbol name) (.undefinedSymbol other)
  appliedParameter : ∀ given, blame (.appliedParameter name given) (.appliedParameter other given)
  wrongArity : ∀ given needed, blame (.wrongArity name given needed) (.wrongArity other given needed)

/-- Two expressions, each with its scope, that name types alike: where one name is in scope so is the
other, and otherwise they are the same name. -/
inductive MeansSame (blame : CheckError → CheckError → Prop) (scope other : Scope) :
    TypeExpr → TypeExpr → Prop
  | inScope {name image : Name} {args images : List TypeExpr} {ty tyToo : Ty} :
      scope.lookup name.text = some ty → other.lookup image.text = some tyToo → ty.Alike tyToo →
      (∀ given, blame (.appliedParameter name given) (.appliedParameter image given)) →
      args.length = images.length →
      MeansSame blame scope other (.apply name args) (.apply image images)
  | struct {name image : Name} {args images : List TypeExpr} :
      scope.lookup name.text = none → other.lookup image.text = none → SameName blame name image →
      List.Forall₂ (MeansSame blame scope other) args images →
      MeansSame blame scope other (.apply name args) (.apply image images)

/-- Applications of one trait to arguments that name types alike. -/
def TraitMeansSame (blame : CheckError → CheckError → Prop) (scope other : Scope)
    (expr image : TypeExpr) : Prop :=
  expr.name.text = image.name.text ∧
    List.Forall₂ (MeansSame blame scope other) expr.args image.args

/-- A relation that compares expressions name by name. -/
def Namewise (blame : CheckError → CheckError → Prop) (related : TypeExpr → TypeExpr → Prop) : Prop :=
  ∀ name image args images, related (.apply name args) (.apply image images) →
    SameName blame name image ∧ List.Forall₂ related args images

/-- Expressions with the same names mean the same, whatever is in scope. -/
theorem Namewise.meansSame {blame : CheckError → CheckError → Prop} {scope other : Scope}
    {related : TypeExpr → TypeExpr → Prop} (parts : Namewise blame related) (scopes : scope.Alike other)
    {expr image : TypeExpr} (relates : related expr image) :
    MeansSame blame scope other expr image := by
  induction expr using TypeExpr.ind generalizing image with
  | apply name args ih =>
    obtain ⟨nameToo, images⟩ := image
    obtain ⟨sameName, each⟩ := parts _ _ _ _ relates
    have found := scopes.lookup name.text
    cases here : scope.lookup name.text with
    | some ty =>
      rw [here] at found
      obtain ⟨tyToo, there, alike⟩ := exists_of_rel_some found
      rw [sameName.text] at there
      exact .inScope here there alike sameName.appliedParameter each.length_eq
    | none =>
      rw [here] at found
      have there := eq_none_of_rel_none found
      rw [sameName.text] at there
      refine .struct here there sameName ?_
      rw [List.forall₂_iff_zip] at each ⊢
      exact ⟨each.1, fun paired => ih _ (List.of_mem_zip paired).1 (each.2 paired)⟩

theorem Namewise.traitMeansSame {blame : CheckError → CheckError → Prop} {scope other : Scope}
    {related : TypeExpr → TypeExpr → Prop} (parts : Namewise blame related) (scopes : scope.Alike other)
    {expr image : TypeExpr} (relates : related expr image) :
    TraitMeansSame blame scope other expr image := by
  obtain ⟨name, args⟩ := expr
  obtain ⟨nameToo, images⟩ := image
  obtain ⟨sameName, each⟩ := parts _ _ _ _ relates
  exact ⟨sameName.text, each.imp fun _ _ => parts.meansSame scopes⟩

/-- A catalog that knows structs of the same sizes and traits with the same parameters and supertraits.
If it is strict, it knows no others. -/
structure Catalog.Mirrors (blame : CheckError → CheckError → Prop) (strict : Prop)
    (catalog mirror : Catalog) : Prop where
  structs : ∀ name decl, catalog.structs.get? name = some decl →
    ∃ image, mirror.structs.get? name = some image ∧ image.arity = decl.arity
  noStructs : strict → ∀ name, catalog.structs.get? name = none → mirror.structs.get? name = none
  traits : ∀ name decl, catalog.traits.get? name = some decl →
    ∃ image, mirror.traits.get? name = some image ∧
      image.params.map (·.name.text) = decl.params.map (·.name.text) ∧
      ∀ scope other, scope.Alike other →
        List.Forall₂ (TraitMeansSame blame scope other) decl.demands image.demands
  noTraits : strict → ∀ name, catalog.traits.get? name = none → mirror.traits.get? name = none
  undeclaredTrait : ∀ name, blame (.undeclaredTrait name) (.undeclaredTrait name)
  missingBound : ∀ x, blame (.missingBound x) (.missingBound x)

theorem Catalog.elaborateTrait_eq (catalog : Catalog) (scope : Scope) (expr : TypeExpr) :
    catalog.elaborateTrait scope expr =
      (catalog.elaborateTypes scope expr.args).bind fun types => .ok ⟨expr.name.text, types⟩ := by
  rw [Catalog.elaborateTrait]
  cases catalog.elaborateTypes scope expr.args <;> rfl

theorem Catalog.elaborateBound_eq (catalog : Catalog) (scope : Scope) (expr : BoundExpr) :
    catalog.elaborateBound scope expr =
      (catalog.elaborateTraits scope expr.positive).bind fun positive =>
        (catalog.elaborateTraits scope expr.negative).bind fun negative =>
          .ok ⟨.ofList positive, .ofList negative⟩ := by
  rw [Catalog.elaborateBound]
  cases catalog.elaborateTraits scope expr.positive with
  | error cause => rfl
  | ok positive => cases catalog.elaborateTraits scope expr.negative <;> rfl

theorem Catalog.elaborateParams_cons (catalog : Catalog) (scope : Scope) (next : Int) (param : Param)
    (params : List Param) :
    (catalog.elaborateParams scope next (param :: params)).2 =
      (catalog.elaborateParam scope param).bind fun bound =>
        (catalog.elaborateParams ((param.name.text, .var next param.name.text) :: scope) (next + 1)
          params).2.bind fun result => .ok (result.1, (next, bound) :: result.2) := by
  rw [Catalog.elaborateParams]
  cases catalog.elaborateParam scope param with
  | error cause => rfl
  | ok bound =>
    dsimp only [Except.bind]
    generalize catalog.elaborateParams _ (next + 1) params = later
    obtain ⟨after, result⟩ := later
    cases result <;> rfl

theorem Catalog.elaborateImpl_snd (catalog : Catalog) (next : Int) (decl : ImplDecl) :
    (catalog.elaborateImpl next decl).2 =
      (catalog.elaborateParams [] next decl.params).2.bind fun params =>
        (catalog.elaborateTrait params.1 decl.head).bind fun trait =>
          (catalog.elaborateType params.1 decl.target).bind fun target =>
            .ok ⟨trait, target, params.2⟩ := by
  rw [Catalog.elaborateImpl]
  generalize catalog.elaborateParams [] next decl.params = params
  obtain ⟨after, result⟩ := params
  cases result with
  | error cause => rfl
  | ok result =>
    dsimp only [Except.bind]
    cases catalog.elaborateTrait result.1 decl.head with
    | error cause => rfl
    | ok trait => cases catalog.elaborateType result.1 decl.target <;> rfl

theorem Catalog.elaboratePair_eq (catalog : Catalog) (first second : ImplDecl) :
    catalog.elaboratePair first second =
      (catalog.elaborateImpl 0 first).2.bind fun left =>
        (catalog.elaborateImpl first.params.length second).2.bind fun right => .ok (left, right) := by
  rw [Catalog.elaboratePair]
  cases here : catalog.elaborateImpl 0 first with
  | mk next result =>
    cases result with
    | error cause => rfl
    | ok left =>
      have count := Catalog.elaborateImpl_next here
      rw [Int.zero_add] at count
      subst count
      dsimp only [Except.bind]
      generalize catalog.elaborateImpl first.params.length second = other
      obtain ⟨after, result⟩ := other
      cases result <;> rfl

section

variable {blame : CheckError → CheckError → Prop} {strict : Prop} {catalog mirror : Catalog}
  {scope other : Scope}

theorem Catalog.elaborateTypes_tracks_of {exprs images : List TypeExpr}
    (each : List.Forall₂ (fun expr image => Tracks blame strict Ty.Alike
      (catalog.elaborateType scope expr) (mirror.elaborateType other image)) exprs images) :
    Tracks blame strict (List.Forall₂ Ty.Alike) (catalog.elaborateTypes scope exprs)
      (mirror.elaborateTypes other images) := by
  rw [catalog.elaborateTypes_eq_mapM, mirror.elaborateTypes_eq_mapM]
  exact .mapM each

theorem Ty.alike_ctor {name : String} {args others : List Ty}
    (each : List.Forall₂ Ty.Alike args others) : (Ty.ctor name args).Alike (.ctor name others) := by
  rw [Ty.Alike, Ty.unlabeled_ctor, Ty.unlabeled_ctor, Ty.ctor.injEq, ← List.forall₂_eq_eq_eq,
    List.forall₂_map_left_iff, List.forall₂_map_right_iff]
  exact ⟨rfl, each⟩

theorem TraitRef.alike_mk {name : String} {args others : List Ty}
    (each : List.Forall₂ Ty.Alike args others) : (TraitRef.mk name args).Alike ⟨name, others⟩ := by
  rw [TraitRef.alike_iff]
  exact ⟨rfl, each.length_eq, fun _ member => List.forall₂_zip each member⟩

theorem TraitRef.Alike.args {a b : TraitRef} (alike : a.Alike b) :
    List.Forall₂ Ty.Alike a.args b.args := by
  obtain ⟨_, length, each⟩ := TraitRef.alike_iff.mp alike
  exact List.forall₂_iff_zip.mpr ⟨length, fun paired => each _ paired⟩

variable (mirrors : catalog.Mirrors blame strict mirror)

include mirrors

theorem Catalog.Mirrors.elaborateType {expr image : TypeExpr}
    (means : MeansSame blame scope other expr image) :
    Tracks blame strict Ty.Alike (catalog.elaborateType scope expr)
      (mirror.elaborateType other image) := by
  induction expr using TypeExpr.ind generalizing image with
  | apply name args ih =>
    cases means with
    | inScope here there alike applied length =>
      simp only [Catalog.elaborateType, here, there, List.isEmpty_iff_length_eq_zero, length]
      split
      · exact .ok alike
      · exact .error (applied _)
    | struct here there sameName each =>
      rw [Catalog.elaborateType, Catalog.elaborateType, here, there, ← sameName.text, ← each.length_eq]
      cases found : catalog.structs.get? name.text with
      | none =>
        -- Without strictness the mirror may know a struct of this name.
        by_cases counted : strict
        · rw [mirrors.noStructs counted name.text found]
          exact .error sameName.undefinedSymbol
        · exact .lost counted
      | some decl =>
        obtain ⟨struct, kept, arity⟩ := mirrors.structs name.text decl found
        simp only [kept, arity]
        split
        · have parts : Tracks blame strict (List.Forall₂ Ty.Alike) _ _ :=
            Catalog.elaborateTypes_tracks_of (List.forall₂_iff_zip.mpr ⟨each.length_eq, fun paired =>
              ih _ (List.of_mem_zip paired).1 (List.forall₂_zip each paired)⟩)
          generalize catalog.elaborateTypes scope args = types at parts ⊢
          generalize mirror.elaborateTypes other _ = typesToo at parts ⊢
          cases parts with
          | ok alike => exact .ok (Ty.alike_ctor alike)
          | error related => exact .error related
          | lost loose => exact .lost loose
        · exact .error (sameName.wrongArity _ _)

theorem Catalog.Mirrors.elaborateTrait {expr image : TypeExpr}
    (means : TraitMeansSame blame scope other expr image) :
    Tracks blame strict TraitRef.Alike (catalog.elaborateTrait scope expr)
      (mirror.elaborateTrait other image) := by
  have parts : Tracks blame strict (List.Forall₂ Ty.Alike) _ _ :=
    Catalog.elaborateTypes_tracks_of (means.2.imp fun _ _ => mirrors.elaborateType)
  rw [catalog.elaborateTrait_eq, mirror.elaborateTrait_eq, ← means.1]
  exact parts.bind fun types typesToo alike => .ok (TraitRef.alike_mk alike)

theorem Catalog.Mirrors.elaborateTraits {exprs images : List TypeExpr}
    (means : List.Forall₂ (TraitMeansSame blame scope other) exprs images) :
    Tracks blame strict (List.Forall₂ TraitRef.Alike) (catalog.elaborateTraits scope exprs)
      (mirror.elaborateTraits other images) :=
  .mapM (means.imp fun _ _ => mirrors.elaborateTrait)

theorem Catalog.Mirrors.supertraits {trait traitToo : TraitRef} (alike : trait.Alike traitToo) :
    Tracks blame strict (List.Forall₂ TraitRef.Alike) (catalog.supertraits trait)
      (mirror.supertraits traitToo) := by
  have name : traitToo.name = trait.name := (TraitRef.alike_iff.mp alike).1.symm
  rw [Catalog.supertraits, Catalog.supertraits, name]
  cases found : catalog.traits.get? trait.name with
  | none =>
    by_cases counted : strict
    · rw [mirrors.noTraits counted trait.name found]
      exact .error (mirrors.undeclaredTrait _)
    · exact .lost counted
  | some decl =>
    obtain ⟨image, kept, params, demands⟩ := mirrors.traits trait.name decl found
    simp only [kept, params]
    refine mirrors.elaborateTraits (demands _ _ ?_)
    rw [Scope.Alike, List.forall₂_reverse_iff, List.forall₂_iff_get]
    have args := List.forall₂_iff_get.mp alike.args
    refine ⟨by rw [List.length_zip, List.length_zip, args.1], fun i here there => ?_⟩
    simp only [List.get_eq_getElem, List.getElem_zip, true_and]
    exact args.2 i _ _

end

end TraitCoherence
