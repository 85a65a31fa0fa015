import TraitCoherence.Proofs.Enlargement

namespace TraitCoherence

mutual

/-- Renames all that is named in a type. -/
def TypeExpr.rename (f : String → String) : TypeExpr → TypeExpr
  | .apply name args => .apply ⟨f name.text, name.span⟩ (TypeExpr.renameAll f args)

def TypeExpr.renameAll (f : String → String) : List TypeExpr → List TypeExpr
  | [] => []
  | arg :: args => arg.rename f :: TypeExpr.renameAll f args

end

mutual

/-- The names in a type. -/
def TypeExpr.names : TypeExpr → List String
  | .apply name args => name.text :: TypeExpr.namesAll args

def TypeExpr.namesAll : List TypeExpr → List String
  | [] => []
  | arg :: args => arg.names ++ TypeExpr.namesAll args

end

/-- Renames types in the arguments of a trait, whose own name is not that of a type. -/
def TypeExpr.renameArgs (f : String → String) (expr : TypeExpr) : TypeExpr :=
  .apply expr.name (TypeExpr.renameAll f expr.args)

def BoundExpr.rename (f : String → String) (bound : BoundExpr) : BoundExpr :=
  ⟨bound.positive.map (TypeExpr.renameArgs f), bound.negative.map (TypeExpr.renameArgs f)⟩

def Param.renameBound (f : String → String) (param : Param) : Param :=
  ⟨param.name, param.bound.map (BoundExpr.rename f)⟩

/-- The new name for the old one, and every other name for itself. -/
def replaceName (old new name : String) : String := if name = old then new else name

/-- Renames what a parameter is called in the bounds of those behind it. The bound of a parameter that is
called the same still means the one in front; everything behind that means the later one. -/
def renameLater (old new : String) : List Param → List Param
  | [] => []
  | param :: params =>
    if param.name.text = old then param.renameBound (replaceName old new) :: params
    else param.renameBound (replaceName old new) :: renameLater old new params

/-- Renames a parameter, by its place, together with all that means it. -/
def ImplDecl.renameParam (decl : ImplDecl) (place : Nat) (new : String) : ImplDecl :=
  match decl.params.drop place with
  | [] => decl
  | param :: later =>
    let old := param.name.text
    let params := decl.params.take place ++
      ⟨⟨new, param.name.span⟩, param.bound⟩ :: renameLater old new later
    if later.any (·.name.text == old) then ⟨params, decl.head, decl.target⟩
    else ⟨params, decl.head.renameArgs (replaceName old new), decl.target.rename (replaceName old new)⟩

def BoundExpr.typeNames (bound : BoundExpr) : List String :=
  (bound.positive ++ bound.negative).flatMap fun term => TypeExpr.namesAll term.args

def Param.typeNames (param : Param) : List String :=
  param.name.text :: (param.bound.elim [] BoundExpr.typeNames)

/-- The names of the parameters and of all types in an impl. Names of traits are no part of them. -/
def ImplDecl.typeNames (decl : ImplDecl) : List String :=
  decl.params.flatMap Param.typeNames ++ TypeExpr.namesAll decl.head.args ++ decl.target.names

/-- Causes that differ at most in places, or that blame a parameter, given as many arguments, under its
old name and under its new one. -/
inductive CheckError.Renamed (old new : String) : CheckError → CheckError → Prop
  | alike {cause other : CheckError} : cause.Alike other → CheckError.Renamed old new cause other
  | parameter {name image : Name} {given : Int} : name.text = old → image.text = new →
      CheckError.Renamed old new (.appliedParameter name given) (.appliedParameter image given)

/-- Impls that are alike, or that are one impl before and after a parameter is renamed. -/
def ImplDecl.AlikeOrRenamed (impl : ImplDecl) (place : Nat) (new : String) (decl image : ImplDecl) :
    Prop :=
  decl.Alike image ∨ decl = impl ∧ (impl.renameParam place new).Alike image

theorem TypeExpr.renameAll_eq_map (f : String → String) (exprs : List TypeExpr) :
    TypeExpr.renameAll f exprs = exprs.map (TypeExpr.rename f) := by
  induction exprs with
  | nil => rfl
  | cons expr exprs ih => rw [TypeExpr.renameAll, ih, List.map_cons]

theorem TypeExpr.namesAll_eq_flatMap (exprs : List TypeExpr) :
    TypeExpr.namesAll exprs = exprs.flatMap TypeExpr.names := by
  induction exprs with
  | nil => rfl
  | cons expr exprs ih => rw [TypeExpr.namesAll, ih, List.flatMap_cons]

theorem TypeExpr.not_mem_namesAll {name : String} {exprs : List TypeExpr} :
    name ∉ TypeExpr.namesAll exprs ↔ ∀ expr ∈ exprs, name ∉ expr.names := by
  rw [TypeExpr.namesAll_eq_flatMap, List.mem_flatMap]
  push Not
  rfl

theorem TypeExpr.rename_id (expr : TypeExpr) : expr.rename id = expr := by
  induction expr using TypeExpr.ind with
  | apply name args ih =>
    rw [TypeExpr.rename, TypeExpr.renameAll_eq_map, List.map_congr_left ih, List.map_id']
    rfl

theorem TypeExpr.renameArgs_id (expr : TypeExpr) : expr.renameArgs id = expr := by
  obtain ⟨name, args⟩ := expr
  rw [TypeExpr.renameArgs, TypeExpr.renameAll_eq_map, funext TypeExpr.rename_id, List.map_id']
  rfl

theorem Param.renameBound_id (param : Param) : param.renameBound id = param := by
  have same : BoundExpr.rename id = id := by
    funext bound
    rw [BoundExpr.rename, funext TypeExpr.renameArgs_id, List.map_id', List.map_id']
    rfl
  rw [Param.renameBound, same, Option.map_id]
  rfl

/-- What a name means in one scope, its image under `f` means in the other. Only the old name of a
parameter in scope has another image, which is the new name. -/
structure Scope.Follows (old new : String) (f : String → String) (scope other : Scope) : Prop where
  lookup : ∀ name, name ≠ new → Option.Rel Ty.Alike (scope.lookup name) (other.lookup (f name))
  changed : ∀ name, f name ≠ name → name = old ∧ f name = new ∧ (scope.lookup name).isSome

section

variable {old new : String} {f : String → String} {scope other : Scope}

theorem Scope.Follows.start : Scope.Follows old new id [] [] :=
  ⟨fun _ _ => .none, fun _ differ => absurd rfl differ⟩

/-- A parameter of another name, in both scopes. -/
theorem Scope.Follows.keep (follows : Scope.Follows old new f scope other) {name : String}
    (fresh : name ≠ new) (fixed : f name = name) {ty tyToo : Ty} (alike : ty.Alike tyToo) :
    Scope.Follows old new f ((name, ty) :: scope) ((name, tyToo) :: other) := by
  constructor
  · intro wanted differ
    rw [lookup_cons_eq_ite, lookup_cons_eq_ite]
    by_cases here : wanted = name
    · rw [here, fixed, if_pos rfl, if_pos rfl]
      exact .some alike
    · -- What has another image is called by the new name, which this parameter is not.
      have elsewhere : f wanted ≠ name := by
        intro same
        by_cases stays : f wanted = wanted
        · exact here (stays.symm.trans same)
        · exact fresh (same.symm.trans (follows.changed wanted stays).2.1)
      rw [if_neg here, if_neg elsewhere]
      exact follows.lookup wanted differ
  · intro wanted differ
    obtain ⟨same, image, found⟩ := follows.changed wanted differ
    refine ⟨same, image, ?_⟩
    rw [lookup_cons_eq_ite]
    split
    · rfl
    · exact found

/-- The parameter that is renamed. -/
theorem Scope.Follows.rename (follows : Scope.Follows old new id scope other) {ty tyToo : Ty}
    (alike : ty.Alike tyToo) :
    Scope.Follows old new (replaceName old new) ((old, ty) :: scope) ((new, tyToo) :: other) := by
  constructor
  · intro wanted differ
    rw [lookup_cons_eq_ite, lookup_cons_eq_ite, replaceName]
    by_cases here : wanted = old
    · rw [if_pos here, if_pos here, if_pos rfl]
      exact .some alike
    · rw [if_neg here, if_neg here, if_neg differ]
      exact follows.lookup wanted differ
  · intro wanted differ
    rw [replaceName] at differ ⊢
    by_cases here : wanted = old
    · rw [if_pos here, here, lookup_cons_eq_ite, if_pos rfl]
      exact ⟨rfl, rfl, rfl⟩
    · rw [if_neg here] at differ
      exact absurd rfl differ

/-- A later parameter that is called as the renamed one was. -/
theorem Scope.Follows.shadow (follows : Scope.Follows old new (replaceName old new) scope other)
    {ty tyToo : Ty} (alike : ty.Alike tyToo) :
    Scope.Follows old new id ((old, ty) :: scope) ((old, tyToo) :: other) := by
  constructor
  · intro wanted differ
    rw [lookup_cons_eq_ite, id, lookup_cons_eq_ite]
    by_cases here : wanted = old
    · rw [if_pos here, if_pos here]
      exact .some alike
    · have unchanged : replaceName old new wanted = wanted := if_neg here
      have found := follows.lookup wanted differ
      rw [unchanged] at found
      rw [if_neg here, if_neg here]
      exact found
  · exact fun _ differ => absurd rfl differ

theorem Scope.Follows.meansSame (follows : Scope.Follows old new f scope other)
    {expr image : TypeExpr} (fresh : new ∉ expr.names) (alike : (expr.rename f).Alike image) :
    MeansSame (CheckError.Renamed old new) scope other expr image := by
  have covers (cause other : CheckError) (alike : cause.Alike other) :
      cause.Renamed old new other := .alike alike
  induction expr using TypeExpr.ind generalizing image with
  | apply name args ih =>
    obtain ⟨nameToo, images⟩ := image
    rw [TypeExpr.rename, TypeExpr.renameAll_eq_map] at alike
    obtain ⟨text, each⟩ := alike.parts
    rw [List.forall₂_map_left_iff] at each
    rw [TypeExpr.names, List.mem_cons, not_or, TypeExpr.not_mem_namesAll] at fresh
    have found := follows.lookup name.text (Ne.symm fresh.1)
    dsimp only at text
    rw [text] at found
    cases here : scope.lookup name.text with
    | some ty =>
      rw [here] at found
      obtain ⟨tyToo, there, same⟩ := exists_of_rel_some found
      refine .inScope here there same (fun given => ?_) each.length_eq
      by_cases stays : f name.text = name.text
      · exact (sameName_of_text covers (stays.symm.trans text)).appliedParameter given
      · obtain ⟨isOld, isNew, _⟩ := follows.changed name.text stays
        exact .parameter isOld (text.symm.trans isNew)
    | none =>
      rw [here] at found
      have there := eq_none_of_rel_none found
      have stays : f name.text = name.text := by
        by_contra differ
        have inScope := (follows.changed name.text differ).2.2
        rw [here] at inScope
        cases inScope
      refine .struct here there (sameName_of_text covers (stays.symm.trans text)) ?_
      rw [List.forall₂_iff_zip] at each ⊢
      refine ⟨each.1, fun paired => ?_⟩
      have member := (List.of_mem_zip paired).1
      exact ih _ member (fresh.2 _ member) (each.2 paired)

theorem Scope.Follows.traitMeansSame (follows : Scope.Follows old new f scope other)
    {expr image : TypeExpr} (fresh : new ∉ TypeExpr.namesAll expr.args)
    (alike : (expr.renameArgs f).Alike image) :
    TraitMeansSame (CheckError.Renamed old new) scope other expr image := by
  obtain ⟨name, args⟩ := expr
  obtain ⟨nameToo, images⟩ := image
  rw [TypeExpr.renameArgs, TypeExpr.renameAll_eq_map] at alike
  obtain ⟨text, each⟩ := alike.parts
  rw [List.forall₂_map_left_iff, List.forall₂_iff_zip] at each
  refine ⟨text, List.forall₂_iff_zip.mpr ⟨each.1, fun paired => ?_⟩⟩
  have member := (List.of_mem_zip paired).1
  exact follows.meansSame (TypeExpr.not_mem_namesAll.mp fresh _ member) (each.2 paired)

theorem Scope.Follows.boundMeansSame (follows : Scope.Follows old new f scope other)
    {bound image : Option BoundExpr} (fresh : new ∉ bound.elim [] BoundExpr.typeNames)
    (alike : Option.Rel (BoundExpr.Matches TypeExpr.Alike) (bound.map (BoundExpr.rename f)) image) :
    Option.Rel (BoundMeansSame (CheckError.Renamed old new) scope other) bound image := by
  have terms {exprs images : List TypeExpr}
      (avoid : ∀ expr ∈ exprs, new ∉ TypeExpr.namesAll expr.args)
      (each : List.Forall₂ TypeExpr.Alike (exprs.map (TypeExpr.renameArgs f)) images) :
      List.Forall₂ (TraitMeansSame (CheckError.Renamed old new) scope other) exprs images := by
    rw [List.forall₂_map_left_iff, List.forall₂_iff_zip] at each
    refine List.forall₂_iff_zip.mpr ⟨each.1, fun paired => ?_⟩
    exact follows.traitMeansSame (avoid _ (List.of_mem_zip paired).1) (each.2 paired)
  cases bound with
  | none =>
    cases alike
    exact .none
  | some bound =>
    obtain ⟨image, rfl, each⟩ := exists_of_rel_some alike
    have avoid : ∀ term ∈ bound.positive ++ bound.negative, new ∉ TypeExpr.namesAll term.args :=
      fun term member occurs => fresh (List.mem_flatMap.mpr ⟨term, member, occurs⟩)
    exact .some ⟨terms (fun term member => avoid term (List.mem_append_left _ member)) each.1,
      terms (fun term member => avoid term (List.mem_append_right _ member)) each.2⟩

/-- Parameters that the renaming does not touch come first. -/
theorem ParamsMeanSame.unchanged {body : Scope → Scope → Prop} {params renamed : List Param}
    (rest : ∀ images next scope other,
      List.Forall₂ (Param.Matches TypeExpr.Alike) renamed images →
      Scope.Follows old new id scope other →
      ParamsMeanSame (CheckError.Renamed old new) body next scope other params images)
    {front images : List Param} (fresh : ∀ param ∈ front, new ∉ param.typeNames)
    (each : List.Forall₂ (Param.Matches TypeExpr.Alike) (front ++ renamed) images) {next : Int}
    (follows : Scope.Follows old new id scope other) :
    ParamsMeanSame (CheckError.Renamed old new) body next scope other (front ++ params) images := by
  induction front generalizing images next scope other with
  | nil => exact rest images next scope other each follows
  | cons param front ih =>
    obtain ⟨here, later⟩ := List.forall_mem_cons.mp fresh
    rw [Param.typeNames, List.mem_cons, not_or] at here
    obtain ⟨image, images, ⟨text, bounds⟩, tail, rfl⟩ := List.forall₂_cons_left_iff.mp each
    rw [← param.renameBound_id] at bounds
    refine .cons (follows.boundMeansSame here.2 bounds) (ih later tail ?_)
    rw [← text]
    exact follows.keep (Ne.symm here.1) rfl rfl

theorem ParamsMeanSame.allUnchanged {body : Scope → Scope → Prop}
    (final : ∀ scope other, Scope.Follows old new id scope other → body scope other)
    {params images : List Param} (fresh : ∀ param ∈ params, new ∉ param.typeNames)
    (each : List.Forall₂ (Param.Matches TypeExpr.Alike) params images) {next : Int}
    (follows : Scope.Follows old new id scope other) :
    ParamsMeanSame (CheckError.Renamed old new) body next scope other params images := by
  rw [← params.append_nil] at each ⊢
  refine .unchanged (fun images next scope other none follows => ?_) fresh each follows
  cases none
  exact .nil (final scope other follows)

/-- Behind the renamed parameter the new name stands for the old one, up to a parameter that is called
by the old name again. -/
theorem ParamsMeanSame.renamed {body : Scope → Scope → Prop} {params images : List Param}
    (shadowed : params.any (·.name.text == old) →
      ∀ scope other, Scope.Follows old new id scope other → body scope other)
    (visible : params.any (·.name.text == old) = false →
      ∀ scope other, Scope.Follows old new (replaceName old new) scope other → body scope other)
    (fresh : ∀ param ∈ params, new ∉ param.typeNames)
    (each : List.Forall₂ (Param.Matches TypeExpr.Alike) (renameLater old new params) images)
    {next : Int} (follows : Scope.Follows old new (replaceName old new) scope other) :
    ParamsMeanSame (CheckError.Renamed old new) body next scope other params images := by
  induction params generalizing images next scope other with
  | nil =>
    cases each
    exact .nil (visible rfl scope other follows)
  | cons param params ih =>
    obtain ⟨here, later⟩ := List.forall_mem_cons.mp fresh
    rw [Param.typeNames, List.mem_cons, not_or] at here
    rw [renameLater] at each
    by_cases again : param.name.text = old
    · -- Its bound still sees the renamed parameter. Behind it both scopes agree on the old name again.
      rw [if_pos again] at each
      obtain ⟨image, images, ⟨text, bounds⟩, tail, rfl⟩ := List.forall₂_cons_left_iff.mp each
      have final := shadowed (by rw [List.any_cons, beq_iff_eq.mpr again, Bool.true_or])
      refine .cons (follows.boundMeansSame here.2 bounds) (.allUnchanged final later tail ?_)
      rw [← text]
      exact again.symm ▸ follows.shadow rfl
    · rw [if_neg again] at each
      obtain ⟨image, images, ⟨text, bounds⟩, tail, rfl⟩ := List.forall₂_cons_left_iff.mp each
      rw [List.any_cons, beq_false_of_ne again, Bool.false_or] at shadowed visible
      refine .cons (follows.boundMeansSame here.2 bounds) (ih shadowed visible later tail ?_)
      rw [← text]
      exact follows.keep (Ne.symm here.1) (if_neg again) rfl

theorem ImplMeansSame.of_renamed {impl image : ImplDecl} {front later : List Param} {param : Param}
    (params : impl.params = front ++ param :: later) (fresh : new ∉ impl.typeNames)
    (each : List.Forall₂ (Param.Matches TypeExpr.Alike)
      (front ++ ⟨⟨new, param.name.span⟩, param.bound⟩ :: renameLater param.name.text new later)
      image.params)
    (shadowed : later.any (·.name.text == param.name.text) →
      impl.head.Alike image.head ∧ impl.target.Alike image.target)
    (visible : later.any (·.name.text == param.name.text) = false →
      (impl.head.renameArgs (replaceName param.name.text new)).Alike image.head ∧
        (impl.target.rename (replaceName param.name.text new)).Alike image.target) :
    ImplMeansSame (CheckError.Renamed param.name.text new) impl image := by
  rw [ImplDecl.typeNames, List.mem_append, List.mem_append, not_or, not_or] at fresh
  obtain ⟨⟨inParams, inHead⟩, inTarget⟩ := fresh
  have avoid : ∀ other ∈ impl.params, new ∉ other.typeNames := fun other member occurs =>
    inParams (List.mem_flatMap.mpr ⟨other, member, occurs⟩)
  rw [params, List.forall_mem_append, List.forall_mem_cons] at avoid
  obtain ⟨inFront, here, inLater⟩ := avoid
  rw [Param.typeNames, List.mem_cons, not_or] at here
  intro next
  rw [params]
  refine .unchanged (fun images next scope other each follows => ?_) inFront each .start
  obtain ⟨image, images, ⟨text, bounds⟩, tail, rfl⟩ := List.forall₂_cons_left_iff.mp each
  dsimp only at text bounds
  rw [← param.renameBound_id] at bounds
  refine .cons (follows.boundMeansSame here.2 bounds) (.renamed ?_ ?_ inLater tail ?_)
  · intro again scope other follows
    obtain ⟨head, target⟩ := shadowed again
    rw [← impl.head.renameArgs_id] at head
    rw [← impl.target.rename_id] at target
    exact ⟨follows.traitMeansSame inHead head, follows.meansSame inTarget target⟩
  · intro once scope other follows
    obtain ⟨head, target⟩ := visible once
    exact ⟨follows.traitMeansSame inHead head, follows.meansSame inTarget target⟩
  · rw [← text]
    exact follows.rename rfl

end

theorem ImplDecl.renameParam_meansSame {impl image : ImplDecl} {place : Nat} {param : Param}
    (found : impl.params[place]? = some param) {new : String} (fresh : new ∉ impl.typeNames)
    (alike : (impl.renameParam place new).Alike image) :
    ImplMeansSame (CheckError.Renamed param.name.text new) impl image := by
  obtain ⟨small, rfl⟩ := List.getElem?_eq_some_iff.mp found
  have split := List.drop_eq_getElem_cons small
  have params := (List.take_append_drop place impl.params).symm
  rw [split] at params
  have same := alike.matches
  rw [ImplDecl.renameParam, split] at same
  dsimp only at same
  split at same
  · rename_i again
    refine .of_renamed params fresh same.params (fun _ => ⟨same.head, same.target⟩) fun once => ?_
    rw [again] at once
    cases once
  · rename_i once
    exact .of_renamed params fresh same.params (fun again => absurd again once)
      fun _ => ⟨same.head, same.target⟩

theorem Program.Alike.enlarges {program other : Program} (alike : program.Alike other) :
    Enlarges program program.decls other.decls := by
  have each := (Program.mk.inj alike)
  rw [← List.forall₂_eq_eq_eq, List.forall₂_map_left_iff, List.forall₂_map_right_iff] at each
  generalize program.decls = decls at each
  generalize other.decls = images at each
  induction each with
  | nil => exact .nil
  | cons head _ ih => exact .keep head ih

theorem forall₂_exchange {α β : Type} {same : α → β → Prop} {front back : List α} {a b : α}
    {others : List β} (each : List.Forall₂ same (front ++ a :: back) others) :
    List.Forall₂ (fun item other => same item other ∨ item = b ∧ same a other)
      (front ++ b :: back) others := by
  induction front generalizing others with
  | nil =>
    cases each with
    | cons head tail => exact .cons (.inr ⟨rfl, head⟩) (tail.imp fun _ _ => .inl)
  | cons item front ih =>
    cases each with
    | cons head tail => exact .cons (.inl head) (ih tail)

/-- Impls play no part in what structs and traits there are. -/
theorem Program.last?_exchange_impl {α : Type} {pick : Decl → Option α}
    (skips : ∀ impl, pick (.impl impl) = none) (key : α → String) (front back : List Decl)
    (impl other : ImplDecl) :
    Program.last? ⟨front ++ .impl impl :: back⟩ pick key =
      Program.last? ⟨front ++ .impl other :: back⟩ pick key := by
  funext name
  simp only [Program.last?, List.filterMap_append, List.filterMap_cons_none (skips _)]

/-- A parameter may be called by any name that its impl does not use. With it change its occurrences in
later bounds, in the head and in the target, as far as they mean it, and nothing else changes: verdicts
stay the same, and a check that stops does so at the same places for the same cause, but for the new name
of the parameter. -/
theorem parameter_names_do_not_matter (front back : List Decl) (impl : ImplDecl) (place : Nat)
    (param : Param) (found : impl.params[place]? = some param) (new : String)
    (fresh : new ∉ impl.typeNames) (other : Program)
    (renamed : Program.Alike ⟨front ++ .impl (impl.renameParam place new) :: back⟩ other) :
    SameOutcome (CheckError.Renamed param.name.text new) (impl.AlikeOrRenamed place new)
      ⟨front ++ .impl impl :: back⟩ other := by
  have covers (cause other : CheckError) (alike : cause.Alike other) :
      cause.Renamed param.name.text new other := .alike alike
  have backwards : other.Alike ⟨front ++ .impl (impl.renameParam place new) :: back⟩ := renamed.symm
  have structs : Program.struct? ⟨front ++ .impl impl :: back⟩ = _ :=
    Program.last?_exchange_impl (fun _ => rfl) _ front back impl (impl.renameParam place new)
  have traits : Program.trait? ⟨front ++ .impl impl :: back⟩ = _ :=
    Program.last?_exchange_impl (fun _ => rfl) _ front back impl (impl.renameParam place new)
  have forth := renamed.enlarges.keepsSignatures
  have back := backwards.enlarges.keepsSignatures
  refine .of_signatures ⟨structs ▸ forth.structs, traits ▸ forth.traits⟩
    ⟨structs ▸ back.structs, traits ▸ back.traits⟩ covers ?_ ?_
  · rintro decl image (alike | ⟨rfl, alike⟩)
    · exact (namewise_alike covers).implMeansSame alike.matches
    · exact decl.renameParam_meansSame found fresh alike
  · have each := renamed.enlarges.impls
    rw [Program.impls, List.filterMap_append, List.filterMap_cons] at each
    rw [Program.impls, List.filterMap_append, List.filterMap_cons]
    exact forall₂_exchange each

/-- `impl<A, B: From<A>, A: From<A>> Show for Pair<A, B> {}`. -/
def showPair : ImplDecl :=
  let source (name : String) : TypeExpr := .apply (.placeless "From") [.apply (.placeless name) []]
  ⟨[.ofTerms "A" [] [], .ofTerms "B" [source "A"] [], .ofTerms "A" [source "A"] []],
    .apply (.placeless "Show") [],
    .apply (.placeless "Pair") [.apply (.placeless "A") [], .apply (.placeless "B") []]⟩

/-- `impl<Z, B: From<Z>, A: From<Z>> Show for Pair<A, B> {}`. -/
def showPairFirst : ImplDecl :=
  let source (name : String) : TypeExpr := .apply (.placeless "From") [.apply (.placeless name) []]
  ⟨[.ofTerms "Z" [] [], .ofTerms "B" [source "Z"] [], .ofTerms "A" [source "Z"] []],
    .apply (.placeless "Show") [],
    .apply (.placeless "Pair") [.apply (.placeless "A") [], .apply (.placeless "B") []]⟩

/-- `impl<A, B: From<A>, Z: From<A>> Show for Pair<Z, B> {}`. -/
def showPairLast : ImplDecl :=
  let source (name : String) : TypeExpr := .apply (.placeless "From") [.apply (.placeless name) []]
  ⟨[.ofTerms "A" [] [], .ofTerms "B" [source "A"] [], .ofTerms "Z" [source "A"] []],
    .apply (.placeless "Show") [],
    .apply (.placeless "Pair") [.apply (.placeless "Z") [], .apply (.placeless "B") []]⟩

/-- Traits and a struct for `showPair`, with an impl to compare it with. -/
def pairProgram (impl : ImplDecl) : Program :=
  let type (name : String) : Param := ⟨.placeless name, none⟩
  ⟨[.trait ⟨.placeless "Show", [], none⟩, .trait ⟨.placeless "From", [type "T"], none⟩,
    .struct ⟨.placeless "Pair", [type "X", type "Y"]⟩] ++ .impl impl :: [.impl showAll]⟩

/-- Of two parameters that are called the same, either may be renamed, and the impls still overlap. -/
theorem show_pair_renamed_same_outcome :
    "Z" ∉ showPair.typeNames ∧
      (pairProgram showPair).check.result = .ok [⟨.overlap, showPair, showAll⟩] ∧
      (pairProgram showPairFirst).check.result = .ok [⟨.overlap, showPairFirst, showAll⟩] ∧
      SameOutcome (CheckError.Renamed "A" "Z") (showPair.AlikeOrRenamed 0 "Z")
        (pairProgram showPair) (pairProgram showPairFirst) ∧
      (pairProgram showPairLast).check.result = .ok [⟨.overlap, showPairLast, showAll⟩] ∧
      SameOutcome (CheckError.Renamed "A" "Z") (showPair.AlikeOrRenamed 2 "Z")
        (pairProgram showPair) (pairProgram showPairLast) := by
  have fresh : "Z" ∉ showPair.typeNames := by decide
  exact ⟨fresh, rfl, rfl, parameter_names_do_not_matter _ _ showPair 0 _ rfl "Z" fresh _ rfl, rfl,
    parameter_names_do_not_matter _ _ showPair 2 _ rfl "Z" fresh _ rfl⟩

end TraitCoherence
