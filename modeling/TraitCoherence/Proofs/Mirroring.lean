import TraitCoherence.Proofs.Tracking

namespace TraitCoherence

/-- Bounds whose terms mean the same, those demanded and those forbidden. -/
def BoundMeansSame (blame : CheckError → CheckError → Prop) (scope other : Scope)
    (bound image : BoundExpr) : Prop :=
  List.Forall₂ (TraitMeansSame blame scope other) bound.positive image.positive ∧
    List.Forall₂ (TraitMeansSame blame scope other) bound.negative image.negative

/-- Parameters whose bounds mean the same, each in the scope of those before it, and of which something
else is true once all of them are in scope. -/
inductive ParamsMeanSame (blame : CheckError → CheckError → Prop) (body : Scope → Scope → Prop) :
    Int → Scope → Scope → List Param → List Param → Prop
  | nil {next : Int} {scope other : Scope} : body scope other →
      ParamsMeanSame blame body next scope other [] []
  | cons {next : Int} {scope other : Scope} {param image : Param} {params images : List Param} :
      Option.Rel (BoundMeansSame blame scope other) param.bound image.bound →
      ParamsMeanSame blame body (next + 1)
        ((param.name.text, .var next param.name.text) :: scope)
        ((image.name.text, .var next image.name.text) :: other) params images →
      ParamsMeanSame blame body next scope other (param :: params) (image :: images)

/-- Impls that mean the same, whatever their parameters are called. -/
def ImplMeansSame (blame : CheckError → CheckError → Prop) (decl image : ImplDecl) : Prop :=
  ∀ next, ParamsMeanSame blame (fun scope other =>
    TraitMeansSame blame scope other decl.head image.head ∧
      MeansSame blame scope other decl.target image.target) next [] [] decl.params image.params

theorem ParamsMeanSame.length_eq {blame : CheckError → CheckError → Prop}
    {body : Scope → Scope → Prop} {next : Int} {scope other : Scope} {params images : List Param}
    (means : ParamsMeanSame blame body next scope other params images) :
    params.length = images.length := by
  induction means with
  | nil => rfl
  | cons _ _ ih => rw [List.length_cons, List.length_cons, ih]

/-- Bounds with related terms. -/
def BoundExpr.Matches (related : TypeExpr → TypeExpr → Prop) (bound image : BoundExpr) : Prop :=
  List.Forall₂ related bound.positive image.positive ∧
    List.Forall₂ related bound.negative image.negative

/-- Parameters with the same name, and with related terms in their bounds. -/
def Param.Matches (related : TypeExpr → TypeExpr → Prop) (param image : Param) : Prop :=
  param.name.text = image.name.text ∧
    Option.Rel (BoundExpr.Matches related) param.bound image.bound

/-- Impls with the same parameters, and with related expressions throughout. -/
structure ImplDecl.Matches (related : TypeExpr → TypeExpr → Prop) (decl image : ImplDecl) : Prop where
  params : List.Forall₂ (Param.Matches related) decl.params image.params
  head : related decl.head image.head
  target : related decl.target image.target

theorem Namewise.implMeansSame {blame : CheckError → CheckError → Prop}
    {related : TypeExpr → TypeExpr → Prop} (parts : Namewise blame related) {decl image : ImplDecl}
    (same : decl.Matches related image) : ImplMeansSame blame decl image := by
  have within {params images : List Param}
      (each : List.Forall₂ (Param.Matches related) params images) {next : Int} {scope other : Scope}
      (scopes : scope.Alike other) :
      ParamsMeanSame blame (fun scope other => TraitMeansSame blame scope other decl.head image.head ∧
        MeansSame blame scope other decl.target image.target) next scope other params images := by
    induction each generalizing next scope other with
    | nil => exact .nil ⟨parts.traitMeansSame scopes same.head, parts.meansSame scopes same.target⟩
    | @cons param image _ _ head _ ih =>
      obtain ⟨name, bounds⟩ := head
      refine .cons ?_ (ih (.cons ⟨name, rfl⟩ scopes))
      generalize param.bound = bound at bounds ⊢
      generalize image.bound = boundToo at bounds ⊢
      cases bounds with
      | none => exact .none
      | some terms =>
        exact .some ⟨terms.1.imp fun _ _ => parts.traitMeansSame scopes,
          terms.2.imp fun _ _ => parts.traitMeansSame scopes⟩
  exact fun next => within same.params .nil

section

variable {blame : CheckError → CheckError → Prop} {strict : Prop} {catalog mirror : Catalog}
  {scope other : Scope} (mirrors : catalog.Mirrors blame strict mirror)

include mirrors

theorem Catalog.Mirrors.elaborateParam {param image : Param}
    (means : Option.Rel (BoundMeansSame blame scope other) param.bound image.bound) :
    Tracks blame strict (Option.Rel Bound.Alike) (catalog.elaborateParam scope param)
      (mirror.elaborateParam other image) := by
  rw [Catalog.elaborateParam, Catalog.elaborateParam]
  generalize param.bound = bound at means ⊢
  generalize image.bound = boundToo at means ⊢
  cases means with
  | none => exact .ok .none
  | @some bound boundToo parts =>
    have elaborated : Tracks blame strict Bound.Alike (catalog.elaborateBound scope bound)
        (mirror.elaborateBound other boundToo) := by
      rw [catalog.elaborateBound_eq, mirror.elaborateBound_eq]
      refine (mirrors.elaborateTraits parts.1).bind fun positive positiveToo demanded => ?_
      refine (mirrors.elaborateTraits parts.2).bind fun negative negativeToo forbidden => ?_
      exact .ok ⟨.ofList demanded, .ofList forbidden⟩
    dsimp only
    generalize catalog.elaborateBound scope bound = here at elaborated ⊢
    generalize mirror.elaborateBound other boundToo = there at elaborated ⊢
    cases elaborated with
    | ok alike => exact .ok (.some alike)
    | error related => exact .error related
    | lost loose => exact .lost loose

theorem Catalog.Mirrors.elaborateParams {body : Scope → Scope → Prop} {next : Int}
    {params images : List Param} (means : ParamsMeanSame blame body next scope other params images) :
    Tracks blame strict (fun left right => body left.1 right.1 ∧ left.2.Alike right.2)
      (catalog.elaborateParams scope next params).2 (mirror.elaborateParams other next images).2 := by
  induction means with
  | nil holds => exact .ok ⟨holds, .nil⟩
  | cons bounds _ ih =>
    rw [catalog.elaborateParams_cons, mirror.elaborateParams_cons]
    refine (mirrors.elaborateParam bounds).bind fun bound boundToo alike => ?_
    exact ih.bind fun result resultToo rest => .ok ⟨rest.1, .cons ⟨rfl, alike⟩ rest.2⟩

theorem Catalog.Mirrors.elaborateImpl {decl image : ImplDecl} (means : ImplMeansSame blame decl image)
    (next : Int) :
    Tracks blame strict ImplScheme.Alike (catalog.elaborateImpl next decl).2
      (mirror.elaborateImpl next image).2 := by
  rw [catalog.elaborateImpl_snd, mirror.elaborateImpl_snd]
  refine (mirrors.elaborateParams (means next)).bind fun params paramsToo same => ?_
  obtain ⟨⟨head, target⟩, bounds⟩ := same
  refine (mirrors.elaborateTrait head).bind fun trait traitToo traits => ?_
  exact (mirrors.elaborateType target).bind fun ty tyToo types => .ok ⟨traits, types, bounds⟩

theorem Catalog.Mirrors.elaboratePair {first second firstToo secondToo : ImplDecl}
    (means : ImplMeansSame blame first firstToo) (meansToo : ImplMeansSame blame second secondToo) :
    Tracks blame strict (fun left right => left.1.Alike right.1 ∧ left.2.Alike right.2)
      (catalog.elaboratePair first second) (mirror.elaboratePair firstToo secondToo) := by
  rw [catalog.elaboratePair_eq, mirror.elaboratePair_eq, ← (means 0).length_eq]
  refine (mirrors.elaborateImpl means 0).bind fun left leftToo alike => ?_
  exact (mirrors.elaborateImpl meansToo _).bind fun right rightToo alikeToo => .ok ⟨alike, alikeToo⟩

end

/-- Attempts that keep a memo, of which the second tracks the first. What the memos hold counts only
where both succeed. -/
def MemoTracks {α β : Type} (blame : CheckError → CheckError → Prop) (strict : Prop)
    (same : α → β → Prop) (first : Memo × Except CheckError α) (second : Memo × Except CheckError β) :
    Prop :=
  Tracks blame strict (fun a b => first.1.Alike second.1 ∧ same a b) first.2 second.2

section

variable {blame : CheckError → CheckError → Prop} {strict : Prop} {catalog mirror : Catalog}

theorem MemoTracks.cases {α β : Type} {same : α → β → Prop} {first : Memo × Except CheckError α}
    {second : Memo × Except CheckError β} (tracks : MemoTracks blame strict same first second) :
    (∃ memo memoToo a b, first = (memo, .ok a) ∧ second = (memoToo, .ok b) ∧ memo.Alike memoToo ∧
      same a b) ∨
    (∃ memo memoToo cause other, first = (memo, .error cause) ∧ second = (memoToo, .error other) ∧
      blame cause other) ∨
    ∃ memo cause, first = (memo, .error cause) ∧ ¬ strict := by
  obtain ⟨memo, result⟩ := first
  obtain ⟨memoToo, resultToo⟩ := second
  rw [MemoTracks] at tracks
  cases tracks with
  | ok related => exact .inl ⟨_, _, _, _, rfl, rfl, related.1, related.2⟩
  | error related => exact .inr (.inl ⟨_, _, _, _, rfl, rfl, related⟩)
  | lost loose => exact .inr (.inr ⟨_, _, rfl, loose⟩)

theorem gather_tracks {close closeToo : Memo → TraitRef → Memo × Except CheckError TraitSet}
    {traits others : List TraitRef}
    (each : List.Forall₂ (fun trait other => ∀ memo memoToo : Memo, memo.Alike memoToo →
      MemoTracks blame strict TraitSet.Alike (close memo trait) (closeToo memoToo other)) traits others)
    {memo memoToo : Memo} (memos : memo.Alike memoToo) {sofar sofarToo : TraitSet}
    (alike : sofar.Alike sofarToo) :
    MemoTracks blame strict TraitSet.Alike (gather close memo sofar traits)
      (gather closeToo memoToo sofarToo others) := by
  induction each generalizing memo memoToo sofar sofarToo with
  | nil => exact .ok ⟨memos, alike⟩
  | @cons trait other _ _ head _ ih =>
    rw [gather, gather]
    rcases (head memo memoToo memos).cases with ⟨_, _, _, _, here, there, memos, same⟩ |
      ⟨_, _, _, _, here, there, related⟩ | ⟨_, _, here, loose⟩
    · rw [here, there]
      exact ih memos (alike.union same)
    · rw [here, there]
      exact .error related
    · rw [here]
      exact .lost loose

variable (mirrors : catalog.Mirrors blame strict mirror)

include mirrors

theorem Catalog.Mirrors.closure {trait other : TraitRef} (alike : trait.Alike other)
    {memo memoToo : Memo} (memos : memo.Alike memoToo) :
    MemoTracks blame strict TraitSet.Alike (catalog.closure memo trait)
      (mirror.closure memoToo other) := by
  -- The calls go along supertraits, of which there is an end in the first catalog.
  induction trait using catalog.supertrait_induction generalizing other memo memoToo with
  | step trait ih =>
    rw [catalog.closure_eq, mirror.closure_eq, Catalog.closeStep, Catalog.closeStep]
    have remembered := memos.get? alike
    have supertraits := mirrors.supertraits alike
    generalize memo.get? trait = here at remembered ⊢
    generalize memoToo.get? other = there at remembered ⊢
    cases remembered with
    | some same => exact .ok ⟨memos, same⟩
    | none =>
      dsimp only
      generalize found : catalog.supertraits trait = here at supertraits ⊢
      generalize mirror.supertraits other = there at supertraits ⊢
      cases supertraits with
      | error related => exact .error related
      | lost loose => exact .lost loose
      | @ok traits others each =>
        have closed := gather_tracks (List.forall₂_iff_zip.mpr ⟨each.length_eq, fun paired =>
          fun memo memoToo memos => ih _ ⟨traits, found, (List.of_mem_zip paired).1⟩
            (List.forall₂_zip each paired) memos⟩) memos
          (show (TraitSet.singleton trait).Alike (.singleton other) from .cons alike .nil)
        dsimp only
        rcases closed.cases with ⟨_, _, _, _, here, there, memos, same⟩ |
          ⟨_, _, _, _, here, there, related⟩ | ⟨_, _, here, loose⟩
        · rw [here, there]
          exact .ok ⟨List.rel_append memos (.cons ⟨alike, same⟩ .nil), same⟩
        · rw [here, there]
          exact .error related
        · rw [here]
          exact .lost loose

theorem Catalog.Mirrors.unsatisfiable {bound boundToo : Bound} (alike : bound.Alike boundToo)
    {memo memoToo : Memo} (memos : memo.Alike memoToo) :
    MemoTracks blame strict Eq (catalog.unsatisfiable memo bound)
      (mirror.unsatisfiable memoToo boundToo) := by
  have implied : MemoTracks blame strict TraitSet.Alike (catalog.implied memo bound)
      (mirror.implied memoToo boundToo) :=
    gather_tracks (List.Forall₂.imp (fun _ _ same _ _ memos => mirrors.closure same memos)
      alike.positive) memos .nil
  rw [Catalog.unsatisfiable, Catalog.unsatisfiable]
  rcases implied.cases with ⟨_, _, _, _, here, there, memos, same⟩ |
    ⟨_, _, _, _, here, there, related⟩ | ⟨_, _, here, loose⟩
  · rw [here, there]
    exact .ok ⟨memos, same.meets_eq alike.negative⟩
  · rw [here, there]
    exact .error related
  · rw [here]
    exact .lost loose

theorem Catalog.Mirrors.judgeClasses {bounds boundsToo : BoundTable} (same : bounds.Alike boundsToo)
    {classes classesToo : List VarClass} (each : List.Forall₂ VarClass.Alike classes classesToo)
    {memo memoToo : Memo} (memos : memo.Alike memoToo) :
    Tracks blame strict Eq (catalog.judgeClasses bounds memo classes).result
      (mirror.judgeClasses boundsToo memoToo classesToo).result := by
  induction each generalizing memo memoToo with
  | nil => exact .ok rfl
  | @cons a b _ _ head _ ih =>
    obtain ⟨members, anchor⟩ := a
    obtain ⟨membersToo, anchorToo⟩ := b
    obtain ⟨rfl, anchors⟩ := head
    cases anchor with
    | some ty =>
      cases anchorToo with
      | none => cases anchors
      | some tyToo => exact ih memos
    | none =>
      cases anchorToo with
      | some tyToo => cases anchors
      | none =>
        have empty : Bound.empty.Alike .empty := ⟨.nil, .nil⟩
        have joined := same.joinBounds empty members
        rw [Catalog.judgeClasses, Catalog.judgeClasses]
        generalize TraitCoherence.joinBounds bounds .empty members = here at joined ⊢
        generalize TraitCoherence.joinBounds boundsToo .empty members = there at joined ⊢
        cases joined with
        | missing x => exact .error (mirrors.missingBound x)
        | unbounded => exact ih memos
        | @bound bound boundToo alike =>
          dsimp only
          rcases (mirrors.unsatisfiable alike memos).cases with
            ⟨_, _, answer, _, here, there, memos, rfl⟩ | ⟨_, _, _, _, here, there, related⟩ |
            ⟨_, _, here, loose⟩
          · rw [here, there]
            cases answer with
            | true => exact .ok rfl
            | false => exact ih memos
          · rw [here, there]
            exact .error related
          · rw [here]
            exact .lost loose

/-- Impls that mean the same get the same verdict, or fail alike. -/
theorem Catalog.Mirrors.compare {first second firstToo secondToo : ImplDecl}
    (means : ImplMeansSame blame first firstToo) (meansToo : ImplMeansSame blame second secondToo) :
    Tracks blame strict Eq (catalog.compare first second).result
      (mirror.compare firstToo secondToo).result := by
  have schemes := mirrors.elaboratePair means meansToo
  rw [Catalog.compare, Catalog.compare]
  generalize catalog.elaboratePair first second = here at schemes ⊢
  generalize mirror.elaboratePair firstToo secondToo = there at schemes ⊢
  cases schemes with
  | error related => exact .error related
  | lost loose => exact .lost loose
  | @ok pair pairToo alike =>
    have unified := unifySchemes_alike alike.1 alike.2
    dsimp only
    generalize unifySchemes pair.1 pair.2 = here at unified ⊢
    generalize unifySchemes pairToo.1 pairToo.2 = there at unified ⊢
    cases here with
    | none =>
      cases there with
      | none => exact .ok rfl
      | some τ => cases unified
    | some σ =>
      cases there with
      | none => cases unified
      | some τ =>
        have same := Option.some.inj unified
        exact mirrors.judgeClasses (List.rel_append alike.1.bounds alike.2.bounds)
          (Substitution.classes_alike same) .nil

end

end TraitCoherence
