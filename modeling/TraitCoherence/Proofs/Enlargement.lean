import TraitCoherence.Proofs.Signatures

namespace TraitCoherence

/-- A struct of a name that no struct of a program has, or a trait of a name that no trait has. -/
def Program.IsNew (program : Program) : Decl → Prop
  | .struct decl => ∀ old ∈ program.decls.filterMap Decl.struct?, old.name.text ≠ decl.name.text
  | .trait decl => ∀ old ∈ program.decls.filterMap Decl.trait?, old.name.text ≠ decl.name.text
  | .impl _ => False

instance (program : Program) : DecidablePred program.IsNew
  | .struct _ => inferInstanceAs (Decidable (∀ _ ∈ _, _))
  | .trait _ => inferInstanceAs (Decidable (∀ _ ∈ _, _))
  | .impl _ => inferInstanceAs (Decidable False)

/-- The second list has the declarations of the first, and anywhere between them structs and traits that
are new to a program. -/
inductive Enlarges (program : Program) : List Decl → List Decl → Prop
  | nil : Enlarges program [] []
  | keep {decl image : Decl} {decls images : List Decl} : decl.Alike image →
      Enlarges program decls images → Enlarges program (decl :: decls) (image :: images)
  | insert {decl : Decl} {decls images : List Decl} : program.IsNew decl →
      Enlarges program decls images → Enlarges program decls (decl :: images)

/-- What is picked from a list of declarations, and never from a new one, is there in a larger list. -/
theorem Enlarges.filterMap_rel {program : Program} {α : Type} {pick : Decl → Option α}
    {same : α → α → Prop}
    (alike : ∀ decl image, decl.Alike image → Option.Rel same (pick decl) (pick image))
    (skips : ∀ decl, program.IsNew decl → pick decl = none) {decls images : List Decl}
    (enlarges : Enlarges program decls images) :
    List.Forall₂ same (decls.filterMap pick) (images.filterMap pick) := by
  induction enlarges with
  | nil => exact .nil
  | @keep decl image _ _ kept _ ih =>
    have picked := alike decl image kept
    rw [List.filterMap_cons, List.filterMap_cons]
    generalize pick decl = here at picked ⊢
    generalize pick image = there at picked ⊢
    cases picked with
    | none => exact ih
    | some related => exact .cons related ih
  | insert new _ ih =>
    rw [List.filterMap_cons_none (skips _ new)]
    exact ih

theorem TraitDecl.sameSignature_of_unplaced {decl image : TraitDecl}
    (params : decl.params.map Param.unplaced = image.params.map Param.unplaced)
    (supertraits : decl.supertraits.map BoundExpr.unplaced =
      image.supertraits.map BoundExpr.unplaced) : decl.SameSignature image := by
  constructor
  · have texts := congrArg (List.map fun param => param.name.text) params
    rw [List.map_map, List.map_map] at texts
    exact texts.symm
  · have terms := BoundExpr.matches_of_unplaced supertraits
    rw [TraitDecl.demands, TraitDecl.demands]
    generalize decl.supertraits = bound at terms ⊢
    generalize image.supertraits = boundToo at terms ⊢
    cases terms with
    | none => exact .nil
    | some each => exact each.1

/-- Declarations that are alike are of one kind, with one name and one signature. -/
theorem Decl.Alike.cases {decl image : Decl} (alike : decl.Alike image) :
    (∃ a b, decl = .struct a ∧ image = .struct b ∧ b.name.text = a.name.text ∧ b.arity = a.arity) ∨
    (∃ a b, decl = .trait a ∧ image = .trait b ∧ b.name.text = a.name.text ∧ a.SameSignature b) ∨
    ∃ a b, decl = .impl a ∧ image = .impl b ∧ a.Alike b := by
  cases decl with
  | struct a =>
    cases image with
    | trait b => cases alike
    | impl b => cases alike
    | struct b =>
      obtain ⟨name, params⟩ := StructDecl.mk.inj (Decl.struct.inj alike)
      have count := congrArg List.length params
      rw [List.length_map, List.length_map] at count
      exact .inl ⟨a, b, rfl, rfl, (Phrase.mk.inj name).1.symm, count.symm⟩
  | trait a =>
    cases image with
    | struct b => cases alike
    | impl b => cases alike
    | trait b =>
      obtain ⟨name, params, supertraits⟩ := TraitDecl.mk.inj (Decl.trait.inj alike)
      exact .inr (.inl ⟨a, b, rfl, rfl, (Phrase.mk.inj name).1.symm,
        TraitDecl.sameSignature_of_unplaced params supertraits⟩)
  | impl a =>
    cases image with
    | struct b => cases alike
    | trait b => cases alike
    | impl b => exact .inr (.inr ⟨a, b, rfl, rfl, alike⟩)

theorem Enlarges.impls {program enlarged : Program}
    (enlarges : Enlarges program program.decls enlarged.decls) :
    List.Forall₂ ImplDecl.Alike program.impls enlarged.impls := by
  refine enlarges.filterMap_rel (fun decl image alike => ?_) fun decl new => ?_
  · rcases alike.cases with ⟨_, _, rfl, rfl, _⟩ | ⟨_, _, rfl, rfl, _⟩ | ⟨_, _, rfl, rfl, same⟩
    · exact .none
    · exact .none
    · exact .some same
  · cases decl with
    | struct decl => rfl
    | trait decl => rfl
    | impl decl => exact absurd new id

theorem getLast?_rel {α β : Type} {same : α → β → Prop} {items : List α} {others : List β}
    (each : List.Forall₂ same items others) : Option.Rel same items.getLast? others.getLast? := by
  rw [← List.head?_reverse, ← List.head?_reverse]
  have backwards : List.Forall₂ same items.reverse others.reverse := List.rel_reverse each
  generalize items.reverse = front at backwards ⊢
  generalize others.reverse = back at backwards ⊢
  cases backwards with
  | nil => exact .none
  | cons last _ => exact .some last

/-- The last declaration of a name that nothing new has stays the last. -/
theorem Enlarges.last_rel {program : Program} {α : Type} {pick : Decl → Option α} {key : α → String}
    {same : α → α → Prop} {name : String}
    (alike : ∀ decl image, decl.Alike image →
      Option.Rel (fun a b => key b = key a ∧ same a b) (pick decl) (pick image))
    (skips : ∀ decl, program.IsNew decl → ∀ a ∈ pick decl, key a ≠ name) {enlarged : Program}
    (enlarges : Enlarges program program.decls enlarged.decls) :
    Option.Rel same (program.last? pick key name) (enlarged.last? pick key name) := by
  rw [Program.last?, Program.last?, List.filter_filterMap, List.filter_filterMap]
  refine getLast?_rel (enlarges.filterMap_rel (fun decl image kept => ?_) fun decl new => ?_)
  · have picked := alike decl image kept
    generalize pick decl = here at picked ⊢
    generalize pick image = there at picked ⊢
    cases picked with
    | none => exact .none
    | some related =>
      rw [Option.filter_some, Option.filter_some, related.1]
      split
      · exact .some related.2
      · exact .none
  · rw [Option.filter_eq_none_iff]
    exact fun a found here => skips decl new a found (beq_iff_eq.mp here)

theorem Enlarges.keepsSignatures {program enlarged : Program}
    (enlarges : Enlarges program program.decls enlarged.decls) :
    program.KeepsSignatures enlarged := by
  constructor
  · intro name decl found
    obtain ⟨member, named⟩ := Program.mem_of_last? found
    have last : Option.Rel (fun a b : StructDecl => b.arity = a.arity) (program.struct? name)
        (enlarged.struct? name) := by
      refine enlarges.last_rel (fun decl image alike => ?_) fun other new a picked same => ?_
      · rcases alike.cases with ⟨_, _, rfl, rfl, same⟩ | ⟨_, _, rfl, rfl, _⟩ | ⟨_, _, rfl, rfl, _⟩
        · exact .some same
        · exact .none
        · exact .none
      · cases other with
        | struct other =>
          cases picked
          exact new decl member (named.trans same.symm)
        | trait other => cases picked
        | impl other => cases picked
    rw [found] at last
    exact exists_of_rel_some last
  · intro name decl found
    obtain ⟨member, named⟩ := Program.mem_of_last? found
    have last : Option.Rel TraitDecl.SameSignature (program.trait? name) (enlarged.trait? name) := by
      refine enlarges.last_rel (fun decl image alike => ?_) fun other new a picked same => ?_
      · rcases alike.cases with ⟨_, _, rfl, rfl, _⟩ | ⟨_, _, rfl, rfl, same⟩ | ⟨_, _, rfl, rfl, _⟩
        · exact .none
        · exact .some same
        · exact .none
      · cases other with
        | struct other => cases picked
        | trait other =>
          cases picked
          exact new decl member (named.trans same.symm)
        | impl other => cases picked
    rw [found] at last
    exact exists_of_rel_some last

theorem Judgment.Corresponds.eq {judgment other : Judgment}
    (corresponds : judgment.Corresponds Eq other) : judgment = other := by
  obtain ⟨verdict, first, second⟩ := judgment
  obtain ⟨verdictToo, firstToo, secondToo⟩ := other
  obtain ⟨rfl, rfl, rfl⟩ := corresponds
  rfl

/-- New structs and traits change no judgment, wherever they are declared and whatever they demand,
unless they put supertraits in a circle. -/
theorem new_declarations_change_no_judgment (program enlarged : Program)
    (enlarges : Enlarges program program.decls enlarged.decls) (judgments : List Judgment)
    (checked : program.check.result = .ok judgments) (mirror : Catalog)
    (accepted : enlarged.catalog = .ok mirror) :
    ∃ judgmentsToo, enlarged.check.result = .ok judgmentsToo ∧
      List.Forall₂ (Judgment.Corresponds ImplDecl.Alike) judgments judgmentsToo ∧
      (enlarged.impls = program.impls → judgmentsToo = judgments) := by
  have covers (cause other : CheckError) (alike : cause.Alike other) : cause.Alike other := alike
  have means (decl image : ImplDecl) (alike : decl.Alike image) :
      ImplMeansSame CheckError.Alike decl image := (namewise_alike covers).implMeansSame alike.matches
  have keeps := enlarges.keepsSignatures
  obtain ⟨catalog, collected⟩ := keeps.catalog_ok accepted
  have mirrors : catalog.Mirrors CheckError.Alike False mirror :=
    keeps.mirrors False.elim covers collected accepted
  obtain ⟨judgmentsToo, checkedToo, corresponds⟩ :=
    mirrors.checked means collected accepted enlarges.impls checked
  refine ⟨judgmentsToo, checkedToo, corresponds, fun impls => ?_⟩
  have equal : List.Forall₂ Eq program.impls enlarged.impls := by
    rw [impls]
    exact List.forall₂_refl _
  have means (decl image : ImplDecl) (same : decl = image) :
      ImplMeansSame CheckError.Alike decl image := same ▸ means decl decl rfl
  obtain ⟨again, checkedAgain, same⟩ := mirrors.checked means collected accepted equal checked
  have each := same.imp fun _ _ => Judgment.Corresponds.eq
  rw [List.forall₂_eq_eq_eq] at each
  rw [each, Except.ok.inj (checkedToo.symm.trans checkedAgain)]

/-- The program with a struct named as the parameter of an impl, a trait named as a struct, and a trait
that is new altogether. -/
def vecProgramEnlarged : Program :=
  ⟨.struct ⟨.placeless "P", []⟩ ::
    .trait ⟨.placeless "Vec", [], some ⟨[.apply (.placeless "Copy") []], []⟩⟩ ::
    vecProgram.decls ++
    [.trait ⟨.placeless "Debug", [], some ⟨[.apply (.placeless "Show") []], []⟩⟩]⟩

theorem vec_enlarged_same_judgments :
    Enlarges vecProgram vecProgram.decls vecProgramEnlarged.decls ∧
      vecProgram.check.result = .ok vecJudgments ∧
      vecProgramEnlarged.check.result = .ok vecJudgments := by
  have enlarges : Enlarges vecProgram vecProgram.decls vecProgramEnlarged.decls := by
    refine .insert (by decide) (.insert (by decide) ?_)
    iterate 8 refine .keep rfl ?_
    exact .insert (by decide) .nil
  have judged : vecProgram.check.result = .ok vecJudgments := rfl
  obtain ⟨judgments, checked, _, same⟩ :=
    new_declarations_change_no_judgment _ _ enlarges _ judged _ rfl
  rw [same rfl] at checked
  exact ⟨enlarges, judged, checked⟩

end TraitCoherence
