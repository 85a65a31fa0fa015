import TraitCoherence.Proofs.Outcomes
import TraitCoherence.Proofs.Tightening

namespace TraitCoherence

/-- A cause with its kind, texts and numbers, but without places. -/
def CheckError.unplaced : CheckError → CheckError
  | .undefinedSymbol name => .undefinedSymbol name.unplaced
  | .appliedParameter name given => .appliedParameter name.unplaced given
  | .wrongArity name given needed => .wrongArity name.unplaced given needed
  | .undeclaredTrait name => .undeclaredTrait name.unplaced
  | .circularSupertraits name circle =>
    .circularSupertraits name.unplaced (circle.map Phrase.unplaced)
  | .missingBound x => .missingBound x

/-- Causes are alike when they differ at most in where names stand. -/
def CheckError.Alike (cause other : CheckError) : Prop := cause.unplaced = other.unplaced

/-- Impls are alike when they differ at most in where names stand. -/
def ImplDecl.Alike (decl other : ImplDecl) : Prop := (Decl.impl decl).Alike (.impl other)

instance (decl other : ImplDecl) : Decidable (decl.Alike other) :=
  inferInstanceAs (Decidable ((Decl.impl decl).Alike (.impl other)))

/-- The declaration as a struct, if it is one. -/
def Decl.struct? : Decl → Option StructDecl
  | .struct decl => some decl
  | _ => none

/-- The declaration as a trait, if it is one. -/
def Decl.trait? : Decl → Option TraitDecl
  | .trait decl => some decl
  | _ => none

/-- The last item of a name among the declarations that are picked. -/
def Program.last? {α : Type} (program : Program) (pick : Decl → Option α) (key : α → String)
    (name : String) : Option α :=
  ((program.decls.filterMap pick).filter (key · == name)).getLast?

/-- The declaration that counts for a struct, which is the last of its name. -/
def Program.struct? (program : Program) : String → Option StructDecl :=
  program.last? Decl.struct? (·.name.text)

/-- The declaration that counts for a trait, which is the last of its name. -/
def Program.trait? (program : Program) : String → Option TraitDecl :=
  program.last? Decl.trait? (·.name.text)

/-- Traits with parameters of the same names and with the same positive supertraits. -/
structure TraitDecl.SameSignature (decl other : TraitDecl) : Prop where
  params : other.params.map (·.name.text) = decl.params.map (·.name.text)
  demands : List.Forall₂ TypeExpr.Alike decl.demands other.demands

instance (decl other : TraitDecl) : Decidable (decl.SameSignature other) :=
  decidable_of_iff
    (other.params.map (·.name.text) = decl.params.map (·.name.text) ∧
      List.Forall₂ TypeExpr.Alike decl.demands other.demands)
    ⟨fun same => ⟨same.1, same.2⟩, fun same => ⟨same.params, same.demands⟩⟩

/-- The second program declares every struct of the first with as many parameters and every trait with
the same signature, going by the last declaration of each. -/
structure Program.KeepsSignatures (program other : Program) : Prop where
  structs : ∀ name decl, program.struct? name = some decl →
    ∃ image, other.struct? name = some image ∧ image.arity = decl.arity
  traits : ∀ name decl, program.trait? name = some decl →
    ∃ image, other.trait? name = some image ∧ decl.SameSignature image

theorem Program.mem_of_last? {α : Type} {program : Program} {pick : Decl → Option α} {key : α → String}
    {name : String} {item : α} (found : program.last? pick key name = some item) :
    item ∈ program.decls.filterMap pick ∧ key item = name := by
  obtain ⟨member, same⟩ := List.mem_filter.mp (List.mem_of_getLast? found)
  exact ⟨member, beq_iff_eq.mp same⟩

/-- It is enough to look up the names that are declared. -/
theorem Program.keepsSignatures_iff {program other : Program} :
    program.KeepsSignatures other ↔
      (∀ named ∈ program.decls.filterMap Decl.struct?, ∀ decl ∈ program.struct? named.name.text,
        ∃ image ∈ other.struct? named.name.text, image.arity = decl.arity) ∧
      ∀ named ∈ program.decls.filterMap Decl.trait?, ∀ decl ∈ program.trait? named.name.text,
        ∃ image ∈ other.trait? named.name.text, decl.SameSignature image := by
  constructor
  · exact fun keeps => ⟨fun _ _ decl found => keeps.structs _ decl found,
      fun _ _ decl found => keeps.traits _ decl found⟩
  · rintro ⟨structs, traits⟩
    refine ⟨fun name decl found => ?_, fun name decl found => ?_⟩
    · obtain ⟨member, rfl⟩ := Program.mem_of_last? found
      exact structs decl member decl found
    · obtain ⟨member, rfl⟩ := Program.mem_of_last? found
      exact traits decl member decl found

instance (program other : Program) : Decidable (program.KeepsSignatures other) :=
  decidable_of_iff _ Program.keepsSignatures_iff.symm

theorem get?_foldl_put {α : Type} (key : α → String) (items : List α) (table : Table α)
    (name : String) :
    (items.foldl (fun table item => table.put (key item) item) table).get? name =
      (items.filter (key · == name)).getLast?.or (table.get? name) := by
  induction items generalizing table with
  | nil => rfl
  | cons item items ih =>
    rw [List.foldl_cons, ih, Table.get?_put, List.filter_cons]
    by_cases here : name = key item
    · rw [if_pos here, if_pos (beq_iff_eq.mpr here.symm), List.getLast?_cons]
      cases (items.filter (key · == name)).getLast? <;> rfl
    · rw [if_neg here, if_neg fun same => here (beq_iff_eq.mp same).symm]

theorem Program.get?_foldl_eq_last? {α : Type} (program : Program) {pick : Decl → Option α}
    {key : α → String} {collect : Table α → Decl → Table α}
    (collects : ∀ table decl, collect table decl =
      (pick decl).elim table fun item => table.put (key item) item) (name : String) :
    (program.decls.foldl collect .empty).get? name = program.last? pick key name := by
  have put : program.decls.foldl collect .empty =
      (program.decls.filterMap pick).foldl (fun table item => table.put (key item) item) .empty := by
    rw [List.foldl_filterMap]
    congr 1
    funext table decl
    rw [collects]
    cases pick decl <;> rfl
  rw [put, get?_foldl_put]
  exact Option.or_none

theorem Program.structs_get? (program : Program) (name : String) :
    program.structs.get? name = program.struct? name :=
  program.get?_foldl_eq_last? (fun _ decl => by cases decl <;> rfl) name

theorem Program.traits_get? (program : Program) (name : String) :
    program.traits.get? name = program.trait? name :=
  program.get?_foldl_eq_last? (fun _ decl => by cases decl <;> rfl) name

theorem sameName_of_text {blame : CheckError → CheckError → Prop}
    (covers : ∀ cause other : CheckError, cause.Alike other → blame cause other) {name image : Name}
    (text : name.text = image.text) : SameName blame name image := by
  have unplaced : name.unplaced = image.unplaced := congrArg Phrase.placeless text
  refine ⟨text, covers _ _ ?_, fun _ => covers _ _ ?_, fun _ _ => covers _ _ ?_⟩ <;>
    rw [CheckError.Alike, CheckError.unplaced, unplaced, CheckError.unplaced]

theorem namewise_alike {blame : CheckError → CheckError → Prop}
    (covers : ∀ cause other : CheckError, cause.Alike other → blame cause other) :
    Namewise blame TypeExpr.Alike := by
  intro name image args images alike
  obtain ⟨text, each⟩ := alike.parts
  exact ⟨sameName_of_text covers text, each⟩

theorem BoundExpr.matches_of_unplaced {bound other : Option BoundExpr}
    (alike : bound.map BoundExpr.unplaced = other.map BoundExpr.unplaced) :
    Option.Rel (BoundExpr.Matches TypeExpr.Alike) bound other := by
  cases bound with
  | none =>
    cases other with
    | none => exact .none
    | some other => cases alike
  | some bound =>
    cases other with
    | none => cases alike
    | some other =>
      obtain ⟨positive, negative⟩ := BoundExpr.mk.inj (Option.some.inj alike)
      rw [← List.forall₂_eq_eq_eq, List.forall₂_map_left_iff, List.forall₂_map_right_iff]
        at positive negative
      exact .some ⟨positive, negative⟩

theorem Param.matches_of_unplaced {param image : Param} (alike : param.unplaced = image.unplaced) :
    param.Matches TypeExpr.Alike image := by
  obtain ⟨names, bounds⟩ := Param.mk.inj alike
  exact ⟨(Phrase.mk.inj names).1, BoundExpr.matches_of_unplaced bounds⟩

theorem ImplDecl.Alike.matches {decl image : ImplDecl} (alike : decl.Alike image) :
    decl.Matches TypeExpr.Alike image := by
  obtain ⟨params, head, target⟩ := ImplDecl.mk.inj (Decl.impl.inj alike)
  rw [← List.forall₂_eq_eq_eq, List.forall₂_map_left_iff, List.forall₂_map_right_iff] at params
  exact ⟨params.imp fun _ _ => Param.matches_of_unplaced, head, target⟩

theorem Program.KeepsSignatures.mirrors {program other : Program}
    (keeps : program.KeepsSignatures other) {strict : Prop}
    (back : strict → other.KeepsSignatures program) {blame : CheckError → CheckError → Prop}
    (covers : ∀ cause other : CheckError, cause.Alike other → blame cause other)
    {catalog mirror : Catalog} (collected : program.catalog = .ok catalog)
    (collectedToo : other.catalog = .ok mirror) : catalog.Mirrors blame strict mirror := by
  obtain ⟨structs, traits, _⟩ := Program.catalog_ok collected
  obtain ⟨structsToo, traitsToo, _⟩ := Program.catalog_ok collectedToo
  constructor
  · rw [structs, structsToo]
    simp only [Program.structs_get?]
    exact keeps.structs
  · rw [structs, structsToo]
    simp only [Program.structs_get?]
    intro counted name missing
    refine Option.eq_none_iff_forall_ne_some.mpr fun image found => ?_
    obtain ⟨decl, kept, _⟩ := (back counted).structs name image found
    rw [missing] at kept
    cases kept
  · rw [traits, traitsToo]
    simp only [Program.traits_get?]
    intro name decl found
    obtain ⟨image, kept, same⟩ := keeps.traits name decl found
    exact ⟨image, kept, same.params, fun _ _ scopes =>
      same.demands.imp fun _ _ => (namewise_alike covers).traitMeansSame scopes⟩
  · rw [traits, traitsToo]
    simp only [Program.traits_get?]
    intro counted name missing
    refine Option.eq_none_iff_forall_ne_some.mpr fun image found => ?_
    obtain ⟨decl, kept, _⟩ := (back counted).traits name image found
    rw [missing] at kept
    cases kept
  · exact fun name => covers _ _ rfl
  · exact fun x => covers _ _ rfl

theorem Program.KeepsSignatures.edge {program other : Program}
    (keeps : program.KeepsSignatures other) {sub super : String}
    (edge : (supertraitGraph program.traits).Edge sub super) :
    (supertraitGraph other.traits).Edge sub super := by
  rw [supertraitGraph_edge, Table.mem_names_iff] at edge ⊢
  simp only [Program.traits_get?] at edge ⊢
  obtain ⟨⟨named, found⟩, decl, declared, expr, demanded, rfl⟩ := edge
  obtain ⟨namedToo, foundToo, _⟩ := keeps.traits _ named found
  obtain ⟨image, declaredToo, same⟩ := keeps.traits sub decl declared
  obtain ⟨exprToo, demandedToo, alike⟩ := exists_related_of_mem same.demands demanded
  refine ⟨⟨namedToo, foundToo⟩, image, declaredToo, exprToo, demandedToo, ?_⟩
  obtain ⟨name, args⟩ := expr
  obtain ⟨nameToo, argsToo⟩ := exprToo
  exact alike.parts.1.symm

/-- Supertraits that run in a circle still do so among more traits. -/
theorem Program.KeepsSignatures.catalog_ok {program other : Program}
    (keeps : program.KeepsSignatures other) {mirror : Catalog}
    (collected : other.catalog = .ok mirror) : ∃ catalog, program.catalog = .ok catalog := by
  have acyclic : (supertraitGraph program.traits).circle? = none := by
    rw [(supertraitGraph_proper program.traits).circle?_eq_none_iff program.nodup_names_traits]
    intro name path
    have circle : (supertraitGraph other.traits).Path name name :=
      Relation.TransGen.mono (fun _ _ edge => keeps.edge edge) name name path
    rw [← (Program.catalog_ok collected).2.1] at circle
    exact mirror.no_path_home name circle
  rw [Program.catalog]
  split
  · rename_i found
    rw [acyclic] at found
    cases found
  · exact ⟨_, rfl⟩

theorem Program.rejected_of_not_ok {program : Program}
    (rejected : ¬ ∃ catalog, program.catalog = .ok catalog) :
    ∃ guilty circle,
      program.check.result = .error (.rejected (.circularSupertraits guilty circle)) := by
  rw [Program.check]
  rw [Program.catalog] at rejected ⊢
  split at rejected
  · rename_i circle found
    exact ⟨_, _, rfl⟩
  · exact absurd ⟨_, rfl⟩ rejected

theorem SameOutcome.of_signatures {program other : Program} (forth : program.KeepsSignatures other)
    (back : other.KeepsSignatures program) {blame : CheckError → CheckError → Prop}
    (covers : ∀ cause other : CheckError, cause.Alike other → blame cause other)
    {same : ImplDecl → ImplDecl → Prop}
    (means : ∀ decl image, same decl image → ImplMeansSame blame decl image)
    (impls : List.Forall₂ same program.impls other.impls) : SameOutcome blame same program other := by
  by_cases accepted : ∃ catalog, program.catalog = .ok catalog
  · obtain ⟨catalog, collected⟩ := accepted
    obtain ⟨mirror, collectedToo⟩ := back.catalog_ok collected
    exact .of_mirrors means (forth.mirrors (fun _ => back) covers collected collectedToo) collected
      collectedToo impls
  · have refused : ¬ ∃ mirror, other.catalog = .ok mirror := fun ⟨mirror, collected⟩ =>
      accepted (forth.catalog_ok collected)
    obtain ⟨_, _, rejected⟩ := Program.rejected_of_not_ok accepted
    obtain ⟨_, _, rejectedToo⟩ := Program.rejected_of_not_ok refused
    exact .rejected rejected rejectedToo

/-- Checking sees of the structs and traits only how many parameters a struct has, and what the
parameters of a trait are called and which positive supertraits it has, by the last declaration of each.
Programs that agree on these, and on the impls, get the same judgments, or stop at the same impls for
causes of one kind with the same texts and numbers, or both have supertraits in a circle. -/
theorem check_sees_only_effective_signature (program other : Program)
    (forth : program.KeepsSignatures other) (back : other.KeepsSignatures program)
    (impls : List.Forall₂ ImplDecl.Alike program.impls other.impls) :
    SameOutcome CheckError.Alike ImplDecl.Alike program other := by
  have covers (cause other : CheckError) (alike : cause.Alike other) : cause.Alike other := alike
  exact .of_signatures forth back covers
    (fun _ _ alike => (namewise_alike covers).implMeansSame alike.matches) impls

/-- `impl<W> Show for Vec<W> {}`. -/
def showVec : ImplDecl :=
  ⟨[⟨.placeless "W", none⟩], .apply (.placeless "Show") [],
    .apply (.placeless "Vec") [.apply (.placeless "W") []]⟩

/-- The declarations of `showProgram` with `struct Vec<T>;` and an impl for it. -/
def vecProgram : Program :=
  ⟨showProgram.decls ++ [.struct ⟨.placeless "Vec", [⟨.placeless "T", none⟩]⟩, .impl showVec]⟩

/-- The program in another order, with a bound on the parameter of `Vec`, which has another name, with a
negative supertrait, and with `struct Vec<T, A>;` and `trait Clone: Copy {}`, which are overwritten. -/
def vecProgramDressed : Program :=
  let copy : TypeExpr := .apply (.placeless "Copy") []
  let clone : TypeExpr := .apply (.placeless "Clone") []
  ⟨[.struct ⟨.placeless "Vec", [⟨.placeless "T", none⟩, ⟨.placeless "A", none⟩]⟩,
    .trait ⟨.placeless "Clone", [], some ⟨[copy], []⟩⟩,
    .trait ⟨.placeless "Copy", [], some ⟨[clone], [.apply (.placeless "Show") []]⟩⟩,
    .impl showCopied, .trait ⟨.placeless "Clone", [], some ⟨[], []⟩⟩,
    .struct ⟨.placeless "Vec", [⟨.placeless "Element", some ⟨[copy], []⟩⟩]⟩,
    .impl showUncloned, .impl showAll, .impl showVec, .trait ⟨.placeless "Show", [], none⟩]⟩

/-- What comes of checking the program: the impl for `Vec` shares types with all the others. -/
def vecJudgments : List Judgment :=
  [⟨.disjoint, showCopied, showUncloned⟩, ⟨.overlap, showCopied, showAll⟩,
    ⟨.overlap, showCopied, showVec⟩, ⟨.overlap, showUncloned, showAll⟩,
    ⟨.overlap, showUncloned, showVec⟩, ⟨.overlap, showAll, showVec⟩]

theorem vec_dressed_same_outcome :
    vecProgram.KeepsSignatures vecProgramDressed ∧ vecProgramDressed.KeepsSignatures vecProgram ∧
      List.Forall₂ ImplDecl.Alike vecProgram.impls vecProgramDressed.impls ∧
      vecProgram.check.result = .ok vecJudgments ∧
      vecProgramDressed.check.result = .ok vecJudgments ∧
      SameOutcome CheckError.Alike ImplDecl.Alike vecProgram vecProgramDressed := by
  have forth : vecProgram.KeepsSignatures vecProgramDressed := by decide
  have back : vecProgramDressed.KeepsSignatures vecProgram := by decide
  have impls : List.Forall₂ ImplDecl.Alike vecProgram.impls vecProgramDressed.impls := by decide
  exact ⟨forth, back, impls, rfl, rfl, check_sees_only_effective_signature _ _ forth back impls⟩

end TraitCoherence
