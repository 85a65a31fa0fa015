import Mathlib.Data.Nat.Choose.Basic
import TraitCoherence.Proofs.Mirroring
import TraitCoherence.Proofs.Rearrangement

namespace TraitCoherence

/-- The places of all pairs of `n` items, the earlier item first, in lexicographic order. -/
structure EveryPlace (n : Nat) (places : List (Nat × Nat)) : Prop where
  mem_iff : ∀ i j, (i, j) ∈ places ↔ i < j ∧ j < n
  ordered : places.Pairwise (Prod.Lex (· < ·) (· < ·))

/-- The impls at two places, the earlier one first. -/
structure Program.At (program : Program) (i j : Nat) (first second : ImplDecl) : Prop where
  earlier : i < j
  first : program.impls[i]? = some first
  second : program.impls[j]? = some second

/-- The same structs and traits with two impls and no others. -/
def Program.duel (program : Program) (first second : ImplDecl) : Program :=
  ⟨program.decls.filter (·.impl?.isNone) ++ [.impl first, .impl second]⟩

/-- Whether two impls alone can be checked. -/
def Program.Settles (program : Program) (first second : ImplDecl) : Prop :=
  ∃ judgments, (program.duel first second).check.result = .ok judgments

/-- Judgments on the impls at all places in order, each what comes of the two impls alone. -/
structure Program.Sweeps (program : Program) (judgments : List Judgment) : Prop where
  checked : program.check.result = .ok judgments
  every : ∃ places, EveryPlace program.impls.length places ∧
    List.Forall₂ (fun judgment place =>
      program.At place.1 place.2 judgment.first judgment.second ∧
        (program.duel judgment.first judgment.second).check.result = .ok [judgment])
      judgments places

/-- A check that ends at two impls, for the cause that they have alone, where all pairs at places
before them can be checked. -/
structure Program.StopsAt (program : Program) (i j : Nat) (first second : ImplDecl)
    (cause : CheckError) : Prop where
  place : program.At i j first second
  stopped : program.check.result = .error (.aborted first second cause)
  alone : (program.duel first second).check.result = .error (.aborted first second cause)
  before : ∀ k l one two, program.At k l one two → Prod.Lex (· < ·) (· < ·) (k, l) (i, j) →
    program.Settles one two

theorem pairsOf_rel {α β : Type} {related : α → β → Prop} {items : List α} {others : List β}
    (each : List.Forall₂ related items others) :
    List.Forall₂ (fun pair other => related pair.1 other.1 ∧ related pair.2 other.2)
      (pairsOf items) (pairsOf others) := by
  induction each with
  | nil => exact .nil
  | cons head tail ih =>
    rw [pairsOf, pairsOf]
    refine List.rel_append ?_ ih
    rw [List.forall₂_map_left_iff, List.forall₂_map_right_iff]
    exact tail.imp fun _ _ same => ⟨head, same⟩

theorem length_pairsOf {α : Type} (items : List α) :
    (pairsOf items).length = items.length.choose 2 := by
  induction items with
  | nil => rfl
  | cons item items ih =>
    rw [pairsOf, List.length_append, List.length_map, ih, List.length_cons, Nat.choose_succ_succ,
      Nat.choose_one_right]

theorem mem_pairsOf_of_sorted {α : Type} {before : α → α → Prop} {items : List α}
    (sorted : items.Pairwise before) {a b : α} (member : (a, b) ∈ pairsOf items) :
    a ∈ items ∧ b ∈ items ∧ before a b := by
  induction sorted with
  | nil => cases member
  | @cons item items first _ ih =>
    rw [pairsOf, List.mem_append, List.mem_map] at member
    rcases member with ⟨other, inside, same⟩ | inside
    · cases same
      exact ⟨List.mem_cons_self, List.mem_cons_of_mem _ inside, first _ inside⟩
    · obtain ⟨left, right, ordered⟩ := ih inside
      exact ⟨List.mem_cons_of_mem _ left, List.mem_cons_of_mem _ right, ordered⟩

theorem mem_pairsOf_or_swap {α : Type} {items : List α} {a b : α} (left : a ∈ items)
    (right : b ∈ items) (differ : a ≠ b) : (a, b) ∈ pairsOf items ∨ (b, a) ∈ pairsOf items := by
  induction items with
  | nil => cases left
  | cons item items ih =>
    simp only [pairsOf, List.mem_append, List.mem_map]
    rcases List.mem_cons.mp left with rfl | later
    · have inside := List.mem_of_ne_of_mem differ.symm right
      exact .inl (.inl ⟨b, inside, rfl⟩)
    · rcases List.mem_cons.mp right with rfl | laterToo
      · exact .inr (.inl ⟨a, later, rfl⟩)
      · exact (ih later laterToo).imp .inr .inr

/-- Of two items or more each is in some pair. -/
theorem exists_pair_of_mem {α : Type} {items : List α} (several : items.length ≠ 1) {item : α}
    (member : item ∈ items) : ∃ pair ∈ pairsOf items, pair.1 = item ∨ pair.2 = item := by
  match items, member with
  | [single], _ => exact absurd rfl several
  | first :: second :: others, member =>
    have paired (other : α) (inside : other ∈ second :: others) :
        (first, other) ∈ pairsOf (first :: second :: others) := by
      rw [pairsOf]
      exact List.mem_append_left _ (List.mem_map_of_mem inside)
    rcases List.mem_cons.mp member with rfl | inside
    · exact ⟨_, paired second List.mem_cons_self, .inl rfl⟩
    · exact ⟨_, paired item inside, .inr rfl⟩

theorem pairwise_pairsOf {α : Type} {before : α → α → Prop} {items : List α}
    (sorted : items.Pairwise before) : (pairsOf items).Pairwise (Prod.Lex before before) := by
  induction sorted with
  | nil => exact .nil
  | @cons item items first rest ih =>
    rw [pairsOf, List.pairwise_append]
    refine ⟨List.pairwise_map.mpr (rest.imp fun less => .right _ less), ih, ?_⟩
    rintro _ front ⟨a, b⟩ back
    obtain ⟨other, _, rfl⟩ := List.mem_map.mp front
    exact .left _ _ (first a (mem_pairsOf_of_sorted rest back).1)

theorem everyPlace_pairsOf (n : Nat) : EveryPlace n (pairsOf (List.range n)) := by
  have sorted : (List.range n).Pairwise (· < ·) := List.pairwise_lt_range
  refine ⟨fun i j => ⟨fun member => ?_, fun ⟨less, small⟩ => ?_⟩, pairwise_pairsOf sorted⟩
  · obtain ⟨_, small, less⟩ := mem_pairsOf_of_sorted sorted member
    exact ⟨less, List.mem_range.mp small⟩
  · have both := mem_pairsOf_or_swap (List.mem_range.mpr (less.trans small))
      (List.mem_range.mpr small) less.ne
    refine both.resolve_right fun swapped => ?_
    exact absurd (mem_pairsOf_of_sorted sorted swapped).2.2 less.not_gt

/-- The pairs of impls are those at all places, in order. -/
theorem Program.pairs_at (program : Program) :
    List.Forall₂ (fun pair place => program.At place.1 place.2 pair.1 pair.2)
      (pairsOf program.impls) (pairsOf (List.range program.impls.length)) := by
  have items : List.Forall₂ (fun impl i => program.impls[i]? = some impl)
      program.impls (List.range program.impls.length) := by
    rw [List.forall₂_iff_get]
    refine ⟨List.length_range.symm, fun i small _ => ?_⟩
    rw [List.get_eq_getElem, List.get_eq_getElem, List.getElem_range, List.getElem?_eq_getElem small]
  have both := pairsOf_rel items
  rw [List.forall₂_iff_zip] at both ⊢
  refine ⟨both.1, fun {pair place} paired => ?_⟩
  obtain ⟨first, second⟩ := both.2 paired
  have inside := (everyPlace_pairsOf _).mem_iff place.1 place.2 |>.mp (List.of_mem_zip paired).2
  exact ⟨inside.1, first, second⟩

theorem Program.At.mem_places {program : Program} {i j : Nat} {first second : ImplDecl}
    (place : program.At i j first second) : (i, j) ∈ pairsOf (List.range program.impls.length) :=
  ((everyPlace_pairsOf _).mem_iff i j).mpr
    ⟨place.earlier, (List.getElem?_eq_some_iff.mp place.second).1⟩

theorem Program.At.unique {program : Program} {i j : Nat} {first second one two : ImplDecl}
    (place : program.At i j first second) (again : program.At i j one two) :
    first = one ∧ second = two :=
  ⟨Option.some.inj (place.first.symm.trans again.first),
    Option.some.inj (place.second.symm.trans again.second)⟩

theorem Catalog.judge_cons_eq_ok_iff {catalog : Catalog} {first second : ImplDecl}
    {pairs : List (ImplDecl × ImplDecl)} {judgments : List Judgment} :
    (catalog.judge ((first, second) :: pairs)).result = .ok judgments ↔
      ∃ verdict later, (catalog.compare first second).result = .ok verdict ∧
        (catalog.judge pairs).result = .ok later ∧
        judgments = ⟨verdict, first, second⟩ :: later := by
  rw [Catalog.judge]
  dsimp only
  cases (catalog.compare first second).result with
  | error cause =>
    constructor
    · intro judged
      cases judged
    · rintro ⟨_, _, compared, _⟩
      cases compared
  | ok verdict =>
    cases (catalog.judge pairs).result with
    | error failure =>
      constructor
      · intro judged
        cases judged
      · rintro ⟨_, _, _, judged, _⟩
        cases judged
    | ok later =>
      constructor
      · intro judged
        cases judged
        exact ⟨verdict, later, rfl, rfl, rfl⟩
      · rintro ⟨_, _, compared, judged, rfl⟩
        cases compared
        cases judged
        rfl

/-- Whether two impls can be compared. -/
def Catalog.Comparable (catalog : Catalog) (first second : ImplDecl) : Prop :=
  ∃ verdict, (catalog.compare first second).result = .ok verdict

theorem Catalog.exists_error_of_not_comparable {catalog : Catalog} {first second : ImplDecl}
    (stuck : ¬ catalog.Comparable first second) :
    ∃ cause, (catalog.compare first second).result = .error cause := by
  cases compared : (catalog.compare first second).result with
  | error cause => exact ⟨cause, rfl⟩
  | ok verdict => exact absurd ⟨verdict, compared⟩ stuck

theorem Catalog.judge_of_comparable {catalog : Catalog} {pairs : List (ImplDecl × ImplDecl)}
    (comparable : ∀ pair ∈ pairs, catalog.Comparable pair.1 pair.2) :
    ∃ judgments, (catalog.judge pairs).result = .ok judgments := by
  induction pairs with
  | nil => exact ⟨[], rfl⟩
  | cons pair pairs ih =>
    obtain ⟨⟨verdict, compared⟩, rest⟩ := List.forall_mem_cons.mp comparable
    obtain ⟨later, judged⟩ := ih rest
    exact ⟨_, Catalog.judge_cons_eq_ok_iff.mpr ⟨verdict, later, compared, judged, rfl⟩⟩

theorem Catalog.judge_append_error {catalog : Catalog} {pairs later : List (ImplDecl × ImplDecl)}
    {first second : ImplDecl} {cause : CheckError}
    (comparable : ∀ pair ∈ pairs, catalog.Comparable pair.1 pair.2)
    (stuck : (catalog.compare first second).result = .error cause) :
    (catalog.judge (pairs ++ (first, second) :: later)).result =
      .error (.aborted first second cause) := by
  induction pairs with
  | nil => simp only [List.nil_append, Catalog.judge, stuck]
  | cons pair pairs ih =>
    obtain ⟨⟨verdict, compared⟩, rest⟩ := List.forall_mem_cons.mp comparable
    simp only [List.cons_append, Catalog.judge, compared, ih rest]

theorem Tracks.eq {α : Type} {first second : Except CheckError α}
    (tracks : Tracks Eq True Eq first second) : first = second := by
  cases tracks with
  | ok same => rw [same]
  | error same => rw [same]
  | lost loose => exact absurd trivial loose

theorem namewise_eq : Namewise Eq Eq := by
  rintro name _ args _ ⟨⟩
  exact ⟨⟨rfl, rfl, fun _ => rfl, fun _ _ => rfl⟩, List.forall₂_refl args⟩

theorem ImplDecl.matches_self (decl : ImplDecl) : decl.Matches Eq decl := by
  refine ⟨List.forall₂_same.mpr fun param _ => ⟨rfl, ?_⟩, rfl, rfl⟩
  cases param.bound with
  | none => exact .none
  | some bound => exact .some ⟨List.forall₂_refl _, List.forall₂_refl _⟩

theorem Catalog.Resembles.mirrors {catalog other : Catalog} (same : catalog.Resembles other) :
    catalog.Mirrors Eq True other where
  structs _ decl found := ⟨decl, same.structs ▸ found, rfl⟩
  noStructs _ _ missing := same.structs ▸ missing
  traits _ decl found := ⟨decl, same.traits ▸ found, rfl, fun _ _ scopes =>
    List.forall₂_same.mpr fun _ _ => namewise_eq.traitMeansSame scopes rfl⟩
  noTraits _ _ missing := same.traits ▸ missing
  undeclaredTrait _ := rfl
  missingBound _ := rfl

/-- Two impls compare the same, whatever other impls there are. -/
theorem Catalog.Resembles.compare_eq {catalog other : Catalog} (same : catalog.Resembles other)
    (first second : ImplDecl) :
    (catalog.compare first second).result = (other.compare first second).result :=
  (same.mirrors.compare (namewise_eq.implMeansSame first.matches_self)
    (namewise_eq.implMeansSame second.matches_self)).eq

theorem Program.impls_duel (program : Program) (first second : ImplDecl) :
    (program.duel first second).impls = [first, second] := by
  have none : (program.decls.filter (·.impl?.isNone)).filterMap Decl.impl? = [] := by
    rw [List.filterMap_eq_nil_iff]
    intro decl member
    exact Option.isNone_iff_eq_none.mp (List.mem_filter.mp member).2
  rw [Program.impls, Program.duel, List.filterMap_append, none]
  rfl

theorem Program.filter_duel (program : Program) (first second : ImplDecl) :
    (program.duel first second).decls.filter (·.impl?.isNone) =
      program.decls.filter (·.impl?.isNone) := by
  rw [Program.duel, List.filter_append, List.filter_filter]
  simp [Decl.impl?]

theorem Program.catalog_eq_ok_of_traits {program other : Program} {catalog : Catalog}
    (collected : program.catalog = .ok catalog) (traits : other.traits = program.traits) :
    ∃ mirror, other.catalog = .ok mirror := by
  rw [Program.catalog] at collected
  rw [Program.catalog]
  split at collected
  · cases collected
  · rename_i found
    split
    · rename_i foundToo
      rw [traits, found] at foundToo
      cases foundToo
    · exact ⟨_, rfl⟩

theorem Program.check_eq_judge {program : Program} {catalog : Catalog}
    (collected : program.catalog = .ok catalog) :
    program.check.result = (catalog.judge (pairsOf program.impls)).result := by
  rw [← (Program.catalog_ok collected).2.2, Program.check, collected]
  rfl

/-- Two impls are checked alone as they are compared among others. -/
theorem Program.check_duel {program : Program} {catalog : Catalog}
    (collected : program.catalog = .ok catalog) (first second : ImplDecl) :
    (program.duel first second).check.result = (catalog.judge [(first, second)]).result := by
  have others := program.filter_duel first second
  have traits : (program.duel first second).traits = program.traits := by
    rw [Program.traits_eq_filter, others, ← Program.traits_eq_filter]
  have structs : (program.duel first second).structs = program.structs := by
    rw [Program.structs_eq_filter, others, ← Program.structs_eq_filter]
  obtain ⟨mirror, collectedToo⟩ := Program.catalog_eq_ok_of_traits collected traits
  obtain ⟨structsHere, traitsHere, _⟩ := Program.catalog_ok collected
  obtain ⟨structsThere, traitsThere, _⟩ := Program.catalog_ok collectedToo
  have resembles : catalog.Resembles mirror :=
    ⟨by rw [structsHere, structsThere, structs], by rw [traitsHere, traitsThere, traits]⟩
  rw [Program.check_eq_judge collectedToo, program.impls_duel]
  simp only [pairsOf, List.map_cons, List.map_nil, List.append_nil, Catalog.judge,
    resembles.compare_eq first second]
  cases (mirror.compare first second).result <;> rfl

theorem Program.settles_iff {program : Program} {catalog : Catalog}
    (collected : program.catalog = .ok catalog) {first second : ImplDecl} :
    program.Settles first second ↔ catalog.Comparable first second := by
  rw [Program.Settles, Program.check_duel collected]
  constructor
  · rintro ⟨judgments, judged⟩
    obtain ⟨verdict, _, compared, _⟩ := Catalog.judge_cons_eq_ok_iff.mp judged
    exact ⟨verdict, compared⟩
  · rintro ⟨verdict, compared⟩
    exact ⟨_, Catalog.judge_cons_eq_ok_iff.mpr ⟨verdict, [], compared, rfl, rfl⟩⟩

theorem Program.sweeps_of_checked {program : Program} {catalog : Catalog}
    (collected : program.catalog = .ok catalog) {judgments : List Judgment}
    (checked : program.check.result = .ok judgments) : program.Sweeps judgments := by
  have judged := checked
  rw [Program.check_eq_judge collected] at judged
  obtain ⟨order, verdicts⟩ := Catalog.judge_ok judged
  have places := program.pairs_at
  rw [← order, List.forall₂_map_left_iff] at places
  refine ⟨checked, _, everyPlace_pairsOf _, List.Forall₂.imp ?_ <|
    (List.forall₂_and_left _ _).mpr ⟨verdicts, places⟩⟩
  rintro judgment place ⟨compared, found⟩
  rw [Program.check_duel collected]
  exact ⟨found, Catalog.judge_cons_eq_ok_iff.mpr ⟨judgment.verdict, [], compared, rfl, rfl⟩⟩

theorem Program.Sweeps.length_eq {program : Program} {judgments : List Judgment}
    (sweeps : program.Sweeps judgments) :
    judgments.length = program.impls.length * (program.impls.length - 1) / 2 := by
  obtain ⟨_, _, order, _⟩ := Program.check_ok sweeps.checked
  have count := congrArg List.length order
  rw [List.length_map, List.length_map, length_pairsOf, Nat.choose_two_right] at count
  exact count

theorem Program.exists_sweeps {program : Program} {catalog : Catalog}
    (collected : program.catalog = .ok catalog)
    (comparable : ∀ i j first second, program.At i j first second → catalog.Comparable first second) :
    ∃ judgments, program.Sweeps judgments := by
  have each : ∀ pair ∈ pairsOf program.impls, catalog.Comparable pair.1 pair.2 := by
    intro pair member
    obtain ⟨_, _, place⟩ := exists_related_of_mem program.pairs_at member
    exact comparable _ _ _ _ place
  obtain ⟨judgments, judged⟩ := Catalog.judge_of_comparable each
  rw [← Program.check_eq_judge collected] at judged
  exact ⟨judgments, Program.sweeps_of_checked collected judged⟩

theorem Program.stopsAt_of_stuck {program : Program} {catalog : Catalog}
    (collected : program.catalog = .ok catalog) {i j : Nat} {first second : ImplDecl}
    {cause : CheckError} (place : program.At i j first second)
    (stuck : (catalog.compare first second).result = .error cause)
    (before : ∀ k l one two, program.At k l one two → Prod.Lex (· < ·) (· < ·) (k, l) (i, j) →
      catalog.Comparable one two) : program.StopsAt i j first second cause := by
  refine ⟨place, ?_, ?_, fun k l one two found less =>
    (Program.settles_iff collected).mpr (before k l one two found less)⟩
  · -- The pairs in front of this one are those at lesser places.
    obtain ⟨lesser, greater, split⟩ := List.append_of_mem place.mem_places
    have each := program.pairs_at
    have sorted := (everyPlace_pairsOf program.impls.length).ordered
    rw [split] at each sorted
    have front := List.forall₂_take_append _ _ _ each
    have back := List.forall₂_drop_append _ _ _ each
    obtain ⟨⟨one, two⟩, rest, here, _, dropped⟩ := List.forall₂_cons_right_iff.mp back
    obtain ⟨rfl, rfl⟩ := place.unique here
    rw [Program.check_eq_judge collected, ← List.take_append_drop lesser.length (pairsOf program.impls),
      dropped]
    refine Catalog.judge_append_error (fun pair member => ?_) stuck
    obtain ⟨place, inside, found⟩ := exists_related_of_mem front member
    rw [List.pairwise_append] at sorted
    exact before _ _ _ _ found (sorted.2.2 place inside (i, j) List.mem_cons_self)
  · rw [Program.check_duel collected, Catalog.judge]
    simp only [stuck]

/-- Among the places at which impls cannot be compared one is the first. -/
theorem Program.exists_first_stuck {program : Program} {catalog : Catalog} {i j : Nat}
    {first second : ImplDecl} (place : program.At i j first second)
    (stuck : ¬ catalog.Comparable first second) :
    ∃ i j first second cause, program.At i j first second ∧
      (catalog.compare first second).result = .error cause ∧
      ∀ k l one two, program.At k l one two → Prod.Lex (· < ·) (· < ·) (k, l) (i, j) →
        catalog.Comparable one two := by
  have wellFounded : WellFounded (Prod.Lex (· < · : Nat → Nat → Prop) (· < · : Nat → Nat → Prop)) :=
    wellFounded_lt.prod_lex wellFounded_lt
  obtain ⟨⟨i, j⟩, ⟨first, second, found, failing⟩, least⟩ := wellFounded.has_min
    {place | ∃ first second, program.At place.1 place.2 first second ∧
      ¬ catalog.Comparable first second} ⟨(i, j), first, second, place, stuck⟩
  obtain ⟨cause, compared⟩ := Catalog.exists_error_of_not_comparable failing
  refine ⟨i, j, first, second, cause, found, compared, fun k l one two there less => ?_⟩
  by_contra incomparable
  exact least (k, l) ⟨one, two, there, incomparable⟩ less

/-- If every two impls can be checked alone, there is a judgment for every two places `i < j`, in
lexicographic order, and it is the one on the two impls alone. Otherwise there is no judgment, and the
blame is on the impls at the first places where checking them alone fails, with the cause that they
have alone. -/
theorem sweep_is_complete_ordered_all_or_nothing (program : Program) (catalog : Catalog)
    (collected : program.catalog = .ok catalog) :
    ((∀ i j first second, program.At i j first second → program.Settles first second) →
      ∃ judgments, program.Sweeps judgments ∧
        judgments.length = program.impls.length * (program.impls.length - 1) / 2) ∧
    ((∃ i j first second, program.At i j first second ∧ ¬ program.Settles first second) →
      ∃ i j first second cause, program.StopsAt i j first second cause) := by
  simp only [Program.settles_iff collected]
  constructor
  · intro comparable
    obtain ⟨judgments, sweeps⟩ := Program.exists_sweeps collected comparable
    exact ⟨judgments, sweeps, sweeps.length_eq⟩
  · rintro ⟨_, _, _, _, there, stuck⟩
    obtain ⟨i, j, first, second, cause, place, compared, before⟩ :=
      Program.exists_first_stuck there stuck
    exact ⟨i, j, first, second, cause, Program.stopsAt_of_stuck collected place compared before⟩

/-- `impl Show for Ghost {}`, where nothing declares `Ghost`. -/
def showGhost : ImplDecl := ⟨[], .apply (.placeless "Show") [], .apply (.placeless "Ghost") []⟩

/-- The traits of `showProgram` with other impls. -/
def showOthers (impls : List ImplDecl) : Program :=
  ⟨showProgram.decls.filter (·.impl?.isNone) ++ impls.map .impl⟩

/-- An impl that is there twice counts twice, and one that means nothing spoils the judgments on the
others. -/
theorem show_swept_or_stopped :
    (∃ judgments, (showOthers [showCopied, showAll, showCopied]).Sweeps judgments ∧
      judgments.length = 3 * (3 - 1) / 2) ∧
    ∃ i j first second cause,
      (showOthers [showCopied, showAll, showGhost]).StopsAt i j first second cause := by
  have settles : ∀ first ∈ [showCopied, showAll, showCopied],
      ∀ second ∈ [showCopied, showAll, showCopied],
        ((showOthers [showCopied, showAll, showCopied]).duel first second).check.result.isOk := by
    decide +kernel
  refine ⟨(sweep_is_complete_ordered_all_or_nothing _ _ rfl).1 ?_,
    (sweep_is_complete_ordered_all_or_nothing _ _ rfl).2 ?_⟩
  · intro i j first second place
    have checked := settles first (List.mem_of_getElem? place.first) second
      (List.mem_of_getElem? place.second)
    cases result : (Program.duel _ first second).check.result with
    | error failure =>
      rw [result] at checked
      cases checked
    | ok judgments => exact ⟨judgments, result⟩
  · refine ⟨0, 2, showCopied, showGhost, ⟨by decide, rfl, rfl⟩, ?_⟩
    rintro ⟨judgments, checked⟩
    cases checked

end TraitCoherence
