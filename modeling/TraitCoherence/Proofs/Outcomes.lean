import TraitCoherence.Proofs.Sweeps

namespace TraitCoherence

/-- The same verdict on impls that correspond. -/
structure Judgment.Corresponds (same : ImplDecl → ImplDecl → Prop) (judgment other : Judgment) :
    Prop where
  verdict : judgment.verdict = other.verdict
  first : same judgment.first other.first
  second : same judgment.second other.second

/-- What comes of checking two programs is the same: supertraits run in a circle in both, or both stop
at impls at the same places for causes to blame alike, or both get the same verdicts, place by place. -/
inductive SameOutcome (blame : CheckError → CheckError → Prop) (same : ImplDecl → ImplDecl → Prop)
    (program other : Program) : Prop
  | rejected {guilty guiltyToo : Name} {circle circleToo : List Name} :
      program.check.result = .error (.rejected (.circularSupertraits guilty circle)) →
      other.check.result = .error (.rejected (.circularSupertraits guiltyToo circleToo)) →
      SameOutcome blame same program other
  | aborted {i j : Nat} {first second firstToo secondToo : ImplDecl} {cause causeToo : CheckError} :
      program.StopsAt i j first second cause → other.StopsAt i j firstToo secondToo causeToo →
      same first firstToo → same second secondToo → blame cause causeToo →
      SameOutcome blame same program other
  | judged {judgments judgmentsToo : List Judgment} :
      program.Sweeps judgments → other.Sweeps judgmentsToo →
      List.Forall₂ (Judgment.Corresponds same) judgments judgmentsToo →
      SameOutcome blame same program other

theorem Tracks.exists_ok {α β : Type} {blame : CheckError → CheckError → Prop} {strict : Prop}
    {same : α → β → Prop} {a : α} {second : Except CheckError β}
    (tracks : Tracks blame strict same (.ok a) second) : ∃ b, second = .ok b ∧ same a b := by
  cases tracks with
  | ok related => exact ⟨_, rfl, related⟩

theorem Tracks.exists_error {α β : Type} {blame : CheckError → CheckError → Prop}
    {same : α → β → Prop} {cause : CheckError} {second : Except CheckError β}
    (tracks : Tracks blame True same (.error cause) second) :
    ∃ other, second = .error other ∧ blame cause other := by
  cases tracks with
  | error related => exact ⟨_, rfl, related⟩
  | lost loose => exact absurd trivial loose

theorem Program.At.image {program other : Program} {same : ImplDecl → ImplDecl → Prop}
    (impls : List.Forall₂ same program.impls other.impls) {i j : Nat} {first second : ImplDecl}
    (place : program.At i j first second) : ∃ firstToo secondToo,
      other.At i j firstToo secondToo ∧ same first firstToo ∧ same second secondToo := by
  obtain ⟨length, each⟩ := List.forall₂_iff_get.mp impls
  obtain ⟨small, rfl⟩ := List.getElem?_eq_some_iff.mp place.first
  obtain ⟨smallToo, rfl⟩ := List.getElem?_eq_some_iff.mp place.second
  exact ⟨_, _, ⟨place.earlier, List.getElem?_eq_getElem (length ▸ small),
    List.getElem?_eq_getElem (length ▸ smallToo)⟩, each i _ _, each j _ _⟩

section

variable {blame : CheckError → CheckError → Prop} {strict : Prop} {catalog mirror : Catalog}
  {same : ImplDecl → ImplDecl → Prop} {program other : Program}
  (means : ∀ decl image, same decl image → ImplMeansSame blame decl image)

include means

/-- Where one catalog judges impls, a catalog that mirrors it gives those that correspond the same
verdicts. -/
theorem Catalog.Mirrors.judge (mirrors : catalog.Mirrors blame strict mirror)
    {pairs pairsToo : List (ImplDecl × ImplDecl)}
    (each : List.Forall₂ (fun pair other => same pair.1 other.1 ∧ same pair.2 other.2) pairs pairsToo)
    {judgments : List Judgment} (judged : (catalog.judge pairs).result = .ok judgments) :
    ∃ judgmentsToo, (mirror.judge pairsToo).result = .ok judgmentsToo ∧
      List.Forall₂ (Judgment.Corresponds same) judgments judgmentsToo := by
  induction each generalizing judgments with
  | nil =>
    cases judged
    exact ⟨[], rfl, .nil⟩
  | cons head _ ih =>
    obtain ⟨verdict, later, compared, rest, rfl⟩ := Catalog.judge_cons_eq_ok_iff.mp judged
    have tracks := mirrors.compare (means _ _ head.1) (means _ _ head.2)
    rw [compared] at tracks
    obtain ⟨_, comparedToo, rfl⟩ := tracks.exists_ok
    obtain ⟨laterToo, restToo, corresponds⟩ := ih rest
    exact ⟨_, Catalog.judge_cons_eq_ok_iff.mpr ⟨verdict, laterToo, comparedToo, restToo, rfl⟩,
      .cons ⟨rfl, head.1, head.2⟩ corresponds⟩

theorem Catalog.Mirrors.checked (mirrors : catalog.Mirrors blame strict mirror)
    (collected : program.catalog = .ok catalog) (collectedToo : other.catalog = .ok mirror)
    (impls : List.Forall₂ same program.impls other.impls) {judgments : List Judgment}
    (checked : program.check.result = .ok judgments) :
    ∃ judgmentsToo, other.check.result = .ok judgmentsToo ∧
      List.Forall₂ (Judgment.Corresponds same) judgments judgmentsToo := by
  rw [Program.check_eq_judge collected] at checked
  rw [Program.check_eq_judge collectedToo]
  exact mirrors.judge means (pairsOf_rel impls) checked

/-- A strict mirror stops where the catalog does. -/
theorem Catalog.Mirrors.stopsAt (mirrors : catalog.Mirrors blame True mirror)
    (collectedToo : other.catalog = .ok mirror)
    (impls : List.Forall₂ same program.impls other.impls) {i j : Nat} {first second : ImplDecl}
    {cause : CheckError} (place : program.At i j first second)
    (stuck : (catalog.compare first second).result = .error cause)
    (before : ∀ k l one two, program.At k l one two → Prod.Lex (· < ·) (· < ·) (k, l) (i, j) →
      catalog.Comparable one two) :
    ∃ firstToo secondToo causeToo, other.StopsAt i j firstToo secondToo causeToo ∧
      same first firstToo ∧ same second secondToo ∧ blame cause causeToo := by
  obtain ⟨firstToo, secondToo, placeToo, firsts, seconds⟩ := place.image impls
  have tracks := mirrors.compare (means _ _ firsts) (means _ _ seconds)
  rw [stuck] at tracks
  obtain ⟨causeToo, stuckToo, blamed⟩ := tracks.exists_error
  refine ⟨firstToo, secondToo, causeToo, ?_, firsts, seconds, blamed⟩
  refine Program.stopsAt_of_stuck collectedToo placeToo stuckToo fun k l one two there less => ?_
  -- An earlier pair of the mirror is compared because the pair that it comes from is.
  have back : List.Forall₂ (fun image decl => same decl image) other.impls program.impls := impls.flip
  obtain ⟨_, _, here, ones, twos⟩ := there.image back
  obtain ⟨verdict, compared⟩ := before k l _ _ here less
  have tracks := mirrors.compare (means _ _ ones) (means _ _ twos)
  rw [compared] at tracks
  obtain ⟨verdictToo, comparedToo, _⟩ := tracks.exists_ok
  exact ⟨verdictToo, comparedToo⟩

theorem SameOutcome.of_mirrors (mirrors : catalog.Mirrors blame True mirror)
    (collected : program.catalog = .ok catalog) (collectedToo : other.catalog = .ok mirror)
    (impls : List.Forall₂ same program.impls other.impls) : SameOutcome blame same program other := by
  by_cases comparable :
      ∀ i j first second, program.At i j first second → catalog.Comparable first second
  · obtain ⟨judgments, sweeps⟩ := Program.exists_sweeps collected comparable
    obtain ⟨judgmentsToo, checkedToo, corresponds⟩ :=
      mirrors.checked means collected collectedToo impls sweeps.checked
    exact .judged sweeps (Program.sweeps_of_checked collectedToo checkedToo) corresponds
  · push Not at comparable
    obtain ⟨_, _, _, _, there, incomparable⟩ := comparable
    obtain ⟨i, j, first, second, cause, place, stuck, before⟩ :=
      Program.exists_first_stuck there incomparable
    obtain ⟨firstToo, secondToo, causeToo, stops, firsts, seconds, blamed⟩ :=
      mirrors.stopsAt means collectedToo impls place stuck before
    exact .aborted (Program.stopsAt_of_stuck collected place stuck before) stops firsts seconds blamed

end

end TraitCoherence
