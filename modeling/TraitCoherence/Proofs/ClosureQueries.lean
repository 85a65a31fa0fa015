import TraitCoherence.Proofs.ClosureDepth
import TraitCoherence.Proofs.MemoisedClosure

namespace TraitCoherence

/-- The supertraits of every trait that this one obliges to can be found. -/
def Catalog.Closes (catalog : Catalog) (trait : TraitRef) : Prop :=
  ∀ reached, catalog.Obliges trait reached →
    ∃ supertraits, catalog.supertraits reached = .ok supertraits

theorem Catalog.closes_iff {catalog : Catalog} {trait : TraitRef} {supertraits : List TraitRef}
    (found : catalog.supertraits trait = .ok supertraits) :
    catalog.Closes trait ↔ ∀ supertrait ∈ supertraits, catalog.Closes supertrait := by
  constructor
  · intro closes supertrait member reached obliges
    exact closes reached (.head ⟨supertraits, found, member⟩ obliges)
  · intro each reached obliges
    rcases obliges.cases_head with rfl | ⟨supertrait, ⟨others, foundToo, member⟩, rest⟩
    · exact ⟨supertraits, found⟩
    · cases found.symm.trans foundToo
      exact each supertrait member reached rest

/-- Whether a trait can be closed does not depend on its arguments. -/
theorem Catalog.closes_substitute (catalog : Catalog) (f : Int → String → Ty) (trait : TraitRef) :
    catalog.Closes (trait.substitute f) ↔ catalog.Closes trait := by
  induction trait using catalog.supertrait_induction with
  | step trait ih =>
    have image := (Catalog.Resembles.refl catalog).supertraits f trait
    cases found : catalog.supertraits trait with
    | error error =>
      rw [found] at image
      refine iff_of_false (fun closes => ?_) fun closes => ?_
      · obtain ⟨supertraits, there⟩ := closes _ .refl
        cases image.symm.trans there
      · obtain ⟨supertraits, there⟩ := closes _ .refl
        cases found.symm.trans there
    | ok supertraits =>
      rw [found] at image
      rw [Catalog.closes_iff found, Catalog.closes_iff image, List.forall_mem_map]
      exact forall_congr' fun supertrait => forall_congr' fun member =>
        ih supertrait ⟨supertraits, found, member⟩

theorem Catalog.Closes.alike {catalog : Catalog} {a b : TraitRef} (closes : catalog.Closes a)
    (alike : a.Alike b) : catalog.Closes b := by
  have unlabeled := (catalog.closes_substitute (fun x _ => .var x "") a).mpr closes
  have same : a.substitute (fun x _ => .var x "") = b.substitute fun x _ => .var x "" := alike
  rw [same] at unlabeled
  exact (catalog.closes_substitute _ b).mp unlabeled

/-- The first failure when traits are closed one after the other, each of them depth first. -/
inductive Catalog.Blames (catalog : Catalog) : List TraitRef → CheckError → Prop
  | here {trait : TraitRef} {traits : List TraitRef} {error : CheckError} :
      catalog.supertraits trait = .error error → Blames catalog (trait :: traits) error
  | above {trait : TraitRef} {traits supertraits : List TraitRef} {error : CheckError} :
      catalog.supertraits trait = .ok supertraits → Blames catalog supertraits error →
      Blames catalog (trait :: traits) error
  | later {trait : TraitRef} {traits : List TraitRef} {error : CheckError} :
      catalog.Closes trait → Blames catalog traits error → Blames catalog (trait :: traits) error

theorem Catalog.Blames.reached {catalog : Catalog} {traits : List TraitRef} {error : CheckError}
    (blames : catalog.Blames traits error) :
    ∃ trait ∈ traits, ∃ reached, catalog.Obliges trait reached ∧
      catalog.supertraits reached = .error error := by
  induction blames with
  | @here trait _ _ failed => exact ⟨trait, List.mem_cons_self, trait, .refl, failed⟩
  | @above trait _ _ _ found _ ih =>
    obtain ⟨supertrait, member, reached, obliges, failed⟩ := ih
    exact ⟨trait, List.mem_cons_self, reached, .head ⟨_, found, member⟩ obliges, failed⟩
  | later _ _ ih =>
    obtain ⟨trait, member, rest⟩ := ih
    exact ⟨trait, List.mem_cons_of_mem _ member, rest⟩

theorem Catalog.Blames.not_closes {catalog : Catalog} {traits : List TraitRef} {error : CheckError}
    (blames : catalog.Blames traits error) : ¬ ∀ trait ∈ traits, catalog.Closes trait := by
  intro each
  obtain ⟨trait, member, reached, obliges, failed⟩ := blames.reached
  obtain ⟨supertraits, found⟩ := each trait member reached obliges
  cases failed.symm.trans found

theorem Catalog.Blames.unique {catalog : Catalog} {traits : List TraitRef} {error other : CheckError}
    (blames : catalog.Blames traits error) (blamesToo : catalog.Blames traits other) :
    error = other := by
  induction blames with
  | here failed =>
    cases blamesToo with
    | here failedToo => exact Except.error.inj (failed.symm.trans failedToo)
    | above found _ => cases failed.symm.trans found
    | later closes _ =>
      obtain ⟨supertraits, found⟩ := closes _ .refl
      cases failed.symm.trans found
  | above found rest ih =>
    cases blamesToo with
    | here failed => cases failed.symm.trans found
    | above foundToo restToo =>
      cases found.symm.trans foundToo
      exact ih restToo
    | later closes _ => exact absurd ((Catalog.closes_iff found).mp closes) rest.not_closes
  | later closes rest ih =>
    cases blamesToo with
    | here failed =>
      obtain ⟨supertraits, found⟩ := closes _ .refl
      cases failed.symm.trans found
    | above found restToo => exact absurd ((Catalog.closes_iff found).mp closes) restToo.not_closes
    | later _ restToo => exact ih restToo

theorem Catalog.Blames.head {catalog : Catalog} {trait : TraitRef} {error : CheckError}
    (blames : catalog.Blames [trait] error) (traits : List TraitRef) :
    catalog.Blames (trait :: traits) error := by
  cases blames with
  | here failed => exact .here failed
  | above found rest => exact .above found rest
  | later _ nothing => cases nothing

/-- Success means that all traits can be closed, and a failure is the first there is. -/
def Catalog.Reports {α : Type} (catalog : Catalog) (traits : List TraitRef) :
    Except CheckError α → Prop
  | .ok _ => ∀ trait ∈ traits, catalog.Closes trait
  | .error error => catalog.Blames traits error

/-- What is remembered is right, and nothing that cannot be closed is remembered. -/
structure Memo.Settled (catalog : Catalog) (sizes : String → Nat) (memo : Memo) : Prop where
  sound : memo.Sound catalog sizes
  closes : ∀ entry ∈ memo, catalog.Closes entry.1

theorem Memo.Settled.nil (catalog : Catalog) (sizes : String → Nat) :
    Memo.Settled catalog sizes [] :=
  ⟨.nil catalog sizes, fun _ member => absurd member List.not_mem_nil⟩

theorem Memo.Settled.get? {catalog : Catalog} {sizes : String → Nat} {memo : Memo}
    (settled : memo.Settled catalog sizes) {trait : TraitRef} (small : trait.Sized sizes)
    {closure : TraitSet} (found : memo.get? trait = some closure) : catalog.Closes trait := by
  obtain ⟨known, member, alike⟩ := settled.sound.mem_of_get? small found
  exact (settled.closes _ member).alike alike

theorem Catalog.gather_reports {catalog : Catalog} {sizes : String → Nat} {traits : List TraitRef}
    (each : ∀ trait ∈ traits, ∀ memo, memo.Settled catalog sizes →
      (catalog.closure memo trait).1.Settled catalog sizes ∧
        catalog.Reports [trait] (catalog.closure memo trait).2)
    {memo : Memo} (settled : memo.Settled catalog sizes) (sofar : TraitSet) :
    (gather catalog.closure memo sofar traits).1.Settled catalog sizes ∧
      catalog.Reports traits (gather catalog.closure memo sofar traits).2 := by
  induction traits generalizing memo sofar with
  | nil => exact ⟨settled, fun _ member => absurd member List.not_mem_nil⟩
  | cons trait traits ih =>
    obtain ⟨next, reports⟩ := each trait List.mem_cons_self memo settled
    rw [gather]
    split
    · rename_i after error outcome
      rw [outcome] at next reports
      exact ⟨next, Catalog.Blames.head reports traits⟩
    · rename_i after closure outcome
      rw [outcome] at next reports
      have closes : catalog.Closes trait := reports trait List.mem_cons_self
      obtain ⟨last, rest⟩ := ih (fun later member => each later (List.mem_cons_of_mem _ member)) next
        (sofar.union closure)
      refine ⟨last, ?_⟩
      cases result : (gather catalog.closure after (sofar.union closure) traits).2 with
      | ok set =>
        rw [result] at rest
        exact List.forall_mem_cons.mpr ⟨closes, rest⟩
      | error error =>
        rw [result] at rest
        exact .later closes rest

/-- A call remembers what can be closed, whether it succeeds or not, and reports the rest. -/
theorem Catalog.Fits.closure_reports {catalog : Catalog} {sizes : String → Nat}
    (fits : catalog.Fits sizes) {memo : Memo} (settled : memo.Settled catalog sizes)
    {trait : TraitRef} (small : trait.Sized sizes) :
    (catalog.closure memo trait).1.Settled catalog sizes ∧
      catalog.Reports [trait] (catalog.closure memo trait).2 := by
  induction trait using catalog.supertrait_induction generalizing memo with
  | step trait ih =>
    have sound := (fits.closure memo trait settled.sound small).1
    suffices rest : (∀ entry ∈ (catalog.closure memo trait).1, catalog.Closes entry.1) ∧
        catalog.Reports [trait] (catalog.closure memo trait).2 from ⟨⟨sound, rest.1⟩, rest.2⟩
    rw [catalog.closure_eq, Catalog.closeStep]
    split
    · rename_i closure found
      exact ⟨settled.closes, List.forall_mem_singleton.mpr (settled.get? small found)⟩
    · split
      · rename_i error failed
        exact ⟨settled.closes, .here failed⟩
      · rename_i supertraits found
        obtain ⟨next, reports⟩ := Catalog.gather_reports (fun supertrait member memo settled =>
          ih supertrait ⟨_, found, member⟩ settled (fits.supertrait small ⟨_, found, member⟩))
          settled (.singleton trait)
        split
        · rename_i after error outcome
          rw [outcome] at next reports
          exact ⟨next.closes, .above found reports⟩
        · rename_i after closure outcome
          rw [outcome] at next reports
          have closes : catalog.Closes trait := (Catalog.closes_iff found).mpr reports
          refine ⟨fun entry member => ?_, List.forall_mem_singleton.mpr closes⟩
          rcases List.mem_append.mp member with old | new
          · exact next.closes entry old
          · rw [List.mem_singleton.mp new]
            exact closes

theorem Catalog.Fits.implied_reports {catalog : Catalog} {sizes : String → Nat}
    (fits : catalog.Fits sizes) {memo : Memo} (settled : memo.Settled catalog sizes) {bound : Bound}
    (small : bound.Sized sizes) :
    (catalog.implied memo bound).1.Settled catalog sizes ∧
      catalog.Reports bound.positive.members (catalog.implied memo bound).2 :=
  Catalog.gather_reports (fun trait member _ settled =>
    fits.closure_reports settled (small.1 trait member)) settled .empty

theorem Catalog.Fits.unsatisfiable_reports {catalog : Catalog} {sizes : String → Nat}
    (fits : catalog.Fits sizes) {memo : Memo} (settled : memo.Settled catalog sizes) {bound : Bound}
    (small : bound.Sized sizes) :
    (catalog.unsatisfiable memo bound).1.Settled catalog sizes ∧
      catalog.Reports bound.positive.members (catalog.unsatisfiable memo bound).2 := by
  obtain ⟨next, reports⟩ := fits.implied_reports settled small
  rw [Catalog.unsatisfiable]
  split
  · rename_i after error outcome
    rw [outcome] at next reports
    exact ⟨next, reports⟩
  · rename_i after implied outcome
    rw [outcome] at next reports
    exact ⟨next, reports⟩

/-- The memories that queries leave behind, one after the other from the first on. A query that fails
leaves what it found until then. -/
inductive Catalog.Asked (catalog : Catalog) (sizes : String → Nat) : Memo → Prop
  | nothing : Asked catalog sizes []
  | closure {memo : Memo} {trait : TraitRef} : Asked catalog sizes memo → trait.Sized sizes →
      Asked catalog sizes (catalog.closure memo trait).1
  | implied {memo : Memo} {bound : Bound} : Asked catalog sizes memo → bound.Sized sizes →
      Asked catalog sizes (catalog.implied memo bound).1
  | unsatisfiable {memo : Memo} {bound : Bound} : Asked catalog sizes memo → bound.Sized sizes →
      Asked catalog sizes (catalog.unsatisfiable memo bound).1

theorem Catalog.Asked.settled {catalog : Catalog} {sizes : String → Nat}
    (fits : catalog.Fits sizes) {memo : Memo} (asked : catalog.Asked sizes memo) :
    memo.Settled catalog sizes := by
  induction asked with
  | nothing => exact .nil catalog sizes
  | closure _ small ih => exact (fits.closure_reports ih small).1
  | implied _ small ih => exact (fits.implied_reports ih small).1
  | unsatisfiable _ small ih => exact (fits.unsatisfiable_reports ih small).1

/-- Some trait on the way from one of these has no supertraits to be found. -/
def Catalog.Breaks (catalog : Catalog) (traits : List TraitRef) : Prop :=
  ∃ trait ∈ traits, ∃ reached error, catalog.Obliges trait reached ∧
    catalog.supertraits reached = .error error

theorem Catalog.not_breaks_iff {catalog : Catalog} {traits : List TraitRef} :
    ¬ catalog.Breaks traits ↔ ∀ trait ∈ traits, catalog.Closes trait := by
  simp only [Catalog.Breaks, Catalog.Closes]
  push Not
  refine forall_congr' fun trait => forall_congr' fun _ => forall_congr' fun reached => ?_
  cases catalog.supertraits reached with
  | ok supertraits => simp
  | error error => simp

theorem Catalog.Reports.error_iff {α : Type} {catalog : Catalog} {traits : List TraitRef}
    {result : Except CheckError α} (reports : catalog.Reports traits result) :
    (∃ error, result = .error error) ↔ catalog.Breaks traits := by
  cases result with
  | ok value => exact iff_of_false nofun (Catalog.not_breaks_iff.mpr reports)
  | error error =>
    obtain ⟨trait, member, reached, obliges, failed⟩ := Catalog.Blames.reached reports
    exact iff_of_true ⟨error, rfl⟩ ⟨trait, member, reached, error, obliges, failed⟩

/-- What a query for all that some traits oblige to must come to: a failure exactly when some trait
on the way has no supertraits to be found, else the traits on the way, labels aside. -/
structure Catalog.Answers (catalog : Catalog) (traits : List TraitRef)
    (result : Except CheckError TraitSet) : Prop where
  fails_iff : (∃ error, result = .error error) ↔ catalog.Breaks traits
  has_iff : ∀ set, result = .ok set →
    ∀ other, set.Has other ↔ ∃ trait ∈ traits, catalog.Entails trait other

/-- The same failure, or sets with the same members, labels aside. -/
def SameAnswer : Except CheckError TraitSet → Except CheckError TraitSet → Prop
  | .ok left, .ok right => ∀ other, left.Has other ↔ right.Has other
  | .error left, .error right => left = right
  | _, _ => False

/-- Reports on the same traits are both of success or both of one failure. -/
theorem Catalog.Reports.agree {α : Type} {catalog : Catalog} {traits : List TraitRef}
    {result other : Except CheckError α} (reports : catalog.Reports traits result)
    (reportsToo : catalog.Reports traits other) :
    (∃ a b, result = .ok a ∧ other = .ok b) ∨
      ∃ error, result = .error error ∧ other = .error error := by
  cases result with
  | ok a =>
    cases other with
    | ok b => exact Or.inl ⟨a, b, rfl, rfl⟩
    | error error => exact absurd reports (Catalog.Blames.not_closes reportsToo)
  | error error =>
    cases other with
    | ok b => exact absurd reportsToo (Catalog.Blames.not_closes reports)
    | error errorToo =>
      have same := Catalog.Blames.unique reports reportsToo
      exact Or.inr ⟨error, rfl, congrArg _ same.symm⟩

theorem Catalog.Answers.same {catalog : Catalog} {traits : List TraitRef}
    {result other : Except CheckError TraitSet} (answers : catalog.Answers traits result)
    (answersToo : catalog.Answers traits other) (reports : catalog.Reports traits result)
    (reportsToo : catalog.Reports traits other) : SameAnswer result other := by
  rcases reports.agree reportsToo with ⟨left, right, rfl, rfl⟩ | ⟨error, rfl, rfl⟩
  · intro trait
    rw [answers.has_iff left rfl, answersToo.has_iff right rfl]
  · rfl

theorem Catalog.Fits.closure_answers {catalog : Catalog} {sizes : String → Nat}
    (fits : catalog.Fits sizes) {memo : Memo} (settled : memo.Settled catalog sizes)
    {trait : TraitRef} (small : trait.Sized sizes) :
    catalog.Answers [trait] (catalog.closure memo trait).2 := by
  have right := (fits.closure memo trait settled.sound small).2
  refine ⟨(fits.closure_reports settled small).2.error_iff, fun set result other => ?_⟩
  rw [(right set result).has_iff]
  simp only [List.mem_singleton, exists_eq_left]

theorem Catalog.Fits.implied_answers {catalog : Catalog} {sizes : String → Nat}
    (fits : catalog.Fits sizes) {memo : Memo} (settled : memo.Settled catalog sizes) {bound : Bound}
    (small : bound.Sized sizes) :
    catalog.Answers bound.positive.members (catalog.implied memo bound).2 :=
  ⟨(fits.implied_reports settled small).2.error_iff,
    fun set result => ((fits.implied settled.sound small).2 set result).2⟩

/-- Whatever was asked before, and whether or not it failed, a closure holds exactly what can be
reached, a bound implies the closures of all that it demands, and it cannot be satisfied exactly when
something it forbids is among them. A memory that starts out empty gives the same answers. -/
theorem remembered_closures_change_no_answer (catalog : Catalog) (sizes : String → Nat)
    (fits : catalog.Fits sizes) (memo : Memo) (asked : catalog.Asked sizes memo) :
    (∀ trait, trait.Sized sizes → catalog.Answers [trait] (catalog.closure memo trait).2 ∧
      SameAnswer (catalog.closure memo trait).2 (catalog.closure [] trait).2) ∧
    (∀ bound, bound.Sized sizes →
      catalog.Answers bound.positive.members (catalog.implied memo bound).2 ∧
      SameAnswer (catalog.implied memo bound).2 (catalog.implied [] bound).2) ∧
    ∀ bound, bound.Sized sizes →
      ((∃ error, (catalog.unsatisfiable memo bound).2 = .error error) ↔
        catalog.Breaks bound.positive.members) ∧
      (∀ answer, (catalog.unsatisfiable memo bound).2 = .ok answer →
        (answer = true ↔ ∃ demanded ∈ bound.positive.members,
          ∃ forbidden ∈ bound.negative.members, catalog.Entails demanded forbidden)) ∧
      (catalog.unsatisfiable memo bound).2 = (catalog.unsatisfiable [] bound).2 := by
  have settled := asked.settled fits
  have fresh : Memo.Settled catalog sizes [] := .nil catalog sizes
  refine ⟨fun trait small => ?_, fun bound small => ?_, fun bound small => ?_⟩
  · have answers := fits.closure_answers settled small
    exact ⟨answers, answers.same (fits.closure_answers fresh small)
      (fits.closure_reports settled small).2 (fits.closure_reports fresh small).2⟩
  · have answers := fits.implied_answers settled small
    exact ⟨answers, answers.same (fits.implied_answers fresh small)
      (fits.implied_reports settled small).2 (fits.implied_reports fresh small).2⟩
  · have reports := (fits.unsatisfiable_reports settled small).2
    have reportsToo := (fits.unsatisfiable_reports fresh small).2
    have right := (fits.unsatisfiable settled.sound small).2
    have rightToo := (fits.unsatisfiable fresh.sound small).2
    refine ⟨reports.error_iff, right, ?_⟩
    rcases reports.agree reportsToo with ⟨answer, other, here, there⟩ | ⟨error, here, there⟩
    · rw [here, there, Except.ok.injEq, Bool.eq_iff_iff, right _ here, rightToo _ there]
    · rw [here, there]

/-- `trait Sub<X>: Super<X> + Ghost {}`, `trait Super<X>: Top {}` and `trait Top {}`. -/
def ghostTraits : Table TraitDecl :=
  ⟨[("Sub", ⟨.placeless "Sub", [.ofTerms "X" [] []],
      some ⟨[.apply (.placeless "Super") [.apply (.placeless "X") []],
        .apply (.placeless "Ghost") []], []⟩⟩),
    ("Super", ⟨.placeless "Super", [.ofTerms "X" [] []], some ⟨[.apply (.placeless "Top") []], []⟩⟩),
    ("Top", ⟨.placeless "Top", [], none⟩)]⟩

def ghostCatalog : Catalog := ⟨.empty, ghostTraits, [], by decide⟩

/-- A query that fails half way leaves two closures behind, and the next queries may use them. -/
theorem ghost_leaves_right_closures :
    let failed := ghostCatalog.closure [] ⟨"Sub", [.var 0 "x"]⟩
    let super : TraitRef := ⟨"Super", [.var 0 "y"]⟩
    let bound : Bound := ⟨.singleton super, .singleton ⟨"Top", []⟩⟩
    failed.2 = .error (.undeclaredTrait (.placeless "Ghost")) ∧ failed.1.length = 2 ∧
      ghostCatalog.Answers [super] (ghostCatalog.closure failed.1 super).2 ∧
      ghostCatalog.Answers bound.positive.members (ghostCatalog.implied failed.1 bound).2 ∧
      (ghostCatalog.unsatisfiable failed.1 bound).2 = .ok true ∧
      ∃ demanded ∈ bound.positive.members, ∃ forbidden ∈ bound.negative.members,
        ghostCatalog.Entails demanded forbidden := by
  intro failed super bound
  have one (name label : String) : TraitRef.Sized ghostCatalog.sizes ⟨name, [.var 0 label]⟩ :=
    List.forall_mem_singleton.mpr (.var 0 label)
  have bare : TraitRef.Sized ghostCatalog.sizes ⟨"Top", []⟩ :=
    fun _ member => absurd member List.not_mem_nil
  have small : bound.Sized ghostCatalog.sizes :=
    ⟨List.forall_mem_singleton.mpr (one _ _), List.forall_mem_singleton.mpr bare⟩
  obtain ⟨closures, implied, unsatisfiable⟩ := remembered_closures_change_no_answer ghostCatalog
    ghostCatalog.sizes ghostCatalog.fits_sizes failed.1 (.closure .nothing (one _ _))
  refine ⟨rfl, rfl, (closures super (one _ _)).1, (implied bound small).1, rfl, ?_⟩
  exact ((unsatisfiable bound small).2.1 true rfl).mp rfl

end TraitCoherence
