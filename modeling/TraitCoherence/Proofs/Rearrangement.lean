import Mathlib.Data.Sym.Sym2
import TraitCoherence.Check
import TraitCoherence.Proofs.Symmetry

namespace TraitCoherence

/-- Two programs with the same structs and traits in the same order, and with the same impls in
any order and at any place. -/
structure Program.Rearranges (program other : Program) : Prop where
  others : other.decls.filter (·.impl?.isNone) = program.decls.filter (·.impl?.isNone)
  impls : program.impls.Perm other.impls

/-- The impls that a judgment is about, in no order. -/
def Judgment.pair (judgment : Judgment) : Sym2 ImplDecl := s(judgment.first, judgment.second)

theorem Program.structs_eq_filter (program : Program) :
    program.structs = Program.structs ⟨program.decls.filter (·.impl?.isNone)⟩ := by
  rw [Program.structs, Program.structs, List.foldl_filter]
  congr 1
  funext table decl
  cases decl <;> rfl

theorem Program.traits_eq_filter (program : Program) :
    program.traits = Program.traits ⟨program.decls.filter (·.impl?.isNone)⟩ := by
  rw [Program.traits, Program.traits, List.foldl_filter]
  congr 1
  funext table decl
  cases decl <;> rfl

theorem Program.catalog_ok {program : Program} {catalog : Catalog}
    (collected : program.catalog = .ok catalog) : catalog.structs = program.structs ∧
      catalog.traits = program.traits ∧ catalog.impls = program.impls := by
  rw [Program.catalog] at collected
  split at collected
  · cases collected
  · cases collected
    exact ⟨rfl, rfl, rfl⟩

theorem Program.Rearranges.resembles {program other : Program} (rearranges : program.Rearranges other)
    {catalog catalogToo : Catalog} (collected : program.catalog = .ok catalog)
    (collectedToo : other.catalog = .ok catalogToo) : catalog.Resembles catalogToo := by
  obtain ⟨structs, traits, _⟩ := Program.catalog_ok collected
  obtain ⟨structsToo, traitsToo, _⟩ := Program.catalog_ok collectedToo
  constructor
  · rw [structs, structsToo, program.structs_eq_filter, other.structs_eq_filter, rearranges.others]
  · rw [traits, traitsToo, program.traits_eq_filter, other.traits_eq_filter, rearranges.others]

/-- Rearranged items form the same unordered pairs. -/
theorem pairsOf_perm {α : Type} {items others : List α} (perm : items.Perm others) :
    ((pairsOf items).map fun pair => s(pair.1, pair.2)).Perm
      ((pairsOf others).map fun pair => s(pair.1, pair.2)) := by
  induction perm with
  | nil => exact .refl _
  | cons item perm ih =>
    simp only [pairsOf, List.map_append, List.map_map]
    exact (perm.map _).append ih
  | swap a b items =>
    -- The first two items form one unordered pair, and their other pairs change places.
    simp only [pairsOf, List.map_append, List.map_map, List.map_cons, List.cons_append,
      Function.comp_def, Sym2.eq_swap (a := a) (b := b)]
    exact (List.perm_append_comm_assoc _ _ _).cons _
  | trans _ _ ih ihToo => exact ih.trans ihToo

theorem Catalog.judge_ok {catalog : Catalog} {pairs : List (ImplDecl × ImplDecl)}
    {judgments : List Judgment} (judged : (catalog.judge pairs).result = .ok judgments) :
    judgments.map (fun judgment => (judgment.first, judgment.second)) = pairs ∧
      ∀ judgment ∈ judgments,
        (catalog.compare judgment.first judgment.second).result = .ok judgment.verdict := by
  induction pairs generalizing judgments with
  | nil =>
    cases judged
    exact ⟨rfl, fun _ member => absurd member List.not_mem_nil⟩
  | cons pair pairs ih =>
    rw [Catalog.judge] at judged
    dsimp only at judged
    split at judged
    · cases judged
    · rename_i verdict compared
      split at judged
      · cases judged
      · rename_i later rest
        cases judged
        obtain ⟨order, verdicts⟩ := ih rest
        exact ⟨by rw [List.map_cons, order], List.forall_mem_cons.mpr ⟨compared, verdicts⟩⟩

theorem Program.check_ok {program : Program} {judgments : List Judgment}
    (checked : program.check.result = .ok judgments) :
    ∃ catalog, program.catalog = .ok catalog ∧
      judgments.map Judgment.pair = (pairsOf program.impls).map (fun pair => s(pair.1, pair.2)) ∧
      ∀ judgment ∈ judgments,
        (catalog.compare judgment.first judgment.second).result = .ok judgment.verdict := by
  rw [Program.check] at checked
  split at checked
  · cases checked
  · rename_i catalog collected
    obtain ⟨order, verdicts⟩ := Catalog.judge_ok checked
    refine ⟨catalog, collected, ?_, verdicts⟩
    rw [← (Program.catalog_ok collected).2.2, ← Catalog.pairs, ← order, List.map_map]
    rfl

/-- Items that come with what their keys determine are rearranged as their keys are. -/
theorem perm_map_of_determined {α β γ : Type} {key : α → β} {value : α → γ} {items others : List α}
    (perm : (items.map key).Perm (others.map key))
    (determined : ∀ a ∈ items, ∀ b ∈ others, key a = key b → value a = value b) :
    (items.map fun a => (key a, value a)).Perm (others.map fun a => (key a, value a)) := by
  induction items generalizing others with
  | nil =>
    rw [List.map_nil, List.nil_perm, List.map_eq_nil_iff] at perm
    rw [perm]
  | cons a items ih =>
    obtain ⟨b, member, same⟩ := List.mem_map.mp (perm.subset List.mem_cons_self)
    obtain ⟨before, after, rfl⟩ := List.append_of_mem member
    have middle : (before ++ b :: after).Perm (b :: (before ++ after)) := List.perm_middle
    have rest := perm.trans (middle.map key)
    rw [List.map_cons, List.map_cons, same] at rest
    have tail := ih rest.cons_inv fun x inside y insideToo =>
      determined x (List.mem_cons_of_mem _ inside) y
        (middle.mem_iff.mpr (List.mem_cons_of_mem _ insideToo))
    refine List.Perm.trans ?_ (middle.map _).symm
    rw [List.map_cons, List.map_cons, same, determined a List.mem_cons_self b member same.symm]
    exact tail.cons _

theorem Program.Rearranges.same_verdict {program other : Program}
    (rearranges : program.Rearranges other) {judgments judgmentsToo : List Judgment}
    (checked : program.check.result = .ok judgments)
    (checkedToo : other.check.result = .ok judgmentsToo) :
    ∀ judgment ∈ judgments, ∀ judgmentToo ∈ judgmentsToo,
      judgment.pair = judgmentToo.pair → judgment.verdict = judgmentToo.verdict := by
  intro judgment member judgmentToo memberToo same
  obtain ⟨catalog, collected, _, verdicts⟩ := Program.check_ok checked
  obtain ⟨catalogToo, collectedToo, _, verdictsToo⟩ := Program.check_ok checkedToo
  have resembles := rearranges.resembles collected collectedToo
  have compared := verdicts judgment member
  have comparedToo := verdictsToo judgmentToo memberToo
  rcases Sym2.eq_iff.mp same with ⟨first, second⟩ | ⟨first, second⟩
  · rw [first, second] at compared
    exact resembles.verdict_again compared comparedToo
  · rw [first, second] at compared
    exact resembles.verdict_swapped compared comparedToo

/-- Swapping two impls does not change the verdict on them, so that rearranging the impls of a
program changes no verdict on any two of them. -/
theorem verdicts_independent_of_order :
    (∀ (catalog : Catalog) (first second : ImplDecl) (verdict verdictToo : Verdict),
      (catalog.compare first second).result = .ok verdict →
      (catalog.compare second first).result = .ok verdictToo → verdict = verdictToo) ∧
    ∀ (program other : Program) (judgments judgmentsToo : List Judgment),
      program.Rearranges other → program.check.result = .ok judgments →
      other.check.result = .ok judgmentsToo →
      (∀ judgment ∈ judgments, ∀ judgmentToo ∈ judgmentsToo,
        judgment.pair = judgmentToo.pair → judgment.verdict = judgmentToo.verdict) ∧
      (judgments.map fun judgment => (judgment.pair, judgment.verdict)).Perm
        (judgmentsToo.map fun judgment => (judgment.pair, judgment.verdict)) := by
  refine ⟨fun catalog first second verdict verdictToo compared swapped => ?_,
    fun program other judgments judgmentsToo rearranges checked checkedToo => ?_⟩
  · exact (Catalog.Resembles.refl catalog).verdict_swapped compared swapped
  · have same := rearranges.same_verdict checked checkedToo
    refine ⟨same, perm_map_of_determined ?_ same⟩
    obtain ⟨_, _, pairs, _⟩ := Program.check_ok checked
    obtain ⟨_, _, pairsToo, _⟩ := Program.check_ok checkedToo
    rw [pairs, pairsToo]
    exact pairsOf_perm rearranges.impls

/-- `impl<R> Show for R {}`. -/
def showAll : ImplDecl :=
  ⟨[⟨.placeless "R", none⟩], .apply (.placeless "Show") [], .apply (.placeless "R") []⟩

/-- The traits of `copyTraits` before, between and after three impls. -/
def showProgram : Program :=
  ⟨[.trait ⟨.placeless "Show", [], none⟩, .impl showCopied, .trait ⟨.placeless "Clone", [], none⟩,
    .impl showUncloned, .impl showAll,
    .trait ⟨.placeless "Copy", [], some ⟨[.apply (.placeless "Clone") []], []⟩⟩]⟩

def showProgramBackwards : Program :=
  ⟨[.impl showAll, .trait ⟨.placeless "Show", [], none⟩, .trait ⟨.placeless "Clone", [], none⟩,
    .trait ⟨.placeless "Copy", [], some ⟨[.apply (.placeless "Clone") []], []⟩⟩,
    .impl showUncloned, .impl showCopied]⟩

theorem show_verdicts_independent_of_order :
    showProgram.Rearranges showProgramBackwards ∧
    ∃ judgments judgmentsToo, showProgram.check.result = .ok judgments ∧
      showProgramBackwards.check.result = .ok judgmentsToo ∧
      judgments.map Judgment.verdict = [.disjoint, .overlap, .overlap] ∧
      (judgments.map fun judgment => (judgment.pair, judgment.verdict)).Perm
        (judgmentsToo.map fun judgment => (judgment.pair, judgment.verdict)) := by
  have rearranges : showProgram.Rearranges showProgramBackwards := ⟨by decide, by decide⟩
  exact ⟨rearranges, _, _, rfl, rfl, rfl,
    (verdicts_independent_of_order.2 _ _ _ _ rearranges rfl rfl).2⟩

end TraitCoherence
