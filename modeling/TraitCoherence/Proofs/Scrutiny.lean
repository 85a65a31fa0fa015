import TraitCoherence.Parse
import TraitCoherence.Proofs.NameUses
import TraitCoherence.Proofs.Signatures

namespace TraitCoherence

/-- Two impls that were compared have both been elaborated. -/
theorem Catalog.elaborated_of_compared {catalog : Catalog} {first second : ImplDecl}
    {verdict : Verdict} (compared : (catalog.compare first second).result = .ok verdict) :
    ∀ impl, first = impl ∨ second = impl →
      ∃ next scheme, (catalog.elaborateImpl next impl).2 = .ok scheme := by
  obtain ⟨left, right, elaborated, _⟩ := Catalog.compare_ok compared
  obtain ⟨here, after, there⟩ := Catalog.elaboratePair_ok elaborated
  rintro impl (rfl | rfl)
  · exact ⟨0, left, congrArg Prod.snd here⟩
  · exact ⟨_, right, congrArg Prod.snd there⟩

/-- If a program with any number of impls but one gets judgments, then every impl can be elaborated,
from any number on, and there is no improper use of a name in it. -/
theorem judged_impls_use_names_properly (program : Program) (judgments : List Judgment)
    (several : program.impls.length ≠ 1) (checked : program.check.result = .ok judgments) :
    ∃ catalog, program.catalog = .ok catalog ∧ ∀ impl ∈ program.impls,
      (∀ next, ∃ scheme, (catalog.elaborateImpl next impl).2 = .ok scheme) ∧
        ∀ use ∈ impl.uses, use.Proper program.structs := by
  obtain ⟨catalog, collected, _⟩ := Program.check_ok checked
  obtain ⟨structs, _, _⟩ := Program.catalog_ok collected
  refine ⟨catalog, collected, fun impl member => ?_⟩
  rw [Program.check_eq_judge collected] at checked
  obtain ⟨order, verdicts⟩ := Catalog.judge_ok checked
  obtain ⟨pair, inside, either⟩ := exists_pair_of_mem several member
  rw [← order, List.mem_map] at inside
  obtain ⟨judgment, judged, rfl⟩ := inside
  obtain ⟨next, elaborated⟩ := Catalog.elaborated_of_compared (verdicts judgment judged) impl either
  have proper := (catalog.elaborateImpl_ok_iff next impl).mp elaborated
  exact ⟨fun other => (catalog.elaborateImpl_ok_iff other impl).mpr proper, structs ▸ proper⟩

/-- A bound, a parameter and a struct with an argument, among four impls. -/
theorem vec_impls_use_names_properly :
    vecProgram.impls.length ≠ 1 ∧ ∃ judgments, vecProgram.check.result = .ok judgments ∧
      showVec ∈ vecProgram.impls ∧
      showVec.uses = [⟨["W"], .placeless "Vec", 1⟩, ⟨["W"], .placeless "W", 0⟩] ∧
      ∀ use ∈ showVec.uses, use.Proper vecProgram.structs := by
  have several : vecProgram.impls.length ≠ 1 := by decide
  have member : showVec ∈ vecProgram.impls := by decide
  refine ⟨several, _, rfl, member, rfl, ?_⟩
  obtain ⟨catalog, _, each⟩ := judged_impls_use_names_properly vecProgram _ several rfl
  exact (each showVec member).2

/-- An impl for a type that nothing declares, with no other impl to compare it with. -/
def loneGhost : String := "trait Show \x7b\x7d impl Show for Ghost \x7b\x7d"

/-- An impl that is the only one is never looked at: it gets by without a judgment, whatever its names
mean. -/
theorem lone_impl_passed_over :
    ∃ program catalog impl, parse loneGhost = .ok program ∧ program.catalog = .ok catalog ∧
      program.check.result = .ok [] ∧ program.impls = [impl] ∧
      (catalog.elaborateImpl 0 impl).2 = .error (.undefinedSymbol ⟨"Ghost", some ⟨28, 33⟩⟩) := by
  have read : parse loneGhost = .ok
      ⟨[.trait ⟨⟨"Show", some ⟨6, 10⟩⟩, [], none⟩,
        .impl ⟨[], .apply ⟨"Show", some ⟨19, 23⟩⟩ [], .apply ⟨"Ghost", some ⟨28, 33⟩⟩ []⟩]⟩ := by
    decide +kernel
  exact ⟨_, _, _, read, rfl, rfl, rfl, rfl⟩

end TraitCoherence
