import TraitCoherence.Declaration.Printing
import TraitCoherence.Proofs.Prefixes

namespace TraitCoherence

/-- Between declarations exactly the sentences of the grammar have been read. -/
theorem Program.derived_iff_read {tokens : List Token} {program : Program} :
    Program.Derived tokens program ↔
      ParseState.start.read tokens = .ok ⟨program.decls, .between⟩ := by
  constructor
  · exact DeclSeries.read
  · intro read
    have reached := ParseState.Reached.start.read read
    rw [List.nil_append] at reached
    obtain ⟨series, progress⟩ := reached
    -- Between declarations nothing has been read of the next one.
    cases progress
    rwa [List.append_nil]

theorem Program.Derived.unique {tokens : List Token} {program other : Program}
    (derived : Program.Derived tokens program) (derivedToo : Program.Derived tokens other) :
    other = program := by
  have same := (Program.derived_iff_read.mp derivedToo).symm.trans (Program.derived_iff_read.mp derived)
  obtain ⟨decls⟩ := program
  obtain ⟨others⟩ := other
  cases same
  rfl

theorem Scan.parse_eq_ok_iff {scan : Scan} {program : Program} :
    scan.parse = .ok program ↔ scan.stuck = none ∧ Program.Derived scan.tokens program := by
  rw [Program.derived_iff_read, Scan.parse]
  cases read : ParseState.start.read scan.tokens with
  | error error => simp
  | ok state =>
    obtain ⟨decls, progress⟩ := state
    obtain ⟨programDecls⟩ := program
    cases scan.stuck with
    | some character => simp
    | none =>
      by_cases finished : progress = .between
      · simp [ParseState.admits, finished]
      · simp [ParseState.admits, finished]

/-- A text without stuck characters is a program exactly if the grammar derives its tokens. What a
derivation means is unique, and it is what reading gives. -/
theorem parse_ok_iff_derived_and_unique (text : String) (whole : (scan text).stuck = none) :
    ((∃ program, parse text = .ok program) ↔
      ∃ program, Program.Derived (scan text).tokens program) ∧
    ∀ program, Program.Derived (scan text).tokens program →
      parse text = .ok program ∧
        ∀ other, Program.Derived (scan text).tokens other → other = program := by
  have accepted (program : Program) :
      parse text = .ok program ↔ Program.Derived (scan text).tokens program :=
    Scan.parse_eq_ok_iff.trans (and_iff_right whole)
  refine ⟨exists_congr accepted, fun program derived => ?_⟩
  exact ⟨(accepted program).mpr derived, fun other => derived.unique⟩

/-- Both signs, before and after `+`, and a comma after the last parameter. -/
def mixedSigns : String := "trait T<P,>: -A + B + !C - D + -E \x7b\x7d"

theorem mixedSigns_read : (scan mixedSigns).stuck = none ∧
    ∃ program, Program.Derived (scan mixedSigns).tokens program ∧
      (∀ other, Program.Derived (scan mixedSigns).tokens other → other = program) ∧
      program.render = "trait T<P>: B - A - C - D - E \x7b\x7d" := by
  have whole : (scan mixedSigns).stuck = none := by decide +kernel
  obtain ⟨accepted, meaning⟩ := parse_ok_iff_derived_and_unique mixedSigns whole
  have printed : (parse mixedSigns).toOption.map Program.render =
      some "trait T<P>: B - A - C - D - E \x7b\x7d" := by decide +kernel
  cases read : parse mixedSigns with
  | error error =>
    rw [read] at printed
    cases printed
  | ok program =>
    rw [read] at printed
    obtain ⟨other, derived⟩ := accepted.mp ⟨program, read⟩
    obtain ⟨readToo, unique⟩ := meaning other derived
    cases read.symm.trans readToo
    exact ⟨whole, program, derived, unique, Option.some.inj printed⟩

end TraitCoherence
