import TraitCoherence.CommandLine
import TraitCoherence.Proofs.Blame
import TraitCoherence.Proofs.Signatures

namespace TraitCoherence

/-- Why a text comes to no judgments: it is no program, its supertraits run in a circle, or two of
its impls could not be compared. -/
inductive Unjudged (text : String) : Complaint → Prop
  | misread {error : ParseError} : parse text = .error error → Unjudged text error.complaint
  | circular {program : Program} {guilty : Name} {circle : List Name} :
      parse text = .ok program →
      program.check.result = .error (.rejected (.circularSupertraits guilty circle)) →
      Unjudged text (.uncheckable (.circularSupertraits guilty circle))
  | aborted {program : Program} {first second : ImplDecl} {cause : CheckError} :
      parse text = .ok program →
      program.check.result = .error (.aborted first second cause) →
      Unjudged text (.aborted first.phrase second.phrase cause)

/-- The text is a program that is checked, with these judgments. -/
def Judged (text : String) (judgments : List Judgment) : Prop :=
  ∃ program, parse text = .ok program ∧ program.check.result = .ok judgments

/-- What a run owes for a source. It fails exactly if there are no judgments, says why, and prints
nothing else then. Otherwise it prints the judgments, or those that overlap if only these are wanted,
and a strict run tells by its status whether any does. -/
structure Outcome.Answers (outcome : Outcome) (options : Options) (source : Source) : Prop where
  fails_iff : outcome.status = some 1 ∧ outcome.stdout = "" ↔
    ∃ complaint, Unjudged source.text complaint
  complains : outcome.status = some 1 → ∃ complaint above, Unjudged source.text complaint ∧
    outcome.stderr = above ++ (Issue.mk (some source) complaint).render ++ "\n"
  tells : (¬ ∃ complaint, Unjudged source.text complaint) →
    ∃ judgments, Judged source.text judgments ∧
    outcome.stdout = lined ((if options.overlapsOnly then judgments.filter (·.verdict = .overlap)
      else judgments).map Judgment.render) ∧
    outcome.status =
      some (if options.strict ∧ ∃ judgment ∈ judgments, judgment.verdict = .overlap then 2 else 0)

theorem Judged.unique {text : String} {judgments others : List Judgment}
    (judged : Judged text judgments) (again : Judged text others) : others = judgments := by
  obtain ⟨program, read, checked⟩ := judged
  obtain ⟨reread, readToo, checkedToo⟩ := again
  rw [read] at readToo
  cases readToo
  rw [checked] at checkedToo
  exact (Except.ok.inj checkedToo).symm

/-- What is printed and the status are settled by the source and two of the options. -/
theorem Outcome.Answers.agree {outcome other : Outcome} {options others : Options} {source : Source}
    (answers : outcome.Answers options source) (answersToo : other.Answers others source)
    (sameWanted : others.overlapsOnly = options.overlapsOnly)
    (sameStrict : others.strict = options.strict) :
    other.stdout = outcome.stdout ∧ other.status = outcome.status := by
  by_cases unjudged : ∃ complaint, Unjudged source.text complaint
  · obtain ⟨status, stdout⟩ := answers.fails_iff.mpr unjudged
    obtain ⟨statusToo, stdoutToo⟩ := answersToo.fails_iff.mpr unjudged
    exact ⟨stdoutToo.trans stdout.symm, statusToo.trans status.symm⟩
  · obtain ⟨judgments, judged, stdout, status⟩ := answers.tells unjudged
    obtain ⟨again, judgedToo, stdoutToo, statusToo⟩ := answersToo.tells unjudged
    rw [judged.unique judgedToo, sameWanted] at stdoutToo
    rw [judged.unique judgedToo, sameStrict] at statusToo
    exact ⟨stdoutToo.trans stdout.symm, statusToo.trans status.symm⟩

section

variable {options : Options} {source : Source} {report : Report}

end

/-- The argument that turns a switch on by its letter. -/
def Switch.argument (switch : Switch) : String := "-" ++ .singleton switch.letter

def Options.turnOn (options : Options) : Switch → Options
  | .help => options
  | .verbose => ⟨options.program, true, options.overlapsOnly, options.strict⟩
  | .overlapsOnly => ⟨options.program, options.verbose, true, options.strict⟩
  | .strict => ⟨options.program, options.verbose, options.overlapsOnly, true⟩

def Request.turnOn (switch : Switch) : Request → Request
  | .check options => .check (options.turnOn switch)
  | request => request

section

variable (switch : Switch) (state : ArgState)

end

end TraitCoherence
