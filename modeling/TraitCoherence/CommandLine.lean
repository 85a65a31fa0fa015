import TraitCoherence.Check
import TraitCoherence.FileText
import TraitCoherence.Options
import TraitCoherence.Report
import TraitCoherence.Text.Lines

namespace TraitCoherence

/-- What a run leaves behind. Without a status it has just come to its end. -/
structure Outcome where
  status : Option Nat
  stdout : String
  stderr : String
deriving DecidableEq, Repr

/-- What a run does not survive: a file that is not UTF-8, or a path with a null character. -/
inductive Crash where
  | undecodable
  | nullInPath
deriving DecidableEq, Repr

def usage : String := "usage: nega [-h] [-v] [-o] [-s] program\n"

/-- What is printed when nothing was asked for. -/
def overviewText : String :=
  "This is a coherence checker for traits with negative bounds.\n\n" ++ usage ++
    "\n\nFor example:\n\n    nega program.nega\n\n" ++
    "will print, for every pair of impls in program.nega, whether they\n" ++
    "could both apply to the same type (Overlap) or never can (Disjoint).\n\n" ++
    "    nega -h\n\nwill explain all the arguments.\n"

def helpText : String :=
  usage ++ "\nCoherence checker for traits with negative bounds.\n\npositional arguments:\n" ++
    "  program              try examples/negative_bounds.nega for example.\n\noptions:\n" ++
    "  -h, --help           show this help message and exit\n" ++
    "  -v, --verbose        Explain each pairwise check on stderr.\n" ++
    "  -o, --overlaps-only  Print only the pairs that overlap.\n" ++
    "  -s, --strict         Exit with status 2 if any pair overlaps.\n"

/-- Texts, a line each. -/
def lined (texts : List String) : String := "".intercalate (texts.map (· ++ "\n"))

/-- What is printed for findings, one after the other. -/
def Report.tell (report : Report) (findings : List Finding) : String :=
  "".intercalate (findings.map fun finding => report.chat finding.words)

/-- The lines of what is printed for findings. A name may break one finding into several. -/
def Report.tellLines (report : Report) (findings : List Finding) : List String :=
  lines (report.tell findings)

/-- A run that failed: the issues go to the console, after what was printed before. -/
def failed (report : Report) (choices : Choices) (chatter : String) : Outcome :=
  ⟨some 1, "", chatter ++ report.console choices⟩

/-- What a failed check is reported as. -/
def CheckFailure.complaint : CheckFailure → Complaint
  | .rejected cause => .uncheckable cause
  | .aborted first second cause => .aborted first.phrase second.phrase cause

/-- The judgments that are printed. -/
def Options.shown (options : Options) (judgments : List Judgment) : List Judgment :=
  if options.overlapsOnly then judgments.filter (·.verdict = .overlap) else judgments

/-- The status of a run that came to judgments. -/
def Options.status (options : Options) (judgments : List Judgment) : Nat :=
  if options.strict && judgments.any (·.verdict = .overlap) then 2 else 0

/-- Checks the text of a program and tells about it. -/
def Options.checkText (options : Options) (choices : Choices) (source : Source) : Outcome :=
  let reported := (Report.empty options.verbose Report.usualLimit).parse source
  match reported.result with
  | none => failed reported.report choices ""
  | some program =>
    let checked := program.check
    let chatter := reported.report.tell checked.findings
    match checked.result with
    | .error failure =>
      failed (reported.report.complain failure.complaint).1 choices chatter
    | .ok judgments =>
      ⟨some (options.status judgments), lined ((options.shown judgments).map Judgment.render),
        chatter⟩

/-- Checks what was read from a file. -/
def Options.checkReading (options : Options) (choices : Choices) (path : Path) (reading : Reading) :
    Except Crash Outcome :=
  let report := Report.empty options.verbose Report.usualLimit
  match reading with
  | .missing => .ok (failed (report.complain (.noSuchFile path)).1 choices "")
  | .unreadable => .ok (failed (report.complain (.brokenFile path)).1 choices "")
  | .content bytes =>
    match textOfBytes? bytes with
    | none => .error .undecodable
    | some text => .ok (options.checkText choices ⟨some path, text⟩)

/-- The path of the program, seen from a directory. -/
def Options.path (options : Options) (directory : Path) : Path :=
  directory.join (.ofText options.program)

/-- Answers a request that needs no file, and says which options to check with otherwise. -/
def Request.answer : Request → Outcome ⊕ Options
  | .overview => .inl ⟨none, overviewText, ""⟩
  | .help => .inl ⟨some 0, helpText, ""⟩
  | .refuse error => .inl ⟨some 2, "", usage ++ "nega: error: " ++ error.message ++ "\n"⟩
  | .check options => .inr options

/-- Runs a command line in a directory. What comes of reading a file is up to `read`. -/
def run (read : Path → Reading) (directory : Path) (choices : Choices) (arguments : List String) :
    Except Crash Outcome :=
  match (Request.ofArguments arguments).answer with
  | .inl outcome => .ok outcome
  | .inr options =>
    if options.program.contains '\x00' then .error .nullInPath
    else
      let path := options.path directory
      options.checkReading choices path (read path)

end TraitCoherence
