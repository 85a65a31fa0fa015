import TraitCoherence.Issue
import TraitCoherence.Outburst
import TraitCoherence.Parse.Hint
import TraitCoherence.Remark

namespace TraitCoherence

/-- Issues collected so far, and the source that new ones refer to. -/
structure Report where
  verbose : Bool
  limit : Nat
  issues : List Issue
  source : Option Source
deriving DecidableEq, Repr

/-- The number of issues after which a report is given up, unless said otherwise. -/
def Report.usualLimit : Nat := 3

/-- A report with nothing in it. -/
def Report.empty (verbose : Bool) (limit : Nat) : Report := ⟨verbose, limit, [], none⟩

/-- Whether there is anything to complain about. -/
def Report.sick (report : Report) : Bool := !report.issues.isEmpty

/-- Whether the last complaint brought the report to its limit. Later ones pass it by. -/
inductive Patience where
  | kept
  | lost
deriving DecidableEq, Repr

/-- Adds a complaint about the current source. -/
def Report.complain (report : Report) (complaint : Complaint) : Report × Patience :=
  let issues := report.issues ++ [⟨report.source, complaint⟩]
  (⟨report.verbose, report.limit, issues, report.source⟩,
    if issues.length = report.limit then .lost else .kept)

/-- Makes a text the current source. -/
def Report.at (report : Report) (source : Source) : Report :=
  ⟨report.verbose, report.limit, report.issues, some source⟩

/-- What is printed for a remark: nothing unless the report is verbose. -/
def Report.chat (report : Report) (words : List Word) : String :=
  if report.verbose then remark words ++ "\n" else ""

/-- Shows a phrase in the current source. -/
def Report.illustrate (report : Report) (phrase : Phrase) (caption : String) : String :=
  TraitCoherence.illustrate report.source phrase caption

/-- What a syntax error is reported as. -/
def ParseError.complaint (error : ParseError) : Complaint :=
  match error with
  | .stuck character => .confusing ("'" ++ character.text ++ "'") character error.hint
  | .unexpected token _ => .confusing ("'" ++ token.text ++ "'") token.phrase error.hint
  | .ranOut _ => .ranOut error.hint

/-- The outcome of a step that may add an issue. -/
structure Reported (α : Type) where
  report : Report
  patience : Patience
  result : Option α

/-- Reads a program from a source, which becomes the current one. A text that is no program adds
one issue. -/
def Report.parse (report : Report) (source : Source) : Reported Program :=
  let current := report.at source
  match TraitCoherence.parse source.text with
  | .ok program => ⟨current, .kept, some program⟩
  | .error error =>
    let (complained, patience) := current.complain error.complaint
    ⟨complained, patience, none⟩

/-- The issues on the console, after an outburst. -/
def Report.console (report : Report) (choices : Choices) : String :=
  let rule := .ofList (List.replicate 60 '*') ++ "\n"
  let opening := if report.sick then rule ++ outburst choices 0 ++ "\n" else ""
  let dashes := "".intercalate (List.replicate 20 "  -") ++ "\n"
  opening ++ "".intercalate (report.issues.map fun issue => dashes ++ issue.render ++ "\n")

/-- The message of a failed assertion that all is well, or nothing if all is. -/
def Report.assertionFailure? (report : Report) (choices : Choices) (message : String) :
    Option String :=
  if report.sick then some (outburst choices 3 ++ " " ++ message) else none

end TraitCoherence
