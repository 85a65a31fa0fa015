import TraitCoherence.CheckError
import TraitCoherence.Source

namespace TraitCoherence

/-- What there is to complain about. -/
inductive Complaint where
  | noSuchFile (path : Path)
  | brokenFile (path : Path)
  | confusing (what : String) (token : Phrase) (hint : String)
  | ranOut (hint : String)
  | uncheckable (cause : CheckError)
  | aborted (first second : Phrase) (cause : CheckError)
deriving DecidableEq, Repr

/-- A complaint and the source that was current when it was made. -/
structure Issue where
  source : Option Source
  complaint : Complaint
deriving DecidableEq, Repr

/-- The file that an issue is about. -/
def Issue.path (issue : Issue) : Option Path := issue.source.bind (·.path)

/-- The first line of an issue. -/
def Issue.intro (issue : Issue) : String :=
  match issue.complaint with
  | .noSuchFile path => "I see no file called " ++ path.render
  | .brokenFile path => "Something went pear-shaped while trying to read " ++ path.render
  | .confusing what _ _ => "Got confused by " ++ what ++ "."
  | .ranOut _ =>
    match issue.path with
    | some path => "Ran out of words in " ++ path.render
    | none => "Ran out of words in the program"
  | .uncheckable cause => cause.message
  | .aborted _ _ _ => "These two impls could not be checked against each other."

/-- The phrases that an issue points at, with their captions. -/
def Complaint.pointers : Complaint → List (Phrase × String)
  | .confusing _ token _ => [(token, "Got confused here")]
  | .uncheckable cause => [(cause.guilty, "")]
  | .aborted first second cause =>
    [(first, "First"), (second, "Second"), (cause.guilty, "Trouble here")]
  | _ => []

/-- What an issue ends with. -/
def Complaint.footer : Complaint → List String
  | .confusing _ _ hint => [hint]
  | .ranOut hint => [hint]
  | .aborted _ _ cause => [cause.message]
  | _ => []

/-- The whole text of an issue. The file is named above the pictures, if there are any. -/
def Issue.render (issue : Issue) : String :=
  let pointers := issue.complaint.pointers
  let heading :=
    match issue.path with
    | some path => if pointers.isEmpty then [] else [path.render]
    | none => []
  let pictures := pointers.map fun (phrase, caption) => illustrate issue.source phrase caption
  "\n".intercalate ([issue.intro, ""] ++ heading ++ pictures ++ issue.complaint.footer)

end TraitCoherence
