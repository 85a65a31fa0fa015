import TraitCoherence.Verdict

namespace TraitCoherence

structure Judgment where
  verdict : Verdict
  first : ImplDecl
  second : ImplDecl
deriving DecidableEq, Repr

def Judgment.render (judgment : Judgment) : String :=
  judgment.verdict.render ++ ": \"" ++ judgment.first.render ++ "\" and \"" ++
    judgment.second.render ++ "\""

/-- Why a program gets no judgments: its supertraits run in a circle, or two impls could not be
compared. -/
inductive CheckFailure where
  | rejected (cause : CheckError)
  | aborted (first second : ImplDecl) (cause : CheckError)
deriving DecidableEq, Repr

def CheckFailure.message : CheckFailure → String
  | .rejected cause => cause.message
  | .aborted first second cause =>
    "Checking \"" ++ first.render ++ "\" against \"" ++ second.render ++ "\": " ++ cause.message

/-- Compares pairs in order. The first that cannot be compared ends it all. -/
def Catalog.judge (catalog : Catalog) :
    List (ImplDecl × ImplDecl) → Traced CheckFailure (List Judgment)
  | [] => ⟨[], .ok []⟩
  | (first, second) :: pairs =>
    let comparison := catalog.compare first second
    match comparison.result with
    | .error cause => ⟨comparison.findings, .error (.aborted first second cause)⟩
    | .ok verdict =>
      let rest := catalog.judge pairs
      match rest.result with
      | .error failure => ⟨comparison.findings ++ rest.findings, .error failure⟩
      | .ok judgments =>
        ⟨comparison.findings ++ rest.findings, .ok (⟨verdict, first, second⟩ :: judgments)⟩

/-- Checks every pair of impls. -/
def Catalog.check (catalog : Catalog) : Traced CheckFailure (List Judgment) :=
  catalog.judge catalog.pairs

/-- Checks a program. -/
def Program.check (program : Program) : Traced CheckFailure (List Judgment) :=
  match program.catalog with
  | .error cause => ⟨[], .error (.rejected cause)⟩
  | .ok catalog => catalog.check

end TraitCoherence
