import TraitCoherence.Phrase

namespace TraitCoherence

/-- Why a program cannot be checked. Each cause holds what is to blame. -/
inductive CheckError where
  /-- A name that is no type parameter in scope and no declared struct. -/
  | undefinedSymbol (name : Name)
  /-- A type parameter that was given arguments. -/
  | appliedParameter (name : Name) (given : Int)
  /-- A struct that was given the wrong number of arguments. -/
  | wrongArity (name : Name) (given needed : Int)
  /-- A trait whose supertraits are asked for, but which is not declared. -/
  | undeclaredTrait (name : Name)
  /-- Traits that are each other's supertraits. -/
  | circularSupertraits (name : Name) (circle : List Name)
  /-- A variable that a table of bounds has no entry for. No comparison of impls comes to this. -/
  | missingBound (x : Int)
deriving DecidableEq, Repr

/-- The name to blame. A variable is named by its number. -/
def CheckError.guilty : CheckError → Name
  | .undefinedSymbol name => name
  | .appliedParameter name _ => name
  | .wrongArity name _ _ => name
  | .undeclaredTrait name => name
  | .circularSupertraits name _ => name
  | .missingBound x => .placeless x.repr

def CheckError.message : CheckError → String
  | .undefinedSymbol name =>
    "'" ++ name.text ++ "' is neither a type-parameter in scope nor a declared struct."
  | .appliedParameter name given =>
    "'" ++ name.text ++ "' is a type-parameter, so it takes no type-arguments, but was given " ++
      given.repr ++ "."
  | .wrongArity name given needed =>
    "Struct '" ++ name.text ++ "' was given " ++ given.repr ++ " type-arguments; " ++
      needed.repr ++ " are needed."
  | .undeclaredTrait name => "Trait '" ++ name.text ++ "' is not declared."
  | .circularSupertraits _ circle =>
    "These traits are each other's supertraits, in a circle: " ++
      ", ".intercalate (circle.map (·.text))
  | .missingBound x => x.repr

end TraitCoherence
