namespace TraitCoherence

/-- A file path: what it starts from, and the names to follow from there. The root is empty for a
relative path. -/
structure Path where
  root : String
  parts : List String
deriving DecidableEq, Repr

/-- Cuts a text at its slashes. -/
def slashed : List Char → List (List Char)
  | [] => [[]]
  | c :: rest =>
    if c = '/' then [] :: slashed rest
    else
      match slashed rest with
      | [] => [[c]]
      | first :: others => (c :: first) :: others

/-- Reads a path. Repeated slashes and single dots mean nothing, double dots are kept, and exactly two
slashes at the front are a root of their own. -/
def Path.ofText (text : String) : Path :=
  let leading := (text.toList.takeWhile (· = '/')).length
  let root := if leading = 0 then "" else if leading = 2 then "//" else "/"
  ⟨root, ((slashed text.toList).map String.ofList).filter fun part => part ≠ "" ∧ part ≠ "."⟩

/-- The shortest text for a path. -/
def Path.render (path : Path) : String :=
  if path.root = "" ∧ path.parts = [] then "." else path.root ++ "/".intercalate path.parts

/-- What `other` means when it is said at `path`. -/
def Path.join (path other : Path) : Path :=
  if other.root = "" then ⟨path.root, path.parts ++ other.parts⟩ else other

end TraitCoherence
