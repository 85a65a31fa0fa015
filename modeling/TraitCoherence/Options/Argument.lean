import TraitCoherence.Text.Digit

namespace TraitCoherence

/-- What can be switched on from the command line. -/
inductive Switch where
  | help
  | verbose
  | overlapsOnly
  | strict
deriving DecidableEq, Repr

/-- The switches, in the order in which they are described. -/
def Switch.all : List Switch := [.help, .verbose, .overlapsOnly, .strict]

def Switch.letter : Switch → Char
  | .help => 'h'
  | .verbose => 'v'
  | .overlapsOnly => 'o'
  | .strict => 's'

def Switch.word : Switch → String
  | .help => "help"
  | .verbose => "verbose"
  | .overlapsOnly => "overlaps-only"
  | .strict => "strict"

def Switch.ofLetter? (letter : Char) : Option Switch :=
  Switch.all.find? (·.letter = letter)

/-- The switches whose words start with the given letters. -/
def Switch.startingWith (letters : List Char) : List Switch :=
  Switch.all.filter fun switch => letters.isPrefixOf switch.word.toList

/-- An argument by its form. -/
inductive Argument where
  /-- Something to check. -/
  | plain
  /-- In the form of an option, but of none that is known. -/
  | unknown
  /-- A switch by its word, with what follows an equals sign. -/
  | long (switch : Switch) (value : Option (List Char))
  /-- A switch by its letter, with what follows in the same argument. -/
  | short (switch : Switch) (value : Option (List Char))
  /-- A word that could be the start of several. -/
  | ambiguous (switches : List Switch)
deriving DecidableEq, Repr

/-- Whether a text is a minus sign and a decimal number, with or without a line break after it. -/
def isNegativeNumber : List Char → Bool
  | '-' :: rest =>
    let number := if rest.getLast? = some '\n' then rest.dropLast else rest
    match number.dropWhile isDecimalDigit with
    | [] => !number.isEmpty
    | '.' :: decimals => !decimals.isEmpty && decimals.all isDecimalDigit
    | _ => false
  | _ => false

/-- What is no known option is plain if it is a negative number or has a blank in it. -/
def Argument.other (text : List Char) : Argument :=
  if isNegativeNumber text || text.contains ' ' then .plain else .unknown

/-- What follows the first equals sign. -/
def valueIn (text : List Char) : Option (List Char) := (text.dropWhile (· ≠ '=')).tail?

/-- Tells an argument by its form. The word of a switch may be cut short as long as it is clear. -/
def Argument.ofText (text : List Char) : Argument :=
  match text with
  | '-' :: '-' :: rest =>
    match Switch.startingWith (rest.takeWhile (· ≠ '=')) with
    | [] => .other text
    | [switch] => .long switch (valueIn rest)
    | switches => .ambiguous switches
  | '-' :: letter :: rest =>
    match Switch.ofLetter? letter with
    | none => .other text
    | some switch =>
      match rest with
      | [] => .short switch none
      | '=' :: value => .short switch (some value)
      | value => .short switch (some value)
  | _ => .plain

end TraitCoherence
