import TraitCoherence.Path
import TraitCoherence.Phrase
import TraitCoherence.Text.Blank

namespace TraitCoherence

/-- A text that phrases point into, and the file it came from. -/
structure Source where
  path : Option Path
  text : String
deriving DecidableEq, Repr

/-- The lines of a text, each with its line break. The last line has none and may be empty. -/
def linesOf : List Char → List (List Char)
  | [] => [[]]
  | '\r' :: '\n' :: rest => ['\r', '\n'] :: linesOf rest
  | '\r' :: rest => ['\r'] :: linesOf rest
  | '\n' :: rest => ['\n'] :: linesOf rest
  | c :: rest =>
    match linesOf rest with
    | [] => [[c]]
    | first :: others => (c :: first) :: others

/-- A place in a text by row, counted from one, and column, counted from zero. -/
structure Place where
  row : Nat
  column : Nat
  line : List Char
deriving DecidableEq, Repr

/-- Finds a position in the lines that start at `row`. A position past the end is in the last line. -/
def locate (row : Nat) : List (List Char) → Nat → Place
  | [], index => ⟨row, index, []⟩
  | [line], index => ⟨row, index, line⟩
  | line :: others, index =>
    if index < line.length then ⟨row, index, line⟩
    else locate (row + 1) others (index - line.length)

/-- The place of a position in a text. -/
def placeOf (text : String) (index : Nat) : Place := locate 1 (linesOf text.toList) index

/-- The left margin of a drawn line: a blank and the row, in six columns at least. -/
def margin (row : Nat) : String :=
  let digits := " " ++ row.repr
  .ofList (List.replicate (6 - digits.length) ' ') ++ digits ++ " |"

/-- Blanks as wide as a text, in which tabs stay tabs. -/
def blankLike (text : List Char) : List Char := text.map fun c => if c = '\t' then c else ' '

/-- A line of the source over a line of carets that marks `width` characters of it, at least one
and not past its end. -/
def drawing (place : Place) (width : Nat) (caption : String) : String :=
  let left := margin place.row
  let carets := max 1 (min width (place.line.length - place.column))
  left ++ .ofList (trimEnd place.line) ++ "\n" ++
    .ofList (blankLike (left.toList ++ place.line.take place.column)) ++
    .ofList (List.replicate carets '^') ++ " " ++ caption

/-- Shows a phrase in its source. A phrase without a place, or without a source, is only quoted. -/
def illustrate (source : Option Source) (phrase : Phrase) (caption : String) : String :=
  match source, phrase.span with
  | some source, some span =>
    drawing (placeOf source.text span.start) (span.stop - span.start) caption
  | _, _ =>
    "       | " ++ phrase.text ++ if caption.isEmpty then "" else "  <-- " ++ caption

end TraitCoherence
