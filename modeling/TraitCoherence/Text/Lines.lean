namespace TraitCoherence

/-- The lines of a text, without the line feeds that end them. No other character ends a line, and
there is no line after the last line feed. -/
def splitLines : List Char → List (List Char)
  | [] => []
  | '\n' :: rest => [] :: splitLines rest
  | c :: rest =>
    match splitLines rest with
    | [] => [[c]]
    | line :: others => (c :: line) :: others

def lines (text : String) : List String := (splitLines text.toList).map String.ofList

end TraitCoherence
