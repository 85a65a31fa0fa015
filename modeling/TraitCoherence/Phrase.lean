namespace TraitCoherence

/-- A stretch of source text, counted in characters: `start` included, `stop` excluded. -/
structure Span where
  start : Nat
  stop : Nat
deriving DecidableEq, Repr

/-- Text together with the place it was read from. A phrase made by hand has no place. -/
structure Phrase where
  text : String
  span : Option Span
deriving DecidableEq, Repr

/-- An occurrence of a name. Two occurrences with one text name the same thing. -/
abbrev Name := Phrase

/-- A phrase that stands nowhere in a source. -/
def Phrase.placeless (text : String) : Phrase := ⟨text, none⟩

/-- Forgets where a phrase was read. -/
def Phrase.unplaced (phrase : Phrase) : Phrase := .placeless phrase.text

end TraitCoherence
