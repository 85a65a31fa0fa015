import TraitCoherence.Phrase
import TraitCoherence.Text.Quoted
import TraitCoherence.Ty.Printing

namespace TraitCoherence

/-- A name as a debugging aid shows it. -/
def Phrase.inspect (name : Name) : String := "<Name " ++ quoted name.text ++ ">"

/-- A type with its kind and, for a variable, its number. -/
def Ty.inspect : Ty → String
  | .var x label => "<Variable " ++ label ++ "#" ++ x.repr ++ ">"
  | .ctor name args => "<Constructor " ++ (Ty.ctor name args).render ++ ">"

end TraitCoherence
