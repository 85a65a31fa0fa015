import TraitCoherence.Text.Quoted

namespace TraitCoherence

/-- A word of a remark: a text, a number, or a list of words. -/
inductive Word where
  | text (content : String)
  | number (n : Int)
  | list (items : List Word)
deriving Repr

/-- A list of numbers as a word. -/
def Word.numbers (ids : List Int) : Word := .list (ids.map .number)

mutual

/-- A word inside a list, where texts stand in quotes. -/
def Word.listed : Word → String
  | .text content => quoted content
  | .number n => n.repr
  | .list items => "[" ++ ", ".intercalate (Word.listedAll items) ++ "]"

def Word.listedAll : List Word → List String
  | [] => []
  | item :: items => item.listed :: Word.listedAll items

end

/-- A word on its own. -/
def Word.render : Word → String
  | .text content => content
  | .number n => n.repr
  | .list items => (Word.list items).listed

/-- Words with single blanks between them. -/
def remark (words : List Word) : String := " ".intercalate (words.map Word.render)

end TraitCoherence
