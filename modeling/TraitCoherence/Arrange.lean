namespace TraitCoherence

/-- Puts an item in front of the first one that it precedes. -/
def insertOrdered {α : Type} (precedes : α → α → Bool) (item : α) : List α → List α
  | [] => [item]
  | first :: others =>
    if precedes item first then item :: first :: others
    else first :: insertOrdered precedes item others

/-- The items in order. -/
def arrange {α : Type} (precedes : α → α → Bool) (items : List α) : List α :=
  items.foldr (insertOrdered precedes) []

/-- Texts in code-point order. -/
def alphabetical (texts : List String) : List String := arrange (fun a b => a ≤ b) texts

/-- Numbers in ascending order. -/
def ascending (numbers : List Int) : List Int := arrange (fun a b => a ≤ b) numbers

end TraitCoherence
