import TraitCoherence.TraitSet

namespace TraitCoherence

/-- What a type must implement, and what it must not. -/
structure Bound where
  positive : TraitSet
  negative : TraitSet

/-- The bound that every type meets. -/
def Bound.empty : Bound := ⟨.empty, .empty⟩

/-- Both bounds at once. -/
def Bound.join (left right : Bound) : Bound :=
  ⟨left.positive.union right.positive, left.negative.union right.negative⟩

def Bound.same (left right : Bound) : Bool :=
  left.positive.same right.positive && left.negative.same right.negative

def Bound.render (bound : Bound) : String :=
  let text := signedTerms bound.positive.texts bound.negative.texts
  if text.isEmpty then "(no bound)" else text

end TraitCoherence
