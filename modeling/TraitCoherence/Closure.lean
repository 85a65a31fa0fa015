import TraitCoherence.Elaboration

namespace TraitCoherence

/-- The supertraits that a trait application obliges to, in declared order. A parameter without an
argument stands for nothing, and the last of two parameters with one name counts. -/
def Catalog.supertraits (catalog : Catalog) (trait : TraitRef) : Except CheckError (List TraitRef) :=
  match catalog.traits.get? trait.name with
  | none => .error (.undeclaredTrait (.placeless trait.name))
  | some decl =>
    let scope := ((decl.params.map (·.name.text)).zip trait.args).reverse
    catalog.elaborateTraits scope decl.demands

/-- Closures found so far, the oldest first. -/
abbrev Memo := List (TraitRef × TraitSet)

/-- The closure remembered for the first trait application that agrees with this one. -/
def Memo.get? (memo : Memo) (trait : TraitRef) : Option TraitSet :=
  (memo.find? fun entry => entry.1.agrees trait).map (·.2)

/-- Adds the closures of some trait applications to a set, one after the other. -/
def gather (close : Memo → TraitRef → Memo × Except CheckError TraitSet) (memo : Memo)
    (sofar : TraitSet) : List TraitRef → Memo × Except CheckError TraitSet
  | [] => (memo, .ok sofar)
  | trait :: traits =>
    match close memo trait with
    | (memo, .error error) => (memo, .error error)
    | (memo, .ok closure) => gather close memo (sofar.union closure) traits

/-- Everything that implementing a trait obliges to, the trait itself included, along chains of
supertraits no longer than the first argument. A chain that is longer would hold a circle. Only
what succeeds is remembered. -/
def Catalog.closeWithin (catalog : Catalog) : Nat → Memo → TraitRef → Memo × Except CheckError TraitSet
  | 0, memo, trait =>
    (memo, .error (.circularSupertraits (.placeless trait.name) [.placeless trait.name]))
  | depth + 1, memo, trait =>
    match memo.get? trait with
    | some closure => (memo, .ok closure)
    | none =>
      match catalog.supertraits trait with
      | .error error => (memo, .error error)
      | .ok supertraits =>
        match gather (catalog.closeWithin depth) memo (.singleton trait) supertraits with
        | (memo, .error error) => (memo, .error error)
        | (memo, .ok closure) => (memo ++ [(trait, closure)], .ok closure)

/-- The closure of a trait application. The names along a chain of supertraits are distinct, and all but
the last are declared, so the chain is no longer than the table of traits and one more. -/
def Catalog.closure (catalog : Catalog) (memo : Memo) (trait : TraitRef) :
    Memo × Except CheckError TraitSet :=
  catalog.closeWithin (catalog.traits.entries.length + 1) memo trait

/-- Everything that the positive part of a bound obliges to. Its terms are gone through as they were
written. They form a set, and no order among them is promised, so which of several failures comes first
is a choice made here. -/
def Catalog.implied (catalog : Catalog) (memo : Memo) (bound : Bound) :
    Memo × Except CheckError TraitSet :=
  gather catalog.closure memo .empty bound.positive.members

/-- Whether a bound obliges to something that it forbids. -/
def Catalog.unsatisfiable (catalog : Catalog) (memo : Memo) (bound : Bound) :
    Memo × Except CheckError Bool :=
  match catalog.implied memo bound with
  | (memo, .error error) => (memo, .error error)
  | (memo, .ok implied) => (memo, .ok (implied.meets bound.negative))

end TraitCoherence
