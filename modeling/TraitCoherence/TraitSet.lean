import TraitCoherence.Arrange
import TraitCoherence.Distinct
import TraitCoherence.TraitRef

namespace TraitCoherence

/-- A set of trait applications, no two of which agree. Of those that would, the first one added is
kept. -/
structure TraitSet where
  members : List TraitRef
  distinct : members.Pairwise fun a b => a.agrees b = false

def TraitSet.empty : TraitSet := ⟨[], .nil⟩

def TraitSet.singleton (trait : TraitRef) : TraitSet := ⟨[trait], List.pairwise_singleton _ _⟩

def TraitSet.contains (set : TraitSet) (trait : TraitRef) : Bool := set.members.any (·.agrees trait)

def TraitSet.insert (set : TraitSet) (trait : TraitRef) : TraitSet :=
  ⟨addNew TraitRef.agrees set.members trait, pairwise_addNew trait set.distinct⟩

def TraitSet.ofList (traits : List TraitRef) : TraitSet := traits.foldl TraitSet.insert .empty

/-- Members of the left set win over those of the right that agree with them. -/
def TraitSet.union (left right : TraitSet) : TraitSet := right.members.foldl TraitSet.insert left

/-- Whether two sets are of one size and the right has every member of the left. -/
def TraitSet.same (left right : TraitSet) : Bool :=
  left.members.length == right.members.length && left.members.all right.contains

/-- Whether two sets share a member. -/
def TraitSet.meets (left right : TraitSet) : Bool := left.members.any right.contains

/-- The members as texts, in order. -/
def TraitSet.texts (set : TraitSet) : List String := alphabetical (set.members.map TraitRef.render)

end TraitCoherence
