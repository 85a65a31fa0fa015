import TraitCoherence.Closure
import TraitCoherence.Declaration.Printing
import TraitCoherence.Remark
import TraitCoherence.Unification
import TraitCoherence.VarClass

namespace TraitCoherence

/-- Whether two impls could both apply at once. -/
inductive Verdict where
  | overlap
  | disjoint
deriving DecidableEq, Repr

def Verdict.render : Verdict → String
  | .overlap => "Overlap"
  | .disjoint => "Disjoint"

/-- What a comparison of two impls comes upon. -/
inductive Finding where
  | refused (first second : ImplDecl)
  | unified (first second : ImplDecl) (σ : Substitution)
  | anchored (members : List Int) (anchor : Ty)
  | unbounded (members : List Int)
  | joined (members : List Int) (bound : Bound) (unsatisfiable : Bool)

/-- A finding in words. -/
def Finding.words : Finding → List Word
  | .refused first second =>
    [.text "Heads or targets refuse to unify:", .text first.render, .text "/", .text second.render]
  | .unified first second σ =>
    [.text "Unified", .text first.render, .text "/", .text second.render, .text "with",
      .text σ.render]
  | .anchored members anchor =>
    [.text "  class", .numbers members, .text "is anchored at", .text anchor.render]
  | .unbounded members => [.text "  class", .numbers members, .text "has an unbounded member"]
  | .joined members bound unsatisfiable =>
    [.text "  class", .numbers members, .text "joins to", .text bound.render, .text "which is",
      .text (if unsatisfiable then "unsatisfiable" else "satisfiable")]

/-- A result, and the findings on the way to it, also to a failure. -/
structure Traced (ε α : Type) where
  findings : List Finding
  result : Except ε α

/-- Puts a finding in front. -/
def Traced.after {ε α : Type} (finding : Finding) (rest : Traced ε α) : Traced ε α :=
  ⟨finding :: rest.findings, rest.result⟩

/-- What the bounds of some variables come to: one bound, unless a variable is unbounded or is missing
from the table. -/
inductive Joined where
  | bound (bound : Bound)
  | unbounded
  | missing (x : Int)

/-- All the bounds of some variables at once. -/
def joinBounds (bounds : BoundTable) (sofar : Bound) : List Int → Joined
  | [] => .bound sofar
  | x :: xs =>
    match bounds.lookup x with
    | none => .missing x
    | some none => .unbounded
    | some (some bound) => joinBounds bounds (sofar.join bound) xs

/-- Looks for a class of variables that no type fits. A class with an anchor or an unbounded member
proves nothing. -/
def Catalog.judgeClasses (catalog : Catalog) (bounds : BoundTable) (memo : Memo) :
    List VarClass → Traced CheckError Verdict
  | [] => ⟨[], .ok .overlap⟩
  | ⟨members, some anchor⟩ :: classes =>
    (catalog.judgeClasses bounds memo classes).after (.anchored members anchor)
  | ⟨members, none⟩ :: classes =>
    match joinBounds bounds .empty members with
    | .missing x => ⟨[], .error (.missingBound x)⟩
    | .unbounded => (catalog.judgeClasses bounds memo classes).after (.unbounded members)
    | .bound bound =>
      match catalog.unsatisfiable memo bound with
      | (_, .error error) => ⟨[], .error error⟩
      | (_, .ok true) => ⟨[.joined members bound true], .ok .disjoint⟩
      | (memo, .ok false) =>
        (catalog.judgeClasses bounds memo classes).after (.joined members bound false)

/-- Unifies the traits, then the targets, of two impls. -/
def unifySchemes (first second : ImplScheme) : Option Substitution :=
  match Substitution.empty.unifyTraits first.trait second.trait with
  | (_, false) => none
  | (σ, true) =>
    match σ.unify first.target second.target with
    | (_, false) => none
    | (σ, true) => some σ

/-- Elaborates two impls with different variables. -/
def Catalog.elaboratePair (catalog : Catalog) (first second : ImplDecl) :
    Except CheckError (ImplScheme × ImplScheme) :=
  match catalog.elaborateImpl 0 first with
  | (_, .error error) => .error error
  | (next, .ok first) =>
    match catalog.elaborateImpl next second with
    | (_, .error error) => .error error
    | (_, .ok second) => .ok (first, second)

/-- Compares two impls. They are disjoint if their heads and targets do not unify, or if some variables
that unification made one have bounds that no type meets together. -/
def Catalog.compare (catalog : Catalog) (first second : ImplDecl) : Traced CheckError Verdict :=
  match catalog.elaboratePair first second with
  | .error error => ⟨[], .error error⟩
  | .ok (left, right) =>
    match unifySchemes left right with
    | none => ⟨[.refused first second], .ok .disjoint⟩
    | some σ =>
      (catalog.judgeClasses (left.bounds ++ right.bounds) [] σ.classes).after
        (.unified first second σ)

end TraitCoherence
