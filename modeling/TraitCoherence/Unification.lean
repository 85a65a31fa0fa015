import TraitCoherence.Substitution
import TraitCoherence.TraitRef

namespace TraitCoherence

/-- Two types that are to become one. -/
structure Equation where
  left : Ty
  right : Ty
deriving Repr

mutual

/-- The equations that two types come down to: applications of one struct are compared argument by
argument, as far as the shorter list goes, and a variable equals itself. What is left either has a
variable on one side or cannot hold. -/
def Ty.equations : Ty → Ty → List Equation
  | .ctor f as, .ctor g bs =>
    if f = g then Ty.equationsAll as bs else [⟨.ctor f as, .ctor g bs⟩]
  | .var x label, .var y label' => if x = y then [] else [⟨.var x label, .var y label'⟩]
  | a, b => [⟨a, b⟩]

def Ty.equationsAll : List Ty → List Ty → List Equation
  | a :: as, b :: bs => a.equations b ++ Ty.equationsAll as bs
  | _, _ => []

end

/-- The binding that solves an equation: of the left variable if there is one, else of the right. -/
def Equation.binding? : Equation → Option (Int × Ty)
  | ⟨.var x _, value⟩ => some (x, value)
  | ⟨value, .var x _⟩ => some (x, value)
  | _ => none

def Equation.vars (equation : Equation) : List Int := equation.left.vars ++ equation.right.vars

/-- What is left to solve first once bound variables are replaced, and the equations after it. Those
stay as they are until their turn comes, for a failure leaves them untouched. -/
def Substitution.next? (σ : Substitution) : List Equation → Option (Equation × List Equation)
  | [] => none
  | equation :: others =>
    match (σ.resolve equation.left).equations (σ.resolve equation.right) with
    | [] => σ.next? others
    | first :: rest => some (first, rest ++ others)

/-- Solves equations from the left, and says whether all went well. Bindings made before a failure
stay. Each binding is of a variable not bound before, so no more are made than there are variables.
The fuel is at least their number. -/
def Substitution.solve (σ : Substitution) (fuel : Nat) (equations : List Equation) :
    Substitution × Bool :=
  match σ.next? equations with
  | none => (σ, true)
  | some (equation, others) =>
    match fuel, equation.binding? with
    | fuel + 1, some (x, value) =>
      if value.mentions x then (σ, false) else (σ.bind x value).solve fuel others
    | _, _ => (σ, false)

/-- Adds what solves some equations. Their variables and those of the values bound so far are all that
can be met. -/
def Substitution.extend (σ : Substitution) (equations : List Equation) : Substitution × Bool :=
  σ.solve (σ.valueVars ++ equations.flatMap Equation.vars).length equations

/-- Makes two types agree, if that can be done. -/
def Substitution.unify (σ : Substitution) (a b : Ty) : Substitution × Bool := σ.extend [⟨a, b⟩]

/-- Makes the arguments of two applications of one trait agree, as far as the shorter list goes. -/
def Substitution.unifyTraits (σ : Substitution) (a b : TraitRef) : Substitution × Bool :=
  if a.name = b.name then σ.extend (List.zipWith Equation.mk a.args b.args) else (σ, false)

end TraitCoherence
