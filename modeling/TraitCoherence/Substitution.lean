import TraitCoherence.Arrange
import TraitCoherence.Ty.Printing

namespace TraitCoherence

/-- Bindings of variables to types, in the order they were made. A value mentions no variable bound
at or before its own binding. -/
structure Substitution where
  bindings : List (Int × Ty)
deriving Repr

def Substitution.empty : Substitution := ⟨[]⟩

/-- The type a variable is bound to, as it was when the binding was made. -/
def Substitution.get? (σ : Substitution) (x : Int) : Option Ty := σ.bindings.lookup x

/-- Adds a binding. -/
def Substitution.bind (σ : Substitution) (x : Int) (value : Ty) : Substitution :=
  ⟨σ.bindings ++ [(x, value)]⟩

/-- The variables of all values, as often as they occur. -/
def Substitution.valueVars (σ : Substitution) : List Int :=
  σ.bindings.flatMap fun binding => binding.2.vars

/-- Replaces bound variables until none is left. Each binding is applied once, oldest first, since a
value mentions only variables that are bound later or not at all. -/
def Substitution.resolve (σ : Substitution) (ty : Ty) : Ty :=
  σ.bindings.foldl (fun ty binding => ty.replace binding.1 binding.2) ty

/-- The bindings by ascending variable. -/
def Substitution.sorted (σ : Substitution) : List (Int × Ty) :=
  arrange (fun a b => a.1 ≤ b.1) σ.bindings

def Substitution.render (σ : Substitution) : String :=
  match σ.sorted with
  | [] => "(empty)"
  | bindings =>
    ", ".intercalate (bindings.map fun (x, value) => "#" ++ x.repr ++ " := " ++ value.render)

end TraitCoherence
