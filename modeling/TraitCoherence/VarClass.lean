import TraitCoherence.Substitution

namespace TraitCoherence

/-- Variables that bindings link together, in ascending order, and the application that one of them is
bound to, if any. -/
structure VarClass where
  members : List Int
  anchor : Option Ty
deriving Repr

/-- Merges all groups that hold one of the given variables, and adds those variables. -/
def linkGroups (ids : List Int) (groups : List (List Int)) : List (List Int) :=
  let touches (group : List Int) : Bool := group.any ids.contains
  let merged := ids ++ (groups.filter touches).flatten
  ascending merged.eraseDups ::
    groups.filter fun group => !touches group

/-- The variables that a binding puts into one group. -/
def linkedBy : Int × Ty → List Int
  | (x, .var y _) => [x, y]
  | (x, .ctor _ _) => [x]

/-- The groups of variables linked by bindings, in either direction, by ascending first member. -/
def Substitution.groups (σ : Substitution) : List (List Int) :=
  arrange (fun a b => a.headD 0 ≤ b.headD 0)
    (σ.bindings.foldl (fun groups binding => linkGroups (linkedBy binding) groups) [])

/-- The first application that one of the variables is bound to. -/
def Substitution.anchor? (σ : Substitution) (members : List Int) : Option Ty :=
  members.findSome? fun x =>
    match σ.get? x with
    | some (.ctor name args) => some (.ctor name args)
    | _ => none

/-- Every variable that is bound, or is the value of a binding, lies in exactly one class. -/
def Substitution.classes (σ : Substitution) : List VarClass :=
  σ.groups.map fun members => ⟨members, σ.anchor? members⟩

end TraitCoherence
