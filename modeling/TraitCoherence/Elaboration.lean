import TraitCoherence.Bound
import TraitCoherence.Catalog

namespace TraitCoherence

/-- The types that names stand for, the innermost first. -/
abbrev Scope := List (String × Ty)

mutual

/-- The type that an expression means. A name in scope takes no arguments; any other name has to be a
declared struct with the right number of them. -/
def Catalog.elaborateType (catalog : Catalog) (scope : Scope) : TypeExpr → Except CheckError Ty
  | .apply name args =>
    match scope.lookup name.text with
    | some ty =>
      if args.isEmpty then .ok ty else .error (.appliedParameter name args.length)
    | none =>
      match catalog.structs.get? name.text with
      | none => .error (.undefinedSymbol name)
      | some decl =>
        if decl.arity = args.length then
          match catalog.elaborateTypes scope args with
          | .error error => .error error
          | .ok types => .ok (.ctor name.text types)
        else .error (.wrongArity name args.length decl.arity)

def Catalog.elaborateTypes (catalog : Catalog) (scope : Scope) :
    List TypeExpr → Except CheckError (List Ty)
  | [] => .ok []
  | expr :: exprs =>
    match catalog.elaborateType scope expr with
    | .error error => .error error
    | .ok ty =>
      match catalog.elaborateTypes scope exprs with
      | .error error => .error error
      | .ok types => .ok (ty :: types)

end

/-- The trait application that an expression means. The name of the trait is taken on faith. -/
def Catalog.elaborateTrait (catalog : Catalog) (scope : Scope) (expr : TypeExpr) :
    Except CheckError TraitRef :=
  match catalog.elaborateTypes scope expr.args with
  | .error error => .error error
  | .ok types => .ok ⟨expr.name.text, types⟩

def Catalog.elaborateTraits (catalog : Catalog) (scope : Scope) (exprs : List TypeExpr) :
    Except CheckError (List TraitRef) :=
  exprs.mapM (catalog.elaborateTrait scope)

def Catalog.elaborateBound (catalog : Catalog) (scope : Scope) (bound : BoundExpr) :
    Except CheckError Bound :=
  match catalog.elaborateTraits scope bound.positive with
  | .error error => .error error
  | .ok positive =>
    match catalog.elaborateTraits scope bound.negative with
    | .error error => .error error
    | .ok negative => .ok ⟨.ofList positive, .ofList negative⟩

/-- The bounds of variables, by number. A variable may be unbounded. -/
abbrev BoundTable := List (Int × Option Bound)

/-- An impl whose parameters have become variables. -/
structure ImplScheme where
  trait : TraitRef
  target : Ty
  bounds : BoundTable

def Catalog.elaborateParam (catalog : Catalog) (scope : Scope) (param : Param) :
    Except CheckError (Option Bound) :=
  match param.bound with
  | none => .ok none
  | some bound =>
    match catalog.elaborateBound scope bound with
    | .error error => .error error
    | .ok bound => .ok (some bound)

/-- Numbers parameters from `next` on. The bound of each sees only the parameters before it. The
numbers used up are gone, also if a bound is at fault. -/
def Catalog.elaborateParams (catalog : Catalog) (scope : Scope) (next : Int) :
    List Param → Int × Except CheckError (Scope × BoundTable)
  | [] => (next, .ok (scope, []))
  | param :: params =>
    match catalog.elaborateParam scope param with
    | .error error => (next + 1, .error error)
    | .ok bound =>
      let inner := (param.name.text, .var next param.name.text) :: scope
      match catalog.elaborateParams inner (next + 1) params with
      | (after, .error error) => (after, .error error)
      | (after, .ok (scope, bounds)) => (after, .ok (scope, (next, bound) :: bounds))

/-- Elaborates an impl with variables from `next` on, and says which number comes after them. -/
def Catalog.elaborateImpl (catalog : Catalog) (next : Int) (decl : ImplDecl) :
    Int × Except CheckError ImplScheme :=
  match catalog.elaborateParams [] next decl.params with
  | (after, .error error) => (after, .error error)
  | (after, .ok (scope, bounds)) =>
    match catalog.elaborateTrait scope decl.head with
    | .error error => (after, .error error)
    | .ok trait =>
      match catalog.elaborateType scope decl.target with
      | .error error => (after, .error error)
      | .ok target => (after, .ok ⟨trait, target, bounds⟩)

end TraitCoherence
