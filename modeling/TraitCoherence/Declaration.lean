import TraitCoherence.Phrase

namespace TraitCoherence

/-- A name applied to arguments. It may mean a struct, a type parameter or a trait;
elaboration decides which. -/
inductive TypeExpr where
  | apply (name : Name) (args : List TypeExpr)
deriving Repr

/-- Induction over a type expression and all of its arguments. -/
theorem TypeExpr.ind {motive : TypeExpr → Prop}
    (apply : ∀ name args, (∀ arg ∈ args, motive arg) → motive (.apply name args)) :
    ∀ expr, motive expr
  | .apply name args => apply name args fun arg _ => TypeExpr.ind apply arg
termination_by expr => sizeOf expr
decreasing_by
  have smaller := List.sizeOf_lt_of_mem ‹arg ∈ args›
  simp only [TypeExpr.apply.sizeOf_spec]
  omega

mutual

def TypeExpr.decEq : (a b : TypeExpr) → Decidable (a = b)
  | .apply f as, .apply g bs =>
    if heads : f = g then
      match TypeExpr.decEqAll as bs with
      | .isTrue tails => .isTrue (by rw [heads, tails])
      | .isFalse differ => .isFalse fun same => differ (TypeExpr.apply.inj same).2
    else .isFalse fun same => heads (TypeExpr.apply.inj same).1

def TypeExpr.decEqAll : (as bs : List TypeExpr) → Decidable (as = bs)
  | [], [] => .isTrue rfl
  | [], _ :: _ => .isFalse nofun
  | _ :: _, [] => .isFalse nofun
  | a :: as, b :: bs =>
    match TypeExpr.decEq a b, TypeExpr.decEqAll as bs with
    | .isTrue heads, .isTrue tails => .isTrue (by rw [heads, tails])
    | .isFalse differ, _ => .isFalse fun same => differ (List.cons.inj same).1
    | _, .isFalse differ => .isFalse fun same => differ (List.cons.inj same).2

end

instance : DecidableEq TypeExpr := TypeExpr.decEq

/-- The name at the front of a type expression. -/
def TypeExpr.name : TypeExpr → Name
  | .apply name _ => name

/-- The arguments of a type expression. -/
def TypeExpr.args : TypeExpr → List TypeExpr
  | .apply _ args => args

/-- The traits a bound demands and those it forbids, each in source order. -/
structure BoundExpr where
  positive : List TypeExpr
  negative : List TypeExpr
deriving DecidableEq, Repr

/-- A generic parameter. A bound without terms is still a bound. -/
structure Param where
  name : Name
  bound : Option BoundExpr
deriving DecidableEq, Repr

/-- A parameter by its terms: without any term it has no bound. -/
def Param.ofTerms (name : String) (positive negative : List TypeExpr) : Param :=
  ⟨.placeless name,
    if positive.isEmpty && negative.isEmpty then none else some ⟨positive, negative⟩⟩

structure StructDecl where
  name : Name
  params : List Param
deriving DecidableEq, Repr

/-- How many type arguments a struct takes. -/
def StructDecl.arity (decl : StructDecl) : Nat := decl.params.length

structure TraitDecl where
  name : Name
  params : List Param
  supertraits : Option BoundExpr
deriving DecidableEq, Repr

/-- The supertraits that create obligations. -/
def TraitDecl.demands (decl : TraitDecl) : List TypeExpr :=
  match decl.supertraits with
  | none => []
  | some bound => bound.positive

/-- An implementation of the trait application `head` for the type `target`. -/
structure ImplDecl where
  params : List Param
  head : TypeExpr
  target : TypeExpr
deriving DecidableEq, Repr

inductive Decl where
  | struct (decl : StructDecl)
  | trait (decl : TraitDecl)
  | impl (decl : ImplDecl)
deriving DecidableEq, Repr

structure Program where
  decls : List Decl
deriving DecidableEq, Repr

/-- The declaration as an impl, if it is one. -/
def Decl.impl? : Decl → Option ImplDecl
  | .impl decl => some decl
  | _ => none

/-- The impls of a program in source order, duplicates included. -/
def Program.impls (program : Program) : List ImplDecl :=
  program.decls.filterMap Decl.impl?

/-- A declaration is located by the name it declares, an impl by the trait it implements. -/
def Decl.span : Decl → Option Span
  | .struct decl => decl.name.span
  | .trait decl => decl.name.span
  | .impl decl => decl.head.name.span

end TraitCoherence
