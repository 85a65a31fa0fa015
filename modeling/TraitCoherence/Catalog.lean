import TraitCoherence.Arrange
import TraitCoherence.CheckError
import TraitCoherence.Declaration
import TraitCoherence.Digraph
import TraitCoherence.Table

namespace TraitCoherence

/-- From each declared trait to the declared traits among its positive supertraits. -/
def supertraitGraph (traits : Table TraitDecl) : Digraph :=
  ⟨traits.names, fun name =>
    match traits.get? name with
    | none => []
    | some decl => (decl.demands.map (·.name.text)).filter traits.names.contains⟩

/-- The declarations of a program that may be checked: no trait is its own supertrait, however far
removed. -/
structure Catalog where
  structs : Table StructDecl
  traits : Table TraitDecl
  impls : List ImplDecl
  acyclic : (supertraitGraph traits).circle? = none

/-- The structs of a program by name, the last declaration of each. -/
def Program.structs (program : Program) : Table StructDecl :=
  program.decls.foldl (fun table decl =>
    match decl with
    | .struct decl => table.put decl.name.text decl
    | _ => table) .empty

/-- The traits of a program by name, the last declaration of each. -/
def Program.traits (program : Program) : Table TraitDecl :=
  program.decls.foldl (fun table decl =>
    match decl with
    | .trait decl => table.put decl.name.text decl
    | _ => table) .empty

/-- Blames the first of the traits in a circle, all of them in order, each as it is declared. -/
def circularityError (traits : Table TraitDecl) (circle : List String) : CheckError :=
  let names := (alphabetical circle).filterMap fun name => (traits.get? name).map (·.name)
  .circularSupertraits (names.headD (.placeless "")) names

/-- Collects the declarations of a program, unless its supertraits run in a circle. -/
def Program.catalog (program : Program) : Except CheckError Catalog :=
  match found : (supertraitGraph program.traits).circle? with
  | some circle => .error (circularityError program.traits circle)
  | none => .ok ⟨program.structs, program.traits, program.impls, found⟩

/-- Every pair of items, the earlier one first, in order of position. -/
def pairsOf {α : Type} : List α → List (α × α)
  | [] => []
  | first :: others => others.map (first, ·) ++ pairsOf others

/-- The pairs of impls to compare. -/
def Catalog.pairs (catalog : Catalog) : List (ImplDecl × ImplDecl) := pairsOf catalog.impls

end TraitCoherence
