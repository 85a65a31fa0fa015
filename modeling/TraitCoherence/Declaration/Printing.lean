import TraitCoherence.Declaration

namespace TraitCoherence

/-- A list in angle brackets, and nothing at all for no items. -/
def angled : List String → String
  | [] => ""
  | items => "<" ++ ", ".intercalate items ++ ">"

/-- Terms demanded are joined by `+`, and each term forbidden follows a `-`. -/
def signedTerms (positive negative : List String) : String :=
  negative.foldl (fun text term => if text.isEmpty then "-" ++ term else text ++ " - " ++ term)
    (" + ".intercalate positive)

mutual

def TypeExpr.render : TypeExpr → String
  | .apply name args => name.text ++ angled (TypeExpr.renderAll args)

def TypeExpr.renderAll : List TypeExpr → List String
  | [] => []
  | arg :: args => arg.render :: TypeExpr.renderAll args

end

theorem TypeExpr.renderAll_eq_map (exprs : List TypeExpr) :
    TypeExpr.renderAll exprs = exprs.map TypeExpr.render := by
  induction exprs with
  | nil => rfl
  | cons expr exprs ih => rw [TypeExpr.renderAll, ih, List.map_cons]

def BoundExpr.render (bound : BoundExpr) : String :=
  signedTerms (bound.positive.map TypeExpr.render) (bound.negative.map TypeExpr.render)

def Param.render (param : Param) : String :=
  match param.bound with
  | none => param.name.text
  | some bound => param.name.text ++ ": " ++ bound.render

def StructDecl.render (decl : StructDecl) : String :=
  "struct " ++ decl.name.text ++ angled (decl.params.map Param.render) ++ ";"

def TraitDecl.render (decl : TraitDecl) : String :=
  let supertraits :=
    match decl.supertraits with
    | none => ""
    | some bound => ": " ++ bound.render
  "trait " ++ decl.name.text ++ angled (decl.params.map Param.render) ++ supertraits ++ " \x7b\x7d"

def ImplDecl.render (decl : ImplDecl) : String :=
  "impl" ++ angled (decl.params.map Param.render) ++ " " ++ decl.head.render ++ " for " ++
    decl.target.render ++ " \x7b\x7d"

/-- A declaration as the source text it stands for. -/
def Decl.render : Decl → String
  | .struct decl => decl.render
  | .trait decl => decl.render
  | .impl decl => decl.render

/-- One declaration a line. -/
def Program.render (program : Program) : String :=
  "\n".intercalate (program.decls.map Decl.render)

/-- An impl as a phrase: its whole text, found where its trait is named. -/
def ImplDecl.phrase (decl : ImplDecl) : Phrase := ⟨decl.render, decl.head.name.span⟩

end TraitCoherence
