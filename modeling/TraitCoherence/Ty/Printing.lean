import TraitCoherence.Declaration.Printing
import TraitCoherence.Ty

namespace TraitCoherence

mutual

/-- A type as a reader sees it, with variables by their labels. -/
def Ty.render : Ty → String
  | .var _ label => label
  | .ctor name args => name ++ angled (Ty.renderAll args)

def Ty.renderAll : List Ty → List String
  | [] => []
  | arg :: args => arg.render :: Ty.renderAll args

end

end TraitCoherence
