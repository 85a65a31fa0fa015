import TraitCoherence.Declaration

namespace TraitCoherence

mutual

def TypeExpr.unplaced : TypeExpr → TypeExpr
  | .apply name args => .apply name.unplaced (TypeExpr.unplacedAll args)

def TypeExpr.unplacedAll : List TypeExpr → List TypeExpr
  | [] => []
  | arg :: args => arg.unplaced :: TypeExpr.unplacedAll args

end

theorem TypeExpr.unplacedAll_eq_map (exprs : List TypeExpr) :
    TypeExpr.unplacedAll exprs = exprs.map TypeExpr.unplaced := by
  induction exprs with
  | nil => rfl
  | cons expr exprs ih => rw [TypeExpr.unplacedAll, ih, List.map_cons]

def BoundExpr.unplaced (bound : BoundExpr) : BoundExpr :=
  ⟨bound.positive.map TypeExpr.unplaced, bound.negative.map TypeExpr.unplaced⟩

def Param.unplaced (param : Param) : Param :=
  ⟨param.name.unplaced, param.bound.map BoundExpr.unplaced⟩

def Decl.unplaced : Decl → Decl
  | .struct decl => .struct ⟨decl.name.unplaced, decl.params.map Param.unplaced⟩
  | .trait decl =>
    .trait ⟨decl.name.unplaced, decl.params.map Param.unplaced,
      decl.supertraits.map BoundExpr.unplaced⟩
  | .impl decl =>
    .impl ⟨decl.params.map Param.unplaced, decl.head.unplaced, decl.target.unplaced⟩

/-- The program with every place forgotten. -/
def Program.unplaced (program : Program) : Program := ⟨program.decls.map Decl.unplaced⟩

/-- Declarations are alike when they differ at most in where their names stand. -/
def Decl.Alike (a b : Decl) : Prop := a.unplaced = b.unplaced

instance (a b : Decl) : Decidable (a.Alike b) := inferInstanceAs (Decidable (_ = _))

/-- Programs are alike when they differ at most in where their names stand. -/
def Program.Alike (a b : Program) : Prop := a.unplaced = b.unplaced

instance (a b : Program) : Decidable (a.Alike b) := inferInstanceAs (Decidable (_ = _))

end TraitCoherence
