import TraitCoherence.Ty.Printing

namespace TraitCoherence

/-- A trait applied to types. -/
structure TraitRef where
  name : String
  args : List Ty
deriving Repr

/-- Agreement of trait applications: one name, as many arguments, and arguments that agree. What is
outermost in them is compared first, since that tells most of them apart. -/
def TraitRef.agrees (a b : TraitRef) : Bool :=
  a.name == b.name && a.args.length == b.args.length &&
    (a.args.zip b.args).all (fun pair => pair.1.topAgrees pair.2) &&
    (a.args.zip b.args).all fun pair => pair.1.agreesShared pair.2

theorem TraitRef.agrees_eq (a b : TraitRef) :
    a.agrees b = (a.name == b.name && a.args.length == b.args.length && Ty.agreeAll a.args b.args) := by
  have tops : (a.args.zip b.args).all (fun pair => pair.1.agrees pair.2) = true →
      (a.args.zip b.args).all (fun pair => pair.1.topAgrees pair.2) = true := by
    simp only [List.all_eq_true]
    exact fun agree pair member => Ty.topAgrees_of_agrees (agree pair member)
  simp only [TraitRef.agrees, Ty.agreesShared_eq, Ty.agreeAll_eq_all]
  grind

def TraitRef.render (trait : TraitRef) : String := trait.name ++ angled (Ty.renderAll trait.args)

end TraitCoherence
