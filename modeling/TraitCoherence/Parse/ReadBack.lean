import TraitCoherence.Declaration.Likeness
import TraitCoherence.Declaration.Printing
import TraitCoherence.Parse

namespace TraitCoherence

/-- Reading the printed text of a program gives a program like it. -/
def Program.ReadsBack (program : Program) : Prop :=
  match parse program.render with
  | .ok again => program.Alike again
  | .error _ => False

instance (program : Program) : Decidable program.ReadsBack := by
  unfold Program.ReadsBack
  split <;> infer_instance

end TraitCoherence
