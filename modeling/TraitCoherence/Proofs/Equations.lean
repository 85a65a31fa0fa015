import TraitCoherence.Unification
import TraitCoherence.Proofs.Resolution

namespace TraitCoherence

/-- `θ` makes both sides one type. -/
def Equation.Holds (θ : Int → Ty) (equation : Equation) : Prop :=
  equation.left.instantiate θ = equation.right.instantiate θ

/-- `θ` makes both sides agree, which is less where structs differ in the number of arguments. -/
def Equation.Agrees (θ : Int → Ty) (equation : Equation) : Prop :=
  (equation.left.instantiate θ).agrees (equation.right.instantiate θ) = true

/-- Both sides fit `sizes`. -/
def Equation.Sized (sizes : String → Nat) (equation : Equation) : Prop :=
  equation.left.Sized sizes ∧ equation.right.Sized sizes

/-- What cannot be taken apart any further: two names that differ, two variables that differ, or a
variable on one side only. -/
def Equation.Reduced : Equation → Prop
  | ⟨.ctor f _, .ctor g _⟩ => f ≠ g
  | ⟨.var x _, .var y _⟩ => x ≠ y
  | _ => True

theorem Equation.mem_vars {equation : Equation} {x : Int} :
    x ∈ equation.vars ↔ x ∈ equation.left.vars ∨ x ∈ equation.right.vars :=
  List.mem_append

theorem Equation.binding?_eq_some {equation : Equation} {x : Int} {value : Ty}
    (found : equation.binding? = some (x, value)) :
    ∃ label, equation = ⟨.var x label, value⟩ ∨ equation = ⟨value, .var x label⟩ := by
  obtain ⟨left, right⟩ := equation
  cases left with
  | var y label =>
    simp only [Equation.binding?, Option.some.injEq, Prod.mk.injEq] at found
    obtain ⟨rfl, rfl⟩ := found
    exact ⟨label, Or.inl rfl⟩
  | ctor name args =>
    cases right with
    | var y label =>
      simp only [Equation.binding?, Option.some.injEq, Prod.mk.injEq] at found
      obtain ⟨rfl, rfl⟩ := found
      exact ⟨label, Or.inr rfl⟩
    | ctor other args' => simp only [Equation.binding?, reduceCtorEq] at found

theorem Equation.binding?_vars {equation : Equation} {x y : Int} {value : Ty}
    (found : equation.binding? = some (x, value)) (occurs : y = x ∨ y ∈ value.vars) :
    y ∈ equation.vars := by
  obtain ⟨label, rfl | rfl⟩ := Equation.binding?_eq_some found
  · exact Equation.mem_vars.mpr (occurs.imp List.mem_singleton.mpr id)
  · exact Equation.mem_vars.mpr (occurs.symm.imp id List.mem_singleton.mpr)

theorem Equation.Sized.binding? {sizes : String → Nat} {equation : Equation} {x : Int} {value : Ty}
    (sized : equation.Sized sizes) (found : equation.binding? = some (x, value)) :
    value.Sized sizes := by
  obtain ⟨label, rfl | rfl⟩ := Equation.binding?_eq_some found
  · exact sized.2
  · exact sized.1

theorem Equation.holds_iff_of_binding? {equation : Equation} {θ : Int → Ty} {x : Int} {value : Ty}
    (found : equation.binding? = some (x, value)) :
    equation.Holds θ ↔ θ x = value.instantiate θ := by
  obtain ⟨label, rfl | rfl⟩ := Equation.binding?_eq_some found
  · exact Iff.rfl
  · exact ⟨Eq.symm, Eq.symm⟩

theorem Equation.Holds.agrees {equation : Equation} {θ : Int → Ty} (holds : equation.Holds θ) :
    equation.Agrees θ := by
  rw [Equation.Agrees, ← holds]
  exact Ty.agrees_self _

/-- A reduced equation that holds somewhere can be solved for a variable that does not occur in its
value: names differ under every `θ`, and so do a type and a part of it. -/
theorem Equation.Reduced.solvable {equation : Equation} {θ : Int → Ty} (reduced : equation.Reduced)
    (holds : equation.Holds θ) :
    ∃ x value, equation.binding? = some (x, value) ∧ x ∉ value.vars := by
  obtain ⟨left, right⟩ := equation
  cases left with
  | var x label =>
    refine ⟨x, right, rfl, ?_⟩
    cases right with
    | var y label' => exact fun occurs => reduced (List.mem_singleton.mp occurs)
    | ctor name args => exact fun occurs => Ty.ne_instantiate_of_occurs θ occurs holds
  | ctor name args =>
    cases right with
    | var y label => exact ⟨y, _, rfl, fun occurs => Ty.ne_instantiate_of_occurs θ occurs holds.symm⟩
    | ctor other args' =>
      simp only [Equation.Holds, Ty.instantiate_ctor, Ty.ctor.injEq] at holds
      exact absurd holds.1 reduced

theorem Ty.equationsAll_eq_flatMap (as bs : List Ty) :
    Ty.equationsAll as bs = (as.zip bs).flatMap fun pair => pair.1.equations pair.2 := by
  induction as generalizing bs with
  | nil => rfl
  | cons a as ih =>
    cases bs with
    | nil => rfl
    | cons b bs => rw [Ty.equationsAll, ih, List.zip_cons_cons, List.flatMap_cons]

/-- What two types come down to: themselves if they cannot be taken apart, nothing if they are one
variable, or else what paired arguments come down to. -/
theorem Ty.equations_cases (a b : Ty) :
    a.equations b = [⟨a, b⟩] ∧ Equation.Reduced ⟨a, b⟩ ∨
    (∃ x label label', a = .var x label ∧ b = .var x label' ∧ a.equations b = []) ∨
    ∃ name args args', a = .ctor name args ∧ b = .ctor name args' ∧
      a.equations b = (args.zip args').flatMap fun pair => pair.1.equations pair.2 := by
  cases a with
  | var x label =>
    cases b with
    | var y label' =>
      by_cases same : x = y
      · subst same
        exact Or.inr (Or.inl ⟨x, label, label', rfl, rfl, by rw [Ty.equations, if_pos rfl]⟩)
      · exact Or.inl ⟨by rw [Ty.equations, if_neg same], same⟩
    | ctor name args => exact Or.inl ⟨by rw [Ty.equations] <;> nofun, trivial⟩
  | ctor name args =>
    cases b with
    | var y label => exact Or.inl ⟨by rw [Ty.equations] <;> nofun, trivial⟩
    | ctor other args' =>
      by_cases same : name = other
      · subst same
        refine Or.inr (Or.inr ⟨name, args, args', rfl, rfl, ?_⟩)
        rw [Ty.equations, if_pos rfl, Ty.equationsAll_eq_flatMap]
      · exact Or.inl ⟨by rw [Ty.equations, if_neg same], same⟩

/-- Every equation that two types come down to stands between a part of the one and the part of the
other at the same place. Whatever passes from applications to paired arguments holds of it. -/
theorem Ty.equations_induction {motive : Ty → Ty → Prop} {a b : Ty}
    (args : ∀ name as bs, motive (.ctor name as) (.ctor name bs) →
      ∀ pair ∈ as.zip bs, motive pair.1 pair.2)
    (start : motive a b) {equation : Equation} (member : equation ∈ a.equations b) :
    motive equation.left equation.right ∧ equation.Reduced := by
  induction a using Ty.ind generalizing b with
  | var x label =>
    rcases Ty.equations_cases (.var x label) b with ⟨single, reduced⟩ | ⟨_, _, _, _, _, none⟩ |
      ⟨_, _, _, differ, _⟩
    · rw [single, List.mem_singleton] at member
      subst member
      exact ⟨start, reduced⟩
    · exact absurd (none ▸ member) List.not_mem_nil
    · exact absurd differ nofun
  | ctor name as ih =>
    rcases Ty.equations_cases (.ctor name as) b with ⟨single, reduced⟩ | ⟨_, _, _, differ, _⟩ |
      ⟨other, as', bs, same, rfl, parts⟩
    · rw [single, List.mem_singleton] at member
      subst member
      exact ⟨start, reduced⟩
    · exact absurd differ nofun
    · cases same
      rw [parts, List.mem_flatMap] at member
      obtain ⟨pair, paired, inside⟩ := member
      exact ih pair.1 (List.of_mem_zip paired).1 (args name as bs start pair paired) inside

theorem Ty.reduced_of_mem_equations {a b : Ty} {equation : Equation}
    (member : equation ∈ a.equations b) : equation.Reduced :=
  (Ty.equations_induction (motive := fun _ _ => True) (fun _ _ _ _ _ _ => trivial) trivial member).2

theorem Ty.holds_of_mem_equations {a b : Ty} {θ : Int → Ty}
    (same : a.instantiate θ = b.instantiate θ) {equation : Equation}
    (member : equation ∈ a.equations b) : equation.Holds θ := by
  refine (Ty.equations_induction (motive := fun a b => a.instantiate θ = b.instantiate θ)
    (fun name as bs whole => ?_) same member).1
  simp only [Ty.instantiate_ctor, Ty.ctor.injEq, true_and, map_eq_map_iff_zip] at whole
  exact whole.2

theorem Ty.sized_of_mem_equations {sizes : String → Nat} {a b : Ty} (left : a.Sized sizes)
    (right : b.Sized sizes) {equation : Equation} (member : equation ∈ a.equations b) :
    equation.Sized sizes := by
  refine (Ty.equations_induction (motive := fun a b => a.Sized sizes ∧ b.Sized sizes)
    (fun name as bs whole pair paired => ?_) ⟨left, right⟩ member).1
  have inside := List.of_mem_zip paired
  exact ⟨(Ty.sized_ctor.mp whole.1).2 _ inside.1, (Ty.sized_ctor.mp whole.2).2 _ inside.2⟩

theorem Ty.vars_of_mem_equations {a b : Ty} {equation : Equation} (member : equation ∈ a.equations b)
    {x : Int} (occurs : x ∈ equation.vars) : x ∈ a.vars ∨ x ∈ b.vars := by
  have within := (Ty.equations_induction (a := a) (b := b)
    (motive := fun c d => ∀ x, x ∈ c.vars ∨ x ∈ d.vars → x ∈ a.vars ∨ x ∈ b.vars)
    (fun name as bs whole pair paired x part => ?_) (fun _ => id) member).1
  · exact within x (Equation.mem_vars.mp occurs)
  · have inside := List.of_mem_zip paired
    refine whole x (part.imp ?_ ?_)
    · exact fun occurs => Ty.mem_vars_ctor.mpr ⟨pair.1, inside.1, occurs⟩
    · exact fun occurs => Ty.mem_vars_ctor.mpr ⟨pair.2, inside.2, occurs⟩

/-- Types agree as soon as everything agrees that they come down to. -/
theorem Ty.agrees_of_equations {a b : Ty} {θ : Int → Ty}
    (each : ∀ equation ∈ a.equations b, equation.Agrees θ) :
    (a.instantiate θ).agrees (b.instantiate θ) = true := by
  induction a using Ty.ind generalizing b with
  | var x label =>
    rcases Ty.equations_cases (.var x label) b with ⟨single, _⟩ | ⟨y, _, label', same, rfl, _⟩ |
      ⟨_, _, _, differ, _⟩
    · exact each ⟨.var x label, b⟩ (single ▸ List.mem_singleton_self _)
    · cases same
      exact Ty.agrees_self _
    · exact absurd differ nofun
  | ctor name as ih =>
    rcases Ty.equations_cases (.ctor name as) b with ⟨single, _⟩ | ⟨_, _, _, differ, _⟩ |
      ⟨other, as', bs, same, rfl, parts⟩
    · exact each ⟨.ctor name as, b⟩ (single ▸ List.mem_singleton_self _)
    · exact absurd differ nofun
    · cases same
      simp only [Ty.instantiate_ctor, Ty.agrees, beq_self_eq_true, Bool.true_and, Ty.agreeAll_eq_all,
        List.zip_map, List.all_map, List.all_eq_true]
      intro pair paired
      refine ih pair.1 (List.of_mem_zip paired).1 fun equation member => each equation ?_
      rw [parts]
      exact List.mem_flatMap.mpr ⟨pair, paired, member⟩

end TraitCoherence
