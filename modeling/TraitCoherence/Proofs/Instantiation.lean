import TraitCoherence.TraitRef

namespace TraitCoherence

mutual

/-- Puts a type in place of every variable at once. What is put may depend on the label, so that
renaming variables and forgetting their labels are cases of it. -/
def Ty.substitute (f : Int → String → Ty) : Ty → Ty
  | .var x label => f x label
  | .ctor name args => .ctor name (Ty.substituteAll f args)

def Ty.substituteAll (f : Int → String → Ty) : List Ty → List Ty
  | [] => []
  | ty :: types => ty.substitute f :: Ty.substituteAll f types

end

theorem Ty.substituteAll_eq_map (f : Int → String → Ty) (types : List Ty) :
    Ty.substituteAll f types = types.map (Ty.substitute f) := by
  induction types with
  | nil => rfl
  | cons ty types ih => rw [Ty.substituteAll, ih, List.map_cons]

@[simp] theorem Ty.substitute_var (f : Int → String → Ty) (x : Int) (label : String) :
    (Ty.var x label).substitute f = f x label := rfl

@[simp] theorem Ty.substitute_ctor (f : Int → String → Ty) (name : String) (args : List Ty) :
    (Ty.ctor name args).substitute f = .ctor name (args.map (Ty.substitute f)) := by
  rw [Ty.substitute, Ty.substituteAll_eq_map]

@[simp] theorem Ty.vars_var (x : Int) (label : String) : (Ty.var x label).vars = [x] := rfl

theorem Ty.mem_vars_ctor {name : String} {args : List Ty} {x : Int} :
    x ∈ (Ty.ctor name args).vars ↔ ∃ arg ∈ args, x ∈ arg.vars := by
  rw [Ty.vars, Ty.varsAll_eq_flatMap, List.mem_flatMap]

theorem Ty.substitute_substitute (f g : Int → String → Ty) (ty : Ty) :
    (ty.substitute f).substitute g = ty.substitute fun x label => (f x label).substitute g := by
  induction ty using Ty.ind with
  | var x label => rfl
  | ctor name args ih =>
    simp only [Ty.substitute_ctor, List.map_map, Ty.ctor.injEq, true_and]
    exact List.map_congr_left ih

/-- Only what is put for the variables of a type counts. -/
theorem Ty.substitute_congr {f g : Int → String → Ty} {ty : Ty}
    (same : ∀ x ∈ ty.vars, ∀ label, f x label = g x label) : ty.substitute f = ty.substitute g := by
  induction ty using Ty.ind with
  | var x label => exact same x (List.mem_singleton_self x) label
  | ctor name args ih =>
    simp only [Ty.substitute_ctor, Ty.ctor.injEq, true_and]
    refine List.map_congr_left fun arg member => ih arg member fun x occurs => ?_
    exact same x (Ty.mem_vars_ctor.mpr ⟨arg, member, occurs⟩)

theorem Ty.substitute_self (ty : Ty) : ty.substitute .var = ty := by
  induction ty using Ty.ind with
  | var x label => rfl
  | ctor name args ih =>
    rw [Ty.substitute_ctor, List.map_congr_left ih, List.map_id']

theorem Ty.replace_eq_substitute (ty : Ty) (x : Int) (value : Ty) :
    ty.replace x value = ty.substitute fun y label => if y = x then value else .var y label := by
  induction ty using Ty.ind with
  | var y label => rfl
  | ctor name args ih =>
    rw [Ty.replace, Ty.replaceAll_eq_map, Ty.substitute_ctor, List.map_congr_left ih]

/-- The type that is left when every variable stands for a type. -/
def Ty.instantiate (θ : Int → Ty) (ty : Ty) : Ty := ty.substitute fun x _ => θ x

@[simp] theorem Ty.instantiate_var (θ : Int → Ty) (x : Int) (label : String) :
    (Ty.var x label).instantiate θ = θ x := rfl

@[simp] theorem Ty.instantiate_ctor (θ : Int → Ty) (name : String) (args : List Ty) :
    (Ty.ctor name args).instantiate θ = .ctor name (args.map (Ty.instantiate θ)) :=
  Ty.substitute_ctor _ name args

theorem Ty.instantiate_instantiate (θ η : Int → Ty) (ty : Ty) :
    (ty.instantiate θ).instantiate η = ty.instantiate fun x => (θ x).instantiate η :=
  Ty.substitute_substitute _ _ ty

theorem Ty.mem_vars_instantiate {θ : Int → Ty} {ty : Ty} {y : Int} :
    y ∈ (ty.instantiate θ).vars ↔ ∃ x ∈ ty.vars, y ∈ (θ x).vars := by
  induction ty using Ty.ind with
  | var x label => simp only [Ty.instantiate_var, Ty.vars_var, List.mem_singleton, exists_eq_left]
  | ctor name args ih =>
    simp only [Ty.instantiate_ctor, Ty.mem_vars_ctor, List.mem_map]
    constructor
    · rintro ⟨_, ⟨arg, member, rfl⟩, occurs⟩
      obtain ⟨x, inside, value⟩ := (ih arg member).mp occurs
      exact ⟨x, ⟨arg, member, inside⟩, value⟩
    · rintro ⟨x, ⟨arg, member, inside⟩, value⟩
      exact ⟨_, ⟨arg, member, rfl⟩, (ih arg member).mpr ⟨x, inside, value⟩⟩

/-- A replaced variable makes no difference to who gives the variable and its value one type. -/
theorem Ty.instantiate_replace {θ : Int → Ty} {x : Int} {value : Ty}
    (same : θ x = value.instantiate θ) (ty : Ty) :
    (ty.replace x value).instantiate θ = ty.instantiate θ := by
  rw [Ty.replace_eq_substitute, Ty.instantiate, Ty.substitute_substitute]
  refine Ty.substitute_congr fun y _ label => ?_
  split
  · rename_i here
    rw [here, same]
    rfl
  · rfl

theorem Ty.sizeOf_instantiate_lt (θ : Int → Ty) (name : String) {args : List Ty} {arg : Ty}
    (member : arg ∈ args) :
    sizeOf (arg.instantiate θ) < sizeOf ((Ty.ctor name args).instantiate θ) := by
  have part := List.sizeOf_lt_of_mem (List.mem_map_of_mem (f := Ty.instantiate θ) member)
  rw [Ty.instantiate_ctor, Ty.ctor.sizeOf_spec]
  omega

theorem Ty.sizeOf_le_instantiate (θ : Int → Ty) {ty : Ty} {x : Int} (occurs : x ∈ ty.vars) :
    sizeOf (θ x) ≤ sizeOf (ty.instantiate θ) := by
  induction ty using Ty.ind with
  | var y label =>
    rw [List.mem_singleton.mp occurs]
    exact Nat.le_refl _
  | ctor name args ih =>
    obtain ⟨arg, member, inside⟩ := Ty.mem_vars_ctor.mp occurs
    have below := ih arg member inside
    have part := Ty.sizeOf_instantiate_lt θ name member
    omega

/-- No finite type holds itself as a proper part. -/
theorem Ty.ne_instantiate_of_occurs (θ : Int → Ty) {name : String} {args : List Ty} {x : Int}
    (occurs : x ∈ (Ty.ctor name args).vars) : θ x ≠ (Ty.ctor name args).instantiate θ := by
  intro same
  obtain ⟨arg, member, inside⟩ := Ty.mem_vars_ctor.mp occurs
  have below := Ty.sizeOf_le_instantiate θ inside
  have part := Ty.sizeOf_instantiate_lt θ name member
  rw [same] at below
  omega

/-- Forgets what variables are called. -/
def Ty.unlabeled (ty : Ty) : Ty := ty.instantiate fun x => .var x ""

/-- Types are alike when they differ at most in what their variables are called. -/
def Ty.Alike (a b : Ty) : Prop := a.unlabeled = b.unlabeled

@[simp] theorem Ty.unlabeled_var (x : Int) (label : String) :
    (Ty.var x label).unlabeled = .var x "" := rfl

@[simp] theorem Ty.unlabeled_ctor (name : String) (args : List Ty) :
    (Ty.ctor name args).unlabeled = .ctor name (args.map Ty.unlabeled) :=
  Ty.instantiate_ctor _ name args

@[simp] theorem Ty.instantiate_unlabeled (θ : Int → Ty) (ty : Ty) :
    ty.unlabeled.instantiate θ = ty.instantiate θ :=
  Ty.instantiate_instantiate _ θ ty

theorem Ty.unlabeled_instantiate (θ : Int → Ty) (ty : Ty) :
    (ty.instantiate θ).unlabeled = ty.instantiate fun x => (θ x).unlabeled :=
  Ty.instantiate_instantiate θ _ ty

theorem Ty.unlabeled_unlabeled (ty : Ty) : ty.unlabeled.unlabeled = ty.unlabeled :=
  Ty.instantiate_unlabeled _ ty

/-- Labels play no part in what an instance is. -/
theorem Ty.Alike.instantiate_eq {a b : Ty} (alike : a.Alike b) (θ : Int → Ty) :
    a.instantiate θ = b.instantiate θ := by
  rw [← Ty.instantiate_unlabeled, alike, Ty.instantiate_unlabeled]

/-- To be alike under `θ` is to be equal where the values of `θ` have no labels. -/
theorem Ty.alike_instantiate_iff {a b : Ty} {θ : Int → Ty} :
    (a.instantiate θ).Alike (b.instantiate θ) ↔
      a.instantiate (fun x => (θ x).unlabeled) = b.instantiate fun x => (θ x).unlabeled := by
  rw [Ty.Alike, Ty.unlabeled_instantiate, Ty.unlabeled_instantiate]

def TraitRef.substitute (f : Int → String → Ty) (trait : TraitRef) : TraitRef :=
  ⟨trait.name, trait.args.map (Ty.substitute f)⟩

def TraitRef.instantiate (θ : Int → Ty) (trait : TraitRef) : TraitRef :=
  trait.substitute fun x _ => θ x

def TraitRef.unlabeled (trait : TraitRef) : TraitRef := trait.instantiate fun x => .var x ""

/-- Trait applications are alike when they differ at most in what variables are called. -/
def TraitRef.Alike (a b : TraitRef) : Prop := a.unlabeled = b.unlabeled

theorem TraitRef.substitute_congr {f g : Int → String → Ty} {trait : TraitRef}
    (same : ∀ arg ∈ trait.args, ∀ x ∈ arg.vars, ∀ label, f x label = g x label) :
    trait.substitute f = trait.substitute g :=
  congrArg (TraitRef.mk trait.name) (List.map_congr_left fun arg member =>
    Ty.substitute_congr (same arg member))

theorem TraitRef.substitute_substitute (f g : Int → String → Ty) (trait : TraitRef) :
    (trait.substitute f).substitute g =
      trait.substitute fun x label => (f x label).substitute g := by
  simp only [TraitRef.substitute, List.map_map, TraitRef.mk.injEq, true_and]
  exact List.map_congr_left fun arg _ => Ty.substitute_substitute f g arg

theorem TraitRef.instantiate_unlabeled (θ : Int → Ty) (trait : TraitRef) :
    trait.unlabeled.instantiate θ = trait.instantiate θ :=
  TraitRef.substitute_substitute _ _ trait

theorem TraitRef.Alike.instantiate_eq {a b : TraitRef} (alike : a.Alike b) (θ : Int → Ty) :
    a.instantiate θ = b.instantiate θ := by
  rw [← TraitRef.instantiate_unlabeled, alike, TraitRef.instantiate_unlabeled]

end TraitCoherence
