namespace TraitCoherence

/-- A type during one comparison of impls: a variable, known by its number alone, or a struct
applied to types. The label of a variable is for display. -/
inductive Ty where
  | var (id : Int) (label : String)
  | ctor (name : String) (args : List Ty)
deriving Repr

/-- Induction over a type and, for an application, all of its arguments. -/
theorem Ty.ind {motive : Ty → Prop} (var : ∀ x label, motive (.var x label))
    (ctor : ∀ name args, (∀ arg ∈ args, motive arg) → motive (.ctor name args)) :
    ∀ ty, motive ty
  | .var x label => var x label
  | .ctor name args => ctor name args fun arg _ => Ty.ind var ctor arg
termination_by ty => sizeOf ty
decreasing_by
  have smaller := List.sizeOf_lt_of_mem ‹arg ∈ args›
  simp only [Ty.ctor.sizeOf_spec]
  omega

mutual

/-- Agreement of types: variables by number, structs by name and by their arguments as far as the
shorter list goes. It is equality up to labels where each struct has one number of arguments. -/
def Ty.agrees : Ty → Ty → Bool
  | .var x _, .var y _ => x == y
  | .ctor f as, .ctor g bs => f == g && Ty.agreeAll as bs
  | _, _ => false

def Ty.agreeAll : List Ty → List Ty → Bool
  | a :: as, b :: bs => a.agrees b && Ty.agreeAll as bs
  | _, _ => true

end

theorem Ty.agreeAll_self {types : List Ty} (each : ∀ ty ∈ types, ty.agrees ty = true) :
    Ty.agreeAll types types = true := by
  induction types with
  | nil => rfl
  | cons ty types ih =>
    rw [Ty.agreeAll, each ty List.mem_cons_self, Bool.true_and]
    exact ih fun other member => each other (List.mem_cons_of_mem _ member)

theorem Ty.agrees_self (ty : Ty) : ty.agrees ty = true := by
  induction ty using Ty.ind with
  | var x label => simp only [Ty.agrees, beq_self_eq_true]
  | ctor name args ih => simp only [Ty.agrees, beq_self_eq_true, Bool.true_and, Ty.agreeAll_self ih]

/-- Agreement of types, seen at once where both are the same value in memory. A type may hold a part
many times over and still take up little room, but a walk through it meets the part every time. -/
def Ty.agreesShared (a b : Ty) : Bool :=
  withPtrEq a b (fun _ => a.agrees b) fun same => same ▸ a.agrees_self

theorem Ty.agreesShared_eq (a b : Ty) : a.agreesShared b = a.agrees b := rfl

/-- Agreement of what is outermost: the number of a variable, or the name of a struct. -/
def Ty.topAgrees : Ty → Ty → Bool
  | .var x _, .var y _ => x == y
  | .ctor f _, .ctor g _ => f == g
  | _, _ => false

theorem Ty.topAgrees_of_agrees {a b : Ty} (agree : a.agrees b = true) : a.topAgrees b = true := by
  cases a <;> cases b <;> simp_all [Ty.agrees, Ty.topAgrees]

theorem Ty.agreeAll_eq_all (as bs : List Ty) :
    Ty.agreeAll as bs = (as.zip bs).all fun pair => pair.1.agrees pair.2 := by
  induction as generalizing bs with
  | nil => cases bs <;> rfl
  | cons a as ih =>
    cases bs with
    | nil => rfl
    | cons b bs => rw [Ty.agreeAll, ih, List.zip_cons_cons, List.all_cons]

mutual

/-- The variables of a type, from left to right, as often as they occur. -/
def Ty.vars : Ty → List Int
  | .var x _ => [x]
  | .ctor _ args => Ty.varsAll args

def Ty.varsAll : List Ty → List Int
  | [] => []
  | arg :: args => arg.vars ++ Ty.varsAll args

end

theorem Ty.varsAll_eq_flatMap (types : List Ty) : Ty.varsAll types = types.flatMap Ty.vars := by
  induction types with
  | nil => rfl
  | cons ty types ih => rw [Ty.varsAll, ih, List.flatMap_cons]

/-- Whether a variable occurs in a type. -/
def Ty.mentions (ty : Ty) (x : Int) : Bool := ty.vars.contains x

theorem Ty.mentions_iff {ty : Ty} {x : Int} : ty.mentions x = true ↔ x ∈ ty.vars := by
  rw [Ty.mentions, List.contains_iff_mem]

mutual

/-- Puts a type in place of a variable. -/
def Ty.replace (ty : Ty) (x : Int) (value : Ty) : Ty :=
  match ty with
  | .var y label => if y = x then value else .var y label
  | .ctor name args => .ctor name (Ty.replaceAll args x value)

def Ty.replaceAll (types : List Ty) (x : Int) (value : Ty) : List Ty :=
  match types with
  | [] => []
  | ty :: types => ty.replace x value :: Ty.replaceAll types x value

end

theorem Ty.replaceAll_eq_map (types : List Ty) (x : Int) (value : Ty) :
    Ty.replaceAll types x value = types.map fun ty => ty.replace x value := by
  induction types with
  | nil => rfl
  | cons ty types ih => rw [Ty.replaceAll, ih, List.map_cons]

end TraitCoherence
