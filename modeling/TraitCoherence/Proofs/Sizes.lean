import TraitCoherence.Proofs.Instantiation

namespace TraitCoherence

/-- Images of lists are equal when the lists are as long as each other and paired items have one
image. -/
theorem map_eq_map_iff_zip {α β : Type} {f : α → β} {as bs : List α} :
    as.map f = bs.map f ↔
      as.length = bs.length ∧ ∀ pair ∈ as.zip bs, f pair.1 = f pair.2 := by
  induction as generalizing bs with
  | nil => cases bs <;> simp
  | cons a as ih =>
    cases bs with
    | nil => simp
    | cons b bs =>
      simp only [List.map_cons, List.cons.injEq, List.length_cons, Nat.add_right_cancel_iff,
        List.zip_cons_cons, List.mem_cons, forall_eq_or_imp, ih]
      constructor
      · rintro ⟨head, length, tail⟩
        exact ⟨length, head, tail⟩
      · rintro ⟨length, head, tail⟩
        exact ⟨head, length, tail⟩

/-- Every struct in a type has as many arguments as `sizes` gives to its name. -/
inductive Ty.Sized (sizes : String → Nat) : Ty → Prop
  | var (x : Int) (label : String) : Ty.Sized sizes (.var x label)
  | ctor {name : String} {args : List Ty} : args.length = sizes name →
      (∀ arg ∈ args, Ty.Sized sizes arg) → Ty.Sized sizes (.ctor name args)

theorem Ty.sized_ctor {sizes : String → Nat} {name : String} {args : List Ty} :
    (Ty.ctor name args).Sized sizes ↔
      args.length = sizes name ∧ ∀ arg ∈ args, arg.Sized sizes := by
  constructor
  · intro sized
    cases sized with
    | ctor length parts => exact ⟨length, parts⟩
  · rintro ⟨length, parts⟩
    exact .ctor length parts

theorem Ty.Sized.substitute {sizes : String → Nat} {f : Int → String → Ty} {ty : Ty}
    (sized : ty.Sized sizes) (values : ∀ x ∈ ty.vars, ∀ label, (f x label).Sized sizes) :
    (ty.substitute f).Sized sizes := by
  induction sized with
  | var x label => exact values x (List.mem_singleton_self x) label
  | @ctor name args length _ ih =>
    rw [Ty.substitute_ctor]
    refine .ctor (by rw [List.length_map, length]) fun image member => ?_
    obtain ⟨arg, inside, rfl⟩ := List.mem_map.mp member
    exact ih arg inside fun x occurs => values x (Ty.mem_vars_ctor.mpr ⟨arg, inside, occurs⟩)

theorem Ty.Sized.instantiate {sizes : String → Nat} {θ : Int → Ty} {ty : Ty}
    (sized : ty.Sized sizes) (values : ∀ x ∈ ty.vars, (θ x).Sized sizes) :
    (ty.instantiate θ).Sized sizes :=
  sized.substitute fun x occurs _ => values x occurs

theorem Ty.Alike.agrees {a b : Ty} (alike : a.Alike b) : a.agrees b = true := by
  induction a using Ty.ind generalizing b with
  | var x label =>
    cases b with
    | var y label' =>
      simp only [Ty.Alike, Ty.unlabeled_var, Ty.var.injEq, and_true] at alike
      rw [Ty.agrees, alike, beq_self_eq_true]
    | ctor name args => simp only [Ty.Alike, Ty.unlabeled_var, Ty.unlabeled_ctor, reduceCtorEq] at alike
  | ctor name args ih =>
    cases b with
    | var y label' => simp only [Ty.Alike, Ty.unlabeled_var, Ty.unlabeled_ctor, reduceCtorEq] at alike
    | ctor other args' =>
      simp only [Ty.Alike, Ty.unlabeled_ctor, Ty.ctor.injEq, map_eq_map_iff_zip] at alike
      obtain ⟨names, _, pairs⟩ := alike
      rw [Ty.agrees, names, beq_self_eq_true, Bool.true_and, Ty.agreeAll_eq_all, List.all_eq_true]
      exact fun pair member => ih pair.1 (List.of_mem_zip member).1 (pairs pair member)

/-- Agreement compares arguments only as far as the shorter list goes. Where one size is fixed for
every name there is no shorter list, and nothing but labels can differ. -/
theorem Ty.Sized.alike_of_agrees {sizes : String → Nat} {a b : Ty} (left : a.Sized sizes)
    (right : b.Sized sizes) (agree : a.agrees b = true) : a.Alike b := by
  induction left generalizing b with
  | var x label =>
    cases right with
    | var y label' =>
      simp only [Ty.agrees, beq_iff_eq] at agree
      rw [Ty.Alike, Ty.unlabeled_var, Ty.unlabeled_var, agree]
    | ctor _ _ => simp only [Ty.agrees, Bool.false_eq_true] at agree
  | @ctor name args length _ ih =>
    cases right with
    | var y label' => simp only [Ty.agrees, Bool.false_eq_true] at agree
    | @ctor other args' length' parts =>
      simp only [Ty.agrees, Bool.and_eq_true, beq_iff_eq, Ty.agreeAll_eq_all, List.all_eq_true] at agree
      obtain ⟨rfl, pairs⟩ := agree
      rw [Ty.Alike, Ty.unlabeled_ctor, Ty.unlabeled_ctor, Ty.ctor.injEq, map_eq_map_iff_zip]
      refine ⟨rfl, length.trans length'.symm, fun pair member => ?_⟩
      have inside := List.of_mem_zip member
      exact ih pair.1 inside.1 (parts pair.2 inside.2) (pairs pair member)

theorem Ty.Sized.agrees_iff_alike {sizes : String → Nat} {a b : Ty} (left : a.Sized sizes)
    (right : b.Sized sizes) : a.agrees b = true ↔ a.Alike b :=
  ⟨left.alike_of_agrees right, Ty.Alike.agrees⟩

def TraitRef.Sized (sizes : String → Nat) (trait : TraitRef) : Prop :=
  ∀ arg ∈ trait.args, arg.Sized sizes

theorem TraitRef.alike_iff {a b : TraitRef} :
    a.Alike b ↔ a.name = b.name ∧ a.args.length = b.args.length ∧
      ∀ pair ∈ a.args.zip b.args, pair.1.Alike pair.2 := by
  simp only [TraitRef.Alike, TraitRef.unlabeled, TraitRef.instantiate, TraitRef.substitute,
    TraitRef.mk.injEq, map_eq_map_iff_zip]
  rfl

theorem TraitRef.Sized.agrees_iff_alike {sizes : String → Nat} {a b : TraitRef}
    (left : a.Sized sizes) (right : b.Sized sizes) : a.agrees b = true ↔ a.Alike b := by
  simp only [TraitRef.agrees_eq, Bool.and_eq_true, beq_iff_eq, and_assoc, Ty.agreeAll_eq_all,
    List.all_eq_true, TraitRef.alike_iff]
  refine and_congr_right fun _ => and_congr_right fun _ => ?_
  refine forall_congr' fun pair => forall_congr' fun member => ?_
  have inside := List.of_mem_zip member
  exact (left pair.1 inside.1).agrees_iff_alike (right pair.2 inside.2)

theorem Ty.agreeAll_map {f : Ty → Ty} {as bs : List Ty}
    (each : ∀ a ∈ as, ∀ b, (f a).agrees (f b) = a.agrees b) :
    Ty.agreeAll (as.map f) (bs.map f) = Ty.agreeAll as bs := by
  induction as generalizing bs with
  | nil => cases bs <;> rfl
  | cons a as ih =>
    cases bs with
    | nil => rfl
    | cons b bs =>
      rw [List.map_cons, List.map_cons, Ty.agreeAll, Ty.agreeAll, each a List.mem_cons_self,
        ih fun other member => each other (List.mem_cons_of_mem _ member)]

/-- Agreement looks at nothing of variables but which of them are the same. -/
theorem Ty.agrees_rename {ρ : Int → Int} (injective : Function.Injective ρ)
    (label : String → String) (a b : Ty) :
    (a.substitute fun x old => .var (ρ x) (label old)).agrees
      (b.substitute fun x old => .var (ρ x) (label old)) = a.agrees b := by
  induction a using Ty.ind generalizing b with
  | var x old =>
    cases b with
    | var y other =>
      rw [Bool.eq_iff_iff]
      simp only [Ty.substitute_var, Ty.agrees, beq_iff_eq]
      exact ⟨fun same => injective same, fun same => congrArg ρ same⟩
    | ctor name args => rfl
  | ctor name args ih =>
    cases b with
    | var y other => rfl
    | ctor other others =>
      simp only [Ty.substitute_ctor, Ty.agrees, Ty.agreeAll_map ih]

theorem TraitRef.agrees_rename {ρ : Int → Int} (injective : Function.Injective ρ)
    (label : String → String) (a b : TraitRef) :
    (a.substitute fun x old => .var (ρ x) (label old)).agrees
      (b.substitute fun x old => .var (ρ x) (label old)) = a.agrees b := by
  simp only [TraitRef.agrees_eq, TraitRef.substitute, List.length_map,
    Ty.agreeAll_map fun arg _ => Ty.agrees_rename injective label arg]

/-- A test is an equivalence among some things. -/
structure EquivalenceAmong {α : Type} (test : α → α → Bool) (among : α → Prop) : Prop where
  refl : ∀ a, among a → test a a = true
  symm : ∀ a b, among a → among b → test a b = true → test b a = true
  trans : ∀ a b c, among a → among b → among c →
    test a b = true → test b c = true → test a c = true

theorem EquivalenceAmong.of_image {α β : Type} {test : α → α → Bool} {among : α → Prop}
    (image : α → β)
    (same : ∀ a b, among a → among b → (test a b = true ↔ image a = image b)) :
    EquivalenceAmong test among where
  refl a amongA := (same a a amongA amongA).mpr rfl
  symm a b amongA amongB agree :=
    (same b a amongB amongA).mpr ((same a b amongA amongB).mp agree).symm
  trans a b c amongA amongB amongC first second :=
    (same a c amongA amongC).mpr
      (((same a b amongA amongB).mp first).trans ((same b c amongB amongC).mp second))

end TraitCoherence
