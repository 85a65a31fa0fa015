import TraitCoherence.Proofs.Separation

namespace TraitCoherence

/-- A finite type without variables. -/
def GroundTy : Type := {ty : Ty // ty.vars = []}

/-- A trait that is applied to types without variables. -/
def GroundTrait : Type := {trait : TraitRef // ∀ arg ∈ trait.args, arg.vars = []}

/-- A choice of a ground type for every variable. -/
def Assignment : Type := Int → GroundTy

theorem Assignment.vars_instantiate (assignment : Assignment) (ty : Ty) :
    (ty.instantiate fun x => (assignment x).val).vars = [] := by
  refine List.eq_nil_iff_forall_not_mem.mpr fun y occurs => ?_
  obtain ⟨x, _, inside⟩ := Ty.mem_vars_instantiate.mp occurs
  rw [(assignment x).property] at inside
  cases inside

/-- The ground type that a type becomes. -/
def Assignment.type (assignment : Assignment) (ty : Ty) : GroundTy :=
  ⟨ty.instantiate fun x => (assignment x).val, assignment.vars_instantiate ty⟩

theorem Assignment.vars_args (assignment : Assignment) (trait : TraitRef) :
    ∀ arg ∈ (trait.instantiate fun x => (assignment x).val).args, arg.vars = [] := by
  intro arg member
  obtain ⟨part, _, rfl⟩ := List.mem_map.mp member
  exact assignment.vars_instantiate part

/-- The ground trait that a trait becomes. -/
def Assignment.trait (assignment : Assignment) (trait : TraitRef) : GroundTrait :=
  ⟨trait.instantiate fun x => (assignment x).val, assignment.vars_args trait⟩

/-- What implements what: any relation in which a type with a trait has the supertraits too. -/
structure World (catalog : Catalog) where
  implements : GroundTy → GroundTrait → Prop
  closed : ∀ ty trait supertrait, implements ty trait →
    catalog.Supertrait trait.val supertrait.val → implements ty supertrait

/-- Both impls apply at once: their heads and their targets fall together, and every parameter
keeps to its bound. -/
structure Coexist {catalog : Catalog} (world : World catalog) (assignment : Assignment)
    (left right : ImplScheme) : Prop where
  name : left.trait.name = right.trait.name
  args : ∀ pair ∈ left.trait.args.zip right.trait.args,
    assignment.type pair.1 = assignment.type pair.2
  target : assignment.type left.target = assignment.type right.target
  positive : ∀ x bound, (x, some bound) ∈ left.bounds ++ right.bounds →
    ∀ trait ∈ bound.positive.members, world.implements (assignment x) (assignment.trait trait)
  negative : ∀ x bound, (x, some bound) ∈ left.bounds ++ right.bounds →
    ∀ trait ∈ bound.negative.members, ¬ world.implements (assignment x) (assignment.trait trait)

theorem Coexist.unifies {catalog : Catalog} {world : World catalog} {assignment : Assignment}
    {left right : ImplScheme} (coexist : Coexist world assignment left right) :
    Unifies (fun x => (assignment x).val) left right := by
  refine ⟨coexist.name, fun pair member => ?_, ?_⟩
  · exact congrArg (fun ty => Ty.unlabeled ty.val) (coexist.args pair member)
  · exact congrArg (fun ty => Ty.unlabeled ty.val) coexist.target

/-- A ground type has no labels to forget. -/
theorem GroundTy.eq_of_alike {a b : GroundTy} (alike : a.val.Alike b.val) : a = b := by
  have unlabeled : ∀ ty : GroundTy, ty.val.unlabeled = ty.val := by
    intro ty
    refine Eq.trans (Ty.substitute_congr fun x occurs label => ?_) ty.val.substitute_self
    rw [ty.property] at occurs
    cases occurs
  refine Subtype.ext ?_
  rw [← unlabeled a, ← unlabeled b]
  exact alike

theorem World.implements_of_obliges {catalog : Catalog} (world : World catalog)
    (assignment : Assignment) {ty : GroundTy} {trait other : TraitRef}
    (implements : world.implements ty (assignment.trait trait))
    (obliges : catalog.Obliges trait other) : world.implements ty (assignment.trait other) := by
  induction obliges with
  | refl => exact implements
  | tail _ step ih => exact world.closed ty _ _ ih ((Catalog.Resembles.refl catalog).supertrait step _)

theorem World.implements_of_entails {catalog : Catalog} (world : World catalog)
    (assignment : Assignment) {ty : GroundTy} {trait other : TraitRef}
    (implements : world.implements ty (assignment.trait trait))
    (entails : catalog.Entails trait other) : world.implements ty (assignment.trait other) := by
  obtain ⟨image, obliges, alike⟩ := entails
  have same : assignment.trait image = assignment.trait other :=
    Subtype.ext (alike.instantiate_eq _)
  exact same ▸ world.implements_of_obliges assignment implements obliges

/-- A class that excludes its members' being one type is met by no world. -/
theorem Catalog.Excludes.not_coexist {catalog : Catalog} {left right : ImplScheme}
    {members : Set Int} (excludes : catalog.Excludes left right members) (world : World catalog)
    (assignment : Assignment) : ¬ Coexist world assignment left right := by
  intro coexist
  obtain ⟨root, _, rfl⟩ := excludes.whole
  obtain ⟨demanded, forbidden, ⟨v, inside, bound, declared, positive⟩,
    ⟨w, insideToo, boundToo, declaredToo, negative⟩, entails⟩ := excludes.contradictory
  have atV := GroundTy.eq_of_alike (inside.2 _ coexist.unifies)
  have atW := GroundTy.eq_of_alike (insideToo.2 _ coexist.unifies)
  have has := coexist.positive v bound declared demanded positive
  have lacks := coexist.negative w boundToo declaredToo forbidden negative
  rw [← atV] at has
  rw [← atW] at lacks
  exact lacks (world.implements_of_entails assignment has entails)

/-- Impls that are found disjoint apply to nothing together, whichever types and whichever
implementations there are. -/
theorem disjoint_impls_never_coexist (catalog : Catalog) (first second : ImplDecl)
    (disjoint : (catalog.compare first second).result = .ok .disjoint) :
    ∃ left right, catalog.elaboratePair first second = .ok (left, right) ∧
      ¬ ∃ (world : World catalog) (assignment : Assignment),
        Coexist world assignment left right := by
  obtain ⟨left, right, elaborated, iff⟩ := Catalog.compare_ok disjoint
  refine ⟨left, right, elaborated, ?_⟩
  rintro ⟨world, assignment, coexist⟩
  rcases iff.mp rfl with separate | ⟨members, excludes⟩
  · exact separate ⟨_, coexist.unifies⟩
  · exact excludes.not_coexist world assignment coexist

/-- An impl and its copy do apply together, where everything is `Copy`. -/
theorem show_never_coexist :
    (showCatalog.compare showCopied showUncloned).result = .ok .disjoint ∧
      (∃ left right, showCatalog.elaboratePair showCopied showUncloned = .ok (left, right) ∧
        ¬ ∃ (world : World showCatalog) (assignment : Assignment),
          Coexist world assignment left right) ∧
      ∃ left right, showCatalog.elaboratePair showCopied showCopied = .ok (left, right) ∧
        ∃ (world : World showCatalog) (assignment : Assignment),
          Coexist world assignment left right := by
  refine ⟨rfl, disjoint_impls_never_coexist showCatalog showCopied showUncloned rfl, _, _, rfl,
    ⟨fun _ _ => True, fun _ _ _ _ _ => trivial⟩, fun _ => ⟨.ctor "A" [], rfl⟩, rfl,
    fun _ member => absurd member List.not_mem_nil, rfl, fun _ _ _ _ _ => trivial, ?_⟩
  intro x bound declared trait negative
  simp only [List.cons_append, List.nil_append, List.mem_cons, Prod.mk.injEq, Option.some.injEq,
    List.not_mem_nil, or_false] at declared
  rcases declared with ⟨_, rfl⟩ | ⟨_, rfl⟩ <;> exact absurd negative List.not_mem_nil

end TraitCoherence
