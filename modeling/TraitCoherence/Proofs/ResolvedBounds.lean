import TraitCoherence.Proofs.Separation

namespace TraitCoherence

def Substitution.resolveTrait (σ : Substitution) (trait : TraitRef) : TraitRef :=
  ⟨trait.name, trait.args.map σ.resolve⟩

/-- The bound with every trait argument resolved. -/
def Substitution.resolveBound (σ : Substitution) (bound : Bound) : Bound :=
  ⟨.ofList (bound.positive.members.map σ.resolveTrait),
    .ofList (bound.negative.members.map σ.resolveTrait)⟩

/-- Some trait of the bound has the variable in an argument. -/
def Bound.Mentions (bound : Bound) (x : Int) : Prop :=
  ∃ trait ∈ bound.positive.members ++ bound.negative.members, ∃ arg ∈ trait.args, x ∈ arg.vars

/-- The variables of the bound resolve to variables, and different ones to different ones. -/
structure Substitution.Renames (σ : Substitution) (bound : Bound) : Prop where
  toVar : ∀ x, bound.Mentions x → ∃ y, σ.solution x = .var y ""
  apart : ∀ x y, bound.Mentions x → bound.Mentions y → σ.solution x = σ.solution y → x = y

theorem Substitution.Renames.of_single {σ : Substitution} {bound : Bound} {z y : Int}
    (single : ∀ trait ∈ bound.positive.members ++ bound.negative.members,
      ∀ arg ∈ trait.args, ∀ x ∈ arg.vars, x = z)
    (solved : σ.solution z = .var y "") : σ.Renames bound := by
  have only (x : Int) (mentioned : bound.Mentions x) : x = z := by
    obtain ⟨trait, inside, arg, member, occurs⟩ := mentioned
    exact single trait inside arg member x occurs
  refine ⟨fun x mentioned => ⟨y, ?_⟩, fun x w mentioned mentionedToo _ => ?_⟩
  · rw [only x mentioned, solved]
  · rw [only x mentioned, only w mentionedToo]

theorem Substitution.Renames.exists_inverse {σ : Substitution} {bound : Bound}
    (renames : σ.Renames bound) :
    ∃ back : Int → Ty, ∀ x, bound.Mentions x → (σ.solution x).instantiate back = .var x "" := by
  classical
  let origin (y : Int) : Prop := ∃ x, bound.Mentions x ∧ σ.solution x = .var y ""
  refine ⟨fun y => if found : origin y then .var found.choose "" else .var y "", fun x mentioned => ?_⟩
  obtain ⟨y, solved⟩ := renames.toVar x mentioned
  have found : origin y := ⟨x, mentioned, solved⟩
  obtain ⟨chosen, standsToo⟩ := found.choose_spec
  have same := renames.apart _ _ chosen mentioned (standsToo.trans solved.symm)
  rw [solved, Ty.instantiate_var, dif_pos found, same]

/-- What undoes the renaming gives back every trait of the bound. -/
theorem TraitRef.instantiate_resolveTrait {σ : Substitution} {back : Int → Ty} {trait : TraitRef}
    (undoes : ∀ arg ∈ trait.args, ∀ x ∈ arg.vars, (σ.solution x).instantiate back = .var x "") :
    (σ.resolveTrait trait).instantiate back = trait.unlabeled := by
  have args : (trait.args.map σ.resolve).map (Ty.instantiate back) = trait.args.map Ty.unlabeled := by
    rw [List.map_map]
    refine List.map_congr_left fun arg member => ?_
    rw [Function.comp_apply, ← Ty.instantiate_unlabeled, σ.unlabeled_resolve, Ty.instantiate_instantiate]
    exact Ty.substitute_congr fun x occurs _ => undoes arg member x occurs
  exact congrArg (TraitRef.mk trait.name) args

/-- A renaming creates no contradiction: one that is there afterwards was there before. -/
theorem Substitution.Renames.contradicts {catalog : Catalog} {σ : Substitution} {bound : Bound}
    (renames : σ.Renames bound) (contradicts : catalog.Contradicts (σ.resolveBound bound)) :
    catalog.Contradicts bound := by
  obtain ⟨back, undoes⟩ := renames.exists_inverse
  obtain ⟨_, positive, _, negative, entails⟩ := contradicts
  obtain ⟨demanded, memberPositive, rfl⟩ := List.mem_map.mp (TraitSet.mem_of_mem_ofList positive)
  obtain ⟨forbidden, memberNegative, rfl⟩ := List.mem_map.mp (TraitSet.mem_of_mem_ofList negative)
  have restored : (σ.resolveTrait demanded).instantiate back = demanded.unlabeled :=
    TraitRef.instantiate_resolveTrait fun arg member x occurs =>
      undoes x ⟨demanded, List.mem_append_left _ memberPositive, arg, member, occurs⟩
  have restoredToo : (σ.resolveTrait forbidden).instantiate back = forbidden.unlabeled :=
    TraitRef.instantiate_resolveTrait fun arg member x occurs =>
      undoes x ⟨forbidden, List.mem_append_right _ memberNegative, arg, member, occurs⟩
  -- The inverse carries every link of the chain of supertraits back.
  exact ⟨demanded, memberPositive, forbidden, memberNegative, entails.undo restored restoredToo⟩

/-- A contradiction in the resolved bound of a class keeps the verdict from being overlap where
resolution only renames the variables of that bound. -/
theorem renamed_contradiction_never_overlaps (catalog : Catalog) (first second : ImplDecl)
    (left right : ImplScheme) (σ : Substitution) (varClass : VarClass) (bound : Bound)
    (elaborated : catalog.elaboratePair first second = .ok (left, right))
    (done : unifySchemes left right = some σ) (member : varClass ∈ σ.classes)
    (unanchored : varClass.anchor = none)
    (joined : joinBounds (left.bounds ++ right.bounds) .empty varClass.members = .bound bound)
    (renames : σ.Renames bound) (contradicts : catalog.Contradicts (σ.resolveBound bound)) :
    (catalog.compare first second).result ≠ .ok .overlap := by
  intro overlap
  obtain ⟨_, _, _, elaboratedToo, doneToo, _, _, unrefuted⟩ := Catalog.compare_overlap overlap
  cases elaborated.symm.trans elaboratedToo
  cases done.symm.trans doneToo
  exact unrefuted varClass member ⟨unanchored, bound, joined, renames.contradicts contradicts⟩

/-- `trait Rel<X, Y> {}`, `trait Eq<X> {}` and `trait Ord<X>: Eq<X> {}`. -/
def relTraits : Table TraitDecl :=
  ⟨[("Rel", ⟨.placeless "Rel", [.ofTerms "X" [] [], .ofTerms "Y" [] []], none⟩),
    ("Eq", ⟨.placeless "Eq", [.ofTerms "X" [] []], none⟩),
    ("Ord", ⟨.placeless "Ord", [.ofTerms "X" [] []],
      some ⟨[.apply (.placeless "Eq") [.apply (.placeless "X") []]], []⟩⟩)]⟩

def relCatalog : Catalog := ⟨⟨[("A", ⟨.placeless "A", []⟩)]⟩, relTraits, [], by decide⟩

/-- `impl<x, y: positive - negative> Rel<x, y> for A {}`. -/
def relImpl (x y : String) (positive negative : List TypeExpr) : ImplDecl :=
  ⟨[.ofTerms x [] [], .ofTerms y positive negative],
    .apply (.placeless "Rel") [.apply (.placeless x) [], .apply (.placeless y) []],
    .apply (.placeless "A") []⟩

/-- The trait applied to one argument that is a name. -/
def appliedTo (trait arg : String) : TypeExpr :=
  .apply (.placeless trait) [.apply (.placeless arg) []]

/-- `impl<P, Q: Ord<P> - Eq<P>> Rel<P, Q> for A {}` and `impl<R, S: Eq<A>> Rel<R, S> for A {}`: the
bound of `Q` and `S` mentions `P`, which becomes `R`. -/
theorem ordered_unequal_never_overlaps :
    ∃ left right σ bound, relCatalog.elaboratePair
        (relImpl "P" "Q" [appliedTo "Ord" "P"] [appliedTo "Eq" "P"])
        (relImpl "R" "S" [appliedTo "Eq" "A"] []) = .ok (left, right) ∧
      unifySchemes left right = some σ ∧ ⟨[1, 3], none⟩ ∈ σ.classes ∧
      joinBounds (left.bounds ++ right.bounds) .empty [1, 3] = .bound bound ∧
      σ.Renames bound ∧ relCatalog.Contradicts (σ.resolveBound bound) ∧
      (relCatalog.compare (relImpl "P" "Q" [appliedTo "Ord" "P"] [appliedTo "Eq" "P"])
        (relImpl "R" "S" [appliedTo "Eq" "A"] [])).result ≠ .ok .overlap := by
  suffices both : Substitution.Renames _ _ ∧ relCatalog.Contradicts _ from
    ⟨_, _, _, _, rfl, rfl, List.mem_cons_of_mem _ List.mem_cons_self, rfl, both.1, both.2,
      renamed_contradiction_never_overlaps relCatalog _ _ _ _ _ ⟨[1, 3], none⟩ _ rfl rfl
        (List.mem_cons_of_mem _ List.mem_cons_self) rfl rfl both.1 both.2⟩
  constructor
  · exact .of_single (z := 0) (y := 2) (by decide) rfl
  · refine ⟨_, List.mem_cons_self, _, List.mem_cons_self, _, .single ⟨_, rfl, ?_⟩, rfl⟩
    exact List.mem_cons_self

/-- `impl<P, Q: Eq<P>> Rel<P, Q> for A {}` and `impl<R, S: -Eq<R>> Rel<R, S> for A {}`: once `P` is `R`,
the bound of `Q` and `S` contradicts itself, and still the two are found to overlap. -/
theorem linked_contradiction_overlooked :
    ∃ left right σ bound, relCatalog.elaboratePair (relImpl "P" "Q" [appliedTo "Eq" "P"] [])
        (relImpl "R" "S" [] [appliedTo "Eq" "R"]) = .ok (left, right) ∧
      unifySchemes left right = some σ ∧ ⟨[1, 3], none⟩ ∈ σ.classes ∧
      joinBounds (left.bounds ++ right.bounds) .empty [1, 3] = .bound bound ∧
      relCatalog.Contradicts (σ.resolveBound bound) ∧
      (relCatalog.compare (relImpl "P" "Q" [appliedTo "Eq" "P"] [])
        (relImpl "R" "S" [] [appliedTo "Eq" "R"])).result = .ok .overlap := by
  refine ⟨_, _, _, _, rfl, rfl, ?_, rfl, ?_, rfl⟩
  · exact List.mem_cons_of_mem _ List.mem_cons_self
  · exact ⟨_, List.mem_cons_self, _, List.mem_cons_self, _, .refl, rfl⟩

end TraitCoherence
