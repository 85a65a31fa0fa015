import Mathlib.Data.String.Basic
import TraitCoherence.Catalog
import TraitCoherence.Proofs.Components

namespace TraitCoherence

theorem Table.mem_names_iff {α : Type} {table : Table α} {name : String} :
    name ∈ table.names ↔ ∃ value, table.get? name = some value := by
  obtain ⟨entries⟩ := table
  simp only [Table.names, Table.get?]
  induction entries with
  | nil => simp
  | cons entry entries ih =>
    obtain ⟨key, value⟩ := entry
    rw [List.map_cons, List.mem_cons, ih, lookup_cons_eq_ite]
    by_cases here : name = key
    · simp [here]
    · simp [here]

theorem Table.nodup_put {α : Type} {table : Table α} (distinct : table.names.Nodup) (name : String)
    (value : α) : (table.put name value).names.Nodup := by
  rw [Table.put]
  split
  · have same : (table.entries.map fun entry => if entry.1 = name then (name, value) else entry).map
        (·.1) = table.names := by
      rw [List.map_map]
      refine List.map_congr_left fun entry _ => ?_
      rw [Function.comp_apply]
      split
      · rename_i here
        exact here.symm
      · rfl
    rw [Table.names, same]
    exact distinct
  · rename_i missing
    have fresh : name ∉ table.names := by
      rw [Table.mem_names_iff, ← Option.isSome_iff_exists]
      exact missing
    rw [Table.names, List.map_append]
    exact distinct.append (List.nodup_singleton name) (List.disjoint_singleton.mpr fresh)

theorem supertraitGraph_edge {traits : Table TraitDecl} {a b : String} :
    (supertraitGraph traits).Edge a b ↔ b ∈ traits.names ∧
      ∃ decl, traits.get? a = some decl ∧ ∃ expr ∈ decl.demands, expr.name.text = b := by
  simp only [Digraph.Edge, supertraitGraph]
  cases found : traits.get? a with
  | none => simp
  | some decl =>
    simp only [List.mem_filter, List.mem_map, List.contains_iff_mem, Option.some.injEq,
      exists_eq_left']
    exact and_comm

theorem supertraitGraph_proper (traits : Table TraitDecl) : (supertraitGraph traits).Proper := by
  constructor
  · intro a b edge
    obtain ⟨_, decl, found, _⟩ := supertraitGraph_edge.mp edge
    exact Table.mem_names_iff.mpr ⟨decl, found⟩
  · exact fun a b edge => (supertraitGraph_edge.mp edge).1

/-- The declaration that counts for a trait: none of its name comes later. -/
def Program.Declares (program : Program) (decl : TraitDecl) : Prop :=
  ∃ before after, program.decls = before ++ .trait decl :: after ∧
    ∀ later, .trait later ∈ after → later.name.text ≠ decl.name.text

/-- A declared trait is named among the positive supertraits of another, or of itself. Declarations
that are overwritten do not count. -/
def Program.Requires (program : Program) (sub super : String) : Prop :=
  (∃ decl bound, program.Declares decl ∧ decl.name.text = sub ∧ decl.supertraits = some bound ∧
    ∃ expr ∈ bound.positive, expr.name.text = super) ∧
  ∃ decl, .trait decl ∈ program.decls ∧ decl.name.text = super

theorem Program.declares_concat {decls : List Decl} {last : Decl} {decl : TraitDecl} :
    Program.Declares ⟨decls ++ [last]⟩ decl ↔ last = .trait decl ∨ Program.Declares ⟨decls⟩ decl ∧
      ∀ later, last = .trait later → later.name.text ≠ decl.name.text := by
  constructor
  · rintro ⟨before, after, split, unique⟩
    rcases List.eq_nil_or_concat after with rfl | ⟨between, final, rfl⟩
    · exact Or.inl (List.append_inj_right' split rfl |> List.singleton_inj.mp)
    · rw [List.concat_eq_append] at split unique
      rw [← List.cons_append, ← List.append_assoc] at split
      obtain ⟨front, back⟩ := List.append_inj' split rfl
      cases List.singleton_inj.mp back
      refine Or.inr ⟨⟨before, between, front, fun later member => ?_⟩, fun later same => ?_⟩
      · exact unique later (List.mem_append_left _ member)
      · exact unique later (List.mem_append_right _ (same ▸ List.mem_singleton_self _))
  · rintro (rfl | ⟨⟨before, after, rfl, unique⟩, final⟩)
    · exact ⟨decls, [], rfl, fun later member => absurd member List.not_mem_nil⟩
    · refine ⟨before, after ++ [last], by simp, fun later member => ?_⟩
      rcases List.mem_append.mp member with old | new
      · exact unique later old
      · exact final later (List.mem_singleton.mp new).symm

theorem Program.traits_concat (decls : List Decl) (last : Decl) :
    Program.traits ⟨decls ++ [last]⟩ =
      match last with
      | .trait decl => (Program.traits ⟨decls⟩).put decl.name.text decl
      | _ => Program.traits ⟨decls⟩ := by
  rw [Program.traits, List.foldl_append]
  cases last <;> rfl

/-- The table of traits holds the last declaration of each name. -/
theorem Program.traits_get?_iff {program : Program} {name : String} {decl : TraitDecl} :
    program.traits.get? name = some decl ↔ program.Declares decl ∧ decl.name.text = name := by
  obtain ⟨decls⟩ := program
  induction decls using List.reverseRecOn with
  | nil =>
    refine iff_of_false nofun ?_
    rintro ⟨⟨before, after, split, _⟩, _⟩
    exact absurd split.symm (List.append_ne_nil_of_right_ne_nil _ (List.cons_ne_nil _ _))
  | append_singleton decls last ih =>
    rw [Program.traits_concat, Program.declares_concat]
    cases last with
    | struct other => simpa using ih
    | impl other => simpa using ih
    | trait other =>
      simp only [Table.get?_put, Decl.trait.injEq, forall_eq']
      by_cases here : name = other.name.text
      · rw [if_pos here, Option.some.injEq]
        constructor
        · rintro rfl
          exact ⟨Or.inl rfl, here.symm⟩
        · rintro ⟨same | ⟨_, differ⟩, named⟩
          · exact same
          · exact absurd (here.symm.trans named.symm) differ
      · rw [if_neg here, ih]
        constructor
        · rintro ⟨declares, rfl⟩
          exact ⟨Or.inr ⟨declares, Ne.symm here⟩, rfl⟩
        · rintro ⟨rfl | ⟨declares, _⟩, named⟩
          · exact absurd named.symm here
          · exact ⟨declares, named⟩

theorem Program.mem_names_traits {program : Program} {name : String} :
    name ∈ program.traits.names ↔ ∃ decl, .trait decl ∈ program.decls ∧ decl.name.text = name := by
  obtain ⟨decls⟩ := program
  induction decls using List.reverseRecOn with
  | nil => simp [Program.traits, Table.empty, Table.names]
  | append_singleton decls last ih =>
    rw [Program.traits_concat]
    cases last with
    | struct other => simpa using ih
    | impl other => simpa using ih
    | trait other =>
      rw [Table.mem_names_iff] at ih ⊢
      simp only [Table.get?_put, List.mem_append, List.mem_singleton, Decl.trait.injEq]
      by_cases here : name = other.name.text
      · rw [if_pos here]
        exact iff_of_true ⟨other, rfl⟩ ⟨other, Or.inr rfl, here.symm⟩
      · rw [if_neg here, ih]
        refine exists_congr fun decl => and_congr_left fun named => (or_iff_left ?_).symm
        rintro rfl
        exact here named.symm

theorem Program.nodup_names_traits (program : Program) : program.traits.names.Nodup := by
  obtain ⟨decls⟩ := program
  induction decls using List.reverseRecOn with
  | nil => exact List.nodup_nil
  | append_singleton decls last ih =>
    rw [Program.traits_concat]
    cases last with
    | struct other => exact ih
    | impl other => exact ih
    | trait other => exact Table.nodup_put ih _ _

theorem Program.supertraitGraph_edge_iff {program : Program} {a b : String} :
    (supertraitGraph program.traits).Edge a b ↔ program.Requires a b := by
  rw [supertraitGraph_edge, Program.mem_names_traits, Program.Requires, and_comm]
  refine and_congr_left fun _ => exists_congr fun decl => ?_
  rw [Program.traits_get?_iff, TraitDecl.demands]
  cases decl.supertraits with
  | none => simp
  | some bound => simp [and_assoc]

theorem Program.supertraitGraph_path_iff {program : Program} {a b : String} :
    (supertraitGraph program.traits).Path a b ↔ Relation.TransGen program.Requires a b := by
  have same : (supertraitGraph program.traits).Edge = program.Requires :=
    funext fun _ => funext fun _ => propext Program.supertraitGraph_edge_iff
  rw [Digraph.Path, same]

theorem mem_alphabetical {texts : List String} {text : String} :
    text ∈ alphabetical texts ↔ text ∈ texts := by
  rw [alphabetical, arrange_eq_insertionSort]
  exact List.mem_insertionSort _

theorem pairwise_arrange {α : Type} (precedes : α → α → Prop) [DecidableRel precedes]
    [Std.Total precedes] [IsTrans α precedes] {items : List α} (distinct : items.Nodup) :
    (arrange (fun a b => decide (precedes a b)) items).Pairwise
      fun a b => precedes a b ∧ a ≠ b := by
  rw [arrange_eq_insertionSort]
  have sorted := items.pairwise_insertionSort precedes
  have apart : (items.insertionSort precedes).Nodup :=
    (List.perm_insertionSort _ items).nodup_iff.mpr distinct
  exact sorted.and apart

theorem pairwise_alphabetical {texts : List String} (distinct : texts.Nodup) :
    (alphabetical texts).Pairwise (· < ·) :=
  (pairwise_arrange (· ≤ ·) distinct).imp fun both => lt_of_le_of_ne both.1 both.2

/-- A circle of supertraits as it is reported: all traits that require each other, however far
removed, in alphabetical order, each by the name in the declaration that counts. They require no other
circle. -/
structure Program.Circle (program : Program) (guilty : Name) (circle : List Name) : Prop where
  first : circle.head? = some guilty
  ordered : circle.Pairwise fun a b => a.text < b.text
  declared : ∀ name ∈ circle, ∃ decl, program.Declares decl ∧ decl.name = name
  cyclic : Relation.TransGen program.Requires guilty.text guilty.text
  whole : ∀ text, (∃ name ∈ circle, name.text = text) ↔
    Relation.ReflTransGen program.Requires guilty.text text ∧
      Relation.ReflTransGen program.Requires text guilty.text
  innermost : ∀ text, Relation.ReflTransGen program.Requires guilty.text text →
    Relation.TransGen program.Requires text text →
    Relation.ReflTransGen program.Requires text guilty.text

theorem Program.circularityError_names {program : Program} {circle : List String}
    (declared : ∀ name ∈ circle, name ∈ program.traits.names) :
    ∃ names : List Name,
      circularityError program.traits circle =
        .circularSupertraits (names.headD (.placeless "")) names ∧
      names.map (·.text) = alphabetical circle ∧
      ∀ name ∈ names, ∃ decl, program.Declares decl ∧ decl.name = name := by
  refine ⟨_, rfl, ?_, fun name member => ?_⟩
  · have each : ∀ name ∈ alphabetical circle,
        ((program.traits.get? name).map (·.name)).map (·.text) = some name := by
      intro name member
      obtain ⟨decl, found⟩ := Table.mem_names_iff.mp (declared name (mem_alphabetical.mp member))
      rw [found, Option.map_some, Option.map_some, (Program.traits_get?_iff.mp found).2]
    rw [List.map_filterMap, List.filterMap_congr each, List.filterMap_some]
  · obtain ⟨key, _, found⟩ := List.mem_filterMap.mp member
    obtain ⟨decl, stored, rfl⟩ := Option.map_eq_some_iff.mp found
    exact ⟨decl, (Program.traits_get?_iff.mp stored).1, rfl⟩

theorem Program.circle_of_found {program : Program} {circle : List String}
    (found : (supertraitGraph program.traits).circle? = some circle) :
    ∃ guilty names, circularityError program.traits circle = .circularSupertraits guilty names ∧
      program.Circle guilty names := by
  obtain ⟨nodes, centre, loops, around, last⟩ :=
    (supertraitGraph_proper program.traits).circle?_eq_some program.nodup_names_traits found
  simp only [Program.supertraitGraph_path_iff] at loops around last
  obtain ⟨names, reported, texts, declared⟩ :=
    Program.circularityError_names fun name member => nodes.subset member
  have mentioned (text : String) : (∃ name ∈ names, name.text = text) ↔ text ∈ circle := by
    rw [← mem_alphabetical, ← texts, List.mem_map]
  have sorted := pairwise_alphabetical (nodes.nodup program.nodup_names_traits)
  rw [← texts, List.pairwise_map] at sorted
  cases names with
  | nil =>
    obtain ⟨name, member, _⟩ := (mentioned centre).mpr ((around centre).mpr ⟨loops, loops⟩)
    exact absurd member List.not_mem_nil
  | cons guilty others =>
    have inside := (mentioned guilty.text).mp ⟨guilty, List.mem_cons_self, rfl⟩
    obtain ⟨away, back⟩ := (around guilty.text).mp inside
    refine ⟨guilty, _, reported, rfl, sorted, declared, back.trans away, fun text => ?_,
      fun text there round => ?_⟩
    · -- Whoever reaches the guilty trait and is reached by it does so by way of the centre.
      rw [mentioned, around]
      constructor
      · rintro ⟨there, home⟩
        exact ⟨(back.trans there).to_reflTransGen, (home.trans away).to_reflTransGen⟩
      · rintro ⟨there, home⟩
        exact ⟨away.trans_left there, Relation.TransGen.trans_right home back⟩
    · exact ((last text (away.trans_left there) round).trans away).to_reflTransGen

/-- A program is rejected exactly when some trait requires itself, and what is reported is the
whole circle of traits around the guilty one. -/
theorem catalog_rejects_exactly_circles (program : Program) :
    ((∃ error, program.catalog = .error error) ↔
      ∃ name, Relation.TransGen program.Requires name name) ∧
    ∀ error, program.catalog = .error error →
      ∃ guilty circle, error = .circularSupertraits guilty circle ∧ program.Circle guilty circle := by
  have proper := supertraitGraph_proper program.traits
  rw [Program.catalog]
  split
  · rename_i circle found
    obtain ⟨guilty, names, reported, shape⟩ := Program.circle_of_found found
    refine ⟨iff_of_true ⟨_, rfl⟩ ⟨guilty.text, shape.cyclic⟩, fun error same => ?_⟩
    cases same
    exact ⟨guilty, names, reported, shape⟩
  · rename_i accepted
    have acyclic := proper.acyclic_of_circle? accepted
    simp only [Program.supertraitGraph_path_iff] at acyclic
    refine ⟨iff_of_false nofun ?_, nofun⟩
    rintro ⟨name, loops⟩
    exact acyclic name loops

/-- `trait A {} trait B: A + Ghost {} trait C: A - C {} trait A: B {}`. The second `A` overwrites the
first, and `C` leads into the circle but is not part of it. -/
def circularProgram : Program :=
  ⟨[.trait ⟨⟨"A", some ⟨6, 7⟩⟩, [], none⟩,
    .trait ⟨⟨"B", some ⟨17, 18⟩⟩, [],
      some ⟨[.apply (.placeless "A") [], .apply (.placeless "Ghost") []], []⟩⟩,
    .trait ⟨⟨"C", some ⟨39, 40⟩⟩, [],
      some ⟨[.apply (.placeless "A") []], [.apply (.placeless "C") []]⟩⟩,
    .trait ⟨⟨"A", some ⟨57, 58⟩⟩, [], some ⟨[.apply (.placeless "B") []], []⟩⟩]⟩

theorem overwritten_circle_reported :
    circularProgram.catalog = .error (.circularSupertraits ⟨"A", some ⟨57, 58⟩⟩
      [⟨"A", some ⟨57, 58⟩⟩, ⟨"B", some ⟨17, 18⟩⟩]) ∧
    circularProgram.Circle ⟨"A", some ⟨57, 58⟩⟩ [⟨"A", some ⟨57, 58⟩⟩, ⟨"B", some ⟨17, 18⟩⟩] := by
  have rejected : circularProgram.catalog = .error (.circularSupertraits ⟨"A", some ⟨57, 58⟩⟩
      [⟨"A", some ⟨57, 58⟩⟩, ⟨"B", some ⟨17, 18⟩⟩]) := rfl
  obtain ⟨guilty, circle, same, shape⟩ := (catalog_rejects_exactly_circles _).2 _ rejected
  cases same
  exact ⟨rejected, shape⟩

end TraitCoherence
