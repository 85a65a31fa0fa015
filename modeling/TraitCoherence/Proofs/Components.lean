import Mathlib.Data.List.Sort
import TraitCoherence.Proofs.Reachability

namespace TraitCoherence

/-- A way along any number of edges, or none. -/
def Digraph.Leads (graph : Digraph) : String → String → Prop := Relation.ReflTransGen graph.Edge

theorem Digraph.Leads.path_of_ne {graph : Digraph} {a b : String} (leads : graph.Leads a b)
    (differ : b ≠ a) : graph.Path a b :=
  (Relation.reflTransGen_iff_eq_or_transGen.mp leads).resolve_left differ

section

variable {graph : Digraph} (proper : graph.Proper)

include proper

theorem Digraph.Proper.leads_node {a b : String} (leads : graph.Leads a b) (node : a ∈ graph.nodes) :
    b ∈ graph.nodes := by
  rcases Relation.reflTransGen_iff_eq_or_transGen.mp leads with rfl | path
  · exact node
  · exact (proper.path_nodes path).2

theorem Digraph.Proper.closed_leads {a b : String} :
    graph.closed.leads a b = true ↔ graph.Leads a b := by
  rw [Digraph.leads, Bool.or_eq_true, beq_iff_eq, List.contains_iff_mem, proper.mem_closed_next,
    Digraph.Leads, Relation.reflTransGen_iff_eq_or_transGen, eq_comm, Digraph.Path]

theorem Digraph.Proper.mem_component {a b : String} :
    b ∈ graph.closed.component a ↔ b ∈ graph.nodes ∧ graph.Leads a b ∧ graph.Leads b a := by
  simp only [Digraph.component, List.mem_filter, Bool.and_eq_true, proper.closed_leads]
  rfl

/-- A name that leads to another and not back leads to more than that does. -/
theorem Digraph.Proper.extent_lt {a b : String} (node : a ∈ graph.nodes) (leads : graph.Leads a b)
    (noWay : ¬ graph.Leads b a) : graph.closed.extent b < graph.closed.extent a := by
  have fewer : graph.nodes.filter (graph.closed.leads b) =
      (graph.nodes.filter (graph.closed.leads a)).filter (graph.closed.leads b) := by
    rw [List.filter_filter]
    refine List.filter_congr fun name _ => ?_
    rw [Bool.eq_iff_iff, Bool.and_eq_true, proper.closed_leads, proper.closed_leads]
    exact (and_iff_left_of_imp leads.trans).symm
  change (graph.nodes.filter _).length < (graph.nodes.filter _).length
  rw [fewer, List.length_filter_lt_length_iff_exists]
  refine ⟨a, List.mem_filter.mpr ⟨node, proper.closed_leads.mpr .refl⟩, ?_⟩
  rwa [proper.closed_leads]

end

theorem arrange_eq_insertionSort {α : Type} (precedes : α → α → Prop) [DecidableRel precedes]
    (items : List α) :
    arrange (fun a b => decide (precedes a b)) items = items.insertionSort precedes := by
  have insert (item : α) (others : List α) :
      insertOrdered (fun a b => decide (precedes a b)) item others =
        others.orderedInsert precedes item := by
    induction others with
    | nil => rfl
    | cons first others ih =>
      simp only [insertOrdered, List.orderedInsert_cons, decide_eq_true_eq, ih]
  induction items with
  | nil => rfl
  | cons item items ih =>
    rw [arrange, List.foldr_cons, ← arrange, ih, insert]
    rfl

section

variable {graph : Digraph}

theorem Digraph.mem_inward {name : String} : name ∈ graph.inward ↔ name ∈ graph.nodes := by
  simp only [Digraph.inward]
  rw [arrange_eq_insertionSort fun a b : Nat × String => a.1 ≤ b.1, List.mem_map]
  simp only [List.mem_insertionSort, List.mem_map]
  constructor
  · rintro ⟨_, ⟨other, node, rfl⟩, rfl⟩
    exact node
  · exact fun node => ⟨_, ⟨name, node, rfl⟩, rfl⟩

theorem Digraph.pairwise_inward : graph.inward.Pairwise fun a b => graph.extent a ≤ graph.extent b := by
  let sized := graph.nodes.map fun name => (graph.extent name, name)
  have : Std.Total fun a b : Nat × String => a.1 ≤ b.1 := ⟨fun a b => le_total a.1 b.1⟩
  have : IsTrans (Nat × String) fun a b => a.1 ≤ b.1 := ⟨fun _ _ _ => le_trans⟩
  have sorted := sized.pairwise_insertionSort fun a b => a.1 ≤ b.1
  simp only [Digraph.inward]
  rw [arrange_eq_insertionSort fun a b : Nat × String => a.1 ≤ b.1, List.pairwise_map]
  refine sorted.imp_of_mem fun {a b} first second below => ?_
  obtain ⟨_, _, rfl⟩ := List.mem_map.mp ((List.mem_insertionSort _).mp first)
  obtain ⟨_, _, rfl⟩ := List.mem_map.mp ((List.mem_insertionSort _).mp second)
  exact below

/-- Every name comes after those that it leads to and that do not lead back. -/
def Digraph.InnerFirst (graph : Digraph) (names : List String) : Prop :=
  ∀ before name after, names = before ++ name :: after →
    ∀ inner, graph.Leads name inner → ¬ graph.Leads inner name → inner ∈ before

theorem Digraph.InnerFirst.append {names others : List String} (first : graph.InnerFirst names)
    (second : graph.InnerFirst others) : graph.InnerFirst (names ++ others) := by
  intro before name after split inner leads noWay
  rcases List.append_eq_append_iff.mp split with ⟨more, rfl, same⟩ | ⟨more, rfl, same⟩
  · exact List.mem_append_right _ (second more name after same inner leads noWay)
  · cases more with
    | nil => exact absurd (second [] name after same.symm inner leads noWay) List.not_mem_nil
    | cons here more =>
      obtain ⟨rfl, _⟩ := List.cons.inj same
      exact first before name more rfl inner leads noWay

theorem Digraph.InnerFirst.flatMap {names : List String} {listing : String → List String}
    (each : ∀ name, graph.InnerFirst (listing name)) : graph.InnerFirst (names.flatMap listing) := by
  induction names with
  | nil =>
    intro before name after split
    exact absurd split.symm (List.append_ne_nil_of_right_ne_nil _ (List.cons_ne_nil _ _))
  | cons name names ih => exact (each name).append ih

theorem Digraph.InnerFirst.of_concat {names : List String} {last : String}
    (whole : graph.InnerFirst (names ++ [last])) : graph.InnerFirst names := by
  intro before name after split
  exact whole before name (after ++ [last]) (by rw [split, List.append_assoc, List.cons_append])

/-- The components of some names, in the order of the names. -/
def Digraph.enlisted (graph : Digraph) (names : List String) : List (List String) :=
  names.foldl graph.enlist []

theorem Digraph.enlisted_concat (names : List String) (last : String) :
    graph.enlisted (names ++ [last]) = graph.enlist (graph.enlisted names) last :=
  List.foldl_concat _ _ _ _

theorem Digraph.enlisted_origin {names component : List String}
    (listed : component ∈ graph.enlisted names) : ∃ name ∈ names, component = graph.component name := by
  induction names using List.reverseRecOn with
  | nil => exact absurd listed List.not_mem_nil
  | append_singleton names last ih =>
    have earlier (old : component ∈ graph.enlisted names) :
        ∃ name ∈ names ++ [last], component = graph.component name := by
      obtain ⟨name, member, same⟩ := ih old
      exact ⟨name, List.mem_append_left _ member, same⟩
    rw [Digraph.enlisted_concat, Digraph.enlist] at listed
    split at listed
    · exact earlier listed
    · rcases List.mem_append.mp listed with old | new
      · exact earlier old
      · exact ⟨last, List.mem_append_right _ List.mem_cons_self, List.mem_singleton.mp new⟩

end

section

variable {graph : Digraph} (proper : graph.Proper)

include proper

theorem Digraph.Proper.innerFirst_inward (start : String) :
    graph.InnerFirst (graph.closed.inward.filter (graph.closed.leads start)) := by
  intro before name after split inner leads noWay
  have sorted := (graph.closed.pairwise_inward).filter (graph.closed.leads start)
  have here : name ∈ graph.closed.inward.filter (graph.closed.leads start) :=
    split ▸ List.mem_append_right _ List.mem_cons_self
  obtain ⟨listed, reached⟩ := List.mem_filter.mp here
  have node : name ∈ graph.closed.nodes := Digraph.mem_inward.mp listed
  have there : inner ∈ graph.closed.inward.filter (graph.closed.leads start) := by
    refine List.mem_filter.mpr ⟨Digraph.mem_inward.mpr (proper.leads_node leads node), ?_⟩
    exact proper.closed_leads.mpr ((proper.closed_leads.mp reached).trans leads)
  rw [split] at there sorted
  rcases List.mem_append.mp there with earlier | later
  · exact earlier
  · have least := (List.pairwise_append.mp sorted).2.1
    rcases List.mem_cons.mp later with rfl | later
    · exact absurd .refl noWay
    · have below := (List.pairwise_cons.mp least).1 inner later
      exact absurd (proper.extent_lt node leads noWay) (Nat.not_lt.mpr below)

theorem Digraph.Proper.exists_enlisted {names : List String} (nodes : names ⊆ graph.nodes)
    {name : String} (member : name ∈ names) :
    ∃ component ∈ graph.closed.enlisted names, name ∈ component := by
  induction names using List.reverseRecOn with
  | nil => exact absurd member List.not_mem_nil
  | append_singleton names last ih =>
    rw [Digraph.enlisted_concat, Digraph.enlist]
    have old (earlier : name ∈ names) :=
      ih (fun _ inside => nodes (List.mem_append_left _ inside)) earlier
    split
    · rename_i known
      rcases List.mem_append.mp member with earlier | here
      · exact old earlier
      · obtain ⟨component, listed, inside⟩ := List.any_eq_true.mp known
        rw [List.mem_singleton.mp here]
        exact ⟨component, listed, List.contains_iff_mem.mp inside⟩
    · rcases List.mem_append.mp member with earlier | here
      · obtain ⟨component, listed, inside⟩ := old earlier
        exact ⟨component, List.mem_append_left _ listed, inside⟩
      · refine ⟨_, List.mem_append_right _ List.mem_cons_self, ?_⟩
        rw [List.mem_singleton.mp here, proper.mem_component]
        exact ⟨nodes (List.mem_append_right _ List.mem_cons_self), .refl, .refl⟩

/-- No component leads to a later one. A name that an earlier one leads to was there before that, and so
was its component. -/
theorem Digraph.Proper.pairwise_enlisted {names : List String} (nodes : names ⊆ graph.nodes)
    (inner : graph.InnerFirst names) :
    (graph.closed.enlisted names).Pairwise fun earlier later =>
      ∀ a ∈ earlier, ∀ b ∈ later, ¬ graph.Leads a b := by
  induction names using List.reverseRecOn with
  | nil => exact .nil
  | append_singleton names last ih =>
    have within : names ⊆ graph.nodes := fun _ inside => nodes (List.mem_append_left _ inside)
    rw [Digraph.enlisted_concat, Digraph.enlist]
    split
    · exact ih within inner.of_concat
    · rename_i unlisted
      refine List.pairwise_append.mpr ⟨ih within inner.of_concat, List.pairwise_singleton _ _, ?_⟩
      intro component listed later same a inside b insideToo leads
      rw [List.mem_singleton.mp same, proper.mem_component] at insideToo
      obtain ⟨name, member, rfl⟩ := Digraph.enlisted_origin listed
      have there : graph.Leads name last :=
        ((proper.mem_component.mp inside).2.1.trans leads).trans insideToo.2.2
      refine unlisted (List.any_eq_true.mpr ?_)
      simp only [List.contains_iff_mem]
      by_cases back : graph.Leads last name
      · refine ⟨_, listed, proper.mem_component.mpr ⟨?_, there, back⟩⟩
        exact nodes (List.mem_append_right _ List.mem_cons_self)
      · obtain ⟨before, after, rfl⟩ := List.append_of_mem member
        have earlier := inner.of_concat before name after rfl last there back
        exact proper.exists_enlisted within (List.mem_append_left _ earlier)

end

/-- The names in the order in which their components are listed. -/
def Digraph.order (graph : Digraph) : List String :=
  graph.nodes.flatMap fun name => graph.inward.filter (graph.leads name)

theorem Digraph.components_eq (graph : Digraph) :
    graph.components = graph.closed.enlisted graph.closed.order := rfl

section

variable {graph : Digraph} (proper : graph.Proper)

include proper

theorem Digraph.Proper.mem_order {name : String} : name ∈ graph.closed.order ↔ name ∈ graph.nodes := by
  simp only [Digraph.order, List.mem_flatMap, List.mem_filter, Digraph.mem_inward, proper.closed_leads]
  exact ⟨fun ⟨_, _, node, _⟩ => node, fun node => ⟨name, node, node, .refl⟩⟩

theorem Digraph.Proper.component_origin {component : List String}
    (listed : component ∈ graph.components) :
    ∃ name ∈ graph.nodes, component = graph.closed.component name := by
  rw [graph.components_eq] at listed
  obtain ⟨name, member, same⟩ := Digraph.enlisted_origin listed
  exact ⟨name, proper.mem_order.mp member, same⟩

theorem Digraph.Proper.exists_component {name : String} (node : name ∈ graph.nodes) :
    ∃ component ∈ graph.components, name ∈ component := by
  rw [graph.components_eq]
  exact proper.exists_enlisted (fun _ => proper.mem_order.mp) (proper.mem_order.mpr node)

theorem Digraph.Proper.mem_of_leads {component : List String} (listed : component ∈ graph.components)
    {a b : String} (member : a ∈ component) :
    b ∈ component ↔ graph.Leads a b ∧ graph.Leads b a := by
  obtain ⟨centre, _, rfl⟩ := proper.component_origin listed
  rw [proper.mem_component] at member ⊢
  constructor
  · rintro ⟨_, there, back⟩
    exact ⟨member.2.2.trans there, back.trans member.2.1⟩
  · rintro ⟨there, back⟩
    exact ⟨proper.leads_node there member.1, member.2.1.trans there, back.trans member.2.2⟩

/-- Components come innermost first. -/
theorem Digraph.Proper.pairwise_components :
    graph.components.Pairwise fun earlier later => ∀ a ∈ earlier, ∀ b ∈ later, ¬ graph.Leads a b := by
  rw [graph.components_eq]
  exact proper.pairwise_enlisted (fun _ => proper.mem_order.mp) (.flatMap proper.innerFirst_inward)

theorem Digraph.Proper.isCircle_of_path {component : List String}
    (listed : component ∈ graph.components) {name : String} (member : name ∈ component)
    (loops : graph.Path name name) : graph.isCircle component = true := by
  match component with
  | [] => rfl
  | [single] =>
    -- The next name on the way round belongs to the component, so it is the same.
    obtain ⟨next, edge, back⟩ := Relation.TransGen.head'_iff.mp loops
    have inside := (proper.mem_of_leads listed member).mpr ⟨.single edge, back⟩
    rw [List.mem_singleton] at member inside
    rw [member, inside] at edge
    exact List.contains_iff_mem.mpr edge
  | _ :: _ :: _ => rfl

theorem Digraph.Proper.path_of_isCircle (distinct : graph.nodes.Nodup) {component : List String}
    (listed : component ∈ graph.components) (circular : graph.isCircle component = true)
    {name : String} (member : name ∈ component) : graph.Path name name := by
  have apart : component.Nodup := by
    obtain ⟨centre, _, rfl⟩ := proper.component_origin listed
    exact distinct.filter _
  have round {other : String} (inside : other ∈ component) (differ : other ≠ name) :
      graph.Path name name := by
    obtain ⟨there, back⟩ := (proper.mem_of_leads listed member).mp inside
    exact (there.path_of_ne differ).trans_left back
  match component with
  | [single] =>
    rw [List.mem_singleton.mp member]
    exact .single (List.contains_iff_mem.mp circular)
  | first :: second :: others =>
    by_cases here : first = name
    · have differ : second ≠ name := by
        rintro rfl
        exact (List.nodup_cons.mp apart).1 (here ▸ List.mem_cons_self)
      exact round (List.mem_cons_of_mem _ List.mem_cons_self) differ
    · exact round List.mem_cons_self here

theorem Digraph.Proper.acyclic_of_circle? (none : graph.circle? = none) (name : String) :
    ¬ graph.Path name name := by
  intro loops
  obtain ⟨component, listed, member⟩ := proper.exists_component (proper.path_nodes loops).1
  exact List.find?_eq_none.mp none component listed (proper.isCircle_of_path listed member loops)

theorem Digraph.Proper.circle?_eq_none_iff (distinct : graph.nodes.Nodup) :
    graph.circle? = none ↔ ∀ name, ¬ graph.Path name name := by
  refine ⟨proper.acyclic_of_circle?, fun acyclic => List.find?_eq_none.mpr ?_⟩
  intro component listed circular
  obtain ⟨centre, node, rfl⟩ := proper.component_origin listed
  have inside := proper.mem_component.mpr ⟨node, .refl, .refl⟩
  exact acyclic centre (proper.path_of_isCircle distinct listed circular inside)

/-- A circle is a whole component: the nodes that some looping name leads to and that lead back. No other
circle can be reached from it. -/
theorem Digraph.Proper.circle?_eq_some (distinct : graph.nodes.Nodup) {circle : List String}
    (found : graph.circle? = some circle) :
    circle.Sublist graph.nodes ∧ ∃ name, graph.Path name name ∧
      (∀ other, other ∈ circle ↔ graph.Path name other ∧ graph.Path other name) ∧
      ∀ other, graph.Path name other → graph.Path other other → graph.Path other name := by
  obtain ⟨circular, before, after, split, passed⟩ := List.find?_eq_some_iff_append.mp found
  have listed : circle ∈ graph.components := List.mem_of_find?_eq_some found
  obtain ⟨name, node, same⟩ := proper.component_origin listed
  have inside : name ∈ circle := by
    rw [same, proper.mem_component]
    exact ⟨node, .refl, .refl⟩
  have loops := proper.path_of_isCircle distinct listed circular inside
  have around (other : String) : other ∈ circle ↔ graph.Path name other ∧ graph.Path other name := by
    rw [proper.mem_of_leads listed inside]
    constructor
    · exact fun ⟨there, back⟩ => ⟨loops.trans_left there, Relation.TransGen.trans_right back loops⟩
    · exact fun ⟨there, back⟩ => ⟨there.to_reflTransGen, back.to_reflTransGen⟩
  refine ⟨same ▸ List.filter_sublist, name, loops, around, fun other there loopsToo => ?_⟩
  obtain ⟨component, listedToo, memberToo⟩ := proper.exists_component (proper.path_nodes there).2
  have order := proper.pairwise_components
  rw [split] at listedToo order
  -- Components before the circle hold none, and those after it are not reached from it.
  rcases List.mem_append.mp listedToo with earlier | later
  · have round := proper.isCircle_of_path (split ▸ listedToo) memberToo loopsToo
    exact absurd round (by simpa using passed component earlier)
  · rcases List.mem_cons.mp later with rfl | later
    · exact ((around other).mp memberToo).2
    · have apart := (List.pairwise_cons.mp (List.pairwise_append.mp order).2.1).1 component later
      exact absurd there.to_reflTransGen (apart name inside other memberToo)

end

end TraitCoherence
