import Mathlib.Data.Finset.Card
import Mathlib.Logic.Relation
import TraitCoherence.Digraph

namespace TraitCoherence

def Digraph.Edge (graph : Digraph) (a b : String) : Prop := b ∈ graph.next a

/-- A way along one or more edges. -/
def Digraph.Path (graph : Digraph) : String → String → Prop := Relation.TransGen graph.Edge

/-- Edges join nodes. -/
structure Digraph.Proper (graph : Digraph) : Prop where
  source : ∀ a b, graph.Edge a b → a ∈ graph.nodes
  target : ∀ a b, graph.Edge a b → b ∈ graph.nodes

theorem Digraph.Proper.path_nodes {graph : Digraph} (proper : graph.Proper) {a b : String}
    (path : graph.Path a b) : a ∈ graph.nodes ∧ b ∈ graph.nodes := by
  induction path with
  | single edge => exact ⟨proper.source _ _ edge, proper.target _ _ edge⟩
  | tail _ edge ih => exact ⟨ih.1, proper.target _ _ edge⟩

/-- What is seen lies at the ends of paths from the start, and whatever can still be missing lies one
edge from the latest names. -/
structure Digraph.Spreading (graph : Digraph) (start : String) (seen latest : List String) : Prop where
  reached : ∀ name ∈ seen, graph.Path start name
  front : ∀ name ∈ latest, name = start ∨ name ∈ seen
  settled : ∀ name, name = start ∨ name ∈ seen →
    name ∈ latest ∨ ∀ next, graph.Edge name next → next ∈ seen

theorem Digraph.Spreading.start (graph : Digraph) (name : String) :
    graph.Spreading name [] [name] := by
  constructor
  · exact fun other member => absurd member List.not_mem_nil
  · exact fun other member => Or.inl (List.mem_singleton.mp member)
  · intro other shown
    have here := shown.resolve_right List.not_mem_nil
    exact Or.inl (List.mem_singleton.mpr here)

/-- The names that one round adds. -/
def Digraph.found (graph : Digraph) (seen latest : List String) : List String :=
  (latest.flatMap graph.next).eraseDups.filter fun name => !seen.contains name

theorem Digraph.mem_found {graph : Digraph} {seen latest : List String} {name : String} :
    name ∈ graph.found seen latest ↔ (∃ last ∈ latest, graph.Edge last name) ∧ name ∉ seen := by
  simp only [Digraph.found, List.mem_filter, List.mem_eraseDups, List.mem_flatMap, Digraph.Edge,
    Bool.not_eq_true', List.contains_eq_mem, decide_eq_false_iff_not]

theorem Digraph.spread_succ (graph : Digraph) (rounds : Nat) (seen latest : List String) :
    graph.spread (rounds + 1) seen latest =
      if (graph.found seen latest).isEmpty then seen
      else graph.spread rounds (seen ++ graph.found seen latest) (graph.found seen latest) := rfl

theorem Digraph.Spreading.next {graph : Digraph} {start : String} {seen latest : List String}
    (spreading : graph.Spreading start seen latest) :
    graph.Spreading start (seen ++ graph.found seen latest) (graph.found seen latest) := by
  constructor
  · intro name member
    rcases List.mem_append.mp member with old | new
    · exact spreading.reached name old
    · obtain ⟨⟨last, inside, edge⟩, _⟩ := Digraph.mem_found.mp new
      rcases spreading.front last inside with rfl | earlier
      · exact .single edge
      · exact .tail (spreading.reached last earlier) edge
  · exact fun name member => Or.inr (List.mem_append_right _ member)
  · intro name shown
    by_cases new : name ∈ graph.found seen latest
    · exact Or.inl new
    have old : name = start ∨ name ∈ seen :=
      shown.imp id fun member => (List.mem_append.mp member).resolve_right new
    refine Or.inr fun next edge => List.mem_append.mpr ?_
    rcases spreading.settled name old with last | done
    · by_cases known : next ∈ seen
      · exact Or.inl known
      · exact Or.inr (Digraph.mem_found.mpr ⟨⟨name, last, edge⟩, known⟩)
    · exact Or.inl (done next edge)

theorem Digraph.Spreading.complete {graph : Digraph} {start : String} {seen latest : List String}
    (spreading : graph.Spreading start seen latest) (finished : graph.found seen latest = [])
    {name : String} (path : graph.Path start name) : name ∈ seen := by
  have closed (last next : String) (shown : last = start ∨ last ∈ seen)
      (edge : graph.Edge last next) : next ∈ seen := by
    rcases spreading.settled last shown with front | done
    · by_contra missing
      have new := Digraph.mem_found.mpr ⟨⟨last, front, edge⟩, missing⟩
      rw [finished] at new
      exact absurd new List.not_mem_nil
    · exact done next edge
  induction path with
  | single edge => exact closed start _ (Or.inl rfl) edge
  | tail _ edge ih => exact closed _ _ (Or.inr ih) edge

/-- Each round that goes on finds a new node, so more rounds than there are unseen nodes see all. -/
theorem Digraph.Spreading.mem_spread {graph : Digraph} (proper : graph.Proper) {start : String}
    {seen latest : List String} (spreading : graph.Spreading start seen latest) {rounds : Nat}
    (enough : graph.nodes.toFinset.card < seen.toFinset.card + rounds) {name : String} :
    name ∈ graph.spread rounds seen latest ↔ graph.Path start name := by
  induction rounds generalizing seen latest with
  | zero =>
    have inside : seen.toFinset ⊆ graph.nodes.toFinset := by
      intro other member
      have path := spreading.reached other (List.mem_toFinset.mp member)
      exact List.mem_toFinset.mpr (proper.path_nodes path).2
    have few := Finset.card_le_card inside
    omega
  | succ rounds ih =>
    rw [Digraph.spread_succ]
    split
    · rename_i finished
      exact ⟨spreading.reached name, spreading.complete (List.isEmpty_iff.mp finished)⟩
    · rename_i unfinished
      apply ih spreading.next
      obtain ⟨new, member⟩ := List.exists_mem_of_ne_nil _ (mt List.isEmpty_iff.mpr unfinished)
      have unseen := (Digraph.mem_found.mp member).2
      have more : seen.toFinset.card < (seen ++ graph.found seen latest).toFinset.card := by
        apply Finset.card_lt_card
        rw [List.toFinset_append]
        refine Finset.ssubset_iff_subset_ne.mpr ⟨Finset.subset_union_left, fun same => unseen ?_⟩
        rw [← List.mem_toFinset, same]
        exact Finset.mem_union_right _ (List.mem_toFinset.mpr member)
      omega

theorem Digraph.Proper.mem_reach {graph : Digraph} (proper : graph.Proper) {a b : String} :
    b ∈ graph.reach a ↔ graph.Path a b := by
  apply (Digraph.Spreading.start graph a).mem_spread proper
  have few := graph.nodes.toFinset_card_le
  rw [List.toFinset_nil, Finset.card_empty]
  omega

theorem lookup_map_self {α : Type} (f : String → α) {names : List String} {name : String}
    (member : name ∈ names) : (names.map fun name => (name, f name)).lookup name = some (f name) := by
  induction names with
  | nil => exact absurd member List.not_mem_nil
  | cons first names ih =>
    rw [List.map_cons, List.lookup_cons]
    by_cases here : name = first
    · rw [here, beq_self_eq_true]
    · have differ : (name == first) = false := beq_false_of_ne here
      rw [differ]
      exact ih ((List.mem_cons.mp member).resolve_left here)

/-- The edges of the closed graph are the paths of the graph. -/
theorem Digraph.Proper.mem_closed_next {graph : Digraph} (proper : graph.Proper) {a b : String} :
    b ∈ graph.closed.next a ↔ graph.Path a b := by
  by_cases node : a ∈ graph.nodes
  · simp only [Digraph.closed, lookup_map_self _ node, Option.getD_some]
    exact proper.mem_reach
  · have missing : (graph.nodes.map fun name => (name, graph.reach name)).lookup a = none := by
      apply List.lookup_eq_none_iff.mpr
      intro entry member
      obtain ⟨name, inside, rfl⟩ := List.mem_map.mp member
      exact bne_iff_ne.mpr fun same => node (same ▸ inside)
    have nothing : graph.closed.next a = [] := by
      simp only [Digraph.closed, missing, Option.getD_none]
    rw [nothing]
    exact iff_of_false List.not_mem_nil fun path => node (proper.path_nodes path).1

end TraitCoherence
