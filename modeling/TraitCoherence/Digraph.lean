import TraitCoherence.Arrange

namespace TraitCoherence

/-- A directed graph on names. -/
structure Digraph where
  nodes : List String
  next : String → List String

/-- Adds, round by round, what one edge leads to from the names found last. Every round but the last finds
a new name, so as many rounds as there are names leave nothing out. -/
def Digraph.spread (graph : Digraph) : Nat → List String → List String → List String
  | 0, seen, _ => seen
  | rounds + 1, seen, latest =>
    let found := (latest.flatMap graph.next).eraseDups.filter fun name => !seen.contains name
    if found.isEmpty then seen else graph.spread rounds (seen ++ found) found

/-- The names at the ends of paths of at least one edge. -/
def Digraph.reach (graph : Digraph) (name : String) : List String :=
  graph.spread (graph.nodes.length + 1) [] [name]

/-- The graph with an edge for every path. -/
def Digraph.closed (graph : Digraph) : Digraph :=
  let table := graph.nodes.map fun name => (name, graph.reach name)
  ⟨graph.nodes, fun name => (table.lookup name).getD []⟩

/-- Whether a name is another one or has an edge to it. -/
def Digraph.leads (graph : Digraph) (name other : String) : Bool :=
  name == other || (graph.next name).contains other

/-- The names that a name leads to and that lead back to it. -/
def Digraph.component (graph : Digraph) (name : String) : List String :=
  graph.nodes.filter fun other => graph.leads name other && graph.leads other name

/-- How many names a name leads to. -/
def Digraph.extent (graph : Digraph) (name : String) : Nat :=
  (graph.nodes.filter (graph.leads name)).length

/-- All names, those that lead to fewer first. -/
def Digraph.inward (graph : Digraph) : List String :=
  let sized := graph.nodes.map fun name => (graph.extent name, name)
  (arrange (fun a b => a.1 ≤ b.1) sized).map (·.2)

/-- Lists the component of a name, unless it is listed already. -/
def Digraph.enlist (graph : Digraph) (listed : List (List String)) (name : String) :
    List (List String) :=
  if listed.any (·.contains name) then listed else listed ++ [graph.component name]

/-- The sets of names that paths join both ways, from one name after the other. A set comes after those
that paths lead to from it. -/
def Digraph.components (graph : Digraph) : List (List String) :=
  let closed := graph.closed
  let inward := closed.inward
  let order := closed.nodes.flatMap fun name => inward.filter (closed.leads name)
  order.foldl closed.enlist []

/-- Whether a component holds a circle. A single name does so only if it has an edge to itself. -/
def Digraph.isCircle (graph : Digraph) : List String → Bool
  | [name] => (graph.next name).contains name
  | _ => true

/-- The first component that holds a circle. -/
def Digraph.circle? (graph : Digraph) : Option (List String) :=
  graph.components.find? graph.isCircle

end TraitCoherence
