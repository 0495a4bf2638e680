/-
The dependency graph of the capability resolver: strongly connected components and a deterministic
topological order.

Both algorithms keep their working state in a record that the loops pass on. The recursion of
`visit` goes one level deeper only at a node it has not seen, and the loop of the topological order
runs once for each node that becomes ready; the fuel is the number of nodes and edges.
-/
import Mathlib.Data.List.AList
import Mathlib.Data.List.Sort

set_option autoImplicit false

namespace TegoNext

/-- `DirectedGraph`. A set of targets is a list without repetitions. -/
structure DirectedGraph (Node : Type) where
  nodes : List Node
  outgoing : AList fun _ : Node => List Node

section Graph

variable {Node : Type} [DecidableEq Node]

/-- `[...values].sort(compare)`. -/
def sortBy {α : Type} (compare : α → α → Ordering) (values : List α) : List α :=
  values.insertionSort fun left right => compare left right ≠ .gt

theorem mem_sortBy {α : Type} {compare : α → α → Ordering} {values : List α} {a : α} :
    a ∈ sortBy compare values ↔ a ∈ values :=
  List.mem_insertionSort _

theorem sortBy_perm {α : Type} (compare : α → α → Ordering) (values : List α) :
    (sortBy compare values).Perm values :=
  List.perm_insertionSort _ _

theorem sortBy_eq_nil {α : Type} {compare : α → α → Ordering} {values : List α} :
    sortBy compare values = [] ↔ values = [] :=
  ⟨fun h => (h ▸ sortBy_perm compare values).symm.eq_nil, fun h => by rw [h]; rfl⟩

namespace DirectedGraph

def targets (graph : DirectedGraph Node) (node : Node) : List Node :=
  (graph.outgoing.lookup node).getD []

/-- `outgoing.get(source)?.add(target)`. -/
def addEdge (graph : DirectedGraph Node) (source target : Node) : DirectedGraph Node :=
  match graph.outgoing.lookup source with
  | none => graph
  | some targets =>
    if targets.contains target then graph
    else { graph with outgoing := graph.outgoing.insert source (targets ++ [target]) }

def edgeCount (graph : DirectedGraph Node) : Nat :=
  graph.outgoing.entries.foldl (fun count entry => count + entry.2.length) 0

end DirectedGraph

/-! ## Strongly connected components -/

/-- The maps, the stack and the result of the depth-first search. -/
structure SearchState (Node : Type) where
  nextIndex : Nat
  indices : AList fun _ : Node => Nat
  lowLinks : AList fun _ : Node => Nat
  stack : List Node
  components : List (List Node)

namespace SearchState

variable (state : SearchState Node) (node : Node)

def lowLink : Nat := (state.lowLinks.lookup node).getD 0

def index : Nat := (state.indices.lookup node).getD 0

/-- Number the node and push it. -/
def enter : SearchState Node where
  nextIndex := state.nextIndex + 1
  indices := state.indices.insert node state.nextIndex
  lowLinks := state.lowLinks.insert node state.nextIndex
  stack := node :: state.stack
  components := state.components

/-- Lower the low link of `node` to at most `bound`. -/
def lower (bound : Nat) : SearchState Node :=
  { state with lowLinks := state.lowLinks.insert node (min (state.lowLink node) bound) }

/-- A root closes its component: everything on the stack above it. -/
def leave (compare : Node → Node → Ordering) (state : SearchState Node) (node : Node) :
    SearchState Node :=
  if state.lowLinks.lookup node = state.indices.lookup node then
    { state with
      stack := (state.stack.dropWhile (· ≠ node)).drop 1
      components :=
        state.components ++ [sortBy compare (state.stack.takeWhile (· ≠ node) ++ [node])] }
  else state

end SearchState

def visit (graph : DirectedGraph Node) (compare : Node → Node → Ordering) :
    Nat → Node → SearchState Node → SearchState Node
  | 0, _, state => state
  | fuel + 1, node, state =>
    ((sortBy compare (graph.targets node)).foldl
      (fun state neighbor =>
        if (state.indices.lookup neighbor).isNone then
          let state := visit graph compare fuel neighbor state
          state.lower node (state.lowLink neighbor)
        else if state.stack.contains neighbor then state.lower node (state.index neighbor)
        else state)
      (state.enter node)).leave compare node

def stronglyConnectedComponents (graph : DirectedGraph Node) (compare : Node → Node → Ordering) :
    List (List Node) :=
  let final := (sortBy compare graph.nodes).foldl
    (fun state node =>
      if (state.indices.lookup node).isNone then
        visit graph compare (graph.nodes.length + graph.edgeCount + 1) node state
      else state)
    ⟨0, ∅, ∅, [], []⟩
  sortBy
    (fun left right =>
      match left, right with
      | l :: _, r :: _ => compare l r
      | _, _ => .eq)
    final.components

/-! ## Topological order -/

def orderLoop (graph : DirectedGraph Node) (compare : Node → Node → Ordering) :
    Nat → (Node → Int) → List Node → List Node → List Node
  | 0, _, _, order => order
  | _ + 1, _, [], order => order
  | fuel + 1, incoming, node :: ready, order =>
    let (incoming, ready) := (sortBy compare (graph.targets node)).foldl
      (fun (state : (Node → Int) × List Node) target =>
        let next := state.1 target - 1
        (fun n => if n = target then next else state.1 n,
          if next = 0 then sortBy compare (state.2 ++ [target]) else state.2))
      (incoming, ready)
    orderLoop graph compare fuel incoming ready (order ++ [node])

def topologicalOrder (graph : DirectedGraph Node) (compare : Node → Node → Ordering) :
    Option (List Node) :=
  let incoming : Node → Int := fun node =>
    (graph.outgoing.entries.foldl (fun count entry => count + entry.2.count node) 0 : Nat)
  let ready := sortBy compare (graph.nodes.filter fun node => incoming node = 0)
  let order := orderLoop graph compare (graph.nodes.length + graph.edgeCount + 1) incoming ready []
  if order.length = graph.nodes.length then some order else none

end Graph

end TegoNext
