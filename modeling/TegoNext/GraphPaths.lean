/-
Paths and cycles of a directed graph.

A graph keeps a list of its nodes and a map from each node to its targets. When it has no cycle,
adding an edge closes one just when the edge's target reaches its source; an order of the nodes in
which every edge points the same way is all there is to say.
-/
import TegoNext.CapabilityGraph
import Mathlib.Data.Fintype.EquivFin
import Mathlib.Order.WellFounded

set_option autoImplicit false

namespace TegoNext

open Relation List AList

theorem append_singleton_split {α : Type} {list before after : List α} {x a : α}
    (h : list ++ [x] = before ++ a :: after) :
    (before = list ∧ a = x) ∨ ∃ init, list = before ++ a :: init := by
  rcases eq_nil_or_concat after with rfl | ⟨init, last, rfl⟩
  · obtain ⟨hbefore, hx⟩ := append_inj' h rfl
    exact .inl ⟨hbefore.symm, (singleton_inj.mp hx).symm⟩
  · have hsplit : list ++ [x] = (before ++ a :: init) ++ [last] := by simpa using h
    exact .inr ⟨init, (append_inj' hsplit rfl).1⟩

namespace DirectedGraph

variable {Node : Type} [DecidableEq Node] {graph : DirectedGraph Node}

/-! ## Edges -/

def Edge (graph : DirectedGraph Node) (source target : Node) : Prop := target ∈ graph.targets source

def Acyclic (graph : DirectedGraph Node) : Prop := ∀ node, ¬TransGen graph.Edge node node

structure WellFormed (graph : DirectedGraph Node) : Prop where
  nodup : graph.nodes.Nodup
  mem_outgoing : ∀ node, node ∈ graph.outgoing ↔ node ∈ graph.nodes
  targets_nodup : ∀ node, (graph.targets node).Nodup
  target_mem : ∀ source target, graph.Edge source target → target ∈ graph.nodes

variable {source target : Node}

theorem Edge.source_mem_outgoing (h : graph.Edge source target) : source ∈ graph.outgoing := by
  unfold Edge targets at h
  cases hlookup : graph.outgoing.lookup source with
  | none =>
    rw [hlookup] at h
    cases h
  | some targets => exact lookup_isSome.mp (by rw [hlookup]; rfl)

theorem WellFormed.source_mem (h : graph.WellFormed)
    (hedge : graph.Edge source target) : source ∈ graph.nodes :=
  (h.mem_outgoing source).mp hedge.source_mem_outgoing

/-- The nodes come once each and the edges lead between them. A node without targets may do
without its set. -/
structure Closed (graph : DirectedGraph Node) : Prop where
  nodup : graph.nodes.Nodup
  targets_nodup : ∀ node, (graph.targets node).Nodup
  source_mem : ∀ {source target}, graph.Edge source target → source ∈ graph.nodes
  target_mem : ∀ source target, graph.Edge source target → target ∈ graph.nodes

theorem WellFormed.closed (h : graph.WellFormed) : graph.Closed :=
  ⟨h.nodup, h.targets_nodup, h.source_mem, h.target_mem⟩

/-! ## Adding an edge -/

theorem targets_addEdge (source target node : Node) :
    (graph.addEdge source target).targets node =
      if node = source ∧ source ∈ graph.outgoing ∧ target ∉ graph.targets source then
        graph.targets source ++ [target]
      else graph.targets node := by
  unfold addEdge
  cases hlookup : graph.outgoing.lookup source with
  | none =>
    have hnot := AList.lookup_eq_none.mp hlookup
    rw [if_neg fun h => hnot h.2.1]
  | some values =>
    have hin : source ∈ graph.outgoing := lookup_isSome.mp (by rw [hlookup]; rfl)
    have hvalues : graph.targets source = values := by
      unfold targets
      rw [hlookup]
      rfl
    dsimp only
    rw [hvalues]
    by_cases hmem : target ∈ values
    · rw [if_pos (contains_iff_mem.mpr hmem), if_neg fun h => h.2.2 hmem]
    rw [if_neg (mt contains_iff_mem.mp hmem)]
    by_cases hnode : node = source
    · rw [if_pos ⟨hnode, hin, hmem⟩, hnode]
      unfold targets
      rw [lookup_insert]
      rfl
    · rw [if_neg fun h => hnode h.1]
      unfold targets
      rw [lookup_insert_ne hnode]

theorem addEdge_edge {a b : Node} :
    (graph.addEdge source target).Edge a b ↔
      graph.Edge a b ∨ a = source ∧ b = target ∧ source ∈ graph.outgoing := by
  unfold Edge
  rw [targets_addEdge]
  split
  · next h =>
    obtain ⟨rfl, hin, _⟩ := h
    rw [mem_append, mem_singleton]
    exact or_congr_right ⟨fun hb => ⟨rfl, hb, hin⟩, fun hb => hb.2.1⟩
  · next h =>
    refine ⟨.inl, fun hb => hb.elim id ?_⟩
    rintro ⟨rfl, rfl, hin⟩
    by_contra hnot
    exact h ⟨rfl, hin, hnot⟩

@[simp] theorem nodes_addEdge (source target : Node) :
    (graph.addEdge source target).nodes = graph.nodes := by
  unfold addEdge
  split
  · rfl
  · split <;> rfl

theorem mem_outgoing_addEdge {node : Node} :
    node ∈ (graph.addEdge source target).outgoing ↔ node ∈ graph.outgoing := by
  unfold addEdge
  cases hlookup : graph.outgoing.lookup source with
  | none => exact Iff.rfl
  | some values =>
    dsimp only
    split
    · exact Iff.rfl
    rw [mem_insert]
    refine ⟨fun h => h.elim (fun heq => ?_) id, .inr⟩
    rw [heq]
    exact lookup_isSome.mp (by rw [hlookup]; rfl)

theorem WellFormed.addEdge (h : graph.WellFormed)
    (htarget : target ∈ graph.nodes) : (graph.addEdge source target).WellFormed where
  nodup := by
    rw [nodes_addEdge]
    exact h.nodup
  mem_outgoing node := by
    rw [nodes_addEdge, mem_outgoing_addEdge]
    exact h.mem_outgoing node
  targets_nodup node := by
    rw [targets_addEdge]
    split
    · next hnew =>
      exact (h.targets_nodup source).append (nodup_singleton target)
        (disjoint_singleton.mpr hnew.2.2)
    · exact h.targets_nodup node
  target_mem a b hedge := by
    rw [nodes_addEdge]
    rcases addEdge_edge.mp hedge with hold | ⟨_, rfl, _⟩
    · exact h.target_mem a b hold
    · exact htarget

/-! ## Cycles through a new edge -/

/-- A path in the graph with the new edge does without it, or goes through it: then there are
the part before it is first taken and the part after it is last taken. -/
theorem path_addEdge {a b : Node} (h : ReflTransGen (graph.addEdge source target).Edge a b) :
    ReflTransGen graph.Edge a b ∨
      ReflTransGen graph.Edge a source ∧ ReflTransGen graph.Edge target b := by
  induction h with
  | refl => exact .inl .refl
  | tail _ hedge ih =>
    rcases addEdge_edge.mp hedge with hold | ⟨rfl, rfl, _⟩
    · rcases ih with hpath | ⟨hbefore, hafter⟩
      · exact .inl (hpath.tail hold)
      · exact .inr ⟨hbefore, hafter.tail hold⟩
    · rcases ih with hpath | ⟨hbefore, _⟩
      · exact .inr ⟨hpath, .refl⟩
      · exact .inr ⟨hbefore, .refl⟩

/-- **An edge whose target does not reach its source closes no cycle.** -/
theorem Acyclic.addEdge (h : graph.Acyclic)
    (hpath : ¬ReflTransGen graph.Edge target source) : (graph.addEdge source target).Acyclic := by
  intro node hcycle
  obtain ⟨next, hedge, hback⟩ := TransGen.head'_iff.mp hcycle
  rcases addEdge_edge.mp hedge with hold | ⟨rfl, rfl, _⟩
  · rcases path_addEdge hback with hpath' | ⟨hbefore, hafter⟩
    · exact h node (TransGen.head' hold hpath')
    · exact hpath (hafter.trans (hbefore.head hold))
  · rcases path_addEdge hback with hpath' | ⟨hbefore, _⟩
    · exact hpath hpath'
    · exact hpath hbefore

theorem not_acyclic_addEdge (hsource : source ∈ graph.outgoing)
    (hpath : ReflTransGen graph.Edge target source) : ¬(graph.addEdge source target).Acyclic := by
  intro hacyclic
  have hedge : (graph.addEdge source target).Edge source target :=
    addEdge_edge.mpr (.inr ⟨rfl, rfl, hsource⟩)
  have hpath' : ReflTransGen (graph.addEdge source target).Edge target source :=
    ReflTransGen.mono (fun _ _ h => addEdge_edge.mpr (.inl h)) _ _ hpath
  exact hacyclic source (TransGen.head' hedge hpath')

/-! ## Orders of the nodes -/

/-- In a list without repetitions in which every node with targets stands, each behind all its
targets, there is room for no cycle. -/
theorem acyclic_of_list {list : List Node} (hnodup : list.Nodup)
    (hmem : ∀ a b, graph.Edge a b → a ∈ list)
    (hbefore : ∀ before a after, list = before ++ a :: after → ∀ b, graph.Edge a b → b ∈ before) :
    graph.Acyclic := by
  intro node hcycle
  have hpath : ∀ {a b}, TransGen graph.Edge a b → ∀ before after, list = before ++ a :: after →
      b ∈ before := by
    intro a b h
    induction h with
    | single hedge => exact fun before after hlist => hbefore before a after hlist _ hedge
    | tail _ hedge ih =>
      intro before after hlist
      obtain ⟨first, second, rfl⟩ := append_of_mem (ih before after hlist)
      have hnext := hbefore first _ (second ++ a :: after) (by rw [hlist]; simp) _ hedge
      exact mem_append_left _ hnext
  obtain ⟨next, hedge, _⟩ := TransGen.head'_iff.mp hcycle
  obtain ⟨before, after, hlist⟩ := append_of_mem (hmem node next hedge)
  have hin := hpath hcycle before after hlist
  rw [hlist, nodup_append] at hnodup
  exact hnodup.2.2 node hin node mem_cons_self rfl

/-- Among some of the nodes of a graph without cycles there is one into which no edge leads
from them. -/
theorem Acyclic.exists_source (h : graph.Acyclic) {nodes : List Node} (hne : nodes ≠ []) :
    ∃ node ∈ nodes, ∀ source ∈ nodes, ¬graph.Edge source node := by
  have : IsTrans {node // node ∈ nodes} fun a b => TransGen graph.Edge a.1 b.1 :=
    ⟨fun _ _ _ => TransGen.trans⟩
  have : Std.Irrefl fun a b : {node // node ∈ nodes} => TransGen graph.Edge a.1 b.1 :=
    ⟨fun a => h a.1⟩
  have hwf : WellFounded fun a b : {node // node ∈ nodes} => TransGen graph.Edge a.1 b.1 :=
    Finite.wellFounded_of_trans_of_irrefl _
  obtain ⟨first, hfirst⟩ := exists_mem_of_ne_nil nodes hne
  obtain ⟨least, _, hleast⟩ := hwf.has_min Set.univ ⟨⟨first, hfirst⟩, trivial⟩
  exact ⟨least.1, least.2, fun source hsource hedge =>
    hleast ⟨source, hsource⟩ trivial (.single hedge)⟩

end DirectedGraph

end TegoNext
