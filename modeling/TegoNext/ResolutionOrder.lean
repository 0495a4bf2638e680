/-
The order of a capability resolution.

The resolver puts its deployments in an order in which providers stand before their consumers.
The mandatory requirements give the edges that have to be followed; when they form a cycle, the
search for components finds it, and the resolution is refused. The optional ones are looked at
one after the other, and an edge is kept when it closes no cycle with those that are there.
-/
import TegoNext.CapabilitySoundness
import TegoNext.TopologicalOrder
import Mathlib.Algebra.Order.BigOperators.Group.List
import Mathlib.Algebra.Order.Group.Nat

set_option autoImplicit false

namespace TegoNext

open Relation Text List AList

/-! ## Reachability -/

section Reachable

variable {graph : DirectedGraph JsString} {target : JsString}

variable {pending visited : List JsString}

theorem reachableLoop_sound {fuel : Nat}
    (h : reachableLoop graph target fuel pending visited = true) :
    ∃ node ∈ pending, ReflTransGen graph.Edge node target := by
  induction fuel generalizing pending visited with
  | zero => cases h
  | succ fuel ih =>
    cases pending with
    | nil => cases h
    | cons current pending =>
      rw [reachableLoop] at h
      split at h
      · next heq => exact ⟨current, mem_cons_self, heq ▸ .refl⟩
      split at h
      · obtain ⟨node, hnode, hpath⟩ := ih h
        exact ⟨node, mem_cons_of_mem _ hnode, hpath⟩
      obtain ⟨node, hnode, hpath⟩ := ih h
      rcases mem_append.mp hnode with hnode | hnode
      · exact ⟨current, mem_cons_self, hpath.head (mem_reverse.mp hnode)⟩
      · exact ⟨node, mem_cons_of_mem _ hnode, hpath⟩

def unvisitedEdges (graph : DirectedGraph JsString) (visited : List JsString) : Nat :=
  ((graph.outgoing.entries.filter fun entry => entry.1 ∉ visited).map fun entry =>
    entry.2.length).sum

theorem unvisitedEdges_nil : unvisitedEdges graph [] = graph.edgeCount := by
  have hsum : ∀ (entries : List (Sigma fun _ : JsString => List JsString)) (start : Nat),
      entries.foldl (fun count entry => count + entry.2.length) start =
        start + (entries.map fun entry => entry.2.length).sum := by
    intro entries
    induction entries with
    | nil => exact fun _ => rfl
    | cons entry entries ih =>
      intro start
      rw [foldl_cons, ih, map_cons, sum_cons, Nat.add_assoc]
  unfold unvisitedEdges DirectedGraph.edgeCount
  rw [hsum, Nat.zero_add]
  simp

theorem unvisitedEdges_cons {current : JsString} {visited : List JsString}
    (hnew : current ∉ visited) :
    unvisitedEdges graph (current :: visited) + (graph.targets current).length ≤
      unvisitedEdges graph visited := by
  have hsplit : ∀ entries : List (Sigma fun _ : JsString => List JsString),
      ((entries.filter fun entry => entry.1 ∉ current :: visited).map fun entry =>
          entry.2.length).sum +
        ((entries.filter fun entry => entry.1 = current).map fun entry => entry.2.length).sum =
      ((entries.filter fun entry => entry.1 ∉ visited).map fun entry => entry.2.length).sum := by
    intro entries
    induction entries with
    | nil => rfl
    | cons entry entries ih =>
      by_cases hcurrent : entry.1 = current
      · rw [filter_cons_of_neg (by simp [hcurrent]),
          filter_cons_of_pos (by simp [hcurrent]),
          filter_cons_of_pos (by simp [hcurrent, hnew]), map_cons, map_cons,
          sum_cons, sum_cons, ← ih]
        omega
      · by_cases hvisited : entry.1 ∈ visited
        · rw [filter_cons_of_neg (by simp [hvisited]),
            filter_cons_of_neg (by simp [hcurrent]),
            filter_cons_of_neg (by simp [hvisited]), ih]
        · rw [filter_cons_of_pos (by simp [hcurrent, hvisited]),
            filter_cons_of_neg (by simp [hcurrent]),
            filter_cons_of_pos (by simp [hvisited]), map_cons, map_cons,
            sum_cons, sum_cons, ← ih]
          omega
  have htargets : (graph.targets current).length ≤
      ((graph.outgoing.entries.filter fun entry => entry.1 = current).map fun entry =>
        entry.2.length).sum := by
    unfold DirectedGraph.targets
    cases hlookup : graph.outgoing.lookup current with
    | none => exact Nat.zero_le _
    | some targets =>
      have hmem : ⟨current, targets⟩ ∈ graph.outgoing.entries := mem_lookup_iff.mp hlookup
      refine single_le_sum (fun _ _ => Nat.zero_le _) targets.length ?_
      exact mem_map.mpr ⟨⟨current, targets⟩, mem_filter.mpr ⟨hmem, decide_eq_true rfl⟩, rfl⟩
  unfold unvisitedEdges
  rw [← hsplit]
  exact Nat.add_le_add_left htargets _

theorem known_of_visited {current node : JsString}
    (hcurrent : current ∈ visited) (h : node ∈ visited ∨ node ∈ current :: pending) :
    node ∈ visited ∨ node ∈ pending := by
  rcases h with h | h
  · exact .inl h
  · rcases mem_cons.mp h with rfl | h
    · exact .inl hcurrent
    · exact .inr h

theorem known_of_visiting {current node : JsString}
    (more : List JsString) (h : node ∈ visited ∨ node ∈ current :: pending) :
    node ∈ current :: visited ∨ node ∈ more ++ pending := by
  rcases h with h | h
  · exact .inl (mem_cons_of_mem _ h)
  · rcases mem_cons.mp h with rfl | h
    · exact .inl mem_cons_self
    · exact .inr (mem_append_right _ h)

/-- With enough fuel, what the search does not find is not reachable from what was visited or is
pending. -/
theorem reachableLoop_complete {fuel : Nat}
    (hclosed : ∀ v ∈ visited, ∀ w, graph.Edge v w → w ∈ visited ∨ w ∈ pending)
    (htarget : target ∉ visited) (hfuel : pending.length + unvisitedEdges graph visited < fuel)
    (h : reachableLoop graph target fuel pending visited = false) :
    ∀ node, node ∈ visited ∨ node ∈ pending → ¬ReflTransGen graph.Edge node target := by
  induction fuel generalizing pending visited with
  | zero => exact absurd hfuel (Nat.not_lt_zero _)
  | succ fuel ih =>
    cases pending with
    | nil =>
      intro node hnode hpath
      -- the visited nodes are closed, and the path does not leave them
      have hin : ∀ w, ReflTransGen graph.Edge node w → w ∈ visited := by
        intro w hw
        induction hw with
        | refl => exact hnode.resolve_right not_mem_nil
        | tail _ hedge ih => exact (hclosed _ ih _ hedge).resolve_right not_mem_nil
      exact htarget (hin target hpath)
    | cons current pending =>
      rw [length_cons] at hfuel
      rw [reachableLoop] at h
      split at h
      · cases h
      next hcurrent =>
      split at h
      · next hvisited =>
        rw [contains_iff_mem] at hvisited
        exact fun node hnode =>
          ih (fun v hv w hw => known_of_visited hvisited (hclosed v hv w hw)) htarget (by omega) h
            node (known_of_visited hvisited hnode)
      · next hnew =>
        rw [contains_iff_mem] at hnew
        have hedges := @unvisitedEdges_cons graph current visited hnew
        intro node hnode
        refine ih (fun v hv w hw => ?_) (fun hin => ?_) ?_ h node (known_of_visiting _ hnode)
        · -- the edges of the node lead to what becomes pending
          rcases mem_cons.mp hv with rfl | hv
          · exact .inr (mem_append_left _ (mem_reverse.mpr hw))
          · exact known_of_visiting _ (hclosed v hv w hw)
        · rcases mem_cons.mp hin with heq | hin
          · exact hcurrent heq.symm
          · exact htarget hin
        · rw [length_append, length_reverse]
          omega

theorem reachable_iff {start : JsString} :
    reachable graph start target = true ↔ ReflTransGen graph.Edge start target := by
  constructor
  · intro h
    obtain ⟨node, hnode, hpath⟩ := reachableLoop_sound h
    exact mem_singleton.mp hnode ▸ hpath
  · intro hpath
    by_contra hnot
    refine reachableLoop_complete (fun _ hv => absurd hv not_mem_nil) not_mem_nil ?_
      (eq_false_of_ne_true hnot) start (.inr (mem_singleton_self _)) hpath
    rw [unvisitedEdges_nil, length_singleton]
    omega

end Reachable

/-! ## Optional edges -/

section OptionalEdge

variable {graph : DirectedGraph JsString} {e : JsString × JsString}

theorem addOptionalEdge_eq :
    addOptionalEdge graph e = graph ∧ (e.1 = e.2 ∨ ReflTransGen graph.Edge e.2 e.1) ∨
      addOptionalEdge graph e = graph.addEdge e.1 e.2 ∧ ¬ReflTransGen graph.Edge e.2 e.1 := by
  unfold addOptionalEdge
  split
  · next h =>
    refine .inr ⟨rfl, fun hpath => ?_⟩
    rw [reachable_iff.mpr hpath] at h
    cases h.2
  · next h =>
    refine .inl ⟨rfl, ?_⟩
    by_contra hnot
    rw [not_or] at hnot
    exact h ⟨hnot.1, eq_false_of_ne_true (mt reachable_iff.mp hnot.2)⟩

theorem acyclic_addOptionalEdge (h : graph.Acyclic) : (addOptionalEdge graph e).Acyclic := by
  rcases addOptionalEdge_eq (e := e) with ⟨heq, _⟩ | ⟨heq, hpath⟩
  · rw [heq]
    exact h
  · rw [heq]
    exact h.addEdge hpath

theorem not_acyclic_of_dropped (hsource : e.1 ∈ graph.outgoing)
    (h : ¬(addOptionalEdge graph e).Edge e.1 e.2) : ¬(graph.addEdge e.1 e.2).Acyclic := by
  rcases addOptionalEdge_eq (e := e) with ⟨_, hloop | hpath⟩ | ⟨heq, _⟩
  · exact DirectedGraph.not_acyclic_addEdge hsource (hloop ▸ .refl)
  · exact DirectedGraph.not_acyclic_addEdge hsource hpath
  · rw [heq] at h
    exact absurd (DirectedGraph.addEdge_edge.mpr (.inr ⟨rfl, rfl, hsource⟩)) h

@[simp] theorem nodes_addOptionalEdge : (addOptionalEdge graph e).nodes = graph.nodes := by
  rcases addOptionalEdge_eq (e := e) with ⟨heq, _⟩ | ⟨heq, _⟩
  · rw [heq]
  · rw [heq, DirectedGraph.nodes_addEdge]

theorem edge_addOptionalEdge {a b : JsString} (h : graph.Edge a b) :
    (addOptionalEdge graph e).Edge a b := by
  rcases addOptionalEdge_eq (e := e) with ⟨heq, _⟩ | ⟨heq, _⟩
  · rw [heq]
    exact h
  · rw [heq]
    exact DirectedGraph.addEdge_edge.mpr (.inl h)

theorem wellFormed_addOptionalEdge (h : graph.WellFormed) (htarget : e.2 ∈ graph.nodes) :
    (addOptionalEdge graph e).WellFormed := by
  rcases addOptionalEdge_eq (e := e) with ⟨heq, _⟩ | ⟨heq, _⟩
  · rw [heq]
    exact h
  · rw [heq]
    exact h.addEdge htarget

theorem foldl_addOptionalEdge {edges : List (JsString × JsString)}
    (htargets : ∀ e ∈ edges, e.2 ∈ graph.nodes) (hgraph : graph.WellFormed)
    (hacyclic : graph.Acyclic) :
    (edges.foldl addOptionalEdge graph).WellFormed ∧ (edges.foldl addOptionalEdge graph).Acyclic ∧
      (edges.foldl addOptionalEdge graph).nodes = graph.nodes ∧
      ∀ a b, graph.Edge a b → (edges.foldl addOptionalEdge graph).Edge a b := by
  induction edges generalizing graph with
  | nil => exact ⟨hgraph, hacyclic, rfl, fun _ _ h => h⟩
  | cons e edges ih =>
    obtain ⟨hwf, hac, hnodes, hedges⟩ := ih
      (fun e' he' => by
        rw [nodes_addOptionalEdge]
        exact htargets e' (mem_cons_of_mem _ he'))
      (wellFormed_addOptionalEdge hgraph (htargets e mem_cons_self))
      (acyclic_addOptionalEdge hacyclic)
    exact ⟨hwf, hac, hnodes.trans nodes_addOptionalEdge,
      fun a b h => hedges a b (edge_addOptionalEdge h)⟩

end OptionalEdge

/-! ## The graph of the mandatory requirements -/

theorem wellFormed_isolated {keys : List JsString} (hnodup : keys.Nodup) :
    (⟨keys, (keys.map fun key => (⟨key, []⟩ : Sigma fun _ : JsString => List JsString)).toAList⟩ :
      DirectedGraph JsString).WellFormed := by
  have hlookup : ∀ key, ((keys.map fun key =>
      (⟨key, []⟩ : Sigma fun _ : JsString => List JsString)).dlookup key).getD [] = [] := by
    intro key
    cases hfound : (keys.map fun key =>
        (⟨key, []⟩ : Sigma fun _ : JsString => List JsString)).dlookup key with
    | none => rfl
    | some targets =>
      obtain ⟨key', _, heq⟩ := mem_map.mp (of_mem_dlookup hfound)
      cases heq
      rfl
  have htargets : ∀ key, DirectedGraph.targets (⟨keys, (keys.map fun key =>
      (⟨key, []⟩ : Sigma fun _ : JsString => List JsString)).toAList⟩ :
        DirectedGraph JsString) key = [] := by
    intro key
    unfold DirectedGraph.targets
    rw [lookup_to_alist]
    exact hlookup key
  refine
    { nodup := hnodup
      mem_outgoing := fun key => ?_
      targets_nodup := fun key => ?_
      target_mem := fun a b hedge => ?_ }
  · rw [← lookup_isSome, lookup_to_alist, dlookup_isSome]
    unfold List.keys
    rw [List.map_map]
    simp
  · rw [htargets]
    exact nodup_nil
  · unfold DirectedGraph.Edge at hedge
    rw [htargets] at hedge
    cases hedge

theorem foldl_addEdge {edges : List (JsString × JsString)} {graph : DirectedGraph JsString}
    (htargets : ∀ e ∈ edges, e.2 ∈ graph.nodes) (hgraph : graph.WellFormed) :
    let final := edges.foldl (fun graph edge => graph.addEdge edge.1 edge.2) graph
    final.WellFormed ∧ final.nodes = graph.nodes ∧
      (∀ a b, graph.Edge a b → final.Edge a b) ∧
      ∀ e ∈ edges, e.1 ∈ graph.nodes → final.Edge e.1 e.2 := by
  induction edges generalizing graph with
  | nil => exact ⟨hgraph, rfl, fun _ _ h => h, fun _ he => absurd he not_mem_nil⟩
  | cons e edges ih =>
    obtain ⟨hwf, hnodes, hkept, hadded⟩ := ih
      (fun e' he' => by
        rw [DirectedGraph.nodes_addEdge]
        exact htargets e' (mem_cons_of_mem _ he'))
      (hgraph.addEdge (htargets e mem_cons_self))
    rw [DirectedGraph.nodes_addEdge] at hnodes hadded
    refine ⟨hwf, hnodes,
      fun a b h => hkept a b (DirectedGraph.addEdge_edge.mpr (.inl h)), fun e' he' hin => ?_⟩
    rcases mem_cons.mp he' with rfl | he'
    · exact hkept _ _ (DirectedGraph.addEdge_edge.mpr
        (.inr ⟨rfl, rfl, (hgraph.mem_outgoing _).mpr hin⟩))
    · exact hadded e' he' hin

theorem wellFormed_dependencyGraph {keys : List JsString} {edges : List (JsString × JsString)}
    (hnodup : keys.Nodup) (htargets : ∀ e ∈ edges, e.2 ∈ keys) :
    (dependencyGraph keys edges).WellFormed ∧ (dependencyGraph keys edges).nodes = keys ∧
      ∀ e ∈ edges, e.1 ∈ keys → (dependencyGraph keys edges).Edge e.1 e.2 := by
  obtain ⟨hwf, hnodes, _, hadded⟩ := foldl_addEdge htargets (wellFormed_isolated hnodup)
  exact ⟨hwf, hnodes, hadded⟩

/-! ## The edges of a requirement -/

/-- Every edge leads from a deployment to the consumer, and a mandatory binding has its edge. -/
structure OutcomeEdges (deployments : List CapabilityResolutionDeployment)
    (consumer : CapabilityResolutionDeployment) (outcome : RequirementOutcome) : Prop where
  edge_mem : ∀ e, e ∈ outcome.required ∨ e ∈ outcome.optional →
    ∃ provider ∈ deployments, e = edge provider consumer
  mandatory : ∀ binding ∈ outcome.bindings, binding.consumer = consumer.identity ∧
    ∀ provider, binding.provider = some provider → binding.requirement.optional = false →
      (identityKey provider.deployment, identityKey consumer.identity) ∈ outcome.required

section Outcomes

variable {deployments : List CapabilityResolutionDeployment}
  {consumer provider : CapabilityResolutionDeployment}
  {requirement : NormalizedCapabilityRequirement}

theorem outcomeEdges_failed (d : CapabilityResolutionDiagnostic) :
    OutcomeEdges deployments consumer (.failed d) where
  edge_mem _ h := h.elim nofun nofun
  mandatory _ h := nomatch h

theorem outcomeEdges_unbound (diagnostics : List CapabilityResolutionDiagnostic) :
    OutcomeEdges deployments consumer ⟨[unbound consumer requirement], diagnostics, [], []⟩ where
  edge_mem _ h := h.elim nofun nofun
  mandatory binding h := by
    rw [mem_singleton.mp h]
    exact ⟨rfl, fun _ hprovider => nomatch hprovider⟩

theorem outcomeEdges_attach (hprovider : provider ∈ deployments)
    (before : List CapabilityResolutionDiagnostic) :
    OutcomeEdges deployments consumer (attach consumer provider requirement before) := by
  have hedge : ∀ {p : Bool} {e : JsString × JsString},
      e ∈ (if p then [edge provider consumer] else []) → e = edge provider consumer := by
    intro p e he
    split at he
    · exact mem_singleton.mp he
    · cases he
  unfold attach
  split
  · exact ⟨fun _ h => h.elim nofun nofun, fun _ h => nomatch h⟩
  refine ⟨fun e he => ⟨provider, hprovider, ?_⟩, fun binding hbinding => ?_⟩
  · rcases he with he | he
    · dsimp only at he
      split at he
      · cases he
      · exact mem_singleton.mp he
    · exact hedge he
  · dsimp only at hbinding ⊢
    split at hbinding
    · rw [mem_singleton.mp hbinding]
      refine ⟨rfl, fun provider' heq hmandatory => ?_⟩
      rw [hmandatory, ← Option.some.inj heq]
      exact mem_singleton_self _
    · split at hbinding
      · rw [mem_singleton.mp hbinding]
        exact ⟨rfl, fun _ heq => nomatch heq⟩
      · cases hbinding

theorem outcomeEdges_resolveSelected (selected : PluginDeploymentIdentity) (persistedOnly : Bool) :
    OutcomeEdges deployments consumer
      (resolveSelected deployments consumer requirement selected persistedOnly) := by
  unfold resolveSelected
  split
  · exact outcomeEdges_failed _
  next provider hfound =>
  have hprovider := (byIdentity_some (Option.filter_eq_some_iff.mp hfound).1).1
  split
  · exact outcomeEdges_failed _
  split
  · exact outcomeEdges_failed _
  split
  · exact outcomeEdges_attach hprovider _
  split
  · refine ⟨fun e he => ⟨provider, hprovider, ?_⟩, fun binding hbinding => ?_⟩
    · rcases he with he | he
      · dsimp only at he
        split at he
        · cases he
        · exact mem_singleton.mp he
      · cases he
    · rw [mem_singleton.mp hbinding]
      exact ⟨rfl, fun _ heq => nomatch heq⟩
  · exact outcomeEdges_attach hprovider _

theorem outcomeEdges_resolveUnselected :
    OutcomeEdges deployments consumer (resolveUnselected deployments consumer requirement) := by
  have hmem : ∀ provider ∈ compatibleDeployments deployments consumer requirement,
      provider ∈ deployments := fun _ h => mem_of_mem_filter h
  unfold resolveUnselected
  dsimp only
  split
  · split
    · exact outcomeEdges_unbound _
    · exact outcomeEdges_failed _
  next only others hcompatible =>
  split
  · next provider hready =>
    have hin : provider ∈ (compatibleDeployments deployments consumer requirement).filter
        (·.ready) := by
      rw [hready]
      exact mem_singleton_self _
    exact outcomeEdges_attach (hmem _ (mem_of_mem_filter hin)) _
  · split
    · exact outcomeEdges_attach (hmem only (hcompatible ▸ mem_cons_self)) _
    · exact outcomeEdges_unbound _
  · exact outcomeEdges_failed _

theorem outcomeEdges_resolveRequirement (previousBindings : List PreviousCapabilityBinding)
    (source : PluginCapabilityRequirement) :
    OutcomeEdges deployments consumer
      (resolveRequirement deployments previousBindings consumer source) := by
  unfold resolveRequirement
  dsimp only
  split
  · exact outcomeEdges_resolveSelected _ _
  · exact outcomeEdges_resolveUnselected

end Outcomes

/-! ## The graphs of a resolution -/

namespace CapabilityResolutionInput

variable (input : CapabilityResolutionInput)

def outcomes : List RequirementOutcome :=
  requirementOutcomes (sortDeployments input.deployments) input.previousBindings

def deploymentKeys : List JsString :=
  (sortDeployments input.deployments).map fun deployment => identityKey deployment.identity

def mandatoryGraph : DirectedGraph JsString :=
  dependencyGraph input.deploymentKeys (input.outcomes.flatMap (·.required))

def optionalEdges : List (JsString × JsString) :=
  sortBy (fun left right => (compareText left.1 right.1).then (compareText left.2 right.2))
    (input.outcomes.flatMap (·.optional))

/-- The graph after `n` of the optional edges. -/
def graphAfter (n : Nat) : DirectedGraph JsString :=
  (input.optionalEdges.take n).foldl addOptionalEdge input.mandatoryGraph

def identityOf (key : JsString) : Option PluginDeploymentIdentity :=
  ((sortDeployments input.deployments).find? fun deployment =>
    identityKey deployment.identity == key).map (·.identity)

/-- What is reported on the requirements and on the cycles of the mandatory edges. -/
def resolutionDiagnostics : List CapabilityResolutionDiagnostic :=
  sortBy compareDiagnostic (input.outcomes.flatMap (·.diagnostics) ++
    (requiredCycles input.mandatoryGraph).map fun cycle =>
      diagnostic .CAPABILITY_REQUIRED_CYCLE "Required capability dependencies form a cycle" none
        none (cycle.filterMap input.identityOf))

theorem resolveCapabilities_eq
    (hinput : inputDiagnostics (sortDeployments input.deployments) input.previousBindings = [])
    (hresolution : input.resolutionDiagnostics = []) :
    ∃ actions, resolveCapabilities input =
      match topologicalOrder (input.graphAfter input.optionalEdges.length) compareText with
      | none =>
        { ok := false
          diagnostics := [diagnostic .CAPABILITY_REQUIRED_CYCLE
            "Required capability dependencies form a cycle" none none []]
          providerLossActions := actions
          bindings := none
          order := none }
      | some order =>
        { ok := true
          diagnostics := []
          providerLossActions := actions
          bindings := some (input.outcomes.flatMap (·.bindings))
          order := some (order.filterMap input.identityOf) } := by
  refine ⟨providerLossDecisions (sortDeployments input.deployments) input.previousBindings, ?_⟩
  have hreports : (!input.resolutionDiagnostics.isEmpty) = false := by rw [hresolution]; rfl
  unfold resolveCapabilities
  dsimp only
  rw [hinput, if_neg (by decide)]
  refine (if_neg (ne_true_of_eq_false hreports)).trans ?_
  unfold graphAfter
  rw [take_length]
  rfl

variable {input}

variable {e : JsString × JsString}

theorem edge_ends {outcome : RequirementOutcome} (houtcome : outcome ∈ input.outcomes)
    (he : e ∈ outcome.required ∨ e ∈ outcome.optional) :
    e.1 ∈ input.deploymentKeys ∧ e.2 ∈ input.deploymentKeys := by
  obtain ⟨consumer, hconsumer, hin⟩ := mem_flatMap.mp houtcome
  obtain ⟨source, _, rfl⟩ := mem_map.mp hin
  obtain ⟨provider, hprovider, rfl⟩ :=
    (outcomeEdges_resolveRequirement input.previousBindings source).edge_mem e he
  exact ⟨mem_map_of_mem hprovider, mem_map_of_mem hconsumer⟩

theorem mem_optionalEdges (he : e ∈ input.optionalEdges) :
    e.1 ∈ input.deploymentKeys ∧ e.2 ∈ input.deploymentKeys := by
  obtain ⟨outcome, houtcome, hin⟩ := mem_flatMap.mp (mem_sortBy.mp he)
  exact edge_ends houtcome (.inr hin)

theorem deploymentKeys_nodup (h : input.Accepted) : input.deploymentKeys.Nodup := by
  have hperm := (sortBy_perm (fun left right : CapabilityResolutionDeployment =>
    compareIdentity left.identity right.identity) input.deployments).map
      fun deployment => identityKey deployment.identity
  exact hperm.nodup_iff.mpr h.deployments

theorem mandatoryGraph_spec (h : input.Accepted) :
    input.mandatoryGraph.WellFormed ∧ input.mandatoryGraph.nodes = input.deploymentKeys ∧
      ∀ outcome ∈ input.outcomes, ∀ e ∈ outcome.required, input.mandatoryGraph.Edge e.1 e.2 := by
  obtain ⟨hwf, hnodes, hedges⟩ := @wellFormed_dependencyGraph input.deploymentKeys
    (input.outcomes.flatMap (·.required)) (deploymentKeys_nodup h) fun e he => by
      obtain ⟨outcome, houtcome, hin⟩ := mem_flatMap.mp he
      exact (edge_ends houtcome (.inl hin)).2
  refine ⟨hwf, hnodes, fun outcome houtcome e he => ?_⟩
  exact hedges e (mem_flatMap.mpr ⟨outcome, houtcome, he⟩) (edge_ends houtcome (.inl he)).1

theorem mandatoryGraph_acyclic (h : input.Accepted) (hnone : input.resolutionDiagnostics = []) :
    input.mandatoryGraph.Acyclic := by
  unfold resolutionDiagnostics at hnone
  rw [sortBy_eq_nil, append_eq_nil_iff, map_eq_nil_iff] at hnone
  have hcycles := hnone.2
  unfold requiredCycles at hcycles
  rw [filter_eq_nil_iff] at hcycles
  refine @acyclic_of_components _ _ _ (mandatoryGraph_spec h).1 compareText fun node rest hmem => ?_
  have hnot := hcycles (node :: rest) hmem
  cases rest with
  | nil => exact ⟨rfl, fun hedge => hnot (contains_iff_mem.mpr hedge)⟩
  | cons _ _ => exact absurd rfl hnot

theorem graphAfter_spec (h : input.Accepted) (hnone : input.resolutionDiagnostics = []) (n : Nat) :
    (input.graphAfter n).WellFormed ∧ (input.graphAfter n).Acyclic ∧
      (input.graphAfter n).nodes = input.deploymentKeys ∧
      ∀ a b, input.mandatoryGraph.Edge a b → (input.graphAfter n).Edge a b := by
  obtain ⟨hwf, hnodes, _⟩ := mandatoryGraph_spec h
  obtain ⟨hwf', hacyclic, hnodes', hkept⟩ := @foldl_addOptionalEdge input.mandatoryGraph
    (input.optionalEdges.take n)
    (fun e he => hnodes ▸ (mem_optionalEdges (mem_of_mem_take he)).2) hwf
    (mandatoryGraph_acyclic h hnone)
  exact ⟨hwf', hacyclic, hnodes'.trans hnodes, hkept⟩

theorem graphAfter_succ {n : Nat} (he : input.optionalEdges[n]? = some e) :
    input.graphAfter (n + 1) = addOptionalEdge (input.graphAfter n) e := by
  unfold graphAfter
  rw [take_add_one, he, Option.toList_some, foldl_append]
  rfl

theorem identityOf_key {deployment : CapabilityResolutionDeployment}
    (hmem : deployment ∈ input.deployments) :
    input.identityOf (identityKey deployment.identity) = some deployment.identity := by
  unfold identityOf
  cases hfind : (sortDeployments input.deployments).find? fun d =>
      identityKey d.identity == identityKey deployment.identity with
  | none =>
    have hnone := find?_eq_none.mp hfind deployment (mem_sortBy.mpr hmem)
    exact absurd (beq_self_eq_true _) hnone
  | some found =>
    have hkey : identityKey found.identity = identityKey deployment.identity :=
      eq_of_beq (find?_some hfind :)
    exact congrArg some (identityKey_injective hkey)

theorem perm_identities {keys : List JsString} (h : keys.Perm input.deploymentKeys) :
    (keys.filterMap input.identityOf).Perm (input.deployments.map (·.identity)) := by
  have hkeys : input.deploymentKeys.filterMap input.identityOf =
      (sortDeployments input.deployments).map (·.identity) := by
    unfold deploymentKeys
    rw [filterMap_map, ← filterMap_eq_map]
    exact filterMap_congr fun deployment hmem => identityOf_key (mem_sortBy.mp hmem)
  refine (h.filterMap _).trans ?_
  rw [hkeys]
  exact (sortBy_perm _ _).map _

end CapabilityResolutionInput

/-! ## The law -/

def Precedes {α : Type} (order : List α) (first second : α) : Prop :=
  ∃ before after, order = before ++ second :: after ∧ first ∈ before

/-- **What is asked of the order of a resolution**: it is an order of all deployments, in which
every provider stands before the consumers with a mandatory binding to it. -/
structure CapabilityResolutionInput.Ordered (input : CapabilityResolutionInput)
    (bindings : List ResolvedCapabilityBinding) (order : List PluginDeploymentIdentity) : Prop where
  perm : order.Perm (input.deployments.map (·.identity))
  mandatory : ∀ binding ∈ bindings, binding.requirement.optional = false →
    ∀ provider, binding.provider = some provider →
      Precedes order provider.deployment binding.consumer

/-- **What is asked of the optional edges**: with the mandatory edges those that are kept form
no cycle, and one that is not there afterwards would have closed one. -/
structure CapabilityResolutionInput.OptionalKept (input : CapabilityResolutionInput) : Prop where
  acyclic : ∀ n, (input.graphAfter n).Acyclic
  dropped : ∀ n e, input.optionalEdges[n]? = some e → ¬(input.graphAfter (n + 1)).Edge e.1 e.2 →
    ¬((input.graphAfter n).addEdge e.1 e.2).Acyclic

section Law

variable {input : CapabilityResolutionInput}

theorem optionalKept_of_accepted (h : input.Accepted) (hnone : input.resolutionDiagnostics = []) :
    input.OptionalKept where
  acyclic n := (CapabilityResolutionInput.graphAfter_spec h hnone n).2.1
  dropped n e he hdropped := by
    obtain ⟨hwf, _, hnodes, _⟩ := CapabilityResolutionInput.graphAfter_spec h hnone n
    rw [CapabilityResolutionInput.graphAfter_succ he] at hdropped
    refine not_acyclic_of_dropped ((hwf.mem_outgoing _).mpr ?_) hdropped
    rw [hnodes]
    exact (CapabilityResolutionInput.mem_optionalEdges (mem_of_getElem? he)).1

theorem ordered_of_topologicalOrder (h : input.Accepted)
    (hnone : input.resolutionDiagnostics = []) {keys : List JsString}
    (hkeys : topologicalOrder (input.graphAfter input.optionalEdges.length) compareText =
      some keys) :
    input.Ordered (input.outcomes.flatMap (·.bindings)) (keys.filterMap input.identityOf) := by
  obtain ⟨hwf, _, hnodes, hkept⟩ :=
    CapabilityResolutionInput.graphAfter_spec h hnone input.optionalEdges.length
  obtain ⟨hperm, hforward, _⟩ := (topologicalOrder_spec hwf.closed).1 keys hkeys
  rw [hnodes] at hperm
  refine ⟨CapabilityResolutionInput.perm_identities hperm,
    fun binding hbinding hmandatory provider hprovider => ?_⟩
  obtain ⟨outcome, houtcome, hin⟩ := mem_flatMap.mp hbinding
  obtain ⟨consumer, hconsumer, hresolved⟩ := mem_flatMap.mp houtcome
  obtain ⟨source, _, rfl⟩ := mem_map.mp hresolved
  have hedges := @outcomeEdges_resolveRequirement (sortDeployments input.deployments) consumer
    input.previousBindings source
  obtain ⟨hidentity, hrequired⟩ := hedges.mandatory binding hin
  have hedge := hrequired provider hprovider hmandatory
  obtain ⟨from', hfrom, heq⟩ := hedges.edge_mem _ (.inl hedge)
  -- the consumer stands behind the provider of its edge
  have hmem : identityKey consumer.identity ∈ keys := hperm.mem_iff.mpr (mem_map_of_mem hconsumer)
  obtain ⟨before, after, rfl⟩ := append_of_mem hmem
  have hbefore := hforward before _ after rfl _
    (hkept _ _ ((CapabilityResolutionInput.mandatoryGraph_spec h).2.2 _ houtcome _ hedge))
  refine ⟨before.filterMap input.identityOf, after.filterMap input.identityOf, ?_, ?_⟩
  · rw [filterMap_append, filterMap_cons,
      CapabilityResolutionInput.identityOf_key (mem_sortBy.mp hconsumer), hidentity]
  · have hkey : provider.deployment = from'.identity :=
      identityKey_injective (congrArg Prod.fst heq)
    refine mem_filterMap.mpr ⟨_, hbefore, ?_⟩
    rw [hkey]
    exact CapabilityResolutionInput.identityOf_key (mem_sortBy.mp hfrom)

/-- **The order of a resolution.** It succeeds once nothing is reported on the input, the
requirements and the cycles of the mandatory edges. -/
theorem resolveCapabilities_ordered (input : CapabilityResolutionInput) :
    (inputDiagnostics (sortDeployments input.deployments) input.previousBindings = [] →
      input.resolutionDiagnostics = [] → (resolveCapabilities input).ok = true) ∧
    ((resolveCapabilities input).ok = true →
      ∃ bindings order, (resolveCapabilities input).bindings = some bindings ∧
        (resolveCapabilities input).order = some order ∧ input.Ordered bindings order ∧
        input.OptionalKept) := by
  have hsucceeds : inputDiagnostics (sortDeployments input.deployments) input.previousBindings =
      [] → input.resolutionDiagnostics = [] → (resolveCapabilities input).ok = true ∧
      ∃ bindings order, (resolveCapabilities input).bindings = some bindings ∧
        (resolveCapabilities input).order = some order ∧ input.Ordered bindings order ∧
        input.OptionalKept := by
    intro hinput hnone
    have haccepted := accepted_of_inputDiagnostics hinput
    obtain ⟨hwf, hacyclic, _⟩ :=
      CapabilityResolutionInput.graphAfter_spec haccepted hnone input.optionalEdges.length
    obtain ⟨keys, hkeys⟩ := Option.isSome_iff_exists.mp
      ((@topologicalOrder_spec _ _ _ compareText hwf.closed).2 hacyclic)
    obtain ⟨actions, heq⟩ := input.resolveCapabilities_eq hinput hnone
    rw [hkeys] at heq
    rw [heq]
    exact ⟨rfl, _, _, rfl, rfl, ordered_of_topologicalOrder haccepted hnone hkeys,
      optionalKept_of_accepted haccepted hnone⟩
  refine ⟨fun hinput hnone => (hsucceeds hinput hnone).1, fun hok => ?_⟩
  -- a resolution with reports does not succeed
  unfold resolveCapabilities at hok
  dsimp only at hok
  split at hok
  · cases hok
  next hinput =>
  split at hok
  · cases hok
  next hnone =>
  rw [Bool.not_eq_true, Bool.not_eq_false', List.isEmpty_iff] at hinput hnone
  exact (hsucceeds hinput hnone).2

end Law

/-! ## Two deployments that require each other -/

def capabilityCache : CapabilityName := ⟨js "cache", by decide⟩

/-- The consumer requires the store; the provider would like to have the cache. -/
def mutualInput : CapabilityResolutionInput where
  deployments :=
    [{ consumerDeployment with ready := true, provides := [⟨capabilityCache, js "1.0.0"⟩] },
      { providerDeployment true with
        requires := [⟨capabilityCache, js "^1.0.0", some true, none⟩] }]
  previousBindings := []

/-- The edge that is optional would close a cycle, and is dropped. -/
theorem resolveCapabilities_ordered_mutual :
    (resolveCapabilities mutualInput).order = some [providerIdentity, consumerIdentity] ∧
      mutualInput.optionalEdges.length = 1 ∧
      (resolveCapabilities mutualInput).ok = true ∧
      ∃ bindings order, (resolveCapabilities mutualInput).bindings = some bindings ∧
        (resolveCapabilities mutualInput).order = some order ∧
        mutualInput.Ordered bindings order ∧ mutualInput.OptionalKept :=
  ⟨by decide +kernel, by decide +kernel,
    (resolveCapabilities_ordered mutualInput).1 (by decide +kernel) (by decide +kernel),
    (resolveCapabilities_ordered mutualInput).2 (by decide +kernel)⟩

end TegoNext
