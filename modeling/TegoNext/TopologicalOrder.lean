/-
The topological order: what it is when there is one, and that there is one for a graph without
cycles.

The loop takes the smallest node out of those that are ready; a node becomes ready when the last of
the nodes with an edge to it has been taken, which its count says. When no node is ready and some
are left, each of these has an edge from another of them, and so the graph has a cycle.
-/
import TegoNext.ComponentSearch
import TegoNext.Sorting

set_option autoImplicit false

namespace TegoNext

open Relation List

variable {Node : Type} [DecidableEq Node] {graph : DirectedGraph Node}
  {compare : Node → Node → Ordering}

/-! ## Counting -/

theorem countP_ne {α : Type} [DecidableEq α] {list : List α} {a : α} (hnodup : list.Nodup)
    (ha : a ∈ list) (p : α → Bool) :
    list.countP p = list.countP (fun b => p b && b ≠ a) + if p a then 1 else 0 := by
  have hperm := perm_cons_erase ha
  have hne : ∀ b ∈ list.erase a, b ≠ a := fun b hb heq => by
    rw [heq] at hb
    exact hnodup.not_mem_erase hb
  have hrest : (list.erase a).countP (fun b => p b && b ≠ a) = (list.erase a).countP p :=
    countP_congr fun b hb => by simp [hne b hb]
  rw [hperm.countP_eq p, hperm.countP_eq fun b => p b && b ≠ a, countP_cons, countP_cons, hrest]
  simp

/-- The nodes with an edge to this one that are still to be taken. -/
def pending (graph : DirectedGraph Node) (order : List Node) (node : Node) : Nat :=
  graph.nodes.countP fun source => source ∉ order ∧ node ∈ graph.targets source

variable {order : List Node}

theorem pending_eq_zero (hgraph : graph.Closed) {node : Node} :
    pending graph order node = 0 ↔ ∀ source, graph.Edge source node → source ∈ order := by
  unfold pending
  rw [countP_eq_zero]
  refine ⟨fun h source hedge => ?_, fun h source _ hpending => ?_⟩
  · by_contra hnot
    exact h source (hgraph.source_mem hedge) (decide_eq_true ⟨hnot, hedge⟩)
  · obtain ⟨hnot, hedge⟩ := of_decide_eq_true hpending
    exact hnot (h source hedge)

theorem pending_append (hgraph : graph.Closed) {node : Node}
    (hnode : node ∈ graph.nodes) (hnot : node ∉ order) (target : Node) :
    pending graph order target =
      pending graph (order ++ [node]) target + if target ∈ graph.targets node then 1 else 0 := by
  unfold pending
  rw [countP_ne hgraph.nodup hnode]
  congr 1
  · refine countP_congr fun source _ => ?_
    simp only [Bool.and_eq_true, decide_eq_true_eq, mem_append, mem_singleton, not_or]
    tauto
  · simp [hnot]

theorem foldl_count_eq_pending (hgraph : graph.Closed) (node : Node) :
    graph.outgoing.entries.foldl (fun count entry => count + entry.2.count node) 0 =
      pending graph [] node := by
  have htargets : ∀ entry ∈ graph.outgoing.entries, entry.2 = graph.targets entry.1 := by
    intro entry hentry
    have hlookup : graph.outgoing.lookup entry.1 = some entry.2 := AList.mem_lookup_iff.mpr hentry
    unfold DirectedGraph.targets
    rw [hlookup]
    rfl
  -- a node without its set of targets counts for nothing, and so does a set of no node
  have hkeys : ((graph.outgoing.entries.map Sigma.fst).filter fun v => node ∈ graph.targets v).Perm
      (graph.nodes.filter fun v => node ∈ graph.targets v) := by
    refine (perm_ext_iff_of_nodup (graph.outgoing.keys_nodup.filter _)
      (hgraph.nodup.filter _)).mpr fun v => ?_
    rw [mem_filter, mem_filter, decide_eq_true_eq]
    exact and_congr_left fun hedge => iff_of_true
      (AList.mem_keys.mp (DirectedGraph.Edge.source_mem_outgoing hedge)) (hgraph.source_mem hedge)
  have hsum : ∀ (entries : List (Sigma fun _ : Node => List Node)) (start : Nat),
      (∀ entry ∈ entries, entry.2 = graph.targets entry.1) →
      entries.foldl (fun count entry => count + entry.2.count node) start =
        start + (entries.map Sigma.fst).countP fun source => node ∈ graph.targets source := by
    intro entries
    induction entries with
    | nil => exact fun _ _ => rfl
    | cons entry entries ih =>
      intro start h
      rw [foldl_cons, ih _ fun e he => h e (mem_cons_of_mem _ he), map_cons,
        countP_cons, h entry mem_cons_self, (hgraph.targets_nodup entry.1).count]
      simp only [decide_eq_true_eq]
      omega
  rw [hsum _ 0 htargets, Nat.zero_add, countP_eq_length_filter, hkeys.length_eq,
    ← countP_eq_length_filter]
  exact countP_congr fun source _ => by simp

/-! ## Taking a node -/

/-- The targets of a node that is taken lose one pending node each; those that have no other are
ready. -/
def release (compare : Node → Node → Ordering) (targets : List Node)
    (state : (Node → Int) × List Node) : (Node → Int) × List Node :=
  targets.foldl
    (fun state target =>
      let next := state.1 target - 1
      (fun n => if n = target then next else state.1 n,
        if next = 0 then sortBy compare (state.2 ++ [target]) else state.2))
    state

theorem release_incoming {targets : List Node} (hnodup : targets.Nodup)
    (state : (Node → Int) × List Node) (node : Node) :
    (release compare targets state).1 node = state.1 node - if node ∈ targets then 1 else 0 := by
  unfold release
  induction targets generalizing state with
  | nil => simp
  | cons target targets ih =>
    rw [nodup_cons] at hnodup
    rw [foldl_cons, ih hnodup.2]
    dsimp only
    by_cases hnode : node = target
    · rw [if_pos hnode, hnode, if_neg hnodup.1, if_pos mem_cons_self, Int.sub_zero]
    · rw [if_neg hnode]
      simp only [mem_cons, hnode, false_or]

theorem release_ready_perm {targets : List Node} (hnodup : targets.Nodup)
    (state : (Node → Int) × List Node) :
    (release compare targets state).2.Perm
      (state.2 ++ targets.filter fun target => state.1 target = 1) := by
  unfold release
  induction targets generalizing state with
  | nil => simp
  | cons target targets ih =>
    rw [nodup_cons] at hnodup
    rw [foldl_cons]
    refine (ih hnodup.2 _).trans ?_
    dsimp only
    have hrest : (targets.filter fun other =>
        (if other = target then state.1 target - 1 else state.1 other) = 1) =
        targets.filter fun other => state.1 other = 1 := by
      refine filter_congr fun other hother => ?_
      rw [if_neg]
      rintro rfl
      exact hnodup.1 hother
    rw [hrest, filter_cons]
    by_cases hone : state.1 target = 1
    · rw [if_pos (by omega), if_pos (decide_eq_true hone)]
      refine ((sortBy_perm compare _).append_right _).trans ?_
      rw [append_assoc, singleton_append]
    · rw [if_neg (by omega), if_neg (by simpa using hone)]

theorem release_sorted [Std.TransCmp compare] {targets : List Node}
    {state : (Node → Int) × List Node} (h : state.2.Pairwise fun a b => compare a b ≠ .gt) :
    (release compare targets state).2.Pairwise fun a b => compare a b ≠ .gt := by
  unfold release
  induction targets generalizing state with
  | nil => exact h
  | cons target targets ih =>
    rw [foldl_cons]
    apply ih
    dsimp only
    split
    · exact pairwise_insertionSort _ _
    · exact h

theorem orderLoop_cons (fuel : Nat) (incoming : Node → Int) (node : Node)
    (ready order : List Node) :
    orderLoop graph compare (fuel + 1) incoming (node :: ready) order =
      orderLoop graph compare fuel
        (release compare (sortBy compare (graph.targets node)) (incoming, ready)).1
        (release compare (sortBy compare (graph.targets node)) (incoming, ready)).2
        (order ++ [node]) := rfl

/-! ## The loop -/

/-- Each node stands behind those with an edge to it. -/
def Forward (graph : DirectedGraph Node) (order : List Node) : Prop :=
  ∀ before node after, order = before ++ node :: after →
    ∀ source, graph.Edge source node → source ∈ before

/-- No node that could stand in the place of another is smaller. -/
def Smallest (graph : DirectedGraph Node) (compare : Node → Node → Ordering)
    (order : List Node) : Prop :=
  ∀ before node after, order = before ++ node :: after → ∀ other ∈ graph.nodes, other ∉ before →
    pending graph before other = 0 → compare node other ≠ .gt

/-- The nodes that were taken, those that are ready, and the counts of the others. -/
structure TakenSoFar (graph : DirectedGraph Node) (compare : Node → Node → Ordering) (incoming : Node → Int)
    (ready order : List Node) : Prop where
  nodup : order.Nodup
  mem : ∀ node ∈ order, node ∈ graph.nodes
  ready_nodup : ready.Nodup
  incoming_eq : ∀ node, incoming node = pending graph order node
  ready_iff : ∀ node, node ∈ ready ↔
    node ∈ graph.nodes ∧ node ∉ order ∧ pending graph order node = 0
  forward : Forward graph order
  sorted : ∀ [Std.TransCmp compare], ready.Pairwise fun a b => compare a b ≠ .gt
  smallest : ∀ [Std.TransCmp compare], Smallest graph compare order

theorem Forward.source_mem (h : Forward graph order) {source target : Node}
    (htarget : target ∈ order) (hedge : graph.Edge source target) : source ∈ order := by
  obtain ⟨before, after, rfl⟩ := append_of_mem htarget
  exact mem_append_left _ (h before target after rfl source hedge)

theorem takenSoFar_step (hgraph : graph.Closed) {incoming : Node → Int} {node : Node}
    {ready : List Node} (h : TakenSoFar graph compare incoming (node :: ready) order) :
    TakenSoFar graph compare
      (release compare (sortBy compare (graph.targets node)) (incoming, ready)).1
      (release compare (sortBy compare (graph.targets node)) (incoming, ready)).2
      (order ++ [node]) := by
  obtain ⟨hnode, hnot, hzero⟩ := (h.ready_iff node).mp mem_cons_self
  have hsources := (pending_eq_zero hgraph).mp hzero
  have hsorted : (sortBy compare (graph.targets node)).Nodup :=
    (sortBy_perm compare _).nodup_iff.mpr (hgraph.targets_nodup node)
  have hready := nodup_cons.mp h.ready_nodup
  have happend := pending_append hgraph hnode hnot
  have hperm := @release_ready_perm Node _ compare _ hsorted (incoming, ready)
  -- a target has a node to wait for, and was not taken
  have htarget : ∀ target ∈ graph.targets node,
      target ∉ order ∧ pending graph order target ≠ 0 := by
    intro target hmem
    refine ⟨fun hin => hnot (h.forward.source_mem hin hmem), fun hpending => ?_⟩
    exact hnot ((pending_eq_zero hgraph).mp hpending node hmem)
  refine
    { nodup := ?_
      mem := fun v hv => ?_
      ready_nodup := ?_
      incoming_eq := fun v => ?_
      ready_iff := fun v => ?_
      forward := ?_
      sorted := release_sorted (pairwise_cons.mp h.sorted).2
      smallest := ?_ }
  · exact nodup_append.mpr ⟨h.nodup, nodup_singleton node, fun a ha b hb heq =>
      hnot (mem_singleton.mp hb ▸ heq ▸ ha)⟩
  · rcases mem_append.mp hv with hv | hv
    · exact h.mem v hv
    · exact mem_singleton.mp hv ▸ hnode
  · -- what becomes ready was not ready, for it had the node to wait for
    rw [hperm.nodup_iff, nodup_append]
    refine ⟨hready.2, hsorted.filter _, fun a ha b hb heq => ?_⟩
    obtain ⟨hmem, _⟩ := mem_filter.mp hb
    refine (htarget b (mem_sortBy.mp hmem)).2 ?_
    exact ((h.ready_iff b).mp (mem_cons_of_mem _ (heq ▸ ha))).2.2
  · rw [release_incoming hsorted]
    dsimp only
    rw [h.incoming_eq, happend v]
    simp only [mem_sortBy]
    split <;> simp
  · -- ready are those that were, and the targets that had this node alone to wait for
    rw [hperm.mem_iff, mem_append, mem_filter, mem_sortBy, decide_eq_true_eq]
    dsimp only
    rw [h.incoming_eq, mem_append, mem_singleton, not_or]
    have hcount := happend v
    constructor
    · rintro (hv | ⟨hv, hone⟩)
      · obtain ⟨hmem, hout, hpending⟩ := (h.ready_iff v).mp (mem_cons_of_mem _ hv)
        refine ⟨hmem, ⟨hout, fun heq => hready.1 (heq ▸ hv)⟩, ?_⟩
        omega
      · obtain ⟨hout, _⟩ := htarget v hv
        rw [if_pos hv] at hcount
        refine ⟨hgraph.target_mem node v hv, ⟨hout, fun heq => ?_⟩, by omega⟩
        rw [heq, hzero] at hone
        cases hone
    · rintro ⟨hmem, ⟨hout, hne⟩, hpending⟩
      by_cases hv : v ∈ graph.targets node
      · rw [if_pos hv] at hcount
        exact .inr ⟨hv, by omega⟩
      rw [if_neg hv] at hcount
      have hin := (h.ready_iff v).mpr ⟨hmem, hout, by omega⟩
      exact .inl ((mem_cons.mp hin).resolve_left hne)
  · intro before b after hsplit source hedge
    rcases append_singleton_split hsplit with ⟨rfl, rfl⟩ | ⟨init, hold⟩
    · exact hsources source hedge
    · exact h.forward before b init hold source hedge
  · intro _ before b after hsplit other hmem hout hpending
    rcases append_singleton_split hsplit with ⟨rfl, rfl⟩ | ⟨init, hold⟩
    · rcases mem_cons.mp ((h.ready_iff other).mpr ⟨hmem, hout, hpending⟩) with rfl | hin
      · have hself : compare other other = .eq := Std.ReflCmp.compare_self
        rw [hself]
        decide
      · exact (pairwise_cons.mp h.sorted).1 other hin
    · exact h.smallest before b init hold other hmem hout hpending

theorem orderLoop_takenSoFar (hgraph : graph.Closed) {fuel : Nat} {incoming : Node → Int}
    {ready order : List Node} (h : TakenSoFar graph compare incoming ready order)
    (hfuel : graph.nodes.length < fuel + order.length) :
    ∃ incoming', TakenSoFar graph compare incoming' [] (orderLoop graph compare fuel incoming ready order) := by
  induction fuel generalizing incoming ready order with
  | zero =>
    have hlength := (h.nodup.subperm h.mem).length_le
    omega
  | succ fuel ih =>
    cases ready with
    | nil => exact ⟨incoming, h⟩
    | cons node ready =>
      rw [orderLoop_cons]
      refine ih (takenSoFar_step hgraph h) ?_
      rw [length_append, length_singleton]
      omega

theorem TakenSoFar.mem_order {incoming : Node → Int}
    (h : TakenSoFar graph compare incoming [] order) (hgraph : graph.Closed)
    (hacyclic : graph.Acyclic) : ∀ node ∈ graph.nodes, node ∈ order := by
  intro node hnode
  by_contra hnot
  -- among the nodes that are left there is one with no edge from another of them
  have hleft : node ∈ graph.nodes.filter fun v => v ∉ order :=
    mem_filter.mpr ⟨hnode, decide_eq_true hnot⟩
  obtain ⟨first, hfirst, hsource⟩ := hacyclic.exists_source (ne_nil_of_mem hleft)
  obtain ⟨hmem, hout⟩ := mem_filter.mp hfirst
  have hzero : pending graph order first = 0 := (pending_eq_zero hgraph).mpr fun source hedge => by
    by_contra hin
    exact hsource source (mem_filter.mpr ⟨hgraph.source_mem hedge, decide_eq_true hin⟩) hedge
  exact absurd ((h.ready_iff first).mpr ⟨hmem, of_decide_eq_true hout, hzero⟩) not_mem_nil

/-! ## The order -/

/-- **A topological order** is an order of all nodes in which each stands behind those with an
edge to it, and a graph without cycles has one. -/
theorem topologicalOrder_spec (hgraph : graph.Closed) :
    (∀ order, topologicalOrder graph compare = some order →
      order.Perm graph.nodes ∧ Forward graph order ∧
        (∀ [Std.TransCmp compare], Smallest graph compare order)) ∧
    (graph.Acyclic → (topologicalOrder graph compare).isSome) := by
  have hinit : TakenSoFar graph compare
      (fun node => (graph.outgoing.entries.foldl (fun count entry =>
        count + entry.2.count node) 0 : Nat))
      (sortBy compare (graph.nodes.filter fun node =>
        ((graph.outgoing.entries.foldl (fun count entry =>
          count + entry.2.count node) 0 : Nat) : Int) = 0)) [] := by
    refine
      { nodup := nodup_nil
        mem := fun _ hv => absurd hv not_mem_nil
        ready_nodup := (sortBy_perm compare _).nodup_iff.mpr (hgraph.nodup.filter _)
        incoming_eq := fun node => congrArg Nat.cast (foldl_count_eq_pending hgraph node)
        ready_iff := fun node => ?_
        forward := fun before node after hsplit => ?_
        sorted := pairwise_insertionSort _ _
        smallest := fun before node after hsplit => ?_ }
    · rw [mem_sortBy, mem_filter, decide_eq_true_eq, foldl_count_eq_pending hgraph,
        Int.natCast_eq_zero]
      simp only [not_mem_nil, not_false_eq_true, true_and]
    · simp at hsplit
    · simp at hsplit
  obtain ⟨incoming, htaken⟩ := @orderLoop_takenSoFar _ _ _ compare hgraph
    (graph.nodes.length + graph.edgeCount + 1) _ _ _ hinit (by rw [length_nil]; omega)
  -- what was taken is part of the nodes, and all of them if it is as long
  have hsub := htaken.nodup.subperm htaken.mem
  unfold topologicalOrder
  dsimp only
  refine ⟨fun order horder => ?_, fun hacyclic => ?_⟩
  · split at horder
    · next hlength =>
      cases Option.some.inj horder
      exact ⟨hsub.perm_of_length_le (Nat.le_of_eq hlength.symm), htaken.forward, htaken.smallest⟩
    · cases horder
  · have hperm := (perm_ext_iff_of_nodup htaken.nodup hgraph.nodup).mpr fun node =>
      ⟨htaken.mem node, htaken.mem_order hgraph hacyclic node⟩
    rw [if_pos hperm.length_eq]
    rfl

theorem Forward.acyclic (h : Forward graph order) (hnodup : order.Nodup)
    (hmem : ∀ a b, graph.Edge a b → b ∈ order) : graph.Acyclic := by
  intro node hcycle
  have hedge : ∀ a b, graph.Edge a b → order.idxOf a < order.idxOf b := by
    intro a b hedge
    obtain ⟨before, after, rfl⟩ := append_of_mem (hmem a b hedge)
    have ha := h before b after rfl a hedge
    have hb : b ∉ before := fun hb => (nodup_append.mp hnodup).2.2 b hb b mem_cons_self rfl
    rw [idxOf_append_of_mem ha, idxOf_append_of_notMem hb]
    exact Nat.lt_of_lt_of_le (idxOf_lt_length_of_mem ha) (Nat.le_add_right _ _)
  have hless := TransGen.lift order.idxOf hedge _ _ hcycle
  rw [transGen_eq_self] at hless
  exact Nat.lt_irrefl _ hless

variable [Std.LawfulEqCmp compare]

/-- Where the two orders part, the node of the other could have been taken. -/
theorem Smallest.compareLex_ne_gt (hgraph : graph.Closed) (h : Smallest graph compare order)
    (hperm : order.Perm graph.nodes) {other : List Node} (hother : other.Perm graph.nodes)
    (hforward : Forward graph other) : List.compareLex compare order other ≠ .gt := by
  have hrest : ∀ rest before rest', order = before ++ rest → other = before ++ rest' →
      List.compareLex compare rest rest' ≠ .gt := by
    intro rest
    induction rest with
    | nil =>
      intro before rest' _ _
      cases rest' <;> exact nofun
    | cons node rest ih =>
      intro before rest' horder hsplit
      cases rest' with
      | nil =>
        have hlength := hperm.length_eq.trans hother.length_eq.symm
        rw [horder, hsplit] at hlength
        simp at hlength
      | cons first rest' =>
        have hmem : first ∈ other := hsplit ▸ mem_append_right _ mem_cons_self
        have hnodup := hother.nodup_iff.mpr hgraph.nodup
        rw [hsplit] at hnodup
        have hfirst := h before node rest horder first (hother.mem_iff.mp hmem)
          (fun hin => (nodup_append.mp hnodup).2.2 first hin first mem_cons_self rfl)
          ((pending_eq_zero hgraph).mpr (hforward before first rest' hsplit))
        rw [List.compareLex_cons_cons]
        cases hcompare : compare node first with
        | lt => exact nofun
        | gt => exact absurd hcompare hfirst
        | eq =>
          obtain rfl := Std.LawfulEqCmp.eq_of_compare hcompare
          exact ih (before ++ [node]) rest' (by rw [horder, append_cons])
            (by rw [hsplit, append_cons])
  exact hrest order [] other rfl rfl

/-- **The components are the classes of the nodes that reach each other, and the order is the
smallest in which every node stands behind those with an edge to it.** -/
theorem components_and_order [Std.TransCmp compare] (hgraph : graph.Closed) :
    (stronglyConnectedComponents graph compare).flatten.Perm graph.nodes ∧
    (∀ v ∈ graph.nodes, ∀ w,
      (∃ component ∈ stronglyConnectedComponents graph compare, v ∈ component ∧ w ∈ component) ↔
        ReflTransGen graph.Edge v w ∧ ReflTransGen graph.Edge w v) ∧
    ((topologicalOrder graph compare).isSome ↔ graph.Acyclic) ∧
    ∀ order, topologicalOrder graph compare = some order →
      order.Perm graph.nodes ∧ Forward graph order ∧
      ∀ other, other.Perm graph.nodes → Forward graph other →
        List.compareLex compare order other ≠ .gt := by
  have hcomponents := components_search hgraph compare
  obtain ⟨horder, hacyclic⟩ := @topologicalOrder_spec _ _ _ compare hgraph
  refine ⟨?_, fun v hv w => ?_, ⟨fun hsome => ?_, hacyclic⟩, fun order hsome => ?_⟩
  · refine (sortBy_perm _ _).flatten.trans ?_
    exact (perm_ext_iff_of_nodup hcomponents.once hgraph.nodup).mpr fun v =>
      ⟨hcomponents.known v, hcomponents.mem v⟩
  · rw [← hcomponents.same_iff hv]
    exact exists_congr fun component => and_congr_left fun _ => mem_sortBy
  · obtain ⟨order, hsome⟩ := Option.isSome_iff_exists.mp hsome
    obtain ⟨hperm, hforward, _⟩ := horder order hsome
    exact hforward.acyclic (hperm.nodup_iff.mpr hgraph.nodup) fun a b hedge =>
      hperm.mem_iff.mpr (hgraph.target_mem a b hedge)
  · obtain ⟨hperm, hforward, hsmallest⟩ := horder order hsome
    exact ⟨hperm, hforward, fun other hother hforward' =>
      hsmallest.compareLex_ne_gt hgraph hperm hother hforward'⟩

theorem components_and_order_fork :
    let graph : DirectedGraph (Fin 3) := ⟨[2, 1, 0], AList.singleton 2 [0, 1]⟩
    topologicalOrder graph Ord.compare = some [2, 0, 1] ∧
    ∀ other, other.Perm graph.nodes → Forward graph other →
      List.compareLex Ord.compare [2, 0, 1] other ≠ .gt := by
  intro graph
  have hclosed : graph.Closed :=
    ⟨by decide, by decide +kernel, by unfold DirectedGraph.Edge; decide +kernel,
      by unfold DirectedGraph.Edge; decide +kernel⟩
  have horder : topologicalOrder graph Ord.compare = some [2, 0, 1] := by decide +kernel
  exact ⟨horder, ((components_and_order hclosed).2.2.2 _ horder).2.2⟩

end TegoNext
