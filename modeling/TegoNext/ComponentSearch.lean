/-
What the search for strongly connected components finds.

A component is closed when the search leaves its root. The targets of a node in a component are in
this component or in an earlier one; those of a node on the stack above one that is being visited
are in a component, or on the stack at an index that the low link of the visited node does not
exceed.
-/
import TegoNext.GraphPaths

set_option autoImplicit false

namespace TegoNext

open Relation List AList

variable {Node : Type} [DecidableEq Node]

namespace SearchState

variable {state : SearchState Node} {node other : Node}

/-! ## The state -/

def Seen (state : SearchState Node) (node : Node) : Prop := (state.indices.lookup node).isSome

def Placed (state : SearchState Node) (node : Node) : Prop := node ∈ state.components.flatten

instance (state : SearchState Node) (node : Node) : Decidable (state.Seen node) :=
  inferInstanceAs (Decidable ((state.indices.lookup node).isSome = true))

theorem Seen.lookup (h : state.Seen node) : state.indices.lookup node = some (state.index node) := by
  obtain ⟨n, hn⟩ := Option.isSome_iff_exists.mp h
  rw [index, hn]
  rfl

theorem seen_of_lookup {n : Nat} (h : state.indices.lookup node = some n) : state.Seen node := by
  unfold Seen
  rw [h]
  rfl

theorem index_eq {n : Nat} (h : state.indices.lookup node = some n) : state.index node = n := by
  rw [index, h]
  rfl

theorem lookup_enter : (state.enter node).indices.lookup other =
    if other = node then some state.nextIndex else state.indices.lookup other := by
  show (state.indices.insert node state.nextIndex).lookup other = _
  split
  · next h => rw [h, lookup_insert]
  · next h => rw [lookup_insert_ne h]

theorem lookup_lowLinks_enter : (state.enter node).lowLinks.lookup other =
    if other = node then some state.nextIndex else state.lowLinks.lookup other := by
  show (state.lowLinks.insert node state.nextIndex).lookup other = _
  split
  · next h => rw [h, lookup_insert]
  · next h => rw [lookup_insert_ne h]

theorem lookup_lowLinks_lower {bound : Nat} : (state.lower node bound).lowLinks.lookup other =
    if other = node then some (min (state.lowLink node) bound) else state.lowLinks.lookup other := by
  show (state.lowLinks.insert node _).lookup other = _
  split
  · next h => rw [h, lookup_insert]
  · next h => rw [lookup_insert_ne h]

theorem lowLinks_lower_isSome (bound : Nat) :
    ((state.lower node bound).lowLinks.lookup node).isSome := by
  rw [lookup_lowLinks_lower, if_pos rfl]
  rfl

theorem lowLink_lower (bound : Nat) :
    (state.lower node bound).lowLink node = min (state.lowLink node) bound := by
  rw [lowLink, lookup_lowLinks_lower, if_pos rfl]
  rfl

end SearchState

/-! ## The invariant -/

variable {graph : DirectedGraph Node} {state state' : SearchState Node} {node : Node}

/-- The targets of the nodes of each component are in it or in an earlier one. -/
def PlacedBelow (graph : DirectedGraph Node) (components : List (List Node)) : Prop :=
  ∀ before component after, components = before ++ component :: after →
    ∀ v ∈ component, ∀ w, graph.Edge v w → w ∈ component ∨ w ∈ before.flatten

/-- Every node that was seen is on the stack or in one component; the stack has the later
indices on top. -/
structure SearchInv (graph : DirectedGraph Node) (state : SearchState Node) : Prop where
  seen_iff : ∀ v, state.Seen v ↔ v ∈ state.stack ∨ state.Placed v
  apart : ∀ v ∈ state.stack, ¬state.Placed v
  descending : state.stack.Pairwise fun a b => state.index b < state.index a
  bounded : ∀ v, state.Seen v → state.index v < state.nextIndex
  once : state.components.flatten.Nodup
  nonempty : ∀ component ∈ state.components, component ≠ []
  placed : PlacedBelow graph state.components
  known : ∀ v, state.Seen v → v ∈ graph.nodes
  connected : ∀ component ∈ state.components, ∀ v ∈ component, ∀ w ∈ component,
    ReflTransGen graph.Edge v w

/-- What the search has found it does not change. -/
structure SearchGrows (state state' : SearchState Node) : Prop where
  indices : ∀ v, state.Seen v → state'.indices.lookup v = state.indices.lookup v
  lowLinks : ∀ v, state.Seen v → state'.lowLinks.lookup v = state.lowLinks.lookup v
  fresh : ∀ v, ¬state.Seen v → state'.Seen v → state.nextIndex ≤ state'.index v
  next : state.nextIndex ≤ state'.nextIndex
  components : state.components <+: state'.components

variable {v : Node}

theorem SearchGrows.seen (h : SearchGrows state state') (hv : state.Seen v) : state'.Seen v := by
  unfold SearchState.Seen
  rw [h.indices v hv]
  exact hv

theorem SearchGrows.index (h : SearchGrows state state') (hv : state.Seen v) :
    state'.index v = state.index v := by
  unfold SearchState.index
  rw [h.indices v hv]

theorem SearchGrows.placed (h : SearchGrows state state') (hv : state.Placed v) : state'.Placed v := by
  obtain ⟨more, hmore⟩ := h.components
  unfold SearchState.Placed
  rw [← hmore, flatten_append]
  exact mem_append_left _ hv

theorem SearchGrows.trans {state'' : SearchState Node} (h : SearchGrows state state')
    (h' : SearchGrows state' state'') : SearchGrows state state'' where
  indices v hv := (h'.indices v (h.seen hv)).trans (h.indices v hv)
  lowLinks v hv := (h'.lowLinks v (h.seen hv)).trans (h.lowLinks v hv)
  fresh v hv hv'' := by
    by_cases hv' : state'.Seen v
    · rw [h'.index hv']
      exact h.fresh v hv hv'
    · exact Nat.le_trans h.next (h'.fresh v hv' hv'')
  next := Nat.le_trans h.next h'.next
  components := h.components.trans h'.components

def unseen (graph : DirectedGraph Node) (state : SearchState Node) : List Node :=
  graph.nodes.filter fun v => ¬state.Seen v

/-- The target is in a component, or on the stack at an index the low link does not exceed. -/
def Below (state : SearchState Node) (node target : Node) : Prop :=
  state.Placed target ∨ target ∈ state.stack ∧ state.lowLink node ≤ state.index target

/-- A path leads from the node to `v`, and one from `v` to a node of the list whose index is not
before the low link. -/
def Linked (graph : DirectedGraph Node) (state : SearchState Node) (node : Node)
    (list : List Node) (v : Node) : Prop :=
  ReflTransGen graph.Edge node v ∧
    ∃ y ∈ list, ReflTransGen graph.Edge v y ∧ state.lowLink node ≤ state.index y

/-- The loop over the targets of a node that was entered in the state `start`. -/
structure Scanning (graph : DirectedGraph Node) (start : SearchState Node) (node : Node)
    (done : List Node) (state : SearchState Node) : Prop where
  inv : SearchInv graph state
  grows : SearchGrows start state
  index : state.indices.lookup node = some start.nextIndex
  low : (state.lowLinks.lookup node).isSome
  lowLink_le : state.lowLink node ≤ start.nextIndex
  reach : ∃ y ∈ node :: start.stack, ReflTransGen graph.Edge node y ∧
    state.index y = state.lowLink node
  segment : ∃ segment, state.stack = segment ++ node :: start.stack ∧
    (∀ x ∈ segment, ∀ w, graph.Edge x w → Below state node w) ∧
    ∀ x ∈ segment, Linked graph state node (node :: start.stack) x
  done : ∀ w ∈ done, Below state node w

structure Visited (graph : DirectedGraph Node) (start : SearchState Node) (node : Node)
    (state : SearchState Node) : Prop where
  inv : SearchInv graph state
  grows : SearchGrows start state
  index : state.indices.lookup node = some start.nextIndex
  reach : ∃ y ∈ node :: start.stack, ReflTransGen graph.Edge node y ∧
    state.index y = state.lowLink node
  segment : ∃ segment, state.stack = segment ++ start.stack ∧
    (∀ x ∈ segment, ∀ w, graph.Edge x w → Below state node w) ∧
    (segment ≠ [] → state.lowLink node < start.nextIndex) ∧
    ∀ x ∈ segment, Linked graph state node start.stack x

/-! ## Entering a node -/

theorem seen_enter : (state.enter node).Seen v ↔ v = node ∨ state.Seen v := by
  unfold SearchState.Seen
  rw [SearchState.lookup_enter]
  split
  · next h => exact iff_of_true rfl (.inl h)
  · next h => exact ⟨.inr, fun hv => hv.resolve_left h⟩

theorem index_enter :
    (state.enter node).index v = if v = node then state.nextIndex else state.index v := by
  unfold SearchState.index
  rw [SearchState.lookup_enter]
  split <;> rfl

theorem searchInv_enter (h : SearchInv graph state) (hnew : ¬state.Seen node)
    (hnode : node ∈ graph.nodes) : SearchInv graph (state.enter node) where
  seen_iff v := by
    rw [seen_enter, h.seen_iff v]
    show v = node ∨ v ∈ state.stack ∨ state.Placed v ↔ v ∈ node :: state.stack ∨ state.Placed v
    rw [mem_cons, or_assoc]
  apart v hv hplaced := by
    rcases mem_cons.mp hv with rfl | hv
    · exact hnew ((h.seen_iff v).mpr (.inr hplaced))
    · exact h.apart v hv hplaced
  descending := by
    have hold : ∀ v ∈ state.stack, (state.enter node).index v = state.index v := by
      intro v hv
      rw [index_enter, if_neg]
      rintro rfl
      exact hnew ((h.seen_iff v).mpr (.inl hv))
    refine pairwise_cons.mpr ⟨fun v hv => ?_, h.descending.imp_of_mem fun {a b} ha hb hab => ?_⟩
    · rw [hold v hv, index_enter, if_pos rfl]
      exact h.bounded v ((h.seen_iff v).mpr (.inl hv))
    · rw [hold a ha, hold b hb]
      exact hab
  bounded v hv := by
    rw [index_enter]
    split
    · exact Nat.lt_succ_self _
    · next hne => exact Nat.lt_succ_of_lt (h.bounded v ((seen_enter.mp hv).resolve_left hne))
  once := h.once
  nonempty := h.nonempty
  placed := h.placed
  known v hv := (seen_enter.mp hv).elim (fun heq => heq ▸ hnode) (h.known v)
  connected := h.connected

theorem grows_enter (hnew : ¬state.Seen node) : SearchGrows state (state.enter node) where
  indices v hv := by
    rw [SearchState.lookup_enter, if_neg]
    rintro rfl
    exact hnew hv
  lowLinks v hv := by
    rw [SearchState.lookup_lowLinks_enter, if_neg]
    rintro rfl
    exact hnew hv
  fresh v hv hv' := by
    rw [index_enter, if_pos ((seen_enter.mp hv').resolve_right hv)]
  next := Nat.le_succ _
  components := prefix_rfl

theorem scanning_enter (h : SearchInv graph state) (hnew : ¬state.Seen node)
    (hnode : node ∈ graph.nodes) : Scanning graph state node [] (state.enter node) where
  inv := searchInv_enter h hnew hnode
  grows := grows_enter hnew
  index := by rw [SearchState.lookup_enter, if_pos rfl]
  low := by rw [SearchState.lookup_lowLinks_enter, if_pos rfl]; rfl
  lowLink_le := by
    rw [SearchState.lowLink, SearchState.lookup_lowLinks_enter, if_pos rfl]
    exact Nat.le_refl _
  reach := by
    refine ⟨node, mem_cons_self, .refl, ?_⟩
    rw [index_enter, if_pos rfl, SearchState.lowLink, SearchState.lookup_lowLinks_enter, if_pos rfl]
    rfl
  segment := ⟨[], rfl, nofun, nofun⟩
  done := fun _ h => absurd h not_mem_nil

/-! ## Looking at a target -/

section Scan

variable {start : SearchState Node} {done : List Node}

variable {target : Node}

/-- What is on the stack and not numbered after the node is the node or below it. -/
theorem Scanning.mem_below (h : Scanning graph start node done state)
    (htarget : target ∈ state.stack) (hindex : state.index target ≤ start.nextIndex) :
    target ∈ node :: start.stack := by
  obtain ⟨segment, hstack, _⟩ := h.segment
  have hdescending := h.inv.descending
  rw [hstack, pairwise_append] at hdescending
  rw [hstack, mem_append] at htarget
  refine htarget.resolve_left fun hin => ?_
  have hlt := hdescending.2.2 target hin node mem_cons_self
  rw [SearchState.index_eq h.index] at hlt
  omega

theorem Below.mono {other : Node} (hplaced : ∀ v, state.Placed v → state'.Placed v)
    (hstack : ∀ v ∈ state.stack, v ∈ state'.stack ∧ state'.index v = state.index v)
    (hlow : state'.lowLink node ≤ state.lowLink other) (h : Below state other target) :
    Below state' node target := by
  rcases h with h | ⟨h, hle⟩
  · exact .inl (hplaced target h)
  · obtain ⟨hmem, hindex⟩ := hstack target h
    exact .inr ⟨hmem, hindex ▸ Nat.le_trans hlow hle⟩

theorem Linked.mono {list : List Node} (h : Linked graph state node list v)
    (hindex : ∀ y ∈ list, state'.index y = state.index y)
    (hlow : state'.lowLink node ≤ state.lowLink node) : Linked graph state' node list v := by
  obtain ⟨hpath, y, hy, hback, hle⟩ := h
  refine ⟨hpath, y, hy, hback, ?_⟩
  rw [hindex y hy]
  exact Nat.le_trans hlow hle

theorem searchInv_lower (h : SearchInv graph state) (bound : Nat) :
    SearchInv graph (state.lower node bound) :=
  ⟨h.seen_iff, h.apart, h.descending, h.bounded, h.once, h.nonempty, h.placed, h.known, h.connected⟩

theorem grows_lower (h : SearchGrows start state) (hnew : ¬start.Seen node) (bound : Nat) :
    SearchGrows start (state.lower node bound) where
  indices := h.indices
  lowLinks v hv := by
    rw [SearchState.lookup_lowLinks_lower, if_neg]
    · exact h.lowLinks v hv
    · rintro rfl
      exact hnew hv
  fresh := h.fresh
  next := h.next
  components := h.components

theorem Scanning.skip (h : Scanning graph start node done state)
    (hplaced : state.Placed target) : Scanning graph start node (done ++ [target]) state :=
  { h with
    done := by
      intro w hw
      rcases mem_append.mp hw with hw | hw
      · exact h.done w hw
      · rw [mem_singleton.mp hw]
        exact .inl hplaced }

theorem Scanning.lower (h : Scanning graph start node done state) (hnew : ¬start.Seen node)
    (hedge : graph.Edge node target) (htarget : target ∈ state.stack) :
    Scanning graph start node (done ++ [target]) (state.lower node (state.index target)) := by
  have hle : (state.lower node (state.index target)).lowLink node ≤ state.lowLink node := by
    rw [SearchState.lowLink_lower]
    exact Nat.min_le_left _ _
  have hmono : ∀ {w}, Below state node w → Below (state.lower node (state.index target)) node w :=
    Below.mono (fun _ hv => hv) (fun _ hv => ⟨hv, rfl⟩) hle
  obtain ⟨segment, hstack, hsegment, hlinked⟩ := h.segment
  refine
    { inv := searchInv_lower h.inv _
      grows := grows_lower h.grows hnew _
      index := h.index
      low := SearchState.lowLinks_lower_isSome _
      lowLink_le := Nat.le_trans hle h.lowLink_le
      reach := ?_
      segment := ⟨segment, hstack, fun x hx w hw => hmono (hsegment x hx w hw),
        fun x hx => (hlinked x hx).mono (fun _ _ => rfl) hle⟩
      done := ?_ }
  · rw [SearchState.lowLink_lower]
    rcases Nat.le_total (state.lowLink node) (state.index target) with hlow | hlow
    · rw [Nat.min_eq_left hlow]
      exact h.reach
    · rw [Nat.min_eq_right hlow]
      exact ⟨target, h.mem_below htarget (Nat.le_trans hlow h.lowLink_le), .single hedge, rfl⟩
  · intro w hw
    rcases mem_append.mp hw with hw | hw
    · exact hmono (h.done w hw)
    · rw [mem_singleton.mp hw]
      refine .inr ⟨htarget, ?_⟩
      rw [SearchState.lowLink_lower]
      exact Nat.min_le_right _ _

theorem Scanning.visit (h : Scanning graph start node done state) (hnew : ¬start.Seen node)
    (hedge : graph.Edge node target) (htarget : ¬state.Seen target)
    {visited : SearchState Node} (hvisited : Visited graph state target visited) :
    Scanning graph start node (done ++ [target]) (visited.lower node (visited.lowLink target)) := by
  have hnode : state.Seen node := SearchState.seen_of_lookup h.index
  have hlow : visited.lowLink node = state.lowLink node := by
    unfold SearchState.lowLink
    rw [hvisited.grows.lowLinks node hnode]
  have hle : (visited.lower node (visited.lowLink target)).lowLink node ≤ state.lowLink node := by
    rw [SearchState.lowLink_lower, hlow]
    exact Nat.min_le_left _ _
  have hle' : (visited.lower node (visited.lowLink target)).lowLink node ≤ visited.lowLink target := by
    rw [SearchState.lowLink_lower]
    exact Nat.min_le_right _ _
  have hindex : ∀ y ∈ state.stack, visited.index y = state.index y := fun y hy =>
    hvisited.grows.index ((h.inv.seen_iff y).mpr (.inl hy))
  obtain ⟨segment, hstack, hsegment, hlinked⟩ := h.segment
  have hbelow' : ∀ y ∈ node :: start.stack, y ∈ state.stack := fun y hy =>
    hstack ▸ mem_append_right _ hy
  obtain ⟨more, hmore, hbelow, hroot, hlinks⟩ := hvisited.segment
  have hold : ∀ {w}, Below state node w →
      Below (visited.lower node (visited.lowLink target)) node w := by
    refine Below.mono (fun _ hv => hvisited.grows.placed hv) (fun v hv => ⟨?_, hindex v hv⟩) hle
    show v ∈ visited.stack
    rw [hmore]
    exact mem_append_right _ hv
  have hinner : ∀ {w}, Below visited target w →
      Below (visited.lower node (visited.lowLink target)) node w :=
    Below.mono (fun _ hv => hv) (fun _ hv => ⟨hv, rfl⟩) hle'
  have hkept : ∀ x ∈ segment, Linked graph (visited.lower node (visited.lowLink target)) node
      (node :: start.stack) x := fun x hx =>
    (hlinked x hx).mono (fun y hy => hindex y (hbelow' y hy)) hle
  refine
    { inv := searchInv_lower hvisited.inv _
      grows := grows_lower (h.grows.trans hvisited.grows) hnew _
      index := (hvisited.grows.indices node hnode).trans h.index
      low := SearchState.lowLinks_lower_isSome _
      lowLink_le := Nat.le_trans hle h.lowLink_le
      reach := ?_
      segment := ⟨more ++ segment, ?_, fun x hx w hw => ?_, fun x hx => ?_⟩
      done := ?_ }
  · rw [SearchState.lowLink_lower, hlow]
    rcases Nat.le_total (state.lowLink node) (visited.lowLink target) with hlower | hlower
    · rw [Nat.min_eq_left hlower]
      obtain ⟨y, hy, hpath, heq⟩ := h.reach
      exact ⟨y, hy, hpath, (hindex y (hbelow' y hy)).trans heq⟩
    · rw [Nat.min_eq_right hlower]
      obtain ⟨y, hy, hpath, heq⟩ := hvisited.reach
      have hnext := h.lowLink_le
      have hbound := h.inv.bounded node hnode
      rw [SearchState.index_eq h.index] at hbound
      rcases mem_cons.mp hy with rfl | hy
      · rw [SearchState.index_eq hvisited.index] at heq
        omega
      · refine ⟨y, h.mem_below hy ?_, .head hedge hpath, heq⟩
        rw [hindex y hy] at heq
        omega
  · show visited.stack = _
    rw [hmore, hstack, append_assoc]
  · rcases mem_append.mp hx with hx | hx
    · exact hinner (hbelow x hx w hw)
    · exact hold (hsegment x hx w hw)
  · rcases mem_append.mp hx with hx | hx
    · -- through the target to what is above the node, and from there on
      obtain ⟨hpath, y, hy, hback, hlowest⟩ := hlinks x hx
      refine ⟨.head hedge hpath, ?_⟩
      rw [hstack] at hy
      rcases mem_append.mp hy with hy | hy
      · obtain ⟨_, z, hz, hback', hlowest'⟩ := hkept y hy
        exact ⟨z, hz, hback.trans hback', hlowest'⟩
      · exact ⟨y, hy, hback, Nat.le_trans hle' hlowest⟩
    · exact hkept x hx
  · intro w hw
    rcases mem_append.mp hw with hw | hw
    · exact hold (h.done w hw)
    · rw [mem_singleton.mp hw]
      have hseen : visited.Seen target := SearchState.seen_of_lookup hvisited.index
      rcases (hvisited.inv.seen_iff target).mp hseen with hin | hplaced
      · -- still on the stack: its low link is below its index
        have hin' : target ∈ more := by
          rw [hmore, mem_append] at hin
          exact hin.resolve_right fun hmem => htarget ((h.inv.seen_iff target).mpr (.inl hmem))
        refine hinner (.inr ⟨hin, ?_⟩)
        rw [SearchState.index_eq hvisited.index]
        exact Nat.le_of_lt (hroot (ne_nil_of_mem hin'))
      · exact .inl hplaced

end Scan

/-! ## Leaving a node -/

section Leave

variable {start : SearchState Node} {done top : List Node}

theorem nodup_stack (h : SearchInv graph state) : state.stack.Nodup :=
  h.descending.imp fun {a b} hlt heq => by
    rw [heq] at hlt
    exact Nat.lt_irrefl _ hlt

theorem Scanning.closed (h : Scanning graph start node done state)
    (hroot : state.lowLink node = start.nextIndex) (hstack : state.stack = top ++ start.stack)
    (hnode : node ∈ top) {target : Node} (hbelow : Below state node target) :
    state.Placed target ∨ target ∈ top := by
  refine hbelow.imp_right fun ⟨hmem, hle⟩ => ?_
  rw [hstack, mem_append] at hmem
  refine hmem.resolve_right fun hstart => ?_
  have hdescending := h.inv.descending
  rw [hstack, pairwise_append] at hdescending
  have hlt := hdescending.2.2 node hnode target hstart
  rw [SearchState.index_eq h.index, ← hroot] at hlt
  exact Nat.not_le_of_lt hlt hle

theorem PlacedBelow.append {components : List (List Node)} {component : List Node}
    (h : PlacedBelow graph components) (hcomponent : ∀ v ∈ component, ∀ w, graph.Edge v w →
      w ∈ component ∨ w ∈ components.flatten) :
    PlacedBelow graph (components ++ [component]) := by
  intro before c after hsplit
  rcases append_singleton_split hsplit with ⟨rfl, rfl⟩ | ⟨init, hold⟩
  · exact hcomponent
  · exact h before c init hold

theorem Scanning.leave_root (h : Scanning graph start node done state)
    (hroot : state.lowLink node = start.nextIndex) (hstack : state.stack = top ++ start.stack)
    (hnode : node ∈ top) (hbelow : ∀ x ∈ top, ∀ w, graph.Edge x w → Below state node w)
    (hlinked : ∀ x ∈ top, ReflTransGen graph.Edge node x ∧ ReflTransGen graph.Edge x node)
    {component : List Node} (hcomponent : component.Perm top) :
    Visited graph start node
      { state with
        stack := start.stack
        components := state.components ++ [component] } := by
  have hnodup := nodup_stack h.inv
  rw [hstack, nodup_append] at hnodup
  obtain ⟨htop, -, hdisjoint⟩ := hnodup
  have hapart : ∀ v ∈ top, ¬state.Placed v := fun v hv =>
    h.inv.apart v (hstack ▸ mem_append_left _ hv)
  have hplaced : ∀ v, v ∈ (state.components ++ [component]).flatten ↔ state.Placed v ∨ v ∈ top := by
    intro v
    rw [flatten_append, mem_append, flatten_singleton, hcomponent.mem_iff]
    exact Iff.rfl
  refine
    { inv :=
        { seen_iff := fun v => ?_
          apart := fun v hv hin => ?_
          descending := ?_
          bounded := h.inv.bounded
          once := ?_
          nonempty := ?_
          placed := ?_
          known := h.inv.known
          connected := fun c hc => ?_ }
      grows :=
        { h.grows with components := h.grows.components.trans (prefix_append _ _) }
      index := h.index
      reach := h.reach
      segment := ⟨[], rfl, nofun, fun hne => absurd rfl hne, nofun⟩ }
  · show state.Seen v ↔ v ∈ start.stack ∨ v ∈ (state.components ++ [component]).flatten
    rw [h.inv.seen_iff v, hstack, mem_append, hplaced]
    tauto
  · rcases (hplaced v).mp hin with hin | hin
    · exact h.inv.apart v (hstack ▸ mem_append_right _ hv) hin
    · exact hdisjoint v hin v hv rfl
  · have hdescending := h.inv.descending
    rw [hstack, pairwise_append] at hdescending
    exact hdescending.2.1
  · show (state.components ++ [component]).flatten.Nodup
    rw [flatten_append, flatten_singleton, nodup_append]
    refine ⟨h.inv.once, hcomponent.nodup_iff.mpr htop, fun v hv w hw heq => ?_⟩
    exact hapart w (hcomponent.mem_iff.mp hw) (heq ▸ hv)
  · intro c hc
    rcases mem_append.mp hc with hc | hc
    · exact h.inv.nonempty c hc
    · rw [mem_singleton.mp hc]
      exact ne_nil_of_mem (hcomponent.mem_iff.mpr hnode)
  · -- an edge from above the root leads into a component, or to what goes into this one
    refine h.inv.placed.append fun v hv w hw => ?_
    rw [hcomponent.mem_iff]
    exact (h.closed hroot hstack hnode (hbelow v (hcomponent.mem_iff.mp hv) w hw)).symm
  · rcases mem_append.mp hc with hc | hc
    · exact h.inv.connected c hc
    · rw [mem_singleton.mp hc]
      exact fun v hv w hw => (hlinked v (hcomponent.mem_iff.mp hv)).2.trans
        (hlinked w (hcomponent.mem_iff.mp hw)).1

theorem Scanning.leave (h : Scanning graph start node done state)
    (hall : ∀ w, graph.Edge node w → w ∈ done) (compare : Node → Node → Ordering) :
    Visited graph start node (state.leave compare node) := by
  obtain ⟨segment, hstack, hsegment, hlinked⟩ := h.segment
  have hstack' : state.stack = (segment ++ [node]) ++ start.stack := by
    rw [hstack, append_cons]
  have hbelow : ∀ x ∈ segment ++ [node], ∀ w, graph.Edge x w → Below state node w := by
    intro x hx w hw
    rcases mem_append.mp hx with hx | hx
    · exact hsegment x hx w hw
    · rw [mem_singleton.mp hx] at hw
      exact h.done w (hall w hw)
  obtain ⟨low, hlow⟩ := Option.isSome_iff_exists.mp h.low
  have hlowLink : state.lowLink node = low := by
    rw [SearchState.lowLink, hlow]
    rfl
  have hstart : ∀ y ∈ start.stack, state.index y < start.nextIndex := by
    have hdescending := h.inv.descending
    rw [hstack', pairwise_append] at hdescending
    intro y hy
    have hlt := hdescending.2.2 node (mem_append_right _ mem_cons_self) y hy
    rwa [SearchState.index_eq h.index] at hlt
  unfold SearchState.leave
  by_cases hroot : low = start.nextIndex
  · rw [if_pos (by rw [h.index, hlow, hroot])]
    -- the stack is cut at the node, which is not above itself
    have hnot : ∀ x ∈ segment, decide (x ≠ node) = true := by
      intro x hx
      have hnodup := nodup_stack h.inv
      rw [hstack, nodup_append] at hnodup
      exact decide_eq_true fun heq => hnodup.2.2 x hx node mem_cons_self heq
    have htake : state.stack.takeWhile (· ≠ node) = segment := by
      rw [hstack, takeWhile_append_of_pos hnot, takeWhile_cons_of_neg (by simp), append_nil]
    have hdrop : (state.stack.dropWhile (· ≠ node)).drop 1 = start.stack := by
      rw [hstack, dropWhile_append_of_pos hnot, dropWhile_cons_of_neg (by simp)]
      rfl
    rw [htake, hdrop]
    refine h.leave_root (hlowLink.trans hroot) hstack' (mem_append_right _ (by simp)) hbelow
      (fun x hx => ?_) (sortBy_perm compare _)
    rcases mem_append.mp hx with hx | hx
    · obtain ⟨hpath, y, hy, hback, hlowest⟩ := hlinked x hx
      rcases mem_cons.mp hy with rfl | hy
      · exact ⟨hpath, hback⟩
      · have hlt := hstart y hy
        omega
    · rw [mem_singleton.mp hx]
      exact ⟨.refl, .refl⟩
  · rw [if_neg (by rw [h.index, hlow, Option.some.injEq]; exact hroot)]
    have hlt := Nat.lt_of_le_of_ne h.lowLink_le fun heq => hroot (hlowLink.symm.trans heq)
    have hself : Linked graph state node start.stack node := by
      obtain ⟨y, hy, hpath, heq⟩ := h.reach
      rcases mem_cons.mp hy with rfl | hy
      · rw [SearchState.index_eq h.index] at heq
        omega
      · exact ⟨.refl, y, hy, hpath, Nat.le_of_eq heq.symm⟩
    refine
      { inv := h.inv
        grows := h.grows
        index := h.index
        reach := h.reach
        segment := ⟨segment ++ [node], hstack', hbelow, fun _ => hlt, fun x hx => ?_⟩ }
    rcases mem_append.mp hx with hx | hx
    · obtain ⟨hpath, y, hy, hback, hlowest⟩ := hlinked x hx
      rcases mem_cons.mp hy with rfl | hy
      · obtain ⟨_, z, hz, hback', hlowest'⟩ := hself
        exact ⟨hpath, z, hz, hback.trans hback', hlowest'⟩
      · exact ⟨hpath, y, hy, hback, hlowest⟩
    · rw [mem_singleton.mp hx]
      exact hself

end Leave

/-! ## The visit -/

theorem unseen_enter_lt (hgraph : graph.Closed) (hnew : ¬state.Seen node)
    (hnode : node ∈ graph.nodes) :
    (unseen graph (state.enter node)).length < (unseen graph state).length := by
  have hmem : node ∈ unseen graph state := mem_filter.mpr ⟨hnode, decide_eq_true hnew⟩
  have hsub : (unseen graph (state.enter node)).Sublist ((unseen graph state).erase node) := by
    have hnodup : (unseen graph state).Nodup := hgraph.nodup.filter _
    rw [hnodup.erase_eq_filter]
    unfold unseen
    rw [filter_filter]
    refine monotone_filter_right graph.nodes fun v hv => ?_
    simp only [decide_eq_true_eq, Bool.and_eq_true, bne_iff_ne] at hv ⊢
    rw [seen_enter, not_or] at hv
    exact hv
  have hlength := hsub.length_le
  rw [length_erase_of_mem hmem] at hlength
  have hpos := length_pos_of_mem hmem
  omega

theorem Scanning.unseen_le {start : SearchState Node} {done : List Node}
    (h : Scanning graph start node done state) :
    (unseen graph state).length ≤ (unseen graph (start.enter node)).length := by
  refine (monotone_filter_right graph.nodes fun v hv => ?_).length_le
  rw [decide_eq_true_eq] at hv ⊢
  intro hv'
  rcases seen_enter.mp hv' with rfl | hv'
  · exact hv (SearchState.seen_of_lookup h.index)
  · exact hv (h.grows.seen hv')

/-- **What a visit does**, as long as the fuel is enough for the nodes that have not been
seen. -/
theorem visited_visit (hgraph : graph.Closed) (compare : Node → Node → Ordering) {fuel : Nat}
    (hstate : SearchInv graph state) (hnew : ¬state.Seen node) (hnode : node ∈ graph.nodes)
    (hfuel : (unseen graph state).length ≤ fuel) :
    Visited graph state node (visit graph compare fuel node state) := by
  induction fuel generalizing node state with
  | zero =>
    have hmem : node ∈ unseen graph state := mem_filter.mpr ⟨hnode, decide_eq_true hnew⟩
    exact absurd (length_pos_of_mem hmem) (Nat.not_lt.mpr hfuel)
  | succ fuel ih =>
    -- the node itself is seen from now on
    have hless : (unseen graph (state.enter node)).length ≤ fuel :=
      Nat.le_of_lt_succ (Nat.lt_of_lt_of_le (unseen_enter_lt hgraph hnew hnode) hfuel)
    -- over the targets, with those that have been looked at so far
    have hloop : ∀ (targets done : List Node) (t : SearchState Node),
        (∀ w ∈ targets, graph.Edge node w) → Scanning graph state node done t →
        Scanning graph state node (done ++ targets)
          (targets.foldl (fun state neighbor =>
            if (state.indices.lookup neighbor).isNone then
              let state := visit graph compare fuel neighbor state
              state.lower node (state.lowLink neighbor)
            else if state.stack.contains neighbor then state.lower node (state.index neighbor)
            else state) t) := by
      intro targets
      induction targets with
      | nil =>
        intro done t _ ht
        rw [append_nil]
        exact ht
      | cons target targets ihtargets =>
        intro done t hedges ht
        rw [append_cons, foldl_cons]
        refine ihtargets _ _ (fun w hw => hedges w (mem_cons_of_mem _ hw)) ?_
        by_cases hseen : t.Seen target
        · rw [if_neg (by rw [Option.isNone_iff_eq_none, hseen.lookup]; exact nofun)]
          by_cases hstack : target ∈ t.stack
          · rw [if_pos (contains_iff_mem.mpr hstack)]
            exact ht.lower hnew (hedges target mem_cons_self) hstack
          · rw [if_neg (mt contains_iff_mem.mp hstack)]
            exact ht.skip (((ht.inv.seen_iff target).mp hseen).resolve_left hstack)
        · rw [if_pos (by rw [Option.isNone_iff_eq_none]; simpa [SearchState.Seen] using hseen)]
          have hedge := hedges target mem_cons_self
          have hmem := hgraph.target_mem node target hedge
          have hgrown := Nat.le_trans ht.unseen_le hless
          exact ht.visit hnew hedge hseen (ih ht.inv hseen hmem hgrown)
    have htargets := hloop (sortBy compare (graph.targets node)) [] (state.enter node)
      (fun w hw => mem_sortBy.mp hw) (scanning_enter hstate hnew hnode)
    rw [nil_append] at htargets
    exact htargets.leave (fun w hw => mem_sortBy.mpr hw) compare

/-! ## The components -/

/-- Components: no edge leads to a later one, and those of one reach each other. -/
structure Components (graph : DirectedGraph Node) (components : List (List Node)) : Prop where
  mem : ∀ node ∈ graph.nodes, node ∈ components.flatten
  once : components.flatten.Nodup
  nonempty : ∀ component ∈ components, component ≠ []
  placed : PlacedBelow graph components
  known : ∀ node ∈ components.flatten, node ∈ graph.nodes
  connected : ∀ component ∈ components, ∀ v ∈ component, ∀ w ∈ component,
    ReflTransGen graph.Edge v w

/-- The loop of `stronglyConnectedComponents`. -/
def searchComponents (graph : DirectedGraph Node) (compare : Node → Node → Ordering)
    (nodes : List Node) (state : SearchState Node) : SearchState Node :=
  nodes.foldl
    (fun state node =>
      if (state.indices.lookup node).isNone then
        visit graph compare (graph.nodes.length + graph.edgeCount + 1) node state
      else state)
    state

theorem searchInv_init : SearchInv graph (⟨0, ∅, ∅, [], []⟩ : SearchState Node) where
  seen_iff v := by simp [SearchState.Seen, SearchState.Placed]
  apart _ hv := absurd hv not_mem_nil
  descending := List.Pairwise.nil
  bounded v hv := by simp [SearchState.Seen] at hv
  once := nodup_nil
  nonempty _ hc := absurd hc not_mem_nil
  placed before component after hsplit := by simp at hsplit
  known v hv := by simp [SearchState.Seen] at hv
  connected _ hc := absurd hc not_mem_nil

theorem Visited.stack_eq_nil {start : SearchState Node} (h : Visited graph start node state)
    (hstack : start.stack = []) : state.stack = [] := by
  obtain ⟨segment, hsegment, _, _, hlinked⟩ := h.segment
  have hempty : segment = [] := by
    refine eq_nil_iff_forall_not_mem.mpr fun x hx => ?_
    obtain ⟨_, y, hy, _⟩ := hlinked x hx
    rw [hstack] at hy
    cases hy
  rw [hsegment, hempty, hstack]
  rfl

theorem components_search (hgraph : graph.Closed) (compare : Node → Node → Ordering) :
    Components graph
      (searchComponents graph compare (sortBy compare graph.nodes) ⟨0, ∅, ∅, [], []⟩).components := by
  have hloop : ∀ (nodes done : List Node) (t : SearchState Node), (∀ v ∈ nodes, v ∈ graph.nodes) →
      SearchInv graph t → t.stack = [] → (∀ v ∈ done, t.Seen v) →
      SearchInv graph (searchComponents graph compare nodes t) ∧
        (searchComponents graph compare nodes t).stack = [] ∧
        ∀ v ∈ done ++ nodes, (searchComponents graph compare nodes t).Seen v := by
    unfold searchComponents
    intro nodes
    induction nodes with
    | nil =>
      intro done t _ hinv hstack hdone
      rw [append_nil]
      exact ⟨hinv, hstack, hdone⟩
    | cons node nodes ih =>
      intro done t hnodes hinv hstack hdone
      rw [append_cons, foldl_cons]
      by_cases hseen : t.Seen node
      · rw [if_neg (by rw [Option.isNone_iff_eq_none, hseen.lookup]; exact nofun)]
        refine ih _ t (fun v hv => hnodes v (mem_cons_of_mem _ hv)) hinv hstack fun v hv => ?_
        rcases mem_append.mp hv with hv | hv
        · exact hdone v hv
        · exact mem_singleton.mp hv ▸ hseen
      · rw [if_pos (by rw [Option.isNone_iff_eq_none]; simpa [SearchState.Seen] using hseen)]
        have hfuel : (unseen graph t).length ≤ graph.nodes.length + graph.edgeCount + 1 :=
          Nat.le_trans (length_filter_le _ _) (by omega)
        have hvisited := visited_visit hgraph compare hinv hseen (hnodes node mem_cons_self) hfuel
        refine ih _ _ (fun v hv => hnodes v (mem_cons_of_mem _ hv)) hvisited.inv
          (hvisited.stack_eq_nil hstack) fun v hv => ?_
        rcases mem_append.mp hv with hv | hv
        · exact hvisited.grows.seen (hdone v hv)
        · rw [mem_singleton.mp hv]
          exact SearchState.seen_of_lookup hvisited.index
  obtain ⟨hinv, hstack, hseen⟩ := hloop (sortBy compare graph.nodes) [] _
    (fun v hv => mem_sortBy.mp hv) searchInv_init rfl fun _ hv => absurd hv not_mem_nil
  refine ⟨fun node hnode => ?_, hinv.once, hinv.nonempty, hinv.placed,
    fun v hv => hinv.known v ((hinv.seen_iff v).mpr (.inr hv)), hinv.connected⟩
  rcases (hinv.seen_iff node).mp (hseen node (mem_sortBy.mpr hnode)) with hin | hplaced
  · rw [hstack] at hin
    cases hin
  · exact hplaced

theorem PlacedBelow.path {before after : List (List Node)} {w : Node}
    (h : PlacedBelow graph (before ++ after)) (hpath : ReflTransGen graph.Edge v w)
    (hv : v ∈ before.flatten) : w ∈ before.flatten := by
  induction hpath with
  | refl => exact hv
  | tail _ hedge ih =>
    obtain ⟨component, hcomponent, hmem⟩ := mem_flatten.mp ih
    obtain ⟨first, second, rfl⟩ := append_of_mem hcomponent
    rcases h first component (second ++ after) (by simp) _ hmem _ hedge with hin | hin
    · exact mem_flatten_of_mem hcomponent hin
    · rw [flatten_append]
      exact mem_append_left _ hin

/-- **Two nodes are in one component exactly when each reaches the other.** -/
theorem Components.same_iff {components : List (List Node)} {w : Node}
    (h : Components graph components) (hv : v ∈ graph.nodes) :
    (∃ component ∈ components, v ∈ component ∧ w ∈ component) ↔
      ReflTransGen graph.Edge v w ∧ ReflTransGen graph.Edge w v := by
  constructor
  · rintro ⟨component, hmem, hv, hw⟩
    exact ⟨h.connected component hmem v hv w hw, h.connected component hmem w hw v hv⟩
  · rintro ⟨hvw, hwv⟩
    obtain ⟨component, hmem, hin⟩ := mem_flatten.mp (h.mem v hv)
    refine ⟨component, hmem, hin, ?_⟩
    obtain ⟨before, after, rfl⟩ := append_of_mem hmem
    have hnodup := h.once
    rw [flatten_append, nodup_append] at hnodup
    have hplaced := h.placed
    rw [append_cons] at hplaced
    have hw := hplaced.path hvw (by simp [hin])
    rw [flatten_append, flatten_singleton, mem_append] at hw
    refine hw.resolve_left fun hbefore => ?_
    exact hnodup.2.2 v (h.placed.path hwv hbefore) v (by simp [hin]) rfl

/-- **Where every component is a single node without an edge to itself, there is no cycle.** -/
theorem acyclic_of_components (hgraph : graph.WellFormed) {compare : Node → Node → Ordering}
    (h : ∀ node rest, node :: rest ∈ stronglyConnectedComponents graph compare →
      rest = [] ∧ ¬graph.Edge node node) : graph.Acyclic := by
  have hcomponents := components_search hgraph.closed compare
  have hsingle : ∀ component ∈
      (searchComponents graph compare (sortBy compare graph.nodes) ⟨0, ∅, ∅, [], []⟩).components,
      ∃ node, component = [node] ∧ ¬graph.Edge node node := by
    intro component hmem
    obtain ⟨node, rest, rfl⟩ := exists_cons_of_ne_nil (hcomponents.nonempty component hmem)
    obtain ⟨rfl, hnot⟩ := h node rest (mem_sortBy.mpr hmem)
    exact ⟨node, rfl, hnot⟩
  generalize searchComponents graph compare _ _ = final at hcomponents hsingle
  -- the components are the nodes, one by one, and so an order of them
  have hmap : final.components = final.components.flatten.map fun node => [node] := by
    generalize final.components = components at hsingle
    induction components with
    | nil => rfl
    | cons component components ih =>
      obtain ⟨node, rfl, _⟩ := hsingle component mem_cons_self
      rw [flatten_cons, singleton_append, map_cons,
        ← ih fun c hc => hsingle c (mem_cons_of_mem _ hc)]
  refine DirectedGraph.acyclic_of_list hcomponents.once
    (fun a b hedge => hcomponents.mem a (hgraph.source_mem hedge)) ?_
  intro before a after hsplit b hedge
  have hplaced := hcomponents.placed (before.map fun node => [node]) [a]
    (after.map fun node => [node]) (by rw [hmap, hsplit, map_append, map_cons]) a
    (mem_singleton_self a) b hedge
  rcases hplaced with hself | hbefore
  · have hloop := hsingle [a] (by rw [hmap, hsplit]; simp)
    obtain ⟨node, heq, hnot⟩ := hloop
    obtain rfl := singleton_inj.mp heq
    exact absurd (mem_singleton.mp hself ▸ hedge) hnot
  · obtain ⟨single, hin, hmem⟩ := mem_flatten.mp hbefore
    obtain ⟨node, hnode, rfl⟩ := mem_map.mp hin
    exact mem_singleton.mp hmem ▸ hnode

end TegoNext
