/-
The tables of requests of a `WorkerSession`.

A request waits in one table and is remembered as issued in a second one, which is pruned by count.
`#pruneIssuedRequests` is a loop over the order of requests which puts those that wait back to its
end. It does not go round for ever: all that wait fit into what is kept (`pruneLoop_eq`), and none
of them is forgotten.
-/
import TegoNext.SessionSteps

set_option autoImplicit false

namespace TegoNext

open List

namespace WorkerSession

variable {platform : SessionPlatform} {options : WorkerSessionOptions} {s s' s'' : WorkerSession}

/-! ## The loop -/

/-- A round of the loop of `#pruneIssuedRequests`, or `none` where the loop is left. -/
def pruneRound (retention : Nat) (pending : List JsString) :
    List JsString × List JsString → Option (List JsString × List JsString)
  | (ids, order) =>
    if ids.length ≤ retention then none
    else
      match order with
      | [] => none
      | removed :: order =>
        if removed ∈ pending then some (ids, order ++ [removed])
        else some (ids.erase removed, order)

/-- The loop, if it is left within so many rounds. -/
def pruneLoop (retention : Nat) (pending : List JsString) :
    Nat → List JsString × List JsString → Option (List JsString × List JsString)
  | 0, _ => none
  | rounds + 1, tables =>
    match pruneRound retention pending tables with
    | none => some tables
    | some tables => pruneLoop retention pending rounds tables

/-- The loop of `#pruneIssuedRequests` is left, and leaves what `pruneIssuedRequests` says. -/
def PruningEnds (options : WorkerSessionOptions) (i : SessionInbound) : Prop :=
  ∃ rounds, pruneLoop (options.limits.replayRetention + options.limits.maxInflightMessages)
      i.pendingRequests rounds (i.issuedRequestIds, i.issuedRequestOrder) =
    some ((pruneIssuedRequests options i).issuedRequestIds,
      (pruneIssuedRequests options i).issuedRequestOrder)

variable {retention : Nat} {pending ids order kept : List JsString}

/-- **Pruning ends** after one pass over the order: if only requests that wait are left, they
are few enough. -/
theorem pruneLoop_eq (hnodup : ids.Nodup) (hids : ids ⊆ order ++ kept) (hkept : kept ⊆ pending)
    (hpending : pending.length ≤ retention) :
    pruneLoop retention pending (order.length + 1) (ids, order ++ kept) =
      some (pruneIssued retention pending ids order kept) := by
  induction order generalizing ids kept with
  | nil =>
    -- all that is left waits
    have hsub : ids ⊆ pending := fun id hid => hkept (hids hid)
    have hfew : ids.length ≤ retention := (subperm_of_subset hnodup hsub).length_le.trans hpending
    simp [pruneLoop, pruneRound, pruneIssued, hfew]
  | cons removed order ih =>
    rw [length_cons, cons_append, pruneLoop, pruneRound, pruneIssued]
    by_cases hfew : ids.length ≤ retention
    · rw [if_pos hfew, if_pos hfew]
      rfl
    rw [if_neg hfew, if_neg hfew]
    by_cases hwaits : removed ∈ pending
    · rw [if_pos hwaits, if_pos hwaits]
      simp only [append_assoc]
      refine ih hnodup (fun id hid => ?_) (append_subset.mpr ⟨hkept, ?_⟩)
      · have hmem := hids hid
        simp only [mem_append, mem_cons, not_mem_nil, or_false] at hmem ⊢
        rcases hmem with (h | h) | h
        · exact .inr (.inr h)
        · exact .inl h
        · exact .inr (.inl h)
      · intro id hid
        rw [mem_singleton.mp hid]
        exact hwaits
    · rw [if_neg hwaits, if_neg hwaits]
      refine ih (hnodup.erase removed) (fun id hid => ?_) hkept
      rw [hnodup.mem_erase_iff] at hid
      exact (mem_cons.mp (hids hid.2)).resolve_left hid.1

/-! ## What pruning keeps -/

theorem pruneIssued_nodup
    (h : ids.Nodup) : (pruneIssued retention pending ids order kept).1.Nodup := by
  induction order generalizing ids kept with
  | nil => exact h
  | cons removed order ih =>
    rw [pruneIssued]
    split
    · exact h
    split
    · exact ih h
    · exact ih (h.erase removed)

theorem mem_pruneIssued {id : JsString} (hpending : id ∈ pending) (h : id ∈ ids) :
    id ∈ (pruneIssued retention pending ids order kept).1 := by
  induction order generalizing ids kept with
  | nil => exact h
  | cons removed order ih =>
    rw [pruneIssued]
    split
    · exact h
    split
    · exact ih h
    next hwaits =>
    apply ih
    rw [mem_erase_of_ne]
    · exact h
    · rintro rfl
      exact hwaits hpending

theorem pruneIssued_ordered (hnodup : ids.Nodup) (h : ids ⊆ order ++ kept) :
    (pruneIssued retention pending ids order kept).1 ⊆
      (pruneIssued retention pending ids order kept).2 := by
  induction order generalizing ids kept with
  | nil => exact h
  | cons removed order ih =>
    rw [pruneIssued]
    split
    · exact h
    split
    · refine ih hnodup fun id hid => ?_
      have hmem := h hid
      simp only [mem_append, mem_cons, not_mem_nil, or_false] at hmem ⊢
      rcases hmem with (h | h) | h
      · exact .inr (.inr h)
      · exact .inl h
      · exact .inr (.inl h)
    · refine ih (hnodup.erase removed) fun id hid => ?_
      rw [hnodup.mem_erase_iff] at hid
      exact (mem_cons.mp (h hid.2)).resolve_left hid.1

/-! ## The tables -/

structure RequestTables (options : WorkerSessionOptions) (i : SessionInbound) : Prop where
  pendingNodup : i.pendingRequests.Nodup
  bounded : i.pendingRequests.length ≤ options.limits.maxInflightMessages
  pendingIssued : i.pendingRequests ⊆ i.issuedRequestIds
  issuedNodup : i.issuedRequestIds.Nodup
  issuedOrdered : i.issuedRequestIds ⊆ i.issuedRequestOrder
  issuedRequested : i.issuedRequestIds ⊆ i.requested

namespace RequestTables

variable {i i' : SessionInbound} {id : JsString}

theorem pruningEnds (h : RequestTables options i) : PruningEnds options i := by
  have hids : i.issuedRequestIds ⊆ i.issuedRequestOrder ++ [] := by
    rw [append_nil]
    exact h.issuedOrdered
  have hloop := pruneLoop_eq h.issuedNodup hids (nil_subset _)
    (h.bounded.trans (Nat.le_add_left _ options.limits.replayRetention))
  rw [append_nil] at hloop
  exact ⟨_, hloop⟩

theorem prune (h : RequestTables options i) :
    RequestTables options (pruneIssuedRequests options i) where
  pendingNodup := h.pendingNodup
  bounded := h.bounded
  pendingIssued := fun id hid => mem_pruneIssued hid (h.pendingIssued hid)
  issuedNodup := pruneIssued_nodup h.issuedNodup
  issuedOrdered := pruneIssued_ordered h.issuedNodup (by
    rw [append_nil]
    exact h.issuedOrdered)
  issuedRequested := List.Subset.trans (pruneIssued_subset _ _ _ _ _) h.issuedRequested

theorem erase (h : RequestTables options i) (id : JsString) :
    RequestTables options { i with pendingRequests := i.pendingRequests.erase id } where
  pendingNodup := h.pendingNodup.erase id
  bounded := length_erase_le.trans h.bounded
  pendingIssued := List.Subset.trans erase_subset h.pendingIssued
  issuedNodup := h.issuedNodup
  issuedOrdered := h.issuedOrdered
  issuedRequested := h.issuedRequested

theorem settle (h : RequestTables options i) (id : JsString) :
    RequestTables options (settleRequest options i id) :=
  (h.erase id).prune

end RequestTables

/-- A new request in the tables, before they are pruned. -/
def entered (i : SessionInbound) (id : JsString) : SessionInbound :=
  { i with
    pendingRequests := addId i.pendingRequests id
    requested := i.requested ++ [id]
    issuedRequestIds := addId i.issuedRequestIds id
    issuedRequestOrder := i.issuedRequestOrder ++ [id] }

theorem addId_of_notMem {id : JsString} (h : id ∉ ids) : addId ids id = ids ++ [id] := by
  rw [addId, if_neg h]

namespace RequestTables

variable {i i' : SessionInbound} {id : JsString}

theorem fresh_issued (h : RequestTables options i) (hfresh : id ∉ i.requested) :
    id ∉ i.issuedRequestIds := fun hmem => hfresh (h.issuedRequested hmem)

theorem fresh_pending (h : RequestTables options i) (hfresh : id ∉ i.requested) :
    id ∉ i.pendingRequests := fun hmem => h.fresh_issued hfresh (h.pendingIssued hmem)

theorem enter (h : RequestTables options i) (hfresh : id ∉ i.requested)
    (hroom : i.pendingRequests.length < options.limits.maxInflightMessages) :
    RequestTables options (entered i id) := by
  have hpending : addId i.pendingRequests id = i.pendingRequests ++ [id] :=
    addId_of_notMem (h.fresh_pending hfresh)
  have hissued : addId i.issuedRequestIds id = i.issuedRequestIds ++ [id] :=
    addId_of_notMem (h.fresh_issued hfresh)
  have hnodup : ∀ {ids : List JsString}, ids.Nodup → id ∉ ids → (ids ++ [id]).Nodup := by
    intro ids hids hnot
    rw [nodup_append]
    refine ⟨hids, nodup_singleton id, fun a ha b hb heq => ?_⟩
    rw [mem_singleton.mp hb] at heq
    exact hnot (heq ▸ ha)
  have happend : ∀ {ids ids' : List JsString}, ids ⊆ ids' → ids ++ [id] ⊆ ids' ++ [id] :=
    fun hsub => append_subset.mpr
      ⟨List.Subset.trans hsub (subset_append_left _ _), subset_append_right _ _⟩
  refine ⟨?_, ?_, ?_, ?_, ?_, ?_⟩
  · rw [entered, hpending]
    exact hnodup h.pendingNodup (h.fresh_pending hfresh)
  · rw [entered, hpending, length_append, length_singleton]
    exact hroom
  · rw [entered, hpending, hissued]
    exact happend h.pendingIssued
  · rw [entered, hissued]
    exact hnodup h.issuedNodup (h.fresh_issued hfresh)
  · rw [entered, hissued]
    exact happend h.issuedOrdered
  · rw [entered, hissued]
    exact happend h.issuedRequested

theorem takeBack (h : RequestTables options i) (id : JsString) :
    RequestTables options { i with
      pendingRequests := i.pendingRequests.erase id
      issuedRequestIds := i.issuedRequestIds.erase id } where
  pendingNodup := h.pendingNodup.erase id
  bounded := length_erase_le.trans h.bounded
  pendingIssued := by
    intro other hother
    rw [h.pendingNodup.mem_erase_iff] at hother
    exact h.issuedNodup.mem_erase_iff.mpr ⟨hother.1, h.pendingIssued hother.2⟩
  issuedNodup := h.issuedNodup.erase id
  issuedOrdered := List.Subset.trans erase_subset h.issuedOrdered
  issuedRequested := List.Subset.trans erase_subset h.issuedRequested

end RequestTables

end WorkerSession

end TegoNext
