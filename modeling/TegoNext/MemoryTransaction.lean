/-
`MemoryTransaction`: the view of the store that a transaction body works on.

A transaction keeps the committed records as they were when it started and stages what it writes:
at most one mutation per key (a later call replaces the earlier one), journal entries, and outbox
messages in the order they were enqueued. `finish` hands the staged work to the commit, mutations
sorted by key. A call that throws leaves the transaction as it was.
-/
import TegoNext.StateContract
import Mathlib.Data.List.AList

set_option autoImplicit false

namespace TegoNext

open Except AList

/-- A committed record. The source repeats the key inside the record; it is
always the key the record is stored under. -/
structure StoredRecord (V : Type) where
  value : V
  revision : Revision

/-- The committed records, by key. The source keys its map by the JSON text of
the three strings, which is injective. -/
abbrev Records (V : Type) : Type := AList fun _ : StateKey => StoredRecord V

/-- `PutMutation | DeleteMutation`, without the key it is staged under. -/
inductive Mutation (V : Type) where
  | put (value : V) (expectedRevision : ExpectedRevision)
  | delete (expectedRevision : ExpectedRevision)

namespace Mutation

variable {V : Type}

def expectedRevision : Mutation V → ExpectedRevision
  | put _ e => e
  | delete e => e

end Mutation

/-- What a finished transaction asks the store to commit. -/
structure StagedTransaction (V : Type) where
  mutations : List (Sigma fun _ : StateKey => Mutation V)
  operations : List (OperationJournalEntry V)
  outbox : List (OutboxMessage V)

structure MemoryTransaction (V : Type) where
  snapshot : Records V
  mutations : AList fun _ : StateKey => Mutation V
  operations : List (OperationJournalEntry V)
  operationIds : List OperationId
  outbox : List (OutboxMessage V)
  active : Bool

/-! ## Argument checks -/

/-- `assertStateKey`; `write` selects the error code. -/
def assertStateKey (key : StateKey) (write : Bool) : Except StateError Unit :=
  if Text.isPortableStateString key.nspace && Text.isPortableStateString key.collection &&
      Text.isPortableStateString key.id then
    .ok ()
  else
    .error
      { code := if write then .STATE_DATA_INVALID else .STATE_QUERY_INVALID
        message := "State keys must not contain NUL or ill-formed Unicode"
        details := [("namespace", .text key.nspace), ("collection", .text key.collection),
          ("id", .text key.id)] }

def assertStateQuery (query : StateQuery) : Except StateError Unit :=
  if !Text.isPortableStateString query.nspace || !Text.isPortableStateString query.collection ||
      query.idPrefix.any (fun p => !Text.isPortableStateString p) ||
      query.afterId.any (fun p => !Text.isPortableStateString p) ||
      query.limit.any (fun l => l ≤ 0 || (STATE_QUERY_MAX_LIMIT : Int) < l) then
    .error
      { code := .STATE_QUERY_INVALID
        message := "State query strings must be portable and limit must be between 1 and 100"
        details := [("limit", .ofNumber query.limit)] }
  else .ok ()

def matchesQuery {V : Type} (query : StateQuery) (record : Sigma fun _ : StateKey => StoredRecord V) :
    Bool :=
  record.1.nspace == query.nspace && record.1.collection == query.collection &&
    query.idPrefix.all (fun p => Text.startsWith record.1.id p) &&
    query.afterId.all (fun a => Text.compareText record.1.id a == .gt)

/-- Filter, sort by id, cut to the limit: the common part of every scan. -/
def scanRecords {V : Type} (records : Records V) (query : StateQuery) : List (ScannedState V) :=
  let matching := (records.entries.filter (matchesQuery query)).insertionSort
    fun left right => Text.compareText left.1.id right.1.id ≠ .gt
  let page := match query.limit with
    | some limit => matching.take limit.toNat
    | none => matching
  page.map fun record => ⟨record.1, record.2.value, record.2.revision⟩

def matchesExpectedRevision {V : Type} (record : Option (StoredRecord V)) : ExpectedRevision → Bool
  | .undefined => true
  | .absent => record.isNone
  | .revision r => record.any fun rec => rec.revision == r

/-! ## The methods -/

namespace MemoryTransaction

variable {V : Type}

def start (snapshot : Records V) : MemoryTransaction V where
  snapshot := snapshot
  mutations := ∅
  operations := []
  operationIds := []
  outbox := []
  active := true

section

variable (tx : MemoryTransaction V) (key : StateKey)

def assertActive : Except StateError Unit :=
  if tx.active then .ok ()
  else .error
    { code := .STATE_CLOSED
      message := "State transaction is no longer active"
      details := [("target", .literal "transaction")] }

def snapshotRevision : Revision := ((tx.snapshot.lookup key).map (·.revision)).getD zeroRevision

/-- `get`: the staged value under the snapshot's revision, else the record. -/
def get :
    Except StateError (Option (StoredRecord V)) := do
  tx.assertActive
  assertStateKey key false
  match tx.mutations.lookup key with
  | some (.delete _) => pure none
  | some (.put value _) => pure (some ⟨value, tx.snapshotRevision key⟩)
  | none => pure (tx.snapshot.lookup key)

/-- The records a scan of the transaction sees. -/
def visible : Records V :=
  tx.mutations.entries.foldl
    (fun records entry =>
      match entry.2 with
      | .delete _ => records.erase entry.1
      | .put value _ => records.insert entry.1 ⟨value, tx.snapshotRevision entry.1⟩)
    tx.snapshot

def scan (query : StateQuery) :
    Except StateError (List (ScannedState V)) := do
  tx.assertActive
  assertStateQuery query
  pure (scanRecords tx.visible query)

/-- `put` and `delete` stage a mutation under its key, replacing the one that is
there. -/
def stage (mutation : Mutation V) :
    Except StateError (MemoryTransaction V) := do
  tx.assertActive
  assertStateKey key true
  pure { tx with mutations := tx.mutations.insert key mutation }

def put (value : V)
    (expectedRevision : ExpectedRevision) : Except StateError (MemoryTransaction V) :=
  tx.stage key (.put value expectedRevision)

def delete (expectedRevision : ExpectedRevision) : Except StateError (MemoryTransaction V) :=
  tx.stage key (.delete expectedRevision)

/-- `appendOperation`: each operation at most once per transaction. -/
def appendOperation (entry : OperationJournalEntry V) :
    Except StateError (MemoryTransaction V) := do
  tx.assertActive
  if tx.operationIds.contains entry.operationId then
    throw
      { code := .STATE_DATA_INVALID
        message := "An operation may be appended only once per state transaction"
        details := [("operationId", .text entry.operationId)] }
  pure { tx with operationIds := tx.operationIds ++ [entry.operationId]
                 operations := tx.operations ++ [entry] }

def enqueueOutbox (message : OutboxMessage V) :
    Except StateError (MemoryTransaction V) := do
  tx.assertActive
  pure { tx with outbox := tx.outbox ++ [message] }

def sortedMutations : List (Sigma fun _ : StateKey => Mutation V) :=
  tx.mutations.entries.insertionSort fun left right => compareKeys left.1 right.1 ≠ .gt

/-- `finish`: what was staged, and the transaction it leaves behind. -/
def finish :
    Except StateError (StagedTransaction V × MemoryTransaction V) := do
  tx.assertActive
  pure ({ mutations := tx.sortedMutations, operations := tx.operations, outbox := tx.outbox },
    { tx with active := false })

def abort : MemoryTransaction V := { tx with active := false }

end

/-! ## Staged mutations over records -/

/-- The record of a key under a mutation; `revision` is what a staged value shows. -/
def overlaid (revision : Revision) (otherwise : Option (StoredRecord V)) :
    Option (Mutation V) → Option (StoredRecord V)
  | none => otherwise
  | some (.put value _) => some ⟨value, revision⟩
  | some (.delete _) => none

/-- The records with some mutations over them. -/
def overlay (revision : StateKey → Revision) (records : Records V)
    (entries : List (Sigma fun _ : StateKey => Mutation V)) : Records V :=
  entries.foldl
    (fun records entry =>
      match entry.2 with
      | .delete _ => records.erase entry.1
      | .put value _ => records.insert entry.1 ⟨value, revision entry.1⟩)
    records

theorem lookup_overlay (revision : StateKey → Revision) (records : Records V)
    {entries : List (Sigma fun _ : StateKey => Mutation V)} (hnodup : entries.NodupKeys)
    (key : StateKey) : (overlay revision records entries).lookup key =
      overlaid (revision key) (records.lookup key) (entries.dlookup key) := by
  induction entries generalizing records with
  | nil => rfl
  | cons entry rest ih =>
    obtain ⟨hnotin, hrest⟩ := List.nodupKeys_cons.mp hnodup
    obtain ⟨k, mutation⟩ := entry
    rw [overlay, List.foldl_cons]
    refine (ih _ hrest).trans ?_
    by_cases hkey : key = k
    · subst hkey
      rw [List.dlookup_eq_none.mpr hnotin, List.dlookup_cons_eq]
      cases mutation with
      | put value expected => exact lookup_insert records
      | delete expected => exact lookup_erase key records
    · rw [List.dlookup_cons_ne rest ⟨k, mutation⟩ hkey]
      cases mutation with
      | put value expected => rw [lookup_insert_ne hkey]
      | delete expected => rw [lookup_erase_ne hkey]

theorem visible_eq_overlay (tx : MemoryTransaction V) :
    tx.visible = overlay tx.snapshotRevision tx.snapshot tx.mutations.entries := rfl

/-! ## What the methods do -/

variable {tx tx' : MemoryTransaction V}

theorem stage_ok {key : StateKey} {mutation : Mutation V} (h : tx.stage key mutation = .ok tx') :
    tx' = { tx with mutations := tx.mutations.insert key mutation } := by
  unfold stage assertActive assertStateKey at h
  split at h
  · split at h
    · exact (ok.inj h).symm
    · cases h
  · cases h

theorem appendOperation_ok {entry : OperationJournalEntry V}
    (h : tx.appendOperation entry = .ok tx') :
    entry.operationId ∉ tx.operationIds ∧ tx' = { tx with
      operationIds := tx.operationIds ++ [entry.operationId]
      operations := tx.operations ++ [entry] } := by
  unfold appendOperation assertActive at h
  split at h
  · simp only [bind, Except.bind, pure, Except.pure] at h
    split at h
    · cases h
    · next hnew => exact ⟨fun hmem => hnew (List.contains_iff_mem.mpr hmem), (ok.inj h).symm⟩
  · cases h

theorem enqueueOutbox_ok {message : OutboxMessage V} (h : tx.enqueueOutbox message = .ok tx') :
    tx' = { tx with outbox := tx.outbox ++ [message] } := by
  unfold enqueueOutbox assertActive at h
  split at h
  · exact (ok.inj h).symm
  · cases h

theorem finish_ok {staged : StagedTransaction V} (h : tx.finish = .ok (staged, tx')) :
    staged.mutations = tx.sortedMutations ∧ staged.operations = tx.operations ∧
      tx' = { tx with active := false } := by
  unfold finish assertActive at h
  split at h
  · obtain ⟨rfl, rfl⟩ := Prod.mk.inj (ok.inj h)
    exact ⟨rfl, rfl, rfl⟩
  · cases h

theorem nodupKeys_sortedMutations (tx : MemoryTransaction V) :
    (tx.sortedMutations.map (·.1)).Nodup := by
  have hperm := (List.perm_insertionSort
    (fun left right : Sigma fun _ : StateKey => Mutation V => compareKeys left.1 right.1 ≠ .gt)
    tx.mutations.entries).map (·.1)
  exact hperm.nodup_iff.mpr tx.mutations.nodupKeys

theorem mem_sortedMutations {key : StateKey} {mutation : Mutation V} :
    ⟨key, mutation⟩ ∈ tx.sortedMutations ↔ tx.mutations.lookup key = some mutation := by
  rw [sortedMutations, List.mem_insertionSort, ← Option.mem_def, mem_lookup_iff]

end MemoryTransaction

end TegoNext
