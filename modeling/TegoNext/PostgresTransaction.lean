/-
`PostgresTransaction`: a transaction body whose writes are made at once.

The transaction locks the row of a key, compares its revision with the expectation, writes the row
and a row of the change log, call by call: later calls of the body see rows that earlier ones have
written. The database undoes all of it when the body throws. `db` is the database as the
transaction sees it.
-/
import TegoNext.MemoryTransaction
import TegoNext.TextOrder

set_option autoImplicit false

namespace TegoNext

open List Option

/-- `tego_records`, `tego_state_revisions` and `tego_state_changes` of one namespace. -/
structure PostgresDatabase (V : Type) where
  records : Records V
  revision : Revision
  changes : List (StateChange V)

structure PostgresTransaction (V : Type) where
  db : PostgresDatabase V
  revision : Option Revision
  active : Bool

inductive StateCall (V : Type) where
  | get (key : StateKey)
  | scan (query : StateQuery)
  | put (key : StateKey) (value : V) (expectedRevision : ExpectedRevision)
  | delete (key : StateKey) (expectedRevision : ExpectedRevision)

inductive StateRead (V : Type) where
  | record (r : Option (StoredRecord V))
  | page (rows : List (ScannedState V))

namespace PostgresTransaction

variable {V : Type}

def start (db : PostgresDatabase V) : PostgresTransaction V where
  db := db
  revision := none
  active := true

section

variable (tx : PostgresTransaction V) (key : StateKey)

def assertActive : Except StateError Unit :=
  if tx.active then .ok ()
  else .error
    { code := .STATE_CLOSED
      message := "State transaction is no longer active"
      details := [] }

def get :
    Except StateError (Option (StoredRecord V)) := do
  tx.assertActive
  assertStateKey key false
  pure (tx.db.records.lookup key)

/-- Does a row satisfy the `WHERE` clause of a scan? -/
def selects (query : StateQuery) (row : Sigma fun _ : StateKey => StoredRecord V) : Bool :=
  row.1.nspace == query.nspace && row.1.collection == query.collection &&
    query.idPrefix.all (fun p => Text.startsWith row.1.id p) &&
    query.afterId.all (fun a =>
      compareBytes (stateStringOrderKey row.1.id) (stateStringOrderKey a) == .gt)

/-- The rows of a scan: `ORDER BY record_id_order_key LIMIT $6`. -/
def selectRows (records : Records V) (query : StateQuery) : List (ScannedState V) :=
  let matching := (records.entries.filter (selects query)).insertionSort fun left right =>
    compareBytes (stateStringOrderKey left.1.id) (stateStringOrderKey right.1.id) ≠ .gt
  let page := match query.limit with
    | some limit => matching.take limit.toNat
    | none => matching
  page.map fun record => ⟨record.1, record.2.value, record.2.revision⟩

def scan (query : StateQuery) :
    Except StateError (List (ScannedState V)) := do
  tx.assertActive
  assertStateQuery query
  pure (selectRows tx.db.records query)

def lockedRevision : Option Revision := (tx.db.records.lookup key).map (·.revision)

def expectedMatches (actual : Option Revision) : ExpectedRevision → Bool
  | .undefined => true
  | .absent => actual.isNone
  | .revision r => actual == some r

def revisionConflict (expected : ExpectedRevision) (actual : Option Revision) : StateError where
  code := .STATE_REVISION_CONFLICT
  message := "State record revision does not match"
  details := [("actualRevision", .ofNat actual), ("expectedRevision", .ofExpected expected),
    ("key", .key key)]

/-- `#writeRevision`: allocated at the first write. -/
def writeRevision : Revision × PostgresTransaction V :=
  match tx.revision with
  | some revision => (revision, tx)
  | none =>
    let revision := tx.db.revision + 1
    (revision, { tx with
      db := { tx.db with revision := revision }
      revision := some revision })

/-- Write the row of a key and the change log. -/
def write (value : Option V) : PostgresTransaction V :=
  let (revision, tx) := tx.writeRevision
  { tx with
    db := { tx.db with
      records := match value with
        | some value => tx.db.records.insert key ⟨value, revision⟩
        | none => tx.db.records.erase key
      changes := tx.db.changes ++ [⟨revision, key, value⟩] } }

def put (value : V)
    (expectedRevision : ExpectedRevision) : Except StateError (PostgresTransaction V) := do
  tx.assertActive
  assertStateKey key true
  let current := tx.lockedRevision key
  if !expectedMatches current expectedRevision then
    throw (revisionConflict key expectedRevision current)
  pure (tx.write key (some value))

/-- `delete`; a key that is not there is left alone. -/
def delete (expectedRevision : ExpectedRevision) :
    Except StateError (PostgresTransaction V) := do
  tx.assertActive
  assertStateKey key true
  let current := tx.lockedRevision key
  if !expectedMatches current expectedRevision then
    throw (revisionConflict key expectedRevision current)
  if current.isNone then pure tx else pure (tx.write key none)

def finish :
    Except StateError (Option Revision × PostgresTransaction V) := do
  tx.assertActive
  pure (tx.revision, { tx with active := false })

end

def perform (tx : PostgresTransaction V) : StateCall V →
    Except StateError (List (StateRead V) × PostgresTransaction V)
  | .get key => do pure ([.record (← tx.get key)], tx)
  | .scan query => do pure ([.page (← tx.scan query)], tx)
  | .put key value expected => do pure ([], ← tx.put key value expected)
  | .delete key expected => do pure ([], ← tx.delete key expected)

/-- A body that makes some calls, one after the other, and throws what they throw. -/
def performAll (tx : PostgresTransaction V) : List (StateCall V) →
    Except StateError (List (StateRead V) × PostgresTransaction V)
  | [] => .ok ([], tx)
  | call :: rest => do
    let (read, tx) ← tx.perform call
    let (reads, tx) ← performAll tx rest
    pure (read ++ reads, tx)

end PostgresTransaction

namespace PostgresDatabase

variable {V : Type}

/-- `#executeTransaction` without a fence or an idempotency key. The database keeps what the
transaction did when it commits and stays as it was when the body throws. -/
def transact (db : PostgresDatabase V) (calls : List (StateCall V)) :
    Except StateError (List (StateRead V) × PostgresDatabase V) := do
  let (reads, tx) ← (PostgresTransaction.start db).performAll calls
  let (_, tx) ← tx.finish
  pure (reads, tx.db)

/-- `#readChanges`: by revision, by key, and then by sequence. -/
def readChanges (db : PostgresDatabase V) (cursor : Revision) : List (StateChange V) :=
  (db.changes.filter fun c => cursor < c.revision).insertionSort fun left right =>
    (compare left.revision right.revision).then (compareKeys left.key right.key) ≠ .gt

end PostgresDatabase

namespace MemoryTransaction

variable {V : Type}

def perform (tx : MemoryTransaction V) : StateCall V →
    Except StateError (List (StateRead V) × MemoryTransaction V)
  | .get key => do pure ([.record (← tx.get key)], tx)
  | .scan query => do pure ([.page (← tx.scan query)], tx)
  | .put key value expected => do pure ([], ← tx.put key value expected)
  | .delete key expected => do pure ([], ← tx.delete key expected)

/-- A body that makes some calls, one after the other, and throws what they throw. -/
def performAll (tx : MemoryTransaction V) : List (StateCall V) →
    Except StateError (List (StateRead V) × MemoryTransaction V)
  | [] => .ok ([], tx)
  | call :: rest => do
    let (read, tx) ← tx.perform call
    let (reads, tx) ← performAll tx rest
    pure (read ++ reads, tx)

end MemoryTransaction

/-! ## Calls on a map -/

namespace StateCall

variable {V : Type}

/-- The argument check of a call, the same in both drivers. -/
def check : StateCall V → Except StateError Unit
  | .get key => assertStateKey key false
  | .scan query => assertStateQuery query
  | .put key _ _ => assertStateKey key true
  | .delete key _ => assertStateKey key true

def wellFormed (call : StateCall V) : Bool := call.check.isOk

/-- Is the expectation of a call met by these records? -/
def meets (records : Records V) : StateCall V → Bool
  | .put key _ expected => matchesExpectedRevision (records.lookup key) expected
  | .delete key expected => matchesExpectedRevision (records.lookup key) expected
  | _ => true

def leaves (revision : Revision) (records : Records V) : StateCall V → Records V
  | .put key value _ => records.insert key ⟨value, revision⟩
  | .delete key _ => records.erase key
  | _ => records

def changes (records : Records V) : StateCall V → Option (StateKey × Option V)
  | .put key value _ => some (key, some value)
  | .delete key _ => if (records.lookup key).isSome then some (key, none) else none
  | _ => none

def reads (records : Records V) : StateCall V → List (StateRead V)
  | .get key => [.record (records.lookup key)]
  | .scan query => [.page (scanRecords records query)]
  | _ => []

def leavesAll (revision : Revision) (records : Records V) (calls : List (StateCall V)) :
    Records V :=
  calls.foldl (leaves revision) records

def changesAll (revision : Revision) (records : Records V) :
    List (StateCall V) → List (StateChange V)
  | [] => []
  | call :: rest =>
    (call.changes records).toList.map (fun c => ⟨revision, c.1, c.2⟩) ++
      changesAll revision (call.leaves revision records) rest

def readsAll (revision : Revision) (records : Records V) : List (StateCall V) → List (StateRead V)
  | [] => []
  | call :: rest => call.reads records ++ readsAll revision (call.leaves revision records) rest

def meetsAll (revision : Revision) (records : Records V) : List (StateCall V) → Bool
  | [] => true
  | call :: rest => call.meets records && meetsAll revision (call.leaves revision records) rest

end StateCall

open StateCall

variable {V : Type}

/-! ## The checks of a call -/

theorem check_of_wellFormed {call : StateCall V} (h : call.wellFormed = true) :
    call.check = .ok () := by
  unfold wellFormed at h
  cases hcheck : call.check with
  | ok u => rfl
  | error e =>
    rw [hcheck] at h
    cases h

theorem check_of_malformed {call : StateCall V} (h : ¬ call.wellFormed = true) :
    ∃ e, call.check = .error e ∧ e.code ≠ .STATE_REVISION_CONFLICT := by
  have hkey : ∀ key write e, assertStateKey key write = .error e →
      e.code ≠ .STATE_REVISION_CONFLICT := by
    intro key write e herror
    unfold assertStateKey at herror
    split at herror
    · cases herror
    obtain rfl := Except.error.inj herror
    dsimp only
    split
    · decide
    · decide
  unfold wellFormed at h
  cases hcheck : call.check with
  | ok u =>
    rw [hcheck] at h
    exact absurd rfl h
  | error e =>
    refine ⟨e, rfl, ?_⟩
    cases call with
    | get key => exact hkey _ _ _ hcheck
    | put key value expected => exact hkey _ _ _ hcheck
    | delete key expected => exact hkey _ _ _ hcheck
    | scan query =>
      have hquery : assertStateQuery query = .error e := hcheck
      unfold assertStateQuery at hquery
      split at hquery
      · obtain rfl := Except.error.inj hquery
        dsimp only
        decide
      · cases hquery

/-! ## PostgreSQL -/

namespace PostgresTransaction

/-- What a transaction sees after some calls: `records`, with `changes` logged by itself. -/
structure Sees (tx : PostgresTransaction V) (db : PostgresDatabase V) (records : Records V)
    (changes : List (StateChange V)) : Prop where
  active : tx.active = true
  records : tx.db.records = records
  changes : tx.db.changes = db.changes ++ changes
  revision : tx.writeRevision.1 = db.revision + 1

variable {tx : PostgresTransaction V} {db : PostgresDatabase V} {records : Records V}
  {changes : List (StateChange V)} {call : StateCall V} {calls : List (StateCall V)}

/-- The `WHERE` and `ORDER BY` clauses of a scan are the filter and the sort of the source. -/
theorem selectRows_eq (records : Records V) (query : StateQuery) :
    selectRows records query = scanRecords records query := by
  have hselects : selects (V := V) query = matchesQuery query := by
    funext row
    unfold selects matchesQuery
    simp only [compareBytes_stateStringOrderKey]
  unfold selectRows scanRecords
  simp only [hselects, compareBytes_stateStringOrderKey] <;> rfl

theorem expectedMatches_eq (record : Option (StoredRecord V)) (expected : ExpectedRevision) :
    expectedMatches (record.map (·.revision)) expected = matchesExpectedRevision record expected := by
  cases expected with
  | undefined => rfl
  | absent | revision r => cases record <;> rfl

theorem erase_of_lookup_none {key : StateKey} (h : records.lookup key = none) :
    records.erase key = records := by
  refine AList.ext (kerase_of_notMem_keys fun hmem => ?_)
  rw [AList.lookup_eq_none] at h
  exact h hmem

section

variable (h : tx.Sees db records changes)
include h

theorem Sees.write (key : StateKey) (value : Option V) :
    (tx.write key value).Sees db
      (match value with
        | some value => records.insert key ⟨value, db.revision + 1⟩
        | none => records.erase key)
      (changes ++ [⟨db.revision + 1, key, value⟩]) := by
  obtain ⟨hactive, rfl, hchanges, hrevision⟩ := h
  unfold PostgresTransaction.write
  unfold writeRevision at hrevision ⊢
  cases hallocated : tx.revision with
  | some revision =>
    rw [hallocated] at hrevision
    obtain rfl : revision = db.revision + 1 := hrevision
    refine ⟨hactive, rfl, ?_, ?_⟩
    · dsimp only
      rw [hchanges, append_assoc]
    · dsimp only [writeRevision]
      rw [hallocated]
  | none =>
    rw [hallocated] at hrevision
    obtain hrevision : tx.db.revision + 1 = db.revision + 1 := hrevision
    refine ⟨hactive, ?_, ?_, ?_⟩
    · dsimp only
      rw [hrevision]
    · dsimp only
      rw [hchanges, hrevision, append_assoc]
    · exact hrevision

theorem perform_malformed {e : StateError}
    (he : call.check = .error e) : tx.perform call = .error e := by
  have hactive : tx.assertActive = .ok () := if_pos h.active
  cases call with
  | get key =>
    rw [perform, PostgresTransaction.get, hactive, show assertStateKey key false = _ from he]
    rfl
  | scan query =>
    rw [perform, PostgresTransaction.scan, hactive, show assertStateQuery query = _ from he]
    rfl
  | put key value expected =>
    rw [perform, PostgresTransaction.put, hactive, show assertStateKey key true = _ from he]
    rfl
  | delete key expected =>
    rw [perform, PostgresTransaction.delete, hactive, show assertStateKey key true = _ from he]
    rfl

theorem perform_conflict (hcheck : call.check = .ok ()) (hmeets : call.meets records = false) :
    ∃ e, tx.perform call = .error e ∧ e.code = .STATE_REVISION_CONFLICT := by
  have hactive : tx.assertActive = .ok () := if_pos h.active
  cases call with
  | get key | scan query => cases hmeets
  | put key value expected =>
    rw [meets, ← expectedMatches_eq, ← h.records] at hmeets
    refine ⟨revisionConflict key expected (tx.lockedRevision key), ?_, rfl⟩
    rw [perform, PostgresTransaction.put, hactive, show assertStateKey key true = _ from hcheck]
    dsimp only [bind, Except.bind]
    rw [if_pos (by rw [lockedRevision, hmeets]; rfl)]
    rfl
  | delete key expected =>
    rw [meets, ← expectedMatches_eq, ← h.records] at hmeets
    refine ⟨revisionConflict key expected (tx.lockedRevision key), ?_, rfl⟩
    rw [perform, PostgresTransaction.delete, hactive, show assertStateKey key true = _ from hcheck]
    dsimp only [bind, Except.bind]
    rw [if_pos (by rw [lockedRevision, hmeets]; rfl)]
    rfl

theorem perform_ok (hcheck : call.check = .ok ()) (hmeets : call.meets records = true) :
    ∃ tx', tx.perform call = .ok (call.reads records, tx') ∧
      tx'.Sees db (call.leaves (db.revision + 1) records)
        (changes ++ (call.changes records).toList.map fun c => ⟨db.revision + 1, c.1, c.2⟩) := by
  have hactive : tx.assertActive = .ok () := if_pos h.active
  cases call with
  | get key =>
    have hnone : (StateCall.get key : StateCall V).changes records = none := rfl
    refine ⟨tx, ?_, by rwa [hnone, toList_none, map_nil, append_nil]⟩
    rw [perform, PostgresTransaction.get, hactive, show assertStateKey key false = _ from hcheck,
      h.records]
    rfl
  | scan query =>
    have hnone : (StateCall.scan query : StateCall V).changes records = none := rfl
    refine ⟨tx, ?_, by rwa [hnone, toList_none, map_nil, append_nil]⟩
    rw [perform, PostgresTransaction.scan, hactive, show assertStateQuery query = _ from hcheck,
      h.records, selectRows_eq]
    rfl
  | put key value expected =>
    rw [meets, ← expectedMatches_eq, ← h.records] at hmeets
    refine ⟨tx.write key (some value), ?_, h.write key (some value)⟩
    rw [perform, PostgresTransaction.put, hactive, show assertStateKey key true = _ from hcheck]
    dsimp only [bind, Except.bind]
    rw [if_neg (by rw [lockedRevision, hmeets]; decide)]
    rfl
  | delete key expected =>
    rw [meets, ← expectedMatches_eq, ← h.records] at hmeets
    have hperform : tx.perform (.delete key expected) = .ok ([],
        if (records.lookup key).isSome then tx.write key none else tx) := by
      rw [perform, PostgresTransaction.delete, hactive,
        show assertStateKey key true = _ from hcheck]
      dsimp only [bind, Except.bind]
      rw [if_neg (by rw [lockedRevision, hmeets]; decide), lockedRevision, h.records]
      cases records.lookup key with
      | none => rfl
      | some record => rfl
    rw [hperform]
    cases hlookup : records.lookup key with
    | none =>
      refine ⟨tx, rfl, ?_⟩
      rw [StateCall.changes, hlookup, StateCall.leaves, erase_of_lookup_none hlookup]
      rwa [isSome_none, if_neg Bool.false_ne_true, toList_none, map_nil, append_nil]
    | some record =>
      refine ⟨tx.write key none, rfl, ?_⟩
      rw [StateCall.changes, hlookup]
      exact h.write key none

theorem performAll_ok (hvalid : ∀ call ∈ calls, call.wellFormed = true)
    (hmeets : meetsAll (db.revision + 1) records calls = true) :
    ∃ tx', tx.performAll calls = .ok (readsAll (db.revision + 1) records calls, tx') ∧
      tx'.Sees db (leavesAll (db.revision + 1) records calls)
        (changes ++ changesAll (db.revision + 1) records calls) := by
  induction calls generalizing tx records changes with
  | nil => exact ⟨tx, rfl, by rwa [changesAll, append_nil]⟩
  | cons call rest ih =>
    rw [meetsAll, Bool.and_eq_true] at hmeets
    obtain ⟨tx₁, hperform, hsees⟩ :=
      perform_ok h (check_of_wellFormed (hvalid call mem_cons_self)) hmeets.1
    obtain ⟨tx₂, hall, hsees₂⟩ := ih hsees (fun c hc => hvalid c (mem_cons_of_mem call hc)) hmeets.2
    refine ⟨tx₂, ?_, ?_⟩
    · rw [performAll, hperform]
      dsimp only [bind, Except.bind]
      rw [hall]
      rfl
    · rw [changesAll, ← append_assoc]
      exact hsees₂

theorem performAll_conflict (hvalid : ∀ call ∈ calls, call.wellFormed = true)
    (hmeets : meetsAll (db.revision + 1) records calls = false) (rest : List (StateCall V)) :
    ∃ e, tx.performAll (calls ++ rest) = .error e ∧ e.code = .STATE_REVISION_CONFLICT := by
  induction calls generalizing tx records changes with
  | nil => cases hmeets
  | cons call calls ih =>
    have hcheck := check_of_wellFormed (hvalid call mem_cons_self)
    rw [cons_append, performAll]
    cases hcall : call.meets records with
    | false =>
      obtain ⟨e, hperform, hcode⟩ := perform_conflict h hcheck hcall
      exact ⟨e, by rw [hperform]; rfl, hcode⟩
    | true =>
      rw [meetsAll, hcall, Bool.true_and] at hmeets
      obtain ⟨tx₁, hperform, hsees⟩ := perform_ok h hcheck hcall
      obtain ⟨e, hall, hcode⟩ := ih hsees (fun c hc => hvalid c (mem_cons_of_mem call hc)) hmeets
      refine ⟨e, ?_, hcode⟩
      rw [hperform]
      dsimp only [bind, Except.bind]
      rw [hall]

theorem performAll_malformed (hvalid : ∀ call ∈ calls, call.wellFormed = true)
    (hmeets : meetsAll (db.revision + 1) records calls = true) {e : StateError}
    (he : call.check = .error e) (rest : List (StateCall V)) :
    tx.performAll (calls ++ call :: rest) = .error e := by
  induction calls generalizing tx records changes with
  | nil =>
    rw [nil_append, performAll, perform_malformed h he]
    rfl
  | cons first calls ih =>
    rw [meetsAll, Bool.and_eq_true] at hmeets
    obtain ⟨tx₁, hperform, hsees⟩ :=
      perform_ok h (check_of_wellFormed (hvalid first mem_cons_self)) hmeets.1
    rw [cons_append, performAll, hperform]
    dsimp only [bind, Except.bind]
    rw [ih hsees (fun c hc => hvalid c (mem_cons_of_mem first hc)) hmeets.2]

end

theorem sees_start (db : PostgresDatabase V) : (start db).Sees db db.records [] where
  active := rfl
  records := rfl
  changes := (append_nil _).symm
  revision := rfl

end PostgresTransaction

theorem PostgresDatabase.transact_ok {db : PostgresDatabase V} {calls : List (StateCall V)}
    (hvalid : ∀ call ∈ calls, call.wellFormed = true)
    (hmeets : meetsAll (db.revision + 1) db.records calls = true) :
    ∃ db', db.transact calls = .ok (readsAll (db.revision + 1) db.records calls, db') ∧
      db'.records = leavesAll (db.revision + 1) db.records calls ∧
      db'.changes = db.changes ++ changesAll (db.revision + 1) db.records calls := by
  obtain ⟨tx, hall, hsees⟩ :=
    PostgresTransaction.performAll_ok (PostgresTransaction.sees_start db) hvalid hmeets
  refine ⟨tx.db, ?_, hsees.records, hsees.changes⟩
  rw [PostgresDatabase.transact, hall]
  dsimp only [bind, Except.bind]
  rw [PostgresTransaction.finish, PostgresTransaction.assertActive, if_pos hsees.active]
  rfl

theorem PostgresDatabase.transact_error {db : PostgresDatabase V} {calls : List (StateCall V)}
    {e : StateError} (h : (PostgresTransaction.start db).performAll calls = .error e) :
    db.transact calls = .error e := by
  rw [PostgresDatabase.transact, h]
  rfl

end TegoNext
