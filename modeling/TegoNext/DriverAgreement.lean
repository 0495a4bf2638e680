/-
One transaction on the memory store and on PostgreSQL.

The memory store stages the last write of every key and checks it at the commit; a read shows a
staged value at the old revision. PostgreSQL checks and writes at every call, and a read shows the
new revision. As long as a transaction leaves a key alone once it has changed it, the two cannot be
told apart. Neither driver fences the transaction or remembers it under a key here.
-/
import TegoNext.PostgresTransaction
import TegoNext.CommitRefinement
import TegoNext.Machine
import TegoNext.RecordScans
import Mathlib.Data.List.TakeWhile

set_option autoImplicit false

namespace TegoNext

open List AList

variable {V : Type}

open MemoryStateStore

/-! ## The property -/

/-- Records to begin with; none is newer than the last commit. -/
structure RecordSet (V : Type) where
  records : Records V
  revision : Revision
  bounded : ∀ key record, records.lookup key = some record → record.revision ≤ revision

namespace RecordSet

def memoryStore (set : RecordSet V) : MemoryStateStore V :=
  { MemoryStateStore.new with records := set.records, revision := set.revision, lifecycle := .open }

def database (set : RecordSet V) : PostgresDatabase V where
  records := set.records
  revision := set.revision
  changes := []

def next (set : RecordSet V) : Revision := set.revision + 1

end RecordSet

/-- `transact` of a body that makes some calls and returns `result`, with nothing else in the
commit queue. -/
def MemoryStateStore.transactCalls [WireValue V] (store : MemoryStateStore V)
    (calls : List (StateCall V)) (result : V) :
    Except StateError (List (StateRead V) × MemoryStateStore V) := do
  store.assertOpen
  let (reads, tx) ← (MemoryTransaction.start store.records).performAll calls
  let (staged, _) ← tx.finish
  let store ← store.commit none none staged result
  pure (reads, store)

/-- Both reject with the same code, or both commit the same records with the same reads and
the same changes. -/
def SameOutcome (set : RecordSet V) : Except StateError (List (StateRead V) × MemoryStateStore V) →
    Except StateError (List (StateRead V) × PostgresDatabase V) → Prop
  | .error e, .error e' => e.code = e'.code
  | .ok (reads, store), .ok (reads', db) =>
    reads = reads' ∧ (∀ key, store.records.lookup key = db.records.lookup key) ∧
      store.changes = db.readChanges set.revision
  | _, _ => False

def DriversAgree [WireValue V] (set : RecordSet V) (calls : List (StateCall V)) (result : V) :
    Prop :=
  SameOutcome set (set.memoryStore.transactCalls calls result) (set.database.transact calls)

/-! ## The condition -/

namespace StateCall

def writes : StateCall V → Option StateKey
  | .put key _ _ => some key
  | .delete key _ => some key
  | _ => none

/-- Every call that is the last to write its key meets its expectation in the records the
transaction began with. -/
def finalMeets (records : Records V) : List (StateCall V) → Bool
  | [] => true
  | call :: rest =>
    ((call.writes.any fun key => rest.any fun later => later.writes == some key) ||
      call.meets records) && finalMeets records rest

def readsNone (revision : Revision) (records : Records V) : StateCall V → Bool
  | .get key => (records.lookup key).all fun record => record.revision != revision
  | .scan query => (scanRecords records query).all fun row => row.revision != revision
  | _ => true

/-- No call reads what an earlier one has put. -/
def readsOthers (revision : Revision) (records : Records V) : List (StateCall V) → Bool
  | [] => true
  | call :: rest =>
    call.readsNone revision records && readsOthers revision (call.leaves revision records) rest

def ChangesOnce (revision : Revision) (records : Records V) (calls : List (StateCall V)) : Prop :=
  ((changesAll revision records calls).map (·.key)).Nodup

end StateCall

open StateCall

/-- **The condition.** Before a malformed call, all meet their expectations. Without one, they are
met both by the records as the calls before leave them and, for the last write of a key, by the
initial ones, no key is changed twice and nothing put is read; or they fail in both senses. -/
def RecordSet.Compatible (set : RecordSet V) (calls : List (StateCall V)) : Prop :=
  let valid := calls.takeWhile (·.wellFormed)
  if valid.length < calls.length then meetsAll set.next set.records valid = true
  else
    (meetsAll set.next set.records calls ∧ finalMeets set.records calls ∧
      ChangesOnce set.next set.records calls ∧ readsOthers set.next set.records calls) ∨
    (¬ meetsAll set.next set.records calls ∧ ¬ finalMeets set.records calls)

/-! ## What the memory transaction shows -/

/-- An own value of the memory transaction: the revision is the one of the snapshot. -/
def maskRecord (revision : Revision) (snapshot : Records V) (key : StateKey)
    (record : StoredRecord V) : StoredRecord V :=
  if record.revision = revision then
    ⟨record.value, ((snapshot.lookup key).map (·.revision)).getD zeroRevision⟩
  else record

/-- Records as a memory transaction shows them. -/
def maskRecords (revision : Revision) (snapshot records : Records V) : Records V where
  entries := records.entries.map fun entry =>
    ⟨entry.1, maskRecord revision snapshot entry.1 entry.2⟩
  nodupKeys := by
    have hkeys : (records.entries.map fun entry => (⟨entry.1,
        maskRecord revision snapshot entry.1 entry.2⟩ : Sigma fun _ : StateKey => StoredRecord V)).keys
          = records.entries.keys := by
      rw [List.keys, map_map]
      rfl
    rw [List.NodupKeys, hkeys]
    exact records.nodupKeys

theorem lookup_maskRecords (revision : Revision) (snapshot records : Records V) (key : StateKey) :
    (maskRecords revision snapshot records).lookup key =
      (records.lookup key).map (maskRecord revision snapshot key) :=
  dlookup_map₂ (l := records.entries) (f := maskRecord revision snapshot) key

theorem scanRecords_congr {records records' : Records V}
    (h : ∀ key, records.lookup key = records'.lookup key) (query : StateQuery) :
    scanRecords records query = scanRecords records' query := by
  have hperm : records.entries.Perm records'.entries :=
    lookup_ext records.nodupKeys records'.nodupKeys fun key record => by
      rw [show records.entries.dlookup key = _ from h key]
      rfl
  have hsorted : ((records.entries.filter (matchesQuery query)).insertionSort fun left right =>
      Text.compareText left.1.id right.1.id ≠ .gt) =
        (records'.entries.filter (matchesQuery query)).insertionSort fun left right =>
          Text.compareText left.1.id right.1.id ≠ .gt := by
    have := transCmp_comap Text.compareText
      fun row : Sigma fun _ : StateKey => StoredRecord V => row.1.id
    exact insertionSort_eq_of_perm (hperm.filter _) fun row hrow row' hrow' heq =>
      eq_of_id_eq hrow hrow' (Text.eq_of_compareText heq)
  unfold scanRecords
  rw [hsorted]

theorem scanRecords_maskRecords (revision : Revision) (snapshot records : Records V)
    (query : StateQuery) :
    scanRecords (maskRecords revision snapshot records) query =
      (scanRecords records query).map fun row =>
        { row with
          revision := (maskRecord revision snapshot row.key ⟨row.value, row.revision⟩).revision } := by
  let mask : (Sigma fun _ : StateKey => StoredRecord V) → Sigma fun _ : StateKey => StoredRecord V :=
    fun entry => ⟨entry.1, maskRecord revision snapshot entry.1 entry.2⟩
  have hmatching : ((maskRecords revision snapshot records).entries.filter
      (matchesQuery query)).insertionSort (fun left right =>
        Text.compareText left.1.id right.1.id ≠ .gt) =
      ((records.entries.filter (matchesQuery query)).insertionSort fun left right =>
        Text.compareText left.1.id right.1.id ≠ .gt).map mask := by
    have hfilter : (maskRecords revision snapshot records).entries.filter (matchesQuery query) =
        (records.entries.filter (matchesQuery query)).map mask := filter_map
    rw [hfilter]
    exact (map_insertionSort _ _ mask _ fun _ _ _ _ => Iff.rfl).symm
  have hvalue : ∀ (key : StateKey) (record : StoredRecord V),
      (maskRecord revision snapshot key record).value = record.value := fun key record => by
    unfold maskRecord
    split
    · rfl
    · rfl
  unfold scanRecords
  rw [hmatching]
  cases query.limit with
  | none =>
    simp only [map_map]
    refine map_congr_left fun entry _ => ?_
    simp only [Function.comp_apply, mask, hvalue]
  | some limit =>
    simp only [← map_take, map_map]
    refine map_congr_left fun entry _ => ?_
    simp only [Function.comp_apply, mask, hvalue]

/-- **A read tells the drivers apart** exactly when it shows something the transaction has put. -/
theorem reads_maskRecords {revision : Revision} {snapshot records : Records V}
    (hbounded : ∀ key record, snapshot.lookup key = some record → record.revision < revision)
    (hpos : 0 < revision) (call : StateCall V) :
    call.reads (maskRecords revision snapshot records) = call.reads records ↔
      call.readsNone revision records = true := by
  have hmask : ∀ (key : StateKey) (record : StoredRecord V),
      (maskRecord revision snapshot key record).revision = record.revision ↔
        record.revision ≠ revision := fun key record => by
    unfold maskRecord
    by_cases h : record.revision = revision
    · rw [if_pos h]
      refine ⟨fun heq _ => ?_, fun hne => absurd h hne⟩
      cases hlookup : snapshot.lookup key with
      | none =>
        rw [hlookup, h] at heq
        exact absurd heq (Nat.ne_of_lt hpos)
      | some old =>
        rw [hlookup, h] at heq
        exact absurd heq (Nat.ne_of_lt (hbounded key old hlookup))
    · rw [if_neg h]
      exact ⟨fun _ => h, fun _ => rfl⟩
  cases call with
  | put key value expected | delete key expected => exact ⟨fun _ => rfl, fun _ => rfl⟩
  | get key =>
    rw [StateCall.reads, StateCall.reads, lookup_maskRecords, readsNone]
    cases records.lookup key with
    | none => exact ⟨fun _ => rfl, fun _ => rfl⟩
    | some record =>
      rw [Option.map_some, Option.all_some, bne_iff_ne, ← hmask key record]
      refine ⟨fun heq => ?_, fun hsame => ?_⟩
      · have hrecord := StateRead.record.inj (List.cons.inj heq).1
        rw [Option.some.inj hrecord]
      · unfold maskRecord at hsame ⊢
        split at hsame
        · next hown =>
          rw [if_pos hown]
          dsimp only at hsame
          rw [hsame]
        · next hother => rw [if_neg hother]
  | scan query =>
    rw [StateCall.reads, StateCall.reads, scanRecords_maskRecords, readsNone, all_eq_true]
    refine ⟨fun heq row hrow => ?_, fun hall => ?_⟩
    · have hpage := StateRead.page.inj (List.cons.inj heq).1
      have hrow' := map_inj_left.mp (hpage.trans (map_id _).symm) row hrow
      rw [bne_iff_ne, ← hmask row.key ⟨row.value, row.revision⟩]
      exact congrArg ScannedState.revision hrow'
    · refine congrArg (fun rows => [StateRead.page rows]) ?_
      refine (map_congr_left fun row hrow => ?_).trans (map_id _)
      rw [(hmask row.key ⟨row.value, row.revision⟩).mpr (bne_iff_ne.mp (hall row hrow))]
      rfl

/-! ## The memory transaction -/

namespace MemoryTransaction

def stages (mutations : AList fun _ : StateKey => Mutation V) :
    StateCall V → AList fun _ : StateKey => Mutation V
  | .put key value expected => mutations.insert key (.put value expected)
  | .delete key expected => mutations.insert key (.delete expected)
  | _ => mutations

/-- A transaction that began with `snapshot` shows the records that its calls leave. -/
structure Stages (tx : MemoryTransaction V) (revision : Revision) (snapshot records : Records V) :
    Prop where
  active : tx.active = true
  base : tx.snapshot = snapshot
  operations : tx.operations = []
  outbox : tx.outbox = []
  untouched : ∀ key, tx.mutations.lookup key = none → records.lookup key = snapshot.lookup key
  put : ∀ key value expected, tx.mutations.lookup key = some (.put value expected) →
    records.lookup key = some ⟨value, revision⟩
  deleted : ∀ key expected, tx.mutations.lookup key = some (.delete expected) →
    records.lookup key = none

variable {tx : MemoryTransaction V} {revision : Revision} {snapshot records : Records V}
  {call : StateCall V} {calls : List (StateCall V)}

def shows (tx : MemoryTransaction V) (key : StateKey) (otherwise : Option (StoredRecord V)) :
    Option (Mutation V) → Option (StoredRecord V)
  | none => otherwise
  | some (.put value _) => some ⟨value, tx.snapshotRevision key⟩
  | some (.delete _) => none

theorem lookup_visible (tx : MemoryTransaction V) (key : StateKey) :
    tx.visible.lookup key = tx.shows key (tx.snapshot.lookup key) (tx.mutations.lookup key) := by
  rw [visible_eq_overlay, lookup_overlay _ _ tx.mutations.nodupKeys]
  show overlaid _ _ (tx.mutations.lookup key) = _
  cases tx.mutations.lookup key with
  | none => rfl
  | some mutation => cases mutation <;> rfl

theorem Stages.lookup_mask (h : tx.Stages revision snapshot records)
    (hbounded : ∀ key record, snapshot.lookup key = some record → record.revision < revision)
    (key : StateKey) :
    (maskRecords revision snapshot records).lookup key =
      tx.shows key (tx.snapshot.lookup key) (tx.mutations.lookup key) := by
  rw [lookup_maskRecords]
  cases hmutation : tx.mutations.lookup key with
  | none =>
    rw [h.untouched key hmutation, h.base, shows]
    cases hlookup : snapshot.lookup key with
    | none => rfl
    | some record =>
      rw [Option.map_some, maskRecord, if_neg (Nat.ne_of_lt (hbounded key record hlookup))]
  | some mutation =>
    cases mutation with
    | put value expected =>
      rw [h.put key value expected hmutation, Option.map_some, maskRecord, if_pos rfl, ← h.base]
      rfl
    | delete expected =>
      rw [h.deleted key expected hmutation]
      rfl

theorem Stages.stage (h : tx.Stages revision snapshot records) (key : StateKey) (value : V)
    (expected : ExpectedRevision) :
    ({ tx with mutations := tx.mutations.insert key (.put value expected) } :
      MemoryTransaction V).Stages revision snapshot (records.insert key ⟨value, revision⟩) := by
  refine { h with untouched := ?_, put := ?_, deleted := ?_ }
  all_goals intro k
  all_goals by_cases hkey : k = key
  · subst hkey
    rw [lookup_insert]
    exact fun hnone => by cases hnone
  · rw [lookup_insert_ne hkey, lookup_insert_ne hkey]
    exact h.untouched k
  · subst hkey
    rw [lookup_insert, lookup_insert]
    rintro v e ⟨⟩
    rfl
  · rw [lookup_insert_ne hkey, lookup_insert_ne hkey]
    exact h.put k
  · subst hkey
    rw [lookup_insert]
    rintro e ⟨⟩
  · rw [lookup_insert_ne hkey, lookup_insert_ne hkey]
    exact h.deleted k

theorem Stages.stageDelete (h : tx.Stages revision snapshot records) (key : StateKey)
    (expected : ExpectedRevision) :
    ({ tx with mutations := tx.mutations.insert key (.delete expected) } :
      MemoryTransaction V).Stages revision snapshot (records.erase key) := by
  refine { h with untouched := ?_, put := ?_, deleted := ?_ }
  all_goals intro k
  all_goals by_cases hkey : k = key
  · subst hkey
    rw [lookup_insert]
    exact fun hnone => by cases hnone
  · rw [lookup_insert_ne hkey, lookup_erase_ne hkey]
    exact h.untouched k
  · subst hkey
    rw [lookup_insert]
    rintro v e ⟨⟩
  · rw [lookup_insert_ne hkey, lookup_erase_ne hkey]
    exact h.put k
  · subst hkey
    exact fun _ _ => lookup_erase k records
  · rw [lookup_insert_ne hkey, lookup_erase_ne hkey]
    exact h.deleted k

theorem perform_malformed (h : tx.Stages revision snapshot records) {e : StateError}
    (he : call.check = .error e) : tx.perform call = .error e := by
  have hactive : tx.assertActive = .ok () := if_pos h.active
  cases call with
  | get key =>
    rw [perform, MemoryTransaction.get, hactive, show assertStateKey key false = _ from he]
    rfl
  | scan query =>
    rw [perform, MemoryTransaction.scan, hactive, show assertStateQuery query = _ from he]
    rfl
  | put key value expected =>
    rw [perform, MemoryTransaction.put, stage, hactive, show assertStateKey key true = _ from he]
    rfl
  | delete key expected =>
    rw [perform, MemoryTransaction.delete, stage, hactive, show assertStateKey key true = _ from he]
    rfl

theorem perform_ok (h : tx.Stages revision snapshot records)
    (hbounded : ∀ key record, snapshot.lookup key = some record → record.revision < revision)
    (hcheck : call.check = .ok ()) :
    ∃ tx', tx.perform call = .ok (call.reads (maskRecords revision snapshot records), tx') ∧
      tx'.Stages revision snapshot (call.leaves revision records) ∧
      tx'.mutations = stages tx.mutations call := by
  have hactive : tx.assertActive = .ok () := if_pos h.active
  cases call with
  | get key =>
    refine ⟨tx, ?_, h, rfl⟩
    rw [perform, MemoryTransaction.get, hactive, show assertStateKey key false = _ from hcheck,
      StateCall.reads, h.lookup_mask hbounded]
    cases hmutation : tx.mutations.lookup key with
    | none => rfl
    | some mutation =>
      cases mutation with
      | put value expected => rfl
      | delete expected => rfl
  | scan query =>
    refine ⟨tx, ?_, h, rfl⟩
    have hrows : scanRecords tx.visible query =
        scanRecords (maskRecords revision snapshot records) query :=
      scanRecords_congr (fun key => (lookup_visible tx key).trans
        (h.lookup_mask hbounded key).symm) query
    rw [perform, MemoryTransaction.scan, hactive, show assertStateQuery query = _ from hcheck,
      StateCall.reads, ← hrows]
    rfl
  | put key value expected =>
    refine ⟨_, ?_, h.stage key value expected, rfl⟩
    rw [perform, MemoryTransaction.put, MemoryTransaction.stage, hactive,
      show assertStateKey key true = _ from hcheck]
    rfl
  | delete key expected =>
    refine ⟨_, ?_, h.stageDelete key expected, rfl⟩
    rw [perform, MemoryTransaction.delete, MemoryTransaction.stage, hactive,
      show assertStateKey key true = _ from hcheck]
    rfl

def shownReads (revision : Revision) (snapshot records : Records V) :
    List (StateCall V) → List (StateRead V)
  | [] => []
  | call :: rest =>
    call.reads (maskRecords revision snapshot records) ++
      shownReads revision snapshot (call.leaves revision records) rest

theorem performAll_ok (h : tx.Stages revision snapshot records)
    (hbounded : ∀ key record, snapshot.lookup key = some record → record.revision < revision)
    (hvalid : ∀ call ∈ calls, call.wellFormed = true) :
    ∃ tx', tx.performAll calls = .ok (shownReads revision snapshot records calls, tx') ∧
      tx'.Stages revision snapshot (leavesAll revision records calls) ∧
      tx'.mutations = calls.foldl stages tx.mutations := by
  induction calls generalizing tx records with
  | nil => exact ⟨tx, rfl, h, rfl⟩
  | cons call rest ih =>
    obtain ⟨tx₁, hperform, hstages, hmutations⟩ :=
      perform_ok h hbounded (check_of_wellFormed (hvalid call mem_cons_self))
    obtain ⟨tx₂, hall, hstages₂, hmutations₂⟩ :=
      ih hstages fun c hc => hvalid c (mem_cons_of_mem call hc)
    refine ⟨tx₂, ?_, hstages₂, ?_⟩
    · rw [performAll, hperform]
      dsimp only [bind, Except.bind]
      rw [hall]
      rfl
    · rw [hmutations₂, hmutations, foldl_cons]

theorem performAll_malformed (h : tx.Stages revision snapshot records)
    (hbounded : ∀ key record, snapshot.lookup key = some record → record.revision < revision)
    (hvalid : ∀ call ∈ calls, call.wellFormed = true) {e : StateError}
    (he : call.check = .error e) (rest : List (StateCall V)) :
    tx.performAll (calls ++ call :: rest) = .error e := by
  induction calls generalizing tx records with
  | nil =>
    rw [nil_append, performAll, perform_malformed h he]
    rfl
  | cons first calls ih =>
    obtain ⟨tx₁, hperform, hstages, -⟩ :=
      perform_ok h hbounded (check_of_wellFormed (hvalid first mem_cons_self))
    rw [cons_append, performAll, hperform]
    dsimp only [bind, Except.bind]
    rw [ih hstages fun c hc => hvalid c (mem_cons_of_mem first hc)]

theorem stages_start (revision : Revision) (snapshot : Records V) :
    (start snapshot).Stages revision snapshot snapshot where
  active := rfl
  base := rfl
  operations := rfl
  outbox := rfl
  untouched _ _ := rfl
  put _ _ _ h := by cases h
  deleted _ _ h := by cases h

theorem shownReads_eq (hbounded : ∀ key record, snapshot.lookup key = some record →
      record.revision < revision) (hpos : 0 < revision) (records : Records V)
    (calls : List (StateCall V)) :
    shownReads revision snapshot records calls = readsAll revision records calls ↔
      readsOthers revision records calls = true := by
  induction calls generalizing records with
  | nil => exact ⟨fun _ => rfl, fun _ => rfl⟩
  | cons call rest ih =>
    have hlength : (call.reads (maskRecords revision snapshot records)).length =
        (call.reads records).length := by
      cases call <;> rfl
    rw [shownReads, readsAll, readsOthers, Bool.and_eq_true, ← ih,
      ← reads_maskRecords hbounded hpos]
    exact ⟨fun heq => append_inj heq hlength, fun ⟨hread, hrest⟩ => by rw [hread, hrest]⟩

def StagedMeet (records : Records V) (mutations : AList fun _ : StateKey => Mutation V)
    (calls : List (StateCall V)) : Prop :=
  ∀ key mutation, mutations.lookup key = some mutation →
    (∀ call ∈ calls, call.writes ≠ some key) →
      matchesExpectedRevision (records.lookup key) mutation.expectedRevision = true

theorem stagedMeet_insert {key : StateKey} {mutation : Mutation V} (hwrites : call.writes = some key)
    (hmeets : call.meets records =
      matchesExpectedRevision (records.lookup key) mutation.expectedRevision)
    (mutations : AList fun _ : StateKey => Mutation V) :
    (finalMeets records calls = true ∧ StagedMeet records (mutations.insert key mutation) calls) ↔
      finalMeets records (call :: calls) = true ∧ StagedMeet records mutations (call :: calls) := by
  have hlater : (call.writes.any fun key => calls.any fun later => later.writes == some key) = false ↔
      ∀ later ∈ calls, later.writes ≠ some key := by
    rw [hwrites, Option.any_some, any_eq_false]
    simp only [beq_iff_eq, ne_eq]
  rw [finalMeets, Bool.and_eq_true, Bool.or_eq_true, hmeets]
  constructor
  · rintro ⟨hfinal, hstaged⟩
    refine ⟨⟨?_, hfinal⟩, fun k m hm hnone => ?_⟩
    · cases hany : call.writes.any fun key => calls.any fun later => later.writes == some key with
      | true => exact .inl rfl
      | false => exact .inr (hstaged key mutation (lookup_insert _) (hlater.mp hany))
    · have hkey : k ≠ key := fun heq =>
        hnone call mem_cons_self (by rw [hwrites, heq])
      refine hstaged k m ?_ fun c hc => hnone c (mem_cons_of_mem call hc)
      rw [lookup_insert_ne hkey]
      exact hm
  · rintro ⟨⟨hcall, hfinal⟩, hstaged⟩
    refine ⟨hfinal, fun k m hm hnone => ?_⟩
    rcases lookup_insert_cases hm with ⟨rfl, rfl⟩ | ⟨hkey, hm⟩
    · refine hcall.resolve_left ?_
      rw [hlater.mpr hnone]
      exact Bool.false_ne_true
    · refine hstaged k m hm fun c hc => ?_
      obtain rfl | hc := mem_cons.mp hc
      · rw [hwrites]
        exact fun heq => hkey (Option.some.inj heq).symm
      · exact hnone c hc

theorem stagedMeet_read (hwrites : call.writes = none) (hmeets : call.meets records = true)
    (mutations : AList fun _ : StateKey => Mutation V) :
    (finalMeets records calls = true ∧ StagedMeet records mutations calls) ↔
      finalMeets records (call :: calls) = true ∧ StagedMeet records mutations (call :: calls) := by
  rw [finalMeets, hmeets, Bool.or_true, Bool.true_and]
  refine and_congr_right fun _ => ⟨fun h k m hm hnone => ?_, fun h k m hm hnone => ?_⟩
  · exact h k m hm fun c hc => hnone c (mem_cons_of_mem call hc)
  · refine h k m hm fun c hc => ?_
    obtain rfl | hc := mem_cons.mp hc
    · rw [hwrites]
      exact fun heq => by cases heq
    · exact hnone c hc

theorem stagedMeet_foldl (records : Records V) (calls : List (StateCall V))
    (mutations : AList fun _ : StateKey => Mutation V) :
    StagedMeet records (calls.foldl stages mutations) [] ↔
      finalMeets records calls = true ∧ StagedMeet records mutations calls := by
  induction calls generalizing mutations with
  | nil => exact ⟨fun h => ⟨rfl, h⟩, fun h => h.2⟩
  | cons call rest ih =>
    rw [foldl_cons, ih]
    cases call with
    | get key => exact stagedMeet_read rfl rfl mutations
    | scan query => exact stagedMeet_read rfl rfl mutations
    | put key value expected => exact stagedMeet_insert rfl rfl mutations
    | delete key expected => exact stagedMeet_insert rfl rfl mutations

end MemoryTransaction

/-! ## The commit -/

theorem applyMutations_error {records : Records V} {applied entries : List (Entry V)}
    {e : StateError} (hnd : (entryKeys entries).Nodup)
    (h : applyMutations records applied entries = .error e) :
    e.code = .STATE_REVISION_CONFLICT ∧ ∃ entry ∈ entries,
      matchesExpectedRevision (records.lookup entry.1) entry.2.expectedRevision = false := by
  induction entries generalizing records applied with
  | nil => cases h
  | cons entry rest ih =>
    obtain ⟨key, mutation⟩ := entry
    rw [entryKeys, map_cons, nodup_cons] at hnd
    unfold applyMutations at h
    dsimp only at h
    split at h
    · cases mutation with
      | put value expected =>
        obtain ⟨hcode, entry, hentry, hmiss⟩ := ih hnd.2 h
        exact ⟨hcode, entry, mem_cons_of_mem _ hentry, hmiss⟩
      | delete expected =>
        dsimp only at h
        split at h
        · obtain ⟨hcode, entry, hentry, hmiss⟩ := ih hnd.2 h
          have hne : entry.1 ≠ key := fun heq => hnd.1 (mem_map.mpr ⟨entry, hentry, heq⟩)
          rw [lookup_erase_ne hne] at hmiss
          exact ⟨hcode, entry, mem_cons_of_mem _ hentry, hmiss⟩
        · obtain ⟨hcode, entry, hentry, hmiss⟩ := ih hnd.2 h
          exact ⟨hcode, entry, mem_cons_of_mem _ hentry, hmiss⟩
    · next hmiss =>
      obtain rfl := Except.error.inj h
      exact ⟨rfl, _, mem_cons_self, Bool.eq_false_iff.mpr hmiss⟩

theorem commit_mutations [WireValue V] (set : RecordSet V) (mutations : List (Entry V)) (result : V) :
    set.memoryStore.commit none none ⟨mutations, [], []⟩ result =
      (applyMutations set.records [] mutations).map fun applied =>
        if applied.2.isEmpty then set.memoryStore
        else set.memoryStore.publish applied.1 applied.2 [] [] none false := by
  have hopen : set.memoryStore.assertOpen = .ok () := if_pos rfl
  rw [commit, hopen]
  dsimp only [bind, Except.bind, RecordSet.memoryStore]
  cases applyMutations set.records [] mutations with
  | error e => rfl
  | ok applied =>
    obtain ⟨next, applied⟩ := applied
    cases applied <;> rfl

/-! ## The change log -/

/-- What a change says of the records before and after a transaction. -/
def Alters (revision : Revision) (before after : Records V) (change : StateChange V) : Prop :=
  change.revision = revision ∧
    match change.value with
    | some value => after.lookup change.key = some ⟨value, revision⟩
    | none => (before.lookup change.key).isSome = true ∧ after.lookup change.key = none

theorem lookup_leaves_of_ne {call : StateCall V} {records : Records V} {key : StateKey}
    (h : ∀ c, call.changes records = some c → c.1 ≠ key) (revision : Revision) :
    (call.leaves revision records).lookup key = records.lookup key := by
  cases call with
  | get k => rfl
  | scan query => rfl
  | put k value expected => exact lookup_insert_ne (h _ rfl).symm
  | delete k expected =>
    rw [StateCall.leaves]
    by_cases hkey : key = k
    · subst hkey
      cases hlookup : records.lookup key with
      | none => exact lookup_erase key records
      | some record =>
        refine absurd rfl (h (key, none) ?_)
        rw [StateCall.changes, hlookup]
        rfl
    · exact lookup_erase_ne hkey

section

variable {calls : List (StateCall V)} {records : Records V} {revision : Revision}

theorem lookup_leavesAll {key : StateKey}
    {revision : Revision} (h : ∀ c ∈ changesAll revision records calls, c.key ≠ key) :
    (leavesAll revision records calls).lookup key = records.lookup key := by
  induction calls generalizing records with
  | nil => rfl
  | cons call rest ih =>
    rw [changesAll] at h
    refine (ih fun c hc => h c (mem_append_right _ hc)).trans ?_
    refine lookup_leaves_of_ne (fun c hc => ?_) revision
    have hmem : (⟨revision, c.1, c.2⟩ : StateChange V) ∈
        (call.changes records).toList.map fun c => ⟨revision, c.1, c.2⟩ :=
      mem_map.mpr ⟨c, Option.mem_toList.mpr hc, rfl⟩
    exact h _ (mem_append_left _ hmem)

theorem alters_leaves {call : StateCall V} {records : Records V} {c : StateKey × Option V}
    (h : call.changes records = some c) (revision : Revision) :
    Alters revision records (call.leaves revision records) ⟨revision, c.1, c.2⟩ := by
  cases call with
  | get key => cases h
  | scan query => cases h
  | put key value expected =>
    obtain rfl := Option.some.inj h
    exact ⟨rfl, lookup_insert records⟩
  | delete key expected =>
    rw [StateCall.changes] at h
    split at h
    · next hsome =>
      obtain rfl := Option.some.inj h
      exact ⟨rfl, hsome, lookup_erase key records⟩
    · cases h

variable {c : StateChange V}

theorem alters_of_mem (honce : ChangesOnce revision records calls)
    (hc : c ∈ changesAll revision records calls) :
    Alters revision records (leavesAll revision records calls) c := by
  induction calls generalizing records with
  | nil => cases hc
  | cons call rest ih =>
    rw [ChangesOnce, changesAll, map_append, nodup_append] at honce
    obtain ⟨-, honce, hdisjoint⟩ := honce
    rw [changesAll, mem_append] at hc
    have hlater : ∀ c₁ ∈ changesAll revision (call.leaves revision records) rest,
        ∀ c₀, call.changes records = some c₀ → c₀.1 ≠ c₁.key := fun c₁ hc₁ c₀ hc₀ =>
      hdisjoint c₀.1 (mem_map.mpr ⟨⟨revision, c₀.1, c₀.2⟩,
        mem_map.mpr ⟨c₀, Option.mem_toList.mpr hc₀, rfl⟩, rfl⟩) c₁.key
        (mem_map.mpr ⟨c₁, hc₁, rfl⟩)
    rcases hc with hfirst | hrest
    · obtain ⟨c₀, hc₀, rfl⟩ := mem_map.mp hfirst
      have hc₀ := Option.mem_toList.mp hc₀
      have hsame : (leavesAll revision records (call :: rest)).lookup c₀.1 =
          (call.leaves revision records).lookup c₀.1 :=
        lookup_leavesAll fun c₁ hc₁ heq => hlater c₁ hc₁ c₀ hc₀ heq.symm
      unfold Alters
      rw [hsame]
      exact alters_leaves hc₀ revision
    · have hbefore : (call.leaves revision records).lookup c.key = records.lookup c.key :=
        lookup_leaves_of_ne (hlater c hrest) revision
      obtain ⟨hrevision, hvalue⟩ := ih honce hrest
      refine ⟨hrevision, ?_⟩
      rwa [hbefore] at hvalue

theorem Alters.eq {before after : Records V} {c' : StateChange V}
    (h : Alters revision before after c) (h' : Alters revision before after c')
    (hkey : c.key = c'.key) : c = c' := by
  obtain ⟨r, key, value⟩ := c
  obtain ⟨r', key', value'⟩ := c'
  obtain ⟨hr, hvalue⟩ := h
  obtain ⟨hr', hvalue'⟩ := h'
  dsimp only at hkey hr hr' hvalue hvalue'
  subst hkey hr hr'
  cases value with
  | some v =>
    cases value' with
    | some v' =>
      obtain rfl := (StoredRecord.mk.inj (Option.some.inj (hvalue.symm.trans hvalue'))).1
      rfl
    | none =>
      rw [hvalue] at hvalue'
      cases hvalue'.2
  | none =>
    cases value' with
    | some v' =>
      rw [hvalue.2] at hvalue'
      cases hvalue'
    | none => rfl

theorem mem_changesAll (honce : ChangesOnce revision records calls)
    (hbounded : ∀ key record, records.lookup key = some record → record.revision < revision)
    (c : StateChange V) :
    c ∈ changesAll revision records calls ↔
      Alters revision records (leavesAll revision records calls) c := by
  refine ⟨alters_of_mem honce, fun halters => ?_⟩
  by_contra hnot
  have hsame : (leavesAll revision records calls).lookup c.key = records.lookup c.key := by
    refine lookup_leavesAll fun c' hc' hkey => hnot ?_
    rwa [halters.eq (alters_of_mem honce hc') hkey.symm]
  obtain ⟨-, hvalue⟩ := halters
  cases hc : c.value with
  | some value =>
    rw [hc, hsame] at hvalue
    exact Nat.lt_irrefl revision (hbounded c.key _ hvalue)
  | none =>
    rw [hc, hsame] at hvalue
    rw [hvalue.2] at hvalue
    cases hvalue.1

theorem MemoryTransaction.Stages.mem_changes {tx : MemoryTransaction V} {revision : Revision}
    {snapshot records : Records V} (h : tx.Stages revision snapshot records)
    (hbounded : ∀ key record, snapshot.lookup key = some record → record.revision < revision)
    (c : StateChange V) :
    c ∈ (tx.sortedMutations.filter (entryApplies snapshot)).map (change revision) ↔
      Alters revision snapshot records c := by
  constructor
  · intro hc
    obtain ⟨⟨key, mutation⟩, hentry, rfl⟩ := mem_map.mp hc
    obtain ⟨hmem, happlies⟩ := mem_filter.mp hentry
    have hlookup := mem_sortedMutations.mp hmem
    cases mutation with
    | put value expected => exact ⟨rfl, h.put key value expected hlookup⟩
    | delete expected => exact ⟨rfl, happlies, h.deleted key expected hlookup⟩
  · rintro ⟨hrevision, hvalue⟩
    obtain ⟨r, key, value⟩ := c
    subst hrevision
    cases hmutation : tx.mutations.lookup key with
    | none =>
      rw [h.untouched key hmutation] at hvalue
      cases value with
      | some v => exact absurd (hbounded key _ hvalue) (Nat.lt_irrefl _)
      | none =>
        rw [hvalue.2] at hvalue
        cases hvalue.1
    | some mutation =>
      refine mem_map.mpr ⟨⟨key, mutation⟩,
        mem_filter.mpr ⟨mem_sortedMutations.mpr hmutation, ?_⟩, ?_⟩
      · cases mutation with
        | put v expected => rfl
        | delete expected =>
          rw [h.deleted key expected hmutation] at hvalue
          cases value with
          | some v => cases hvalue
          | none => exact hvalue.1
      · cases mutation with
        | put v expected =>
          rw [h.put key v expected hmutation] at hvalue
          cases value with
          | some v' =>
            obtain rfl := (StoredRecord.mk.inj (Option.some.inj hvalue)).1
            rfl
          | none => cases hvalue.2
        | delete expected =>
          rw [h.deleted key expected hmutation] at hvalue
          cases value with
          | some v => cases hvalue
          | none => rfl

/-! ### The order of the log -/

/-- The order `#readChanges` answers in. -/
def compareChanges (left right : StateChange V) : Ordering :=
  (compare left.revision right.revision).then (compareKeys left.key right.key)

instance : Std.TransCmp (compareChanges (V := V)) :=
  have := transCmp_comap compare (StateChange.revision (V := V))
  have := transCmp_comap compareKeys (StateChange.key (V := V))
  inferInstanceAs (Std.TransCmp (compareLex
    (fun left right : StateChange V => compare left.revision right.revision)
    fun left right : StateChange V => compareKeys left.key right.key))

theorem revision_of_mem_changesAll (hc : c ∈ changesAll revision records calls) :
    c.revision = revision := by
  induction calls generalizing records with
  | nil => cases hc
  | cons call rest ih =>
    rw [changesAll, mem_append] at hc
    rcases hc with hfirst | hrest
    · obtain ⟨c₀, -, rfl⟩ := mem_map.mp hfirst
      rfl
    · exact ih hrest

end

/-- **The change logs agree** exactly when no key is changed twice. -/
theorem MemoryTransaction.Stages.changes_eq {tx : MemoryTransaction V} {db : PostgresDatabase V}
    {cursor : Revision} {records : Records V} {calls : List (StateCall V)}
    (h : tx.Stages (cursor + 1) records (leavesAll (cursor + 1) records calls))
    (hbounded : ∀ key record, records.lookup key = some record → record.revision < cursor + 1)
    (hdb : db.changes = changesAll (cursor + 1) records calls) :
    (tx.sortedMutations.filter (entryApplies records)).map (change (cursor + 1)) =
        db.readChanges cursor ↔
      ChangesOnce (cursor + 1) records calls := by
  let log : List (StateChange V) :=
    (tx.sortedMutations.filter (entryApplies records)).map (change (cursor + 1))
  have hread : db.readChanges cursor = (changesAll (cursor + 1) records calls).insertionSort
      fun left right => compareChanges left right ≠ .gt := by
    have hall : (db.changes.filter fun c => cursor < c.revision) =
        changesAll (cursor + 1) records calls := by
      rw [hdb]
      refine filter_eq_self.mpr fun c hc => ?_
      rw [revision_of_mem_changesAll hc]
      exact decide_eq_true (Nat.lt_succ_self cursor)
    rw [PostgresDatabase.readChanges, hall]
    rfl
  have hkeys : (log.map (·.key)).Nodup := by
    have hmap : log.map (·.key) = (tx.sortedMutations.filter (entryApplies records)).map (·.1) := by
      rw [map_map]
      rfl
    rw [hmap]
    exact tx.nodupKeys_sortedMutations.sublist (filter_sublist.map _)
  have hsorted : log.Pairwise fun left right => compareChanges left right ≠ .gt := by
    have hstaged : tx.sortedMutations.Pairwise fun left right =>
        compareKeys left.1 right.1 ≠ .gt := by
      have := transCmp_comap compareKeys fun entry : Entry V => entry.1
      exact pairwise_insertionSort _ _
    refine pairwise_map.mpr ((hstaged.sublist filter_sublist).imp fun {e e'} hle => ?_)
    have hsame : compare (cursor + 1) (cursor + 1) = Ordering.eq := Std.ReflCmp.compare_self
    rw [compareChanges, change, change, hsame]
    exact hle
  rw [hread]
  constructor
  · intro heq
    have hperm : log.Perm (changesAll (cursor + 1) records calls) := by
      rw [show log = _ from heq]
      exact perm_insertionSort _ _
    exact (hperm.map _).nodup_iff.mp hkeys
  · intro honce
    have hperm : log.Perm (changesAll (cursor + 1) records calls) :=
      (perm_ext_iff_of_nodup hkeys.of_map honce.of_map).mpr fun c =>
        (h.mem_changes hbounded c).trans (mem_changesAll honce hbounded c).symm
    refine hsorted.insertionSort_eq.symm.trans (insertionSort_eq_of_perm hperm ?_)
    intro c hc c' hc' heq
    exact inj_on_of_nodup_map hkeys hc hc' (eq_of_compareKeys (Ordering.then_eq_eq.mp heq).2)

/-! ## The memory store -/

section Memory

variable [WireValue V] {set : RecordSet V} {calls : List (StateCall V)}

namespace RecordSet

omit [WireValue V] in
theorem lt_next (set : RecordSet V) (key : StateKey) (record : StoredRecord V)
    (h : set.records.lookup key = some record) : record.revision < set.next :=
  Nat.lt_succ_of_le (set.bounded key record h)

theorem transactCalls_malformed (hvalid : ∀ call ∈ calls, call.wellFormed = true)
    {call : StateCall V} {e : StateError} (he : call.check = .error e) (rest : List (StateCall V))
    (result : V) :
    set.memoryStore.transactCalls (calls ++ call :: rest) result = .error e := by
  have hopen : set.memoryStore.assertOpen = .ok () := if_pos rfl
  have hall := MemoryTransaction.performAll_malformed
    (MemoryTransaction.stages_start set.next set.records) set.lt_next hvalid he rest
  rw [MemoryStateStore.transactCalls, hopen]
  dsimp only [bind, Except.bind, RecordSet.memoryStore]
  rw [hall]

theorem transactCalls_eq (set : RecordSet V) (hvalid : ∀ call ∈ calls, call.wellFormed = true) (result : V) :
    ∃ tx : MemoryTransaction V,
      tx.Stages set.next set.records (leavesAll set.next set.records calls) ∧
      (MemoryTransaction.StagedMeet set.records tx.mutations [] ↔
        finalMeets set.records calls = true) ∧
      set.memoryStore.transactCalls calls result =
        (set.memoryStore.commit none none ⟨tx.sortedMutations, [], []⟩ result).map fun store =>
          (MemoryTransaction.shownReads set.next set.records set.records calls, store) := by
  have hopen : set.memoryStore.assertOpen = .ok () := if_pos rfl
  obtain ⟨tx, hall, hstages, hmutations⟩ := MemoryTransaction.performAll_ok
    (MemoryTransaction.stages_start set.next set.records) set.lt_next hvalid
  refine ⟨tx, hstages, ?_, ?_⟩
  · rw [hmutations, MemoryTransaction.stagedMeet_foldl]
    exact and_iff_left fun _ _ hnone => by cases hnone
  · have hactive : tx.assertActive = .ok () := if_pos hstages.active
    rw [MemoryStateStore.transactCalls, hopen]
    dsimp only [bind, Except.bind]
    rw [show (MemoryTransaction.start set.memoryStore.records).performAll calls = _ from hall]
    dsimp only
    rw [MemoryTransaction.finish, hactive]
    dsimp only [bind, Except.bind, pure, Except.pure]
    rw [hstages.operations, hstages.outbox]
    cases set.memoryStore.commit none none ⟨tx.sortedMutations, [], []⟩ result <;> rfl

theorem transactCalls_conflict (hvalid : ∀ call ∈ calls, call.wellFormed = true)
    (hfinal : ¬ finalMeets set.records calls = true) (result : V) :
    ∃ e, set.memoryStore.transactCalls calls result = .error e ∧
      e.code = .STATE_REVISION_CONFLICT := by
  obtain ⟨tx, -, hmeet, heq⟩ := transactCalls_eq set hvalid result
  rw [heq, commit_mutations]
  cases happly : applyMutations set.records [] tx.sortedMutations with
  | error e =>
    exact ⟨e, rfl, (applyMutations_error tx.nodupKeys_sortedMutations happly).1⟩
  | ok applied =>
    refine absurd (hmeet.mp fun key mutation hlookup _ => ?_) hfinal
    exact (applyMutations_spec tx.nodupKeys_sortedMutations happly).1 _
      (MemoryTransaction.mem_sortedMutations.mpr hlookup)

theorem transactCalls_ok (hvalid : ∀ call ∈ calls, call.wellFormed = true)
    (hfinal : finalMeets set.records calls = true) (result : V) :
    ∃ (tx : MemoryTransaction V) (store : MemoryStateStore V),
      tx.Stages set.next set.records (leavesAll set.next set.records calls) ∧
      set.memoryStore.transactCalls calls result =
        .ok (MemoryTransaction.shownReads set.next set.records set.records calls, store) ∧
      (∀ key, store.records.lookup key = (leavesAll set.next set.records calls).lookup key) ∧
      store.changes = (tx.sortedMutations.filter (entryApplies set.records)).map (change set.next) := by
  obtain ⟨tx, hstages, hmeet, heq⟩ := transactCalls_eq set hvalid result
  rw [commit_mutations] at heq
  have hnodup := tx.nodupKeys_sortedMutations
  cases happly : applyMutations set.records [] tx.sortedMutations with
  | error e =>
    obtain ⟨-, ⟨key, mutation⟩, hentry, hmiss⟩ := applyMutations_error hnodup happly
    have hmet := hmeet.mpr hfinal key mutation (MemoryTransaction.mem_sortedMutations.mp hentry)
      fun call hcall => by cases hcall
    exact absurd (hmiss.symm.trans hmet) Bool.false_ne_true
  | ok applied =>
    obtain ⟨next, applied⟩ := applied
    obtain ⟨hwritten, hother⟩ := lookup_published (r := set.next) hnodup happly
    have happlied : applied = tx.sortedMutations.filter (entryApplies set.records) :=
      (applyMutations_spec hnodup happly).2.1
    -- key by key, what the commit publishes is what the transaction shows
    have hpublished : ∀ key, (applied.foldl (putRecord set.next) next).lookup key =
        (leavesAll set.next set.records calls).lookup key := fun key => by
      cases hmutation : tx.mutations.lookup key with
      | none =>
        rw [hstages.untouched key hmutation]
        refine hother key fun hmem => ?_
        obtain ⟨⟨k, mutation⟩, hentry, rfl⟩ := mem_map.mp hmem
        rw [MemoryTransaction.mem_sortedMutations.mp hentry] at hmutation
        cases hmutation
      | some mutation =>
        rw [hwritten ⟨key, mutation⟩ (MemoryTransaction.mem_sortedMutations.mpr hmutation)]
        cases mutation with
        | put value expected => exact (hstages.put key value expected hmutation).symm
        | delete expected => exact (hstages.deleted key expected hmutation).symm
    rw [happly] at heq
    refine ⟨tx, _, hstages, heq, ?_, ?_⟩
    · intro key
      cases happ : applied with
      | nil =>
        -- nothing applies: whatever is staged deletes a key that is not there
        cases hmutation : tx.mutations.lookup key with
        | none => exact (hstages.untouched key hmutation).symm
        | some mutation =>
          have hnot : ¬ entryApplies set.records ⟨key, mutation⟩ = true :=
            filter_eq_nil_iff.mp (happlied.symm.trans happ) _
              (MemoryTransaction.mem_sortedMutations.mpr hmutation)
          cases mutation with
          | put value expected => exact absurd rfl hnot
          | delete expected =>
            exact (Option.not_isSome_iff_eq_none.mp hnot).trans
              (hstages.deleted key expected hmutation).symm
      | cons entry rest =>
        rw [← hpublished key, happ]
        rfl
    · rw [← happlied]
      cases applied with
      | nil => rfl
      | cons entry rest => rfl

end RecordSet

end Memory

/-! ## Both drivers -/

section Both

variable [WireValue V] {set : RecordSet V} {calls : List (StateCall V)}

theorem driversAgree_malformed (hvalid : ∀ call ∈ calls, call.wellFormed = true)
    {call : StateCall V} (hcall : ¬ call.wellFormed = true) (rest : List (StateCall V)) (result : V) :
    DriversAgree set (calls ++ call :: rest) result ↔ meetsAll set.next set.records calls = true := by
  obtain ⟨e, hcheck, hcode⟩ := check_of_malformed hcall
  have hsees := PostgresTransaction.sees_start set.database
  rw [DriversAgree, RecordSet.transactCalls_malformed hvalid hcheck]
  cases hmeets : meetsAll set.next set.records calls with
  | true =>
    rw [PostgresDatabase.transact_error
      (PostgresTransaction.performAll_malformed hsees hvalid hmeets hcheck rest)]
    exact ⟨fun _ => rfl, fun _ => rfl⟩
  | false =>
    obtain ⟨e', hall, hconflict⟩ :=
      PostgresTransaction.performAll_conflict hsees hvalid hmeets (call :: rest)
    rw [PostgresDatabase.transact_error hall]
    exact ⟨fun hsame => absurd (hsame.trans hconflict) hcode, fun h => by cases h⟩

theorem driversAgree_wellFormed (hvalid : ∀ call ∈ calls, call.wellFormed = true) (result : V) :
    DriversAgree set calls result ↔
      (meetsAll set.next set.records calls ∧ finalMeets set.records calls ∧
        ChangesOnce set.next set.records calls ∧ readsOthers set.next set.records calls) ∨
      (¬ meetsAll set.next set.records calls ∧ ¬ finalMeets set.records calls) := by
  have hconflict : ¬ meetsAll set.next set.records calls = true →
      ∃ e, set.database.transact calls = .error e ∧ e.code = .STATE_REVISION_CONFLICT := fun hmeets => by
    obtain ⟨e, hall, hcode⟩ := PostgresTransaction.performAll_conflict
      (PostgresTransaction.sees_start set.database) hvalid (Bool.eq_false_iff.mpr hmeets) []
    rw [append_nil] at hall
    exact ⟨e, PostgresDatabase.transact_error hall, hcode⟩
  rw [DriversAgree]
  by_cases hfinal : finalMeets set.records calls = true
  · obtain ⟨tx, store, hstages, hmemory, hrecords, hchanges⟩ :=
      RecordSet.transactCalls_ok hvalid hfinal result
    rw [hmemory]
    by_cases hmeets : meetsAll set.next set.records calls = true
    · obtain ⟨db, hpostgres, hrecords', hchanges'⟩ :=
        PostgresDatabase.transact_ok hvalid
          (show meetsAll (set.database.revision + 1) set.database.records calls = true from hmeets)
      rw [hpostgres]
      have hlog : store.changes = db.readChanges set.revision ↔
          ChangesOnce set.next set.records calls := by
        rw [hchanges]
        exact hstages.changes_eq set.lt_next hchanges'
      have hreads : MemoryTransaction.shownReads set.next set.records set.records calls =
          readsAll set.next set.records calls ↔ readsOthers set.next set.records calls = true :=
        MemoryTransaction.shownReads_eq set.lt_next (Nat.succ_pos set.revision) set.records calls
      have hsame : ∀ key, store.records.lookup key = db.records.lookup key := fun key => by
        rw [hrecords key, hrecords']
        rfl
      constructor
      · rintro ⟨hread, -, hlogs⟩
        exact .inl ⟨hmeets, hfinal, hlog.mp hlogs, hreads.mp hread⟩
      · rintro (⟨-, -, honce, hothers⟩ | ⟨hnot, -⟩)
        · exact ⟨hreads.mpr hothers, hsame, hlog.mpr honce⟩
        · exact absurd hmeets hnot
    · obtain ⟨e, hpostgres, -⟩ := hconflict hmeets
      rw [hpostgres]
      constructor
      · exact False.elim
      · rintro (⟨h, -⟩ | ⟨-, h⟩)
        · exact hmeets h
        · exact h hfinal
  · obtain ⟨e, hmemory, hcode⟩ := RecordSet.transactCalls_conflict hvalid hfinal result
    rw [hmemory]
    by_cases hmeets : meetsAll set.next set.records calls = true
    · obtain ⟨db, hpostgres, -⟩ :=
        PostgresDatabase.transact_ok hvalid
          (show meetsAll (set.database.revision + 1) set.database.records calls = true from hmeets)
      rw [hpostgres]
      constructor
      · exact False.elim
      · rintro (⟨-, h, -⟩ | ⟨h, -⟩)
        · exact hfinal h
        · exact h hmeets
    · obtain ⟨e', hpostgres, hcode'⟩ := hconflict hmeets
      rw [hpostgres]
      exact ⟨fun _ => .inr ⟨hmeets, hfinal⟩, fun _ => hcode.trans hcode'.symm⟩

end Both

/-- **The two drivers agree on exactly these transactions.** -/
theorem driversAgree_iff [WireValue V] (set : RecordSet V) (calls : List (StateCall V)) (result : V) :
    DriversAgree set calls result ↔ set.Compatible calls := by
  have hsplit : calls.takeWhile (·.wellFormed) ++ calls.dropWhile (·.wellFormed) = calls :=
    takeWhile_append_dropWhile
  unfold RecordSet.Compatible
  dsimp only
  cases hrest : calls.dropWhile (·.wellFormed) with
  | cons call rest =>
    have hcall : ¬ call.wellFormed = true := by
      have hhead := head?_dropWhile_not (·.wellFormed) calls
      rw [hrest] at hhead
      exact Bool.eq_false_iff.mp hhead
    rw [hrest] at hsplit
    have hlength : (calls.takeWhile (·.wellFormed)).length < calls.length := by
      conv_rhs => rw [← hsplit, length_append, length_cons]
      omega
    rw [if_pos hlength]
    conv_lhs => rw [← hsplit]
    exact driversAgree_malformed (fun _ => mem_takeWhile_imp) hcall rest result
  | nil =>
    rw [hrest, append_nil] at hsplit
    rw [hsplit, if_neg (Nat.lt_irrefl _)]
    exact driversAgree_wellFormed (dropWhile_eq_nil_iff.mp hrest) result

def RecordSet.empty : RecordSet V where
  records := ∅
  revision := 0
  bounded key record h := by
    rw [lookup_empty] at h
    cases h

/-- The same new record twice. -/
def repeatedPut : List (StateCall Unit) :=
  [.put ⟨Text.js "plugins", Text.js "enabled", Text.js "a"⟩ () .absent,
    .put ⟨Text.js "plugins", Text.js "enabled", Text.js "a"⟩ () .absent]

/-- **A key put twice as a new one**: the memory store checks the second put only. -/
theorem repeatedPut_diverges : ¬ DriversAgree RecordSet.empty repeatedPut () := by
  have hvalid : ∀ call ∈ repeatedPut, call.wellFormed = true := by decide +kernel
  have hmeets : ¬ meetsAll (RecordSet.empty (V := Unit)).next RecordSet.empty.records repeatedPut =
      true := by decide +kernel
  have hfinal : finalMeets RecordSet.empty.records repeatedPut = true := by decide +kernel
  rw [driversAgree_wellFormed hvalid]
  rintro (h | h)
  · exact hmeets h.1
  · exact h.2 hfinal

end TegoNext
