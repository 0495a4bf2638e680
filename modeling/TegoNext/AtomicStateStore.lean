/-
State stores whose transactions are atomic, and transactions that read before they write.

A commit whose expectations are all met leaves the values that its mutations say. A transaction
that reads a key before it writes it, under the condition that the record is as it was read, has
its expectations met by the records it started with. `Prepared` says so of a transaction under way,
together with the values it will leave.
-/
import TegoNext.DriverAgreement

set_option autoImplicit false

namespace TegoNext

open List AList

variable {V F α β : Type}

/-! ## Stores -/

def valueAt (records : Records V) (key : StateKey) : Option V :=
  (records.lookup key).map fun record => record.value

def mutated (before : Option V) : Option (Mutation V) → Option V
  | none => before
  | some (.put value _) => some value
  | some (.delete _) => none

structure AtomicStateStore (V : Type) where
  State : Type
  records : State → Records V
  commit : State → List (Sigma fun _ : StateKey => Mutation V) → Except StateError State
  commit_met : ∀ (state : State) (entries : List (Sigma fun _ : StateKey => Mutation V)),
    (entries.map (·.1)).Nodup →
    (∀ entry ∈ entries, matchesExpectedRevision ((records state).lookup entry.1)
      entry.2.expectedRevision = true) →
    ∃ next, commit state entries = .ok next ∧
      ∀ key, valueAt (records next) key = mutated (valueAt (records state) key) (entries.dlookup key)

/-- Why a call fails: the store throws, or the code that runs on it does. -/
inductive CallFailure (F : Type) where
  | state (e : StateError)
  | thrown (e : F)

/-- The body of a transaction; what it throws undoes it. -/
abbrev TransactionCode (V F α : Type) : Type := StateT (MemoryTransaction V) (Except (CallFailure F)) α

namespace TransactionCode

/-- A method that answers and leaves the transaction as it is. -/
def query (method : MemoryTransaction V → Except StateError α) : TransactionCode V F α := fun tx =>
  match method tx with
  | .ok a => .ok (a, tx)
  | .error e => .error (.state e)

def stage (method : MemoryTransaction V → Except StateError (MemoryTransaction V)) :
    TransactionCode V F Unit := fun tx =>
  match method tx with
  | .ok tx => .ok ((), tx)
  | .error e => .error (.state e)

def get (key : StateKey) : TransactionCode V F (Option (StoredRecord V)) := query (·.get key)

def scan (stateQuery : StateQuery) : TransactionCode V F (List (ScannedState V)) :=
  query (·.scan stateQuery)

def put (key : StateKey) (value : V) (expected : ExpectedRevision) : TransactionCode V F Unit :=
  stage (·.put key value expected)

def delete (key : StateKey) (expected : ExpectedRevision) : TransactionCode V F Unit :=
  stage (·.delete key expected)

/-- Code that may throw and does not touch the transaction. -/
def ofExcept (outcome : Except (CallFailure F) α) : TransactionCode V F α := fun tx =>
  outcome.map fun a => (a, tx)

theorem bind_apply {code : TransactionCode V F α} {next : α → TransactionCode V F β}
    {tx tx' : MemoryTransaction V} {a : α} (h : code tx = .ok (a, tx')) :
    (code >>= next) tx = next a tx' := by
  show (code tx >>= fun p => next p.1 p.2) = _
  rw [h]
  rfl

end TransactionCode

/-- `transact`: the body runs on the records as they are, and what it has staged is committed. -/
def AtomicStateStore.transact (store : AtomicStateStore V) (state : store.State)
    (work : TransactionCode V F α) : Except (CallFailure F) α × store.State :=
  match work (.start (store.records state)) with
  | .error e => (.error e, state)
  | .ok (a, tx) =>
    match tx.finish with
    | .error e => (.error (.state e), state)
    | .ok (staged, _) =>
      match store.commit state staged.mutations with
      | .error e => (.error (.state e), state)
      | .ok next => (.ok a, next)

/-- What a write expects that follows a read: `current?.revision ?? "absent"`. -/
def expectedOf : Option (StoredRecord V) → ExpectedRevision
  | none => .absent
  | some record => .revision record.revision

theorem matches_expectedOf (record : Option (StoredRecord V)) :
    matchesExpectedRevision record (expectedOf record) = true := by
  cases record <;> simp [expectedOf, matchesExpectedRevision]

/-! ## Transactions under way -/

/-- The transaction has met expectations only, and will leave these values; it has written the
keys of the list, at most. -/
structure Prepared (records : Records V) (written : List StateKey) (values : StateKey → Option V)
    (tx : MemoryTransaction V) : Prop where
  active : tx.active = true
  snapshot : tx.snapshot = records
  met : ∀ key mutation, tx.mutations.lookup key = some mutation →
    matchesExpectedRevision (records.lookup key) mutation.expectedRevision = true
  shows : ∀ key, values key = mutated (valueAt records key) (tx.mutations.lookup key)
  unwritten : ∀ key, key ∉ written → tx.mutations.lookup key = none

section Prepared

variable {records : Records V} {written : List StateKey} {values : StateKey → Option V}
  {tx : MemoryTransaction V} {key : StateKey}

theorem prepared_start (records : Records V) :
    Prepared records [] (valueAt records) (MemoryTransaction.start records) where
  active := rfl
  snapshot := rfl
  met key mutation h := by cases h
  shows _ := rfl
  unwritten _ _ := rfl

theorem Prepared.weaken (h : Prepared records written values tx) {written' : List StateKey}
    (hsub : written ⊆ written') : Prepared records written' values tx :=
  ⟨h.active, h.snapshot, h.met, h.shows, fun key hkey => h.unwritten key fun hin => hkey (hsub hin)⟩

theorem Prepared.values_eq (h : Prepared records written values tx) (hkey : key ∉ written) :
    values key = valueAt records key := by
  rw [h.shows, h.unwritten key hkey, mutated]

theorem Prepared.assertActive (h : Prepared records written values tx) :
    tx.assertActive = .ok () := if_pos h.active

theorem Prepared.get (h : Prepared records written values tx) (hkey : key ∉ written)
    (hportable : assertStateKey key false = .ok ()) :
    (TransactionCode.get key : TransactionCode V F _) tx = .ok (records.lookup key, tx) := by
  have hget : tx.get key = .ok (records.lookup key) := by
    simp only [MemoryTransaction.get, h.assertActive, hportable, h.unwritten key hkey, h.snapshot]
    rfl
  rw [TransactionCode.get, TransactionCode.query, hget]

theorem Prepared.scan (h : Prepared records [] values tx) {stateQuery : StateQuery}
    (hquery : assertStateQuery stateQuery = .ok ()) :
    (TransactionCode.scan stateQuery : TransactionCode V F _) tx =
      .ok (scanRecords records stateQuery, tx) := by
  have hnone : tx.mutations = ∅ := by
    apply AList.ext
    apply eq_nil_iff_forall_not_mem.mpr
    rintro ⟨k, m⟩ hmem
    have := mem_lookup_iff.mpr hmem
    rw [h.unwritten k not_mem_nil] at this
    cases this
  have hscan : tx.scan stateQuery = .ok (scanRecords records stateQuery) := by
    simp only [MemoryTransaction.scan, h.assertActive, hquery, MemoryTransaction.visible, hnone,
      h.snapshot]
    rfl
  rw [TransactionCode.scan, TransactionCode.query, hscan]

theorem Prepared.stage (h : Prepared records written values tx)
    (hportable : assertStateKey key true = .ok ()) (mutation : Mutation V)
    (hmet : matchesExpectedRevision (records.lookup key) mutation.expectedRevision = true) :
    ∃ tx', tx.stage key mutation = .ok tx' ∧
      Prepared records (key :: written)
        (Function.update values key (mutated (values key) (some mutation))) tx' := by
  refine ⟨{ tx with mutations := tx.mutations.insert key mutation }, ?_, ?_⟩
  · simp only [MemoryTransaction.stage, h.assertActive, hportable]
    rfl
  refine ⟨h.active, h.snapshot, ?_, ?_, ?_⟩
  · intro k m hm
    rcases lookup_insert_cases hm with ⟨rfl, rfl⟩ | ⟨-, hm⟩
    · exact hmet
    · exact h.met k m hm
  · intro k
    by_cases hk : k = key
    · subst hk
      rw [Function.update_self, lookup_insert]
      cases mutation <;> rfl
    · rw [Function.update_of_ne hk, lookup_insert_ne hk]
      exact h.shows k
  · intro k hk
    rw [mem_cons, not_or] at hk
    rw [lookup_insert_ne hk.1]
    exact h.unwritten k hk.2

theorem Prepared.put (h : Prepared records written values tx)
    (hportable : assertStateKey key true = .ok ()) (value : V) :
    ∃ tx', (TransactionCode.put key value (expectedOf (records.lookup key)) :
        TransactionCode V F Unit) tx = .ok ((), tx') ∧
      Prepared records (key :: written) (Function.update values key (some value)) tx' := by
  obtain ⟨tx', hstage, hprepared⟩ := h.stage hportable
    (.put value (expectedOf (records.lookup key))) (matches_expectedOf _)
  refine ⟨tx', ?_, hprepared⟩
  rw [TransactionCode.put, TransactionCode.stage, MemoryTransaction.put, hstage]

theorem Prepared.delete (h : Prepared records written values tx)
    (hportable : assertStateKey key true = .ok ()) {record : StoredRecord V}
    (hrecord : records.lookup key = some record) :
    ∃ tx', (TransactionCode.delete key (.revision record.revision) :
        TransactionCode V F Unit) tx = .ok ((), tx') ∧
      Prepared records (key :: written) (Function.update values key none) tx' := by
  obtain ⟨tx', hstage, hprepared⟩ := h.stage hportable (.delete (.revision record.revision))
    (by rw [hrecord]; exact matches_expectedOf (some record))
  refine ⟨tx', ?_, hprepared⟩
  rw [TransactionCode.delete, TransactionCode.stage, MemoryTransaction.delete, hstage]

/-- **A prepared transaction commits, and leaves the values it shows.** -/
theorem transact_of_prepared (store : AtomicStateStore V) (state : store.State)
    {work : TransactionCode V F α} {a : α}
    (hwork : work (.start (store.records state)) = .ok (a, tx))
    (h : Prepared (store.records state) written values tx) :
    ∃ next, store.transact state work = (.ok a, next) ∧
      ∀ key, valueAt (store.records next) key = values key := by
  have hfinish : tx.finish = .ok (⟨tx.sortedMutations, tx.operations, tx.outbox⟩,
      { tx with active := false }) := by
    simp only [MemoryTransaction.finish, h.assertActive]
    rfl
  obtain ⟨next, hcommit, hvalues⟩ := store.commit_met state tx.sortedMutations
    tx.nodupKeys_sortedMutations fun entry hentry =>
      h.met entry.1 entry.2 (MemoryTransaction.mem_sortedMutations.mp hentry)
  refine ⟨next, ?_, fun key => ?_⟩
  · simp only [AtomicStateStore.transact, hwork, hfinish, hcommit]
  · rw [hvalues, h.shows]
    congr 1
    have hperm : tx.sortedMutations.Perm tx.mutations.entries := perm_insertionSort _ _
    exact perm_dlookup key tx.nodupKeys_sortedMutations hperm

end Prepared

/-! ## The memory store -/

theorem mutated_of_written {records after : Records V} {revision : Revision}
    {entries : List (Sigma fun _ : StateKey => Mutation V)} (hnodup : (entries.map (·.1)).Nodup)
    (hwritten : ∀ entry ∈ entries, after.lookup entry.1 = MemoryStateStore.written revision entry)
    (hother : ∀ key, key ∉ entries.map (·.1) → after.lookup key = records.lookup key)
    (key : StateKey) :
    valueAt after key = mutated (valueAt records key) (entries.dlookup key) := by
  by_cases hkey : key ∈ entries.map (·.1)
  · obtain ⟨⟨k, mutation⟩, hentry, rfl⟩ := mem_map.mp hkey
    have hlookup : entries.dlookup k = some mutation := (mem_dlookup_iff hnodup).mpr hentry
    rw [valueAt, hwritten _ hentry, hlookup]
    cases mutation <;> rfl
  · have hnone : entries.dlookup key = none := dlookup_eq_none.mpr hkey
    rw [valueAt, hother key hkey, hnone]
    rfl

theorem mutated_of_applied_nil {records next : Records V}
    {entries : List (Sigma fun _ : StateKey => Mutation V)} (hnodup : (entries.map (·.1)).Nodup)
    (happlied : MemoryStateStore.applyMutations records [] entries = .ok (next, []))
    (key : StateKey) :
    mutated (valueAt records key) (entries.dlookup key) = valueAt records key := by
  obtain ⟨-, hfilter, -, -⟩ := MemoryStateStore.applyMutations_spec hnodup happlied
  cases hlookup : entries.dlookup key with
  | none => rfl
  | some mutation =>
    have hentry := (mem_dlookup_iff hnodup).mp hlookup
    have hnot := filter_eq_nil_iff.mp hfilter.symm _ hentry
    cases mutation with
    | put value expected => exact absurd rfl hnot
    | delete expected =>
      have hnone : records.lookup key = none := Option.not_isSome_iff_eq_none.mp hnot
      rw [valueAt, hnone]
      rfl

section Memory

variable [WireValue V]

theorem lifecycle_commit {store store' : MemoryStateStore V} {fencing : Option StateFencing}
    {identity : Option IdempotencyIdentity} {staged : StagedTransaction V} {result : V}
    (h : store.commit fencing identity staged result = .ok store') :
    store'.lifecycle = store.lifecycle := by
  obtain ⟨-, next, applied, newOutbox, advancesFence, -, -, -, rfl⟩ := MemoryStateStore.commit_ok h
  rw [MemoryStateStore.remember_lifecycle]
  split <;> rfl

/-- An open memory store is such a store; `null` is what its transactions resolve with. -/
def memoryAtomicStore (null : V) : AtomicStateStore V where
  State := { store : MemoryStateStore V // store.lifecycle = .open }
  records state := state.val.records
  commit state entries :=
    match h : state.val.commit none none ⟨entries, [], []⟩ null with
    | .ok next => .ok ⟨next, (lifecycle_commit h).trans state.property⟩
    | .error e => .error e
  commit_met := by
    intro state entries hnodup hmet
    cases happlied : MemoryStateStore.applyMutations state.val.records [] entries with
    | error e =>
      obtain ⟨-, entry, hentry, hmiss⟩ := applyMutations_error hnodup happlied
      rw [hmet entry hentry] at hmiss
      cases hmiss
    | ok pair =>
      obtain ⟨next, applied⟩ := pair
      have hopen : state.val.assertOpen = .ok () := if_pos state.property
      have hcommit : state.val.commit none none ⟨entries, [], []⟩ null = .ok
          (if applied.isEmpty then state.val
            else state.val.publish next applied [] [] none false) := by
        simp only [MemoryStateStore.commit, hopen, happlied]
        cases applied <;> rfl
      refine ⟨⟨_, (lifecycle_commit hcommit).trans state.property⟩, ?_, ?_⟩
      · split
        · next left hleft =>
          rw [hcommit] at hleft
          simp only [Except.ok.inj hleft]
        · next e he =>
          rw [hcommit] at he
          cases he
      · intro key
        show valueAt (if applied.isEmpty then state.val
          else state.val.publish next applied [] [] none false).records key = _
        by_cases hempty : applied.isEmpty = true
        · rw [if_pos hempty]
          exact (mutated_of_applied_nil hnodup
            (happlied.trans (by rw [List.isEmpty_iff.mp hempty])) key).symm
        obtain ⟨hwritten, hother⟩ := @MemoryStateStore.lookup_published V
          (state.val.revision + 1) _ _ _ _ hnodup happlied
        rw [if_neg hempty]
        exact mutated_of_written hnodup hwritten hother key

end Memory

end TegoNext
