/-
The two attempt stores agree, and what holds of both.

A law says of the calls of a worker, one after the other, what their outcomes are worth: which
commits can succeed, what a commit does to a revision, and what `recover` reports. It follows
for every store that looks like the table.
-/
import TegoNext.AttemptRecovery

set_option autoImplicit false

namespace TegoNext

open Text List Option

namespace AttemptStores

/-! ## The law -/

/-- The epoch of the record that a call stores, `0` if it stores none. -/
def storedEpoch : AttemptCall → AttemptOutcome → Nat
  | .save record, .done => number record.epoch
  | .commit _ _, .committed (some stored) => number stored.epoch
  | _, _ => 0

def largestEpoch (calls : List AttemptCall) (outcomes : List AttemptOutcome) : Nat :=
  (calls.zipWith storedEpoch outcomes).foldr max 0

namespace AttemptStore

variable (store : AttemptStore) (state : store.State)

def loads (attempt : PortableId × PortableId) : AttemptOutcome :=
  (store.apply state (.load attempt.1 attempt.2)).1

/-- The record is stored, and has not expired. -/
def Holds (record : RemoteAttemptRecord) : Prop :=
  store.loads state record.attempt = .loaded (some record) ∧ record.state ≠ .expired

/-- No more records are stored, and have not expired, than the limit. -/
def Sufficient (limit : Int) : Prop :=
  ∀ records : List RemoteAttemptRecord, records.Nodup → (∀ record ∈ records, store.Holds state record) →
    (records.length : Int) ≤ limit

def before (calls : List AttemptCall) (i : Nat) : store.State := (store.run state (calls.take i)).2

end AttemptStore

/-- What the outcomes of calls are worth, from a state without attempts on. -/
structure AttemptLaw (store : AttemptStore) (state : store.State) (calls : List AttemptCall) :
    Prop where
  /-- Of the commits of an attempt with one expected revision, one succeeds at most, as long as
  nobody saves or deletes the attempt. -/
  once : ∀ (i j : Nat) (record record' : RemoteAttemptRecord)
    (condition condition' : RemoteAttemptCommitCondition) (stored stored' : RemoteAttemptRecord), i < j →
    calls[i]? = some (.commit record condition) → calls[j]? = some (.commit record' condition') →
    record'.attempt = record.attempt → condition'.expectedRevision = condition.expectedRevision →
    (store.run state calls).1[i]? = some (.committed (some stored)) →
    (store.run state calls).1[j]? = some (.committed (some stored')) →
    ∃ (k : Nat) (call : AttemptCall), i < k ∧ k < j ∧ calls[k]? = some call ∧
      call.Resets record.attempt
  /-- A commit that succeeds finds the revision that it expects, and stores its record under the
  next one. -/
  raises : ∀ (i : Nat) (record : RemoteAttemptRecord)
    (condition : RemoteAttemptCommitCondition) (stored : RemoteAttemptRecord),
    calls[i]? = some (.commit record condition) →
    (store.run state calls).1[i]? = some (.committed (some stored)) →
    (∃ current : Option RemoteAttemptRecord, store.loads (store.before state calls i) record.attempt = .loaded current ∧
      current.map (·.revision) = condition.expectedRevision) ∧
    stored = { record with revision := stored.revision } ∧
    number stored.revision = condition.expectedRevision.elim 0 number + 1
  /-- `recover` reports the largest epoch that was ever stored and, if the limit is sufficient,
  lists what is stored and has not expired, each once. -/
  recovers : ∀ (i : Nat) (limit : Int), calls[i]? = some (.recover limit) → 0 < limit → limit ≤ maxSafeInteger →
    ∃ highestEpoch records,
      (store.run state calls).1[i]? = some (.recovered highestEpoch records) ∧
      number highestEpoch = largestEpoch (calls.take i) (store.run state (calls.take i)).1 ∧
      (store.Sufficient (store.before state calls i) limit → records.Nodup ∧
        ∀ record, record ∈ records ↔ store.Holds (store.before state calls i) record)

section Law

variable {requestFingerprint : RemoteRequest → JsString} {workerId : PortableId}
  {store : AttemptStore} {Looks : store.State → AttemptTable → Prop}
  {state : store.State} {table : AttemptTable} {calls : List AttemptCall} {i : Nat}

theorem Simulates.loads (h : Simulates requestFingerprint workerId store Looks)
    (hlooks : Looks state table) (hok : table.Ok requestFingerprint workerId)
    (attempt : PortableId × PortableId) :
    store.loads state attempt = .loaded (table.get attempt) :=
  (h.step state table (.load attempt.1 attempt.2) hlooks hok trivial).1

variable {record : RemoteAttemptRecord}

section

variable (h : Simulates requestFingerprint workerId store Looks)
include h

theorem Simulates.holds_iff
    (hlooks : Looks state table) (hok : table.Ok requestFingerprint workerId)
    : store.Holds state record ↔ record ∈ table.active := by
  rw [AttemptStore.Holds, h.loads hlooks hok, hok.mem_active, AttemptOutcome.loaded.injEq]

theorem Simulates.length_le
    (hlooks : Looks state table) (hok : table.Ok requestFingerprint workerId) {limit : Int}
    (hlimit : store.Sufficient state limit) : (table.active.length : Int) ≤ limit :=
  hlimit table.active (hok.nodup_active.of_map _) fun _ hrecord =>
    (h.holds_iff hlooks hok).mpr hrecord

theorem Simulates.highestEpoch_apply
    (hlooks : Looks state table) (hok : table.Ok requestFingerprint workerId) {call : AttemptCall}
    (hcall : call.WellFormed requestFingerprint workerId) :
    (table.apply call).2.highestEpoch =
      max table.highestEpoch (storedEpoch call (store.apply state call).1) := by
  have hshows := (h.step state table call hlooks hok hcall).1
  cases call with
  | save record =>
    rw [hshows]
    rfl
  | commit record condition =>
    have hshows' : (store.apply state (.commit record condition)).1 =
      (table.apply (.commit record condition)).1 := hshows
    rw [hshows']
    unfold AttemptTable.apply
    dsimp only
    split
    · exact (Nat.max_zero _).symm
    · exact (Nat.max_zero _).symm
    · rfl
  | delete taskId attemptId | load taskId attemptId =>
    exact (Nat.max_zero _).symm
  | recover limit =>
    have hsame : (table.apply (.recover limit)).2 = table := by
      unfold AttemptTable.apply
      dsimp only
      split <;> rfl
    rw [hsame]
    exact (Nat.max_zero _).symm

theorem Simulates.highestEpoch_after
    (hlooks : Looks state table) (hok : table.Ok requestFingerprint workerId)
    (hcalls : ∀ call ∈ calls, call.WellFormed requestFingerprint workerId) :
    (table.after calls).highestEpoch =
      max table.highestEpoch (largestEpoch calls (store.run state calls).1) := by
  induction calls generalizing state table with
  | nil => exact (Nat.max_zero _).symm
  | cons call calls ih =>
    have hcall := hcalls call mem_cons_self
    have hnext := (h.step state table call hlooks hok hcall).2
    have hrest := ih hnext (hok.apply hcall) fun other hother =>
      hcalls other (mem_cons_of_mem _ hother)
    rw [h.highestEpoch_apply hlooks hok hcall, Nat.max_assoc] at hrest
    exact hrest

theorem Simulates.commit_some
    (hlooks : Looks state table) (hok : table.Ok requestFingerprint workerId)
    (hcalls : ∀ call ∈ calls, call.WellFormed requestFingerprint workerId)
    {stored : RemoteAttemptRecord} {condition : RemoteAttemptCommitCondition}
    (hcall : calls[i]? = some (.commit record condition))
    (houtcome : (store.run state calls).1[i]? = some (.committed (some stored))) :
    (table.after (calls.take i)).commit record condition = .ok (some stored) := by
  obtain ⟨outcome, hshown, hshows⟩ := h.shows_run hlooks hok hcalls hcall
  rw [houtcome] at hshown
  obtain rfl := some.inj hshown
  have happly : AttemptOutcome.committed (some stored) =
    ((table.after (calls.take i)).apply (.commit record condition)).1 := hshows
  unfold AttemptTable.apply at happly
  dsimp only at happly
  split at happly
  · cases happly
  · cases happly
  · next other hcommit =>
    cases happly
    exact hcommit

/-- `Revisions.once` of the pages: the attempt is not saved or deleted in between. -/
theorem Simulates.once (hlooks : Looks state table) (hok : table.Ok requestFingerprint workerId)
    (hcalls : ∀ call ∈ calls, call.WellFormed requestFingerprint workerId) {j : Nat}
    {record' stored stored' : RemoteAttemptRecord}
    {condition condition' : RemoteAttemptCommitCondition} (hij : i < j)
    (hi : calls[i]? = some (.commit record condition))
    (hj : calls[j]? = some (.commit record' condition'))
    (hattempt : record'.attempt = record.attempt)
    (hexpected : condition'.expectedRevision = condition.expectedRevision)
    (hstored : (store.run state calls).1[i]? = some (.committed (some stored)))
    (hstored' : (store.run state calls).1[j]? = some (.committed (some stored'))) :
    ∃ (k : Nat) (call : AttemptCall), i < k ∧ k < j ∧ calls[k]? = some call ∧
      call.Resets record.attempt := by
  by_contra hnone
  have hbetween : ∀ call ∈ (calls.take j).drop (i + 1), ¬call.Resets record.attempt := by
    intro call hcall hresets
    obtain ⟨k, hk⟩ := mem_iff_getElem?.mp hcall
    rw [getElem?_drop, getElem?_take] at hk
    by_cases hlt : i + 1 + k < j
    · rw [if_pos hlt] at hk
      exact hnone ⟨i + 1 + k, call, by omega, hlt, hk, hresets⟩
    · rw [if_neg hlt] at hk
      cases hk
  have hwellFormed : ∀ n, ∀ call ∈ calls.take n, call.WellFormed requestFingerprint workerId :=
    fun n call hcall => hcalls call (mem_of_mem_take hcall)
  have hrecord := (hcalls _ (mem_of_getElem? hi)).1
  have hokBefore := hok.after (hwellFormed i)
  have hcommit := h.commit_some hlooks hok hcalls hi hstored
  -- the table in front of the second commit is the one after the first, and the calls between
  have hsplit : calls.take j =
      calls.take i ++ [.commit record condition] ++ (calls.take j).drop (i + 1) := by
    have hfirst : (calls.take j).take (i + 1) = calls.take i ++ [.commit record condition] := by
      rw [take_take, Nat.min_eq_left hij, take_add_one, hi]
      rfl
    rw [← hfirst, take_append_drop]
  have hafter : table.after (calls.take j) =
      ((table.after (calls.take i)).store stored).after ((calls.take j).drop (i + 1)) := by
    have happly : ((table.after (calls.take i)).apply (.commit record condition)).2 =
        (table.after (calls.take i)).store stored := by
      simp only [AttemptTable.apply, hcommit]
    rw [hsplit, AttemptTable.after, foldl_append, foldl_append, ← hsplit]
    show ((table.after (calls.take i)).apply (.commit record condition)).2.after _ = _
    rw [happly]
  have hokStored := hokBefore.store (hokBefore.commit_some hrecord hcommit).2.1
  have habove := hokStored.above_after (fun call hcall =>
    hwellFormed j call (mem_of_mem_drop hcall)) hbetween
    (hokBefore.above_of_commit hrecord hcommit)
  rw [← hafter, ← hattempt, ← hexpected] at habove
  exact habove.commit_ne (h.commit_some hlooks hok hcalls hj hstored')

end

theorem assertRecoveryLimit_of {limit : Int} (hpositive : 0 < limit)
    (hsafe : limit ≤ maxSafeInteger) : assertRecoveryLimit limit = .ok limit.toNat :=
  if_pos ⟨hpositive, hsafe⟩

/-- **The law holds of every store that looks like the table.** -/
theorem Simulates.law (h : Simulates requestFingerprint workerId store Looks)
    (hlooks : Looks state .empty)
    (hcalls : ∀ call ∈ calls, call.WellFormed requestFingerprint workerId) :
    AttemptLaw store state calls := by
  have hok : AttemptTable.empty.Ok requestFingerprint workerId := AttemptTable.ok_empty
  have hwellFormed : ∀ n, ∀ call ∈ calls.take n, call.WellFormed requestFingerprint workerId :=
    fun n call hcall => hcalls call (mem_of_mem_take hcall)
  have hbefore : ∀ n, Looks (store.before state calls n)
      (AttemptTable.empty.after (calls.take n)) := fun n => h.looks_run hlooks hok (hwellFormed n)
  have hokBefore : ∀ n, (AttemptTable.empty.after (calls.take n)).Ok requestFingerprint workerId :=
    fun n => hok.after (hwellFormed n)
  refine ⟨?_, ?_, ?_⟩
  · intro i j record record' condition condition' stored stored' hij hi hj
    exact h.once hlooks hok hcalls hij hi hj
  · intro i record condition stored hi hstored
    have hrecord := (hcalls _ (mem_of_getElem? hi)).1
    have hcommit := h.commit_some hlooks hok hcalls hi hstored
    obtain ⟨hmet, -, heq, hnumber⟩ := (hokBefore i).commit_some hrecord hcommit
    refine ⟨⟨_, h.loads (hbefore i) (hokBefore i) _, hmet⟩, heq, ?_⟩
    rw [hnumber, AttemptTable.revisionOf, hmet]
    cases condition.expectedRevision <;> rfl
  · intro i limit hi hpositive hsafe
    obtain ⟨outcome, houtcome, hshows⟩ := h.shows_run hlooks hok hcalls hi
    unfold Shows at hshows
    simp only [assertRecoveryLimit_of hpositive hsafe] at hshows
    obtain ⟨highestEpoch, records, rfl, hnumber, hperm⟩ := hshows
    refine ⟨highestEpoch, records, houtcome, ?_, fun hlimit => ?_⟩
    · rw [hnumber, h.highestEpoch_after hlooks hok (hwellFormed i)]
      exact Nat.zero_max _
    · have hlength := h.length_le (hbefore i) (hokBefore i) hlimit
      have hactive := hperm (by omega)
      refine ⟨hactive.nodup_iff.mpr ((hokBefore i).nodup_active.of_map _), fun record => ?_⟩
      rw [hactive.mem_iff, h.holds_iff (hbefore i) (hokBefore i)]

/-- Stores that look like the table have the same outcomes, `recover` apart. -/
theorem Simulates.outcome_eq {other : AttemptStore} {OtherLooks : other.State → AttemptTable → Prop}
    {otherState : other.State} (h : Simulates requestFingerprint workerId store Looks)
    (hother : Simulates requestFingerprint workerId other OtherLooks) (hlooks : Looks state table)
    (hotherLooks : OtherLooks otherState table) (hok : table.Ok requestFingerprint workerId)
    (hcalls : ∀ call ∈ calls, call.WellFormed requestFingerprint workerId) {call : AttemptCall}
    (hi : calls[i]? = some call) (hrecover : ∀ limit, call ≠ .recover limit) :
    (store.run state calls).1[i]? = (other.run otherState calls).1[i]? := by
  obtain ⟨outcome, houtcome, hshows⟩ := h.shows_run hlooks hok hcalls hi
  obtain ⟨outcome', houtcome', hshows'⟩ := hother.shows_run hotherLooks hok hcalls hi
  have hsame : ∀ shown, Shows (table.after (calls.take i)) call shown →
      shown = ((table.after (calls.take i)).apply call).1 := by
    intro shown hshown
    cases call with
    | recover limit => exact absurd rfl (hrecover limit)
    | _ => exact hshown
  rw [houtcome, houtcome', hsame outcome hshows, hsame outcome' hshows']

end Law

/-! ## The two stores -/

/-- Nothing of the worker is kept yet. -/
structure Fresh (store : StateRemoteAttemptStore) (records : Records PersistedValue) : Prop where
  attempts : ∀ key, key.nspace = js "tego" → key.collection = js WORKER_ATTEMPT_COLLECTION ∨
    key.collection = js WORKER_ACTIVE_ATTEMPT_COLLECTION →
    startsWith key.id (store.workerId.text ++ [58]) = true → records.lookup key = none
  metadata : records.lookup store.metadataKey = none

theorem Fresh.looks {store : StateRemoteAttemptStore} {records : Records PersistedValue}
    (h : Fresh store records) : store.Looks records .empty where
  attempts taskId attemptId := by
    rw [AttemptTable.get_empty, valueAt,
      h.attempts _ rfl (.inl rfl) (startsWith_attemptStateId _ _ _)]
    rfl
  active taskId attemptId := by
    rw [AttemptTable.get_empty, valueAt,
      h.attempts _ rfl (.inr rfl) (startsWith_attemptStateId _ _ _)]
    rfl
  foreign key hnspace hcollection hstarts _ := by
    rw [valueAt, h.attempts key hnspace (.inr hcollection) hstarts]
    rfl
  metadata := by
    refine ⟨js "0", ?_, rfl⟩
    rw [h.metadata]
    rfl

/-- **The two stores agree.** Of calls of a worker about well-formed records, one after the
other, every outcome but those of `recover` is the same in both, and both obey the law. -/
theorem attempt_stores_agree (store : StateRemoteAttemptStore) (state : store.state.State)
    (hfresh : Fresh store (store.state.records state)) (calls : List AttemptCall)
    (hcalls : ∀ call ∈ calls, call.WellFormed store.requestFingerprint store.workerId) :
    (∀ (i : Nat) (call : AttemptCall), calls[i]? = some call → (∀ limit, call ≠ .recover limit) →
      ((memoryAttemptStore store.workerId).run .new calls).1[i]? =
        ((durableAttemptStore store).run state calls).1[i]?) ∧
    AttemptLaw (memoryAttemptStore store.workerId) .new calls ∧
    AttemptLaw (durableAttemptStore store) state calls := by
  have hmemory := memory_simulates store.requestFingerprint store.workerId
  have hdurable := durable_simulates store
  refine ⟨?_, ?_, ?_⟩
  · intro i call hi hrecover
    exact hmemory.outcome_eq hdurable memoryLooks_new hfresh.looks AttemptTable.ok_empty hcalls hi
      hrecover
  · exact hmemory.law memoryLooks_new hcalls
  · exact hdurable.law hfresh.looks hcalls

/-! ## A worker -/

/-- A store of the worker `w` over a state store in memory. No value of it goes into the outbox,
so that the lengths are not asked for. -/
def workerStore : StateRemoteAttemptStore where
  state := @memoryAtomicStore PersistedValue ⟨inferInstance, fun _ => 0⟩ (.other "" "")
  workerId := ⟨js "w", by decide⟩
  requestFingerprint := fun request => request.content

def openState : workerStore.state.State := ⟨{ MemoryStateStore.new with lifecycle := .open }, rfl⟩

def assigned : RemoteAttemptRecord where
  workerId := workerStore.workerId
  request := ⟨⟨js "t", portable_t⟩, ⟨js "a", portable_a⟩, .cancel, none, js "\x7b\x7d"⟩
  fingerprint := js "\x7b\x7d"
  state := .assigned
  epoch := js "1"
  updatedAt := js "2026-01-01T00:00:00.000Z"
  result := none
  acknowledgedAt := none
  cancellation := none
  revision := js "0"

theorem wellFormed_assigned :
    WellFormed workerStore.requestFingerprint workerStore.workerId assigned where
  workerId_eq := rfl
  fingerprint_eq := rfl
  epoch := ⟨by decide, by decide⟩
  revision := isRevision_zero
  updatedAt := by decide
  result _ h := by cases h
  terminal h := by cases h
  acknowledgedAt _ h := by cases h

theorem fresh_openState : Fresh workerStore (workerStore.state.records openState) where
  attempts _ _ _ _ := rfl
  metadata := rfl

/-- The attempt is committed, deleted, and committed again. -/
def recommits : List AttemptCall :=
  [.commit assigned ⟨none, none⟩, .delete assigned.request.taskId assigned.request.attemptId,
    .commit assigned ⟨none, none⟩, .recover 1]

theorem wellFormed_recommits : ∀ call ∈ recommits,
    call.WellFormed workerStore.requestFingerprint workerStore.workerId := by
  intro call hcall
  have hcondition : RemoteAttemptCommitCondition.WellFormed ⟨none, none⟩ := by
    constructor
    · intro text h
      cases h
    · intro text h
      cases h
  simp only [recommits, mem_cons, not_mem_nil, or_false] at hcall
  rcases hcall with rfl | rfl | rfl | rfl
  · exact ⟨wellFormed_assigned, hcondition⟩
  · trivial
  · exact ⟨wellFormed_assigned, hcondition⟩
  · trivial

/-- Both stores keep the law there. -/
theorem attempt_stores_agree_recommits :
    AttemptLaw (memoryAttemptStore workerStore.workerId) .new recommits ∧
      AttemptLaw (durableAttemptStore workerStore) openState recommits :=
  (attempt_stores_agree workerStore openState fresh_openState recommits wellFormed_recommits).2

theorem AttemptTable.commit_first {table : AttemptTable} {record : RemoteAttemptRecord}
    (h : table.get record.attempt = none) :
    table.commit record ⟨none, none⟩ = .ok (some { record with revision := decimal 1 }) := by
  have hincrement : incrementRevision (js "0") = .ok (decimal 1) := by
    rw [incrementRevision_of isRevision_zero]
    rfl
  rw [AttemptTable.commit, h, if_neg (by simp [otherEpoch])]
  rfl

theorem Simulates.commits_twice {store : AttemptStore} {Looks : store.State → AttemptTable → Prop}
    {state : store.State}
    (h : Simulates workerStore.requestFingerprint workerStore.workerId store Looks)
    (hlooks : Looks state .empty) {i : Nat} (hi : i = 0 ∨ i = 2) :
    (store.run state recommits).1[i]? =
      some (.committed (some { assigned with revision := decimal 1 })) := by
  have hcall : recommits[i]? = some (.commit assigned ⟨none, none⟩) := by
    rcases hi with rfl | rfl <;> rfl
  obtain ⟨outcome, houtcome, hshows⟩ :=
    h.shows_run hlooks AttemptTable.ok_empty wellFormed_recommits hcall
  have hget : (AttemptTable.empty.after (recommits.take i)).get assigned.attempt = none := by
    rcases hi with rfl | rfl
    · rfl
    · exact (AttemptTable.get_delete _ _ _).trans (if_pos rfl)
  have houtcome' : outcome =
      ((AttemptTable.empty.after (recommits.take i)).apply (.commit assigned ⟨none, none⟩)).1 :=
    hshows
  rw [houtcome, houtcome']
  simp only [AttemptTable.apply, AttemptTable.commit_first hget]

/-- Two commits succeed that expect none, as the attempt has been deleted in between. One that
expects an epoch which is none is refused by the durable store only. -/
theorem attempt_committed_again :
    (∀ i, i = 0 ∨ i = 2 →
      recommits[i]? = some (.commit assigned ⟨none, none⟩) ∧
      ((memoryAttemptStore workerStore.workerId).run .new recommits).1[i]? =
        some (.committed (some { assigned with revision := decimal 1 })) ∧
      ((durableAttemptStore workerStore).run openState recommits).1[i]? =
        some (.committed (some { assigned with revision := decimal 1 }))) ∧
    ((memoryAttemptStore workerStore.workerId).apply .new
        (.commit assigned ⟨none, some (js "x")⟩)).1 =
      .committed (some { assigned with revision := decimal 1 }) ∧
    ((durableAttemptStore workerStore).apply openState
        (.commit assigned ⟨none, some (js "x")⟩)).1 =
      .failed (.thrown (.revision
        "Remote attempt revision is not a valid unsigned 64-bit decimal string")) := by
  have hincrement : incrementRevision (js "0") = .ok (decimal 1) := by
    rw [incrementRevision_of isRevision_zero]
    rfl
  refine ⟨fun i hi => ⟨?_, ?_, ?_⟩, ?_, ?_⟩
  · rcases hi with rfl | rfl <;> rfl
  · exact (memory_simulates workerStore.requestFingerprint workerStore.workerId).commits_twice
      memoryLooks_new hi
  · exact (durable_simulates workerStore).commits_twice fresh_openState.looks hi
  · obtain ⟨next, hstored, -⟩ := @storeSnapshot_of _ _ .new _
      (wellFormed_assigned.withRevision (isRevision_decimal (by decide : 1 ≤ maximumUnsigned64)))
      assigned.request.key
    have hrefuses : MemoryRemoteAttemptStore.refuses none ⟨none, some (js "x")⟩ = .ok false := rfl
    have hnone : MemoryRemoteAttemptStore.new.records.get assigned.request.key = none := rfl
    have hcommit : MemoryRemoteAttemptStore.new.commit assigned ⟨none, some (js "x")⟩ =
        (.ok (some { assigned with revision := decimal 1 }), next) := by
      simp only [MemoryRemoteAttemptStore.commit, hnone, hrefuses,
        parseAttemptRevision_of wellFormed_assigned.revision, map_none, getD_none,
        hincrement]
      simp only [bind, Except.bind, pure, Except.pure, Bool.false_eq_true, if_false, hstored]
    simp only [memoryAttemptStore, hcommit]
  · have hcommit : workerStore.commit openState assigned ⟨none, some (js "x")⟩ =
        (.error (.thrown (.revision
          "Remote attempt revision is not a valid unsigned 64-bit decimal string")), openState) := by
      simp only [StateRemoteAttemptStore.commit,
        StateRemoteAttemptStore.assertWorker_of wellFormed_assigned.workerId_eq,
        StateRemoteAttemptStore.parse_of wellFormed_assigned rfl]
      rfl
    simp only [durableAttemptStore, hcommit]

end AttemptStores

end TegoNext
