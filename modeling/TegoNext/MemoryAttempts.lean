/-
The attempt store in memory looks like the table.

`Simulates` is what is asked of a store: in every state that looks like a table, a call about
well-formed records has the outcome that it has on the table, and the states stay alike. The
lists that `recover` answers with have their own order, and are complete if the limit allows.
-/
import TegoNext.AttemptTable

set_option autoImplicit false

namespace TegoNext

open Text List Option

namespace AttemptStores

/-! ## Looking like the table -/

/-- The outcome of a call on a store that looks like the table. -/
def Shows (table : AttemptTable) (call : AttemptCall) (outcome : AttemptOutcome) : Prop :=
  match call with
  | .recover limit =>
    match assertRecoveryLimit limit with
    | .error e => outcome = .failed (.thrown e)
    | .ok limit => ∃ highestEpoch records, outcome = .recovered highestEpoch records ∧
        number highestEpoch = table.highestEpoch ∧
        (table.active.length ≤ limit → records.Perm table.active)
  | call => outcome = (table.apply call).1

/-- In states that look like tables, the store does what the table does. -/
structure Simulates (requestFingerprint : RemoteRequest → JsString) (workerId : PortableId)
    (store : AttemptStore) (Looks : store.State → AttemptTable → Prop) : Prop where
  step : ∀ state table call, Looks state table → table.Ok requestFingerprint workerId →
    call.WellFormed requestFingerprint workerId →
    Shows table call (store.apply state call).1 ∧
      Looks (store.apply state call).2 (table.apply call).2

section Runs

variable {requestFingerprint : RemoteRequest → JsString} {workerId : PortableId}
  {store : AttemptStore} {Looks : store.State → AttemptTable → Prop}
  {state : store.State} {table : AttemptTable} {calls : List AttemptCall}

theorem Simulates.looks_run (h : Simulates requestFingerprint workerId store Looks)
    (hlooks : Looks state table) (hok : table.Ok requestFingerprint workerId)
    (hcalls : ∀ call ∈ calls, call.WellFormed requestFingerprint workerId) :
    Looks (store.run state calls).2 (table.after calls) := by
  induction calls generalizing state table with
  | nil => exact hlooks
  | cons call calls ih =>
    have hcall := hcalls call mem_cons_self
    exact ih (h.step state table call hlooks hok hcall).2 (hok.apply hcall) fun other hother =>
      hcalls other (mem_cons_of_mem _ hother)

theorem Simulates.shows_run (h : Simulates requestFingerprint workerId store Looks)
    (hlooks : Looks state table) (hok : table.Ok requestFingerprint workerId)
    (hcalls : ∀ call ∈ calls, call.WellFormed requestFingerprint workerId) {i : Nat}
    {call : AttemptCall} (hcall : calls[i]? = some call) :
    ∃ outcome, (store.run state calls).1[i]? = some outcome ∧
      Shows (table.after (calls.take i)) call outcome := by
  induction calls generalizing state table i with
  | nil => cases hcall
  | cons first calls ih =>
    have hfirst := hcalls first mem_cons_self
    obtain ⟨hshows, hnext⟩ := h.step state table first hlooks hok hfirst
    cases i with
    | zero =>
      obtain rfl := some.inj hcall
      exact ⟨_, rfl, hshows⟩
    | succ i =>
      exact ih hnext (hok.apply hfirst)
        (fun other hother => hcalls other (mem_cons_of_mem _ hother)) hcall

end Runs

/-! ## The store in memory -/

/-- `MemoryRemoteAttemptStore`, for the calls of a worker. -/
def memoryAttemptStore (workerId : PortableId) : AttemptStore where
  State := MemoryRemoteAttemptStore
  apply memory
    | .save record =>
      match memory.save record with
      | (.ok _, memory) => (.done, memory)
      | (.error e, memory) => (.failed (.thrown e), memory)
    | .commit record condition =>
      match memory.commit record condition with
      | (.ok stored, memory) => (.committed stored, memory)
      | (.error e, memory) => (.failed (.thrown e), memory)
    | .delete taskId attemptId => (.done, memory.delete taskId attemptId)
    | .load taskId attemptId => (.loaded (memory.load taskId attemptId), memory)
    | .recover limit =>
      match memory.recover workerId limit with
      | .ok recovered => (.recovered recovered.1 recovered.2, memory)
      | .error e => (.failed (.thrown e), memory)

/-- The maps are those of the table. -/
structure MemoryLooks (workerId : PortableId) (memory : MemoryRemoteAttemptStore)
    (table : AttemptTable) : Prop where
  records : ∀ taskId attemptId,
    memory.records.get (attemptKey taskId attemptId) = table.get (taskId, attemptId)
  active : ∀ key record, memory.activeRecords.get key = some record ↔
    key = record.request.key ∧ table.get record.attempt = some record ∧ record.state ≠ .expired
  highest : (memory.highestEpochs.get workerId).getD 0 = table.highestEpoch

section Memory

variable {requestFingerprint : RemoteRequest → JsString} {workerId : PortableId}
  {memory : MemoryRemoteAttemptStore} {table : AttemptTable}

theorem memoryLooks_new : MemoryLooks workerId .new .empty where
  records taskId attemptId := by
    rw [AttemptTable.get_empty]
    rfl
  active key record := by
    rw [AttemptTable.get_empty]
    constructor
    · intro h
      cases h
    · intro h
      cases h.2.1
  highest := rfl

theorem key_eq_iff {record : RemoteAttemptRecord} {taskId attemptId : PortableId} :
    attemptKey taskId attemptId = record.request.key ↔ (taskId, attemptId) = record.attempt := by
  constructor
  · intro h
    obtain ⟨htask, hattempt⟩ := attemptKey_injective h
    rw [htask, hattempt]
    rfl
  · intro h
    obtain ⟨htask, hattempt⟩ := Prod.mk.inj h
    rw [htask, hattempt]
    rfl

theorem storeSnapshot_of {snapshot : RemoteAttemptRecord}
    (hsnapshot : WellFormed requestFingerprint workerId snapshot) (key : JsString) :
    ∃ next, memory.storeSnapshot key snapshot = (.ok (), next) ∧
      next.records = memory.records.set key snapshot ∧
      next.activeRecords = (if snapshot.state = .expired then memory.activeRecords.delete key
        else memory.activeRecords.set key snapshot) ∧
      (next.highestEpochs.get workerId).getD 0 =
        max ((memory.highestEpochs.get workerId).getD 0) (number snapshot.epoch) := by
  simp only [MemoryRemoteAttemptStore.storeSnapshot, parseAttemptRevision_of hsnapshot.epoch,
    hsnapshot.workerId_eq]
  by_cases hhigher : (memory.highestEpochs.get workerId).getD 0 < number snapshot.epoch
  · rw [if_pos hhigher]
    refine ⟨_, rfl, rfl, rfl, ?_⟩
    rw [JsMap.get_set, if_pos rfl, getD_some]
    omega
  · rw [if_neg hhigher]
    refine ⟨_, rfl, rfl, rfl, ?_⟩
    show (memory.highestEpochs.get workerId).getD 0 = _
    omega

theorem MemoryLooks.storeSnapshot (h : MemoryLooks workerId memory table)
    {snapshot : RemoteAttemptRecord} (hsnapshot : WellFormed requestFingerprint workerId snapshot) :
    ∃ next, memory.storeSnapshot snapshot.request.key snapshot = (.ok (), next) ∧
      MemoryLooks workerId next (table.store snapshot) := by
  obtain ⟨next, hnext, hrecords, hactive, hhighest⟩ :=
    @storeSnapshot_of _ _ memory _ hsnapshot snapshot.request.key
  refine ⟨next, hnext, ?_, ?_, ?_⟩
  · intro taskId attemptId
    rw [hrecords, JsMap.get_set, AttemptTable.get_store, h.records]
    by_cases hkey : attemptKey taskId attemptId = snapshot.request.key
    · rw [if_pos hkey, if_pos (key_eq_iff.mp hkey)]
    · rw [if_neg hkey, if_neg (fun heq => hkey (key_eq_iff.mpr heq))]
  · intro key record
    have hsame : record.request.key = snapshot.request.key ↔ record.attempt = snapshot.attempt :=
      key_eq_iff
    have hset : next.activeRecords.get key = if key = snapshot.request.key then
        (if snapshot.state = .expired then none else some snapshot)
        else memory.activeRecords.get key := by
      rw [hactive]
      by_cases hexpired : snapshot.state = .expired
      · rw [if_pos hexpired, if_pos hexpired, JsMap.get_delete]
      · rw [if_neg hexpired, if_neg hexpired, JsMap.get_set]
    rw [hset, AttemptTable.get_store]
    by_cases hattempt : record.attempt = snapshot.attempt
    · rw [if_pos hattempt, hsame.mpr hattempt]
      by_cases hkey : key = snapshot.request.key
      · rw [if_pos hkey]
        by_cases hexpired : snapshot.state = .expired
        · rw [if_pos hexpired]
          constructor
          · intro hnone
            cases hnone
          · rintro ⟨-, hsome, hstate⟩
            rw [← some.inj hsome] at hstate
            exact absurd hexpired hstate
        · rw [if_neg hexpired]
          constructor
          · intro hsome
            refine ⟨hkey, hsome, ?_⟩
            rwa [← some.inj hsome]
          · exact fun hsome => hsome.2.1
      · rw [if_neg hkey, h.active]
        constructor
        · rintro ⟨heq, -⟩
          exact absurd (heq.trans (hsame.mpr hattempt)) hkey
        · rintro ⟨heq, -⟩
          exact absurd heq hkey
    · rw [if_neg hattempt]
      by_cases hkey : key = snapshot.request.key
      · rw [if_pos hkey]
        have hne : key ≠ record.request.key := fun heq =>
          hattempt (hsame.mp (heq.symm.trans hkey))
        constructor
        · intro hsome
          by_cases hexpired : snapshot.state = .expired
          · rw [if_pos hexpired] at hsome
            cases hsome
          rw [if_neg hexpired] at hsome
          rw [← some.inj hsome] at hattempt
          exact absurd rfl hattempt
        · rintro ⟨heq, -⟩
          exact absurd heq hne
      · rw [if_neg hkey]
        exact h.active key record
  · rw [hhighest, h.highest]
    rfl

theorem MemoryLooks.save (h : MemoryLooks workerId memory table) {record : RemoteAttemptRecord}
    (hrecord : WellFormed requestFingerprint workerId record) :
    ∃ next, memory.save record = (.ok (), next) ∧
      MemoryLooks workerId next (table.store record) := by
  rw [MemoryRemoteAttemptStore.save, parseAttemptRevision_of hrecord.revision]
  exact h.storeSnapshot hrecord

theorem MemoryLooks.delete (h : MemoryLooks workerId memory table) (taskId attemptId : PortableId) :
    MemoryLooks workerId (memory.delete taskId attemptId) (table.delete (taskId, attemptId)) where
  records other otherAttempt := by
    show (memory.records.delete _).get _ = _
    rw [JsMap.get_delete, AttemptTable.get_delete, h.records]
    by_cases heq : (other, otherAttempt) = (taskId, attemptId)
    · obtain ⟨rfl, rfl⟩ := Prod.mk.inj heq
      rw [if_pos rfl, if_pos rfl]
    rw [if_neg heq, if_neg]
    intro hkey
    obtain ⟨rfl, rfl⟩ := attemptKey_injective hkey
    exact heq rfl
  active key record := by
    have hsame : attemptKey taskId attemptId = record.request.key ↔
        (taskId, attemptId) = record.attempt := key_eq_iff
    show (memory.activeRecords.delete _).get key = some record ↔ _
    rw [JsMap.get_delete, AttemptTable.get_delete]
    by_cases hkey : key = attemptKey taskId attemptId
    · rw [if_pos hkey]
      constructor
      · intro hnone
        cases hnone
      · rintro ⟨heq, hsome, -⟩
        rw [if_pos (hsame.mp (hkey.symm.trans heq)).symm] at hsome
        cases hsome
    · rw [if_neg hkey, h.active]
      refine and_congr_right fun heq => ?_
      have hne : record.attempt ≠ (taskId, attemptId) := fun hattempt =>
        hkey (heq.trans (hsame.mpr hattempt.symm).symm)
      rw [if_neg hne]
  highest := h.highest

theorem MemoryLooks.perm_active (h : MemoryLooks workerId memory table)
    (hok : table.Ok requestFingerprint workerId) :
    ((memory.activeRecords.entries.map (·.2)).filter (·.workerId = workerId)).Perm
      table.active := by
  have hentry : ∀ entry ∈ memory.activeRecords.entries, entry.1 = entry.2.request.key ∧
      table.get entry.2.attempt = some entry.2 ∧ entry.2.state ≠ .expired := fun entry hmem =>
    (h.active entry.1 entry.2).mp (JsMap.get_eq_some_iff.mpr hmem)
  have hall : (memory.activeRecords.entries.map (·.2)).filter (·.workerId = workerId) =
      memory.activeRecords.entries.map (·.2) := by
    rw [filter_eq_self]
    intro record hrecord
    obtain ⟨entry, hmem, rfl⟩ := List.mem_map.mp hrecord
    rw [decide_eq_true_eq]
    exact (hok.wellFormed _ _ (hentry entry hmem).2.1).workerId_eq
  have hnodup : (memory.activeRecords.entries.map (·.2)).Nodup := by
    refine List.Nodup.of_map (fun record : RemoteAttemptRecord => record.request.key) ?_
    rw [List.map_map]
    have hkeys : memory.activeRecords.entries.map
        ((fun record : RemoteAttemptRecord => record.request.key) ∘ (·.2)) =
        memory.activeRecords.entries.map Prod.fst :=
      map_congr_left fun entry hmem => (hentry entry hmem).1.symm
    rw [hkeys]
    exact memory.activeRecords.nodup
  rw [hall, perm_ext_iff_of_nodup hnodup (hok.nodup_active.of_map _)]
  intro record
  rw [hok.mem_active, List.mem_map]
  constructor
  · rintro ⟨entry, hmem, rfl⟩
    exact (hentry entry hmem).2
  · rintro ⟨hget, hstate⟩
    have hactive := (h.active record.request.key record).mpr ⟨rfl, hget, hstate⟩
    exact ⟨_, JsMap.get_eq_some_iff.mp hactive, rfl⟩

theorem otherEpoch_none (condition : RemoteAttemptCommitCondition) :
    otherEpoch none condition = false := by
  rw [otherEpoch]
  cases condition.expectedEpoch <;> rfl

theorem refuses_of {current : Option RemoteAttemptRecord} {condition : RemoteAttemptCommitCondition}
    (hcurrent : ∀ record, current = some record → IsRevision record.revision)
    (hcondition : condition.WellFormed) :
    MemoryRemoteAttemptStore.refuses current condition =
      .ok (decide (current.map (·.revision) ≠ condition.expectedRevision ∨
        otherEpoch current condition = true)) := by
  unfold MemoryRemoteAttemptStore.refuses
  cases current with
  | none =>
    rw [otherEpoch_none]
    cases hexpected : condition.expectedRevision <;> simp
  | some record =>
    cases hexpected : condition.expectedRevision with
    | none => simp
    | some text =>
      simp only [parseAttemptRevision_of (hcurrent record rfl),
        parseAttemptRevision_of (hcondition.expectedRevision text hexpected)]
      by_cases heq : record.revision = text
      · simp [bind, Except.bind, heq]
      · simp [bind, Except.bind, heq]

theorem MemoryLooks.commit (h : MemoryLooks workerId memory table)
    (hok : table.Ok requestFingerprint workerId) {record : RemoteAttemptRecord}
    {condition : RemoteAttemptCommitCondition}
    (hrecord : WellFormed requestFingerprint workerId record) (hcondition : condition.WellFormed) :
    match table.commit record condition with
    | .error e => memory.commit record condition = (.error e, memory)
    | .ok none => memory.commit record condition = (.ok none, memory)
    | .ok (some stored) => ∃ next, memory.commit record condition = (.ok (some stored), next) ∧
        MemoryLooks workerId next (table.store stored) := by
  have hcurrent : memory.records.get record.request.key = table.get record.attempt := h.records _ _
  have hrefuses := @refuses_of (table.get record.attempt) condition
    (fun current hget => (hok.wellFormed _ current hget).revision) hcondition
  have hprepared : (do
      let _ ← parseAttemptRevision record.revision
      if ← MemoryRemoteAttemptStore.refuses (table.get record.attempt) condition then pure none
      else do
        let revision ←
          incrementRevision (((table.get record.attempt).map (·.revision)).getD (js "0"))
        pure (some { record with revision := revision })) = table.commit record condition := by
    rw [parseAttemptRevision_of hrecord.revision, hrefuses, AttemptTable.commit]
    by_cases hrefused : (table.get record.attempt).map (·.revision) ≠ condition.expectedRevision ∨
        otherEpoch (table.get record.attempt) condition = true
    · rw [if_pos hrefused, decide_eq_true hrefused]
      rfl
    · rw [if_neg hrefused, decide_eq_false hrefused]
      rfl
  unfold MemoryRemoteAttemptStore.commit
  simp only [hcurrent, hprepared]
  cases hcommit : table.commit record condition with
  | error e => rfl
  | ok stored =>
    cases stored with
    | none => rfl
    | some stored =>
      obtain ⟨-, hstored, heq, -⟩ := hok.commit_some hrecord hcommit
      obtain ⟨next, hnext, hlooks⟩ := h.storeSnapshot hstored
      have hkey : stored.request.key = record.request.key := by rw [heq]
      rw [hkey] at hnext
      refine ⟨next, ?_, hlooks⟩
      simp only [hnext]

/-- **The store in memory does what the table does.** -/
theorem memory_simulates (requestFingerprint : RemoteRequest → JsString) (workerId : PortableId) :
    Simulates requestFingerprint workerId (memoryAttemptStore workerId) (MemoryLooks workerId) where
  step memory table call h hok hcall := by
    cases call with
    | save record =>
      obtain ⟨next, hsave, hlooks⟩ := h.save hcall
      simp only [memoryAttemptStore, hsave]
      exact ⟨rfl, hlooks⟩
    | commit record condition =>
      have hcommit := h.commit hok hcall.1 hcall.2
      simp only [memoryAttemptStore, AttemptTable.apply, Shows]
      cases htable : table.commit record condition with
      | error e =>
        rw [htable] at hcommit
        rw [hcommit]
        exact ⟨rfl, h⟩
      | ok stored =>
        rw [htable] at hcommit
        cases stored with
        | none =>
          rw [hcommit]
          exact ⟨rfl, h⟩
        | some stored =>
          obtain ⟨next, hnext, hlooks⟩ := hcommit
          rw [hnext]
          exact ⟨rfl, hlooks⟩
    | delete taskId attemptId => exact ⟨rfl, h.delete taskId attemptId⟩
    | load taskId attemptId =>
      exact ⟨congrArg AttemptOutcome.loaded (h.records taskId attemptId), h⟩
    | recover limit =>
      simp only [memoryAttemptStore, Shows, AttemptTable.apply, MemoryRemoteAttemptStore.recover]
      cases assertRecoveryLimit limit with
      | error e => exact ⟨rfl, h⟩
      | ok limit =>
        refine ⟨⟨_, _, rfl, ?_, fun hlimit => ?_⟩, h⟩
        · rw [number_decimal, h.highest]
        · have hperm := h.perm_active hok
          rw [take_of_length_le (by rwa [hperm.length_eq])]
          exact hperm

end Memory

end AttemptStores

end TegoNext
