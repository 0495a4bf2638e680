/-
The attempt store over a state store looks like the table.

Each call but a load is one transaction, which reads every key before it writes it; it is
prepared, and commits. The collection of the active attempts is read back page by page.
-/
import TegoNext.MemoryAttempts

set_option autoImplicit false

namespace TegoNext

open Text List Function

/-! ## Keys -/

theorem isPortableStateString_of_forall {s : JsString}
    (h : ∀ u ∈ s, u ≠ 0 ∧ ¬(0xd800 ≤ u ∧ u ≤ 0xdbff) ∧ ¬(0xdc00 ≤ u ∧ u ≤ 0xdfff)) :
    isPortableStateString s = true := by
  induction s with
  | nil => rfl
  | cons u rest ih =>
    obtain ⟨hzero, hlead, htrail⟩ := h u mem_cons_self
    unfold isPortableStateString
    rw [if_neg hzero, if_neg hlead, if_neg htrail]
    exact ih fun v hv => h v (mem_cons_of_mem _ hv)

theorem isPortableStateString_of_nameText {s : JsString}
    (h : ∀ u ∈ s, isNameUnit u = true ∨ u = 58) : isPortableStateString s = true := by
  apply isPortableStateString_of_forall
  intro u hu
  rcases h u hu with hunit | rfl
  · obtain ⟨hlead, htrail, -⟩ := CanonicalJson.nameUnit_bounds hunit
    refine ⟨?_, hlead, htrail⟩
    rintro rfl
    exact absurd hunit (by decide)
  · decide

namespace AttemptStores

theorem attemptStateId_units (workerId taskId attemptId : PortableId) :
    ∀ u ∈ attemptStateId workerId taskId attemptId, isNameUnit u = true ∨ u = 58 := by
  intro u hu
  simp only [attemptStateId, attemptKey, mem_append, mem_cons] at hu
  rcases hu with hu | rfl | hu | rfl | hu | hu
  · exact .inl (NameText.of_portable workerId u hu)
  · exact .inr rfl
  · exact .inl (isNameUnit_decimal hu)
  · exact .inr rfl
  · exact .inl (NameText.of_portable taskId u hu)
  · exact .inl (NameText.of_portable attemptId u hu)

theorem startsWith_attemptStateId (workerId taskId attemptId : PortableId) :
    startsWith (attemptStateId workerId taskId attemptId) (workerId.text ++ [58]) = true := by
  refine isPrefixOf_iff_prefix.mpr ⟨attemptKey taskId attemptId, ?_⟩
  rw [append_assoc]
  rfl

namespace StateRemoteAttemptStore

variable {store : StateRemoteAttemptStore}

theorem assertStateKey_of {collection id : JsString} (hcollection : NameText collection)
    (hid : ∀ u ∈ id, isNameUnit u = true ∨ u = 58) (write : Bool) :
    assertStateKey ⟨js "tego", collection, id⟩ write = .ok () := by
  have hnspace : NameText (js "tego") := by decide
  have hnspace' := isPortableStateString_of_nameText fun u hu => .inl (hnspace u hu)
  have hcollection' := isPortableStateString_of_nameText fun u hu => .inl (hcollection u hu)
  refine if_pos ?_
  rw [hnspace', hcollection', isPortableStateString_of_nameText hid]
  rfl

theorem assertStateKey_key (taskId attemptId : PortableId) (write : Bool) :
    assertStateKey (store.key taskId attemptId) write = .ok () :=
  assertStateKey_of (by decide) (attemptStateId_units _ _ _) write

theorem assertStateKey_activeKey (taskId attemptId : PortableId) (write : Bool) :
    assertStateKey (store.activeKey taskId attemptId) write = .ok () :=
  assertStateKey_of (by decide) (attemptStateId_units _ _ _) write

theorem assertStateKey_metadataKey (write : Bool) :
    assertStateKey store.metadataKey write = .ok () :=
  assertStateKey_of (by decide) (fun u hu => .inl (NameText.of_portable store.workerId u hu)) write

variable {taskId taskId' attemptId attemptId' : PortableId}

theorem attemptStateId_injective {workerId : PortableId}
    (h : attemptStateId workerId taskId attemptId = attemptStateId workerId taskId' attemptId') :
    (taskId, attemptId) = (taskId', attemptId') := by
  obtain ⟨htask, hattempt⟩ := attemptKey_injective (List.cons.inj (append_cancel_left h)).2
  rw [htask, hattempt]

theorem key_inj :
    store.key taskId attemptId = store.key taskId' attemptId' ↔
      (taskId, attemptId) = (taskId', attemptId') := by
  constructor
  · intro h
    exact attemptStateId_injective (congrArg StateKey.id h)
  · intro h
    obtain ⟨rfl, rfl⟩ := Prod.mk.inj h
    rfl

theorem activeKey_inj :
    store.activeKey taskId attemptId = store.activeKey taskId' attemptId' ↔
      (taskId, attemptId) = (taskId', attemptId') := by
  constructor
  · intro h
    exact attemptStateId_injective (congrArg StateKey.id h)
  · intro h
    obtain ⟨rfl, rfl⟩ := Prod.mk.inj h
    rfl

theorem key_ne_activeKey (taskId taskId' attemptId attemptId' : PortableId) :
    store.key taskId attemptId ≠ store.activeKey taskId' attemptId' := fun h =>
  absurd (congrArg StateKey.collection h) (show js "worker-attempts" ≠ js "worker-active-attempts" by decide)

theorem key_ne_metadataKey (taskId attemptId : PortableId) :
    store.key taskId attemptId ≠ store.metadataKey := fun h =>
  absurd (congrArg StateKey.collection h) (show js "worker-attempts" ≠ js "worker-attempt-metadata" by decide)

theorem activeKey_ne_metadataKey (taskId attemptId : PortableId) :
    store.activeKey taskId attemptId ≠ store.metadataKey := fun h =>
  absurd (congrArg StateKey.collection h)
    (show js "worker-active-attempts" ≠ js "worker-attempt-metadata" by decide)

/-! ## The collections -/

/-- The collections are those of the table. -/
structure Looks (store : StateRemoteAttemptStore) (records : Records PersistedValue)
    (table : AttemptTable) : Prop where
  attempts : ∀ taskId attemptId, valueAt records (store.key taskId attemptId) =
    (table.get (taskId, attemptId)).map .attempt
  active : ∀ taskId attemptId, valueAt records (store.activeKey taskId attemptId) =
    ((table.get (taskId, attemptId)).filter (·.state ≠ .expired)).map .attempt
  foreign : ∀ key, key.nspace = js "tego" → key.collection = js WORKER_ACTIVE_ATTEMPT_COLLECTION →
    startsWith key.id (store.workerId.text ++ [58]) = true →
    (∀ taskId attemptId, key ≠ store.activeKey taskId attemptId) → valueAt records key = none
  metadata : ∃ highestEpoch, store.highestEpochOf (records.lookup store.metadataKey) =
    .ok highestEpoch ∧ number highestEpoch = table.highestEpoch

variable {records next : Records PersistedValue} {table : AttemptTable}

theorem parse_of {record : RemoteAttemptRecord}
    (hrecord : WellFormed store.requestFingerprint store.workerId record)
    (hattempt : (taskId, attemptId) = record.attempt) :
    store.parse (.attempt record) taskId attemptId = .ok record := by
  obtain ⟨rfl, rfl⟩ := Prod.mk.inj hattempt
  refine checkPersistedAttempt_of hrecord ?_ ?_ rfl
  · intro taskId h
    exact Option.some.inj h
  · intro attemptId h
    exact Option.some.inj h

structure Stores (store : StateRemoteAttemptStore) (before after : StateKey → Option PersistedValue)
    (highestEpoch : Nat) (record : RemoteAttemptRecord) : Prop where
  attempt : after (store.key record.request.taskId record.request.attemptId) =
    some (.attempt record)
  active : after (store.activeKey record.request.taskId record.request.attemptId) =
    if record.state = .expired then none else some (.attempt record)
  metadata : after store.metadataKey = if highestEpoch < number record.epoch then
    some (.metadata ⟨record.epoch, store.workerId⟩) else before store.metadataKey
  other : ∀ key, key ≠ store.key record.request.taskId record.request.attemptId →
    key ≠ store.activeKey record.request.taskId record.request.attemptId →
    key ≠ store.metadataKey → after key = before key

theorem highestEpochOf_congr (h : valueAt records store.metadataKey = valueAt next store.metadataKey) :
    store.highestEpochOf (records.lookup store.metadataKey) =
      store.highestEpochOf (next.lookup store.metadataKey) := by
  unfold valueAt at h
  cases hrecords : records.lookup store.metadataKey with
  | none =>
    cases hnext : next.lookup store.metadataKey with
    | none => rfl
    | some record =>
      rw [hrecords, hnext] at h
      cases h
  | some record =>
    cases hnext : next.lookup store.metadataKey with
    | none =>
      rw [hrecords, hnext] at h
      cases h
    | some record' =>
      rw [hrecords, hnext] at h
      have hvalue : record.value = record'.value := Option.some.inj h
      simp only [highestEpochOf, hvalue]

theorem Looks.stored (h : Looks store records table) {record : RemoteAttemptRecord}
    (hrecord : WellFormed store.requestFingerprint store.workerId record)
    (hstores : Stores store (valueAt records) (valueAt next) table.highestEpoch record) :
    Looks store next (table.store record) where
  attempts taskId attemptId := by
    rw [AttemptTable.get_store]
    by_cases heq : (taskId, attemptId) = record.attempt
    · rw [if_pos heq, key_inj.mpr heq, hstores.attempt]
      rfl
    · rw [if_neg heq, hstores.other _ (fun hkey => heq (key_inj.mp hkey)) (key_ne_activeKey _ _ _ _)
        (key_ne_metadataKey _ _), h.attempts]
  active taskId attemptId := by
    rw [AttemptTable.get_store]
    by_cases heq : (taskId, attemptId) = record.attempt
    · rw [if_pos heq, activeKey_inj.mpr heq, hstores.active]
      by_cases hexpired : record.state = .expired
      · rw [if_pos hexpired, Option.filter_some_neg (by simp [hexpired])]
        rfl
      · rw [if_neg hexpired, Option.filter_some_pos (by simp [hexpired])]
        rfl
    · rw [if_neg heq, hstores.other _ (key_ne_activeKey _ _ _ _).symm
        (fun hkey => heq (activeKey_inj.mp hkey)) (activeKey_ne_metadataKey _ _), h.active]
  foreign key hnspace hcollection hstarts hkey := by
    have hkeyNe : key ≠ store.key record.request.taskId record.request.attemptId := by
      rintro rfl
      revert hcollection
      show js "worker-attempts" = js "worker-active-attempts" → _
      exact fun heq => absurd heq (by decide)
    have hmetadataNe : key ≠ store.metadataKey := by
      rintro rfl
      revert hcollection
      show js "worker-attempt-metadata" = js "worker-active-attempts" → _
      exact fun heq => absurd heq (by decide)
    rw [hstores.other key hkeyNe (hkey _ _) hmetadataNe]
    exact h.foreign key hnspace hcollection hstarts hkey
  metadata := by
    obtain ⟨highestEpoch, hold, hnumber⟩ := h.metadata
    by_cases hhigher : table.highestEpoch < number record.epoch
    · have hvalue := hstores.metadata
      rw [if_pos hhigher, valueAt] at hvalue
      obtain ⟨found, hfound, hmetadata⟩ := Option.map_eq_some_iff.mp hvalue
      refine ⟨record.epoch, ?_, ?_⟩
      · rw [hfound, highestEpochOf, hmetadata]
        simp only [parseAttemptMetadata, refuseIf, parseAttemptRevision_of hrecord.epoch]
        simp [bind, Except.bind, pure, Except.pure]
      · show number record.epoch = max table.highestEpoch (number record.epoch)
        omega
    · have hvalue := hstores.metadata
      rw [if_neg hhigher] at hvalue
      refine ⟨highestEpoch, ?_, ?_⟩
      · rw [highestEpochOf_congr hvalue, hold]
      · show _ = max table.highestEpoch (number record.epoch)
        omega

/-! ## The bodies of the transactions -/

section Code

variable {written : List StateKey} {values : StateKey → Option PersistedValue}
  {tx : MemoryTransaction PersistedValue} {key : StateKey}

theorem deleteFound_of (h : Prepared records written values tx) (hkey : key ∉ written)
    (hportable : assertStateKey key true = .ok ()) :
    ∃ tx', deleteFound key (records.lookup key) tx = .ok ((), tx') ∧
      Prepared records (key :: written) (Function.update values key none) tx' := by
  cases hlookup : records.lookup key with
  | none =>
    have hvalue : values key = none := by rw [h.values_eq hkey, valueAt, hlookup]; rfl
    refine ⟨tx, rfl, ?_⟩
    rw [update_eq_self_iff.mpr hvalue.symm]
    exact h.weaken (subset_cons_self _ _)
  | some record => exact h.delete hportable hlookup

theorem deleteKey_of (h : Prepared records written values tx) (hkey : key ∉ written)
    (hportable : ∀ write, assertStateKey key write = .ok ()) :
    ∃ tx', deleteKey key tx = .ok ((), tx') ∧
      Prepared records (key :: written) (Function.update values key none) tx' := by
  obtain ⟨tx', hdelete, hprepared⟩ := deleteFound_of h hkey (hportable true)
  refine ⟨tx', ?_, hprepared⟩
  rw [deleteKey, TransactionCode.bind_apply (h.get hkey (hportable false)), hdelete]

theorem writeActive_of (h : Prepared records written values tx) {snapshot : RemoteAttemptRecord}
    (hkey : store.activeKey snapshot.request.taskId snapshot.request.attemptId ∉ written) :
    ∃ tx', store.writeActive snapshot tx = .ok ((), tx') ∧
      Prepared records
        (store.activeKey snapshot.request.taskId snapshot.request.attemptId :: written)
        (Function.update values
          (store.activeKey snapshot.request.taskId snapshot.request.attemptId)
          (if snapshot.state = .expired then none else some (.attempt snapshot))) tx' := by
  have hget := @Prepared.get _ AttemptStoreError _ _ _ _ _ h hkey
    (assertStateKey_activeKey _ _ false)
  rw [writeActive, TransactionCode.bind_apply hget]
  by_cases hexpired : snapshot.state = .expired
  · simp only [if_pos hexpired]
    exact deleteFound_of h hkey (assertStateKey_activeKey _ _ true)
  · simp only [if_neg hexpired]
    exact h.put (assertStateKey_activeKey _ _ true) _

theorem writeMetadata_of (h : Prepared records written values tx) {snapshot : RemoteAttemptRecord}
    (hkey : store.metadataKey ∉ written) {highestEpoch : JsString}
    (hhighest : store.highestEpochOf (records.lookup store.metadataKey) = .ok highestEpoch) :
    ∃ tx', store.writeMetadata snapshot tx = .ok ((), tx') ∧
      Prepared records (store.metadataKey :: written)
        (Function.update values store.metadataKey
          (if number highestEpoch < number snapshot.epoch then
            some (.metadata ⟨snapshot.epoch, store.workerId⟩)
          else valueAt records store.metadataKey)) tx' := by
  have hget := @Prepared.get _ AttemptStoreError _ _ _ _ _ h hkey (assertStateKey_metadataKey false)
  have hchecked : checked (store.highestEpochOf (records.lookup store.metadataKey)) tx =
      .ok (highestEpoch, tx) := by
    rw [hhighest]
    rfl
  rw [writeMetadata, TransactionCode.bind_apply hget, TransactionCode.bind_apply hchecked]
  by_cases hhigher : number highestEpoch < number snapshot.epoch
  · simp only [if_pos hhigher]
    exact h.put (assertStateKey_metadataKey true) _
  simp only [if_neg hhigher]
  refine ⟨tx, rfl, ?_⟩
  rw [update_eq_self_iff.mpr (h.values_eq hkey).symm]
  exact h.weaken (subset_cons_self _ _)

theorem write_of (h : Prepared records [] values tx) {snapshot : RemoteAttemptRecord}
    {highestEpoch : JsString}
    (hhighest : store.highestEpochOf (records.lookup store.metadataKey) = .ok highestEpoch) :
    ∃ tx₁ tx₂ tx₃ written after,
      TransactionCode.put (store.key snapshot.request.taskId snapshot.request.attemptId)
        (.attempt snapshot) (expectedOf (records.lookup
          (store.key snapshot.request.taskId snapshot.request.attemptId))) tx =
        (.ok ((), tx₁) : Except Failure _) ∧
      store.writeActive snapshot tx₁ = .ok ((), tx₂) ∧
      store.writeMetadata snapshot tx₂ = .ok ((), tx₃) ∧
      Prepared records written after tx₃ ∧
      Stores store (valueAt records) after (number highestEpoch) snapshot := by
  obtain ⟨tx₁, hput, hprepared₁⟩ := @Prepared.put _ AttemptStoreError _ _ _ _
    (store.key snapshot.request.taskId snapshot.request.attemptId) h
    (assertStateKey_key _ _ true) (.attempt snapshot)
  obtain ⟨tx₂, hactive, hprepared₂⟩ := @writeActive_of store _ _ _ _ hprepared₁ snapshot (by
    rw [mem_singleton]
    exact (key_ne_activeKey _ _ _ _).symm)
  obtain ⟨tx₃, hmetadata, hprepared₃⟩ := @writeMetadata_of store _ _ _ _ hprepared₂ snapshot (by
    rw [mem_cons, mem_singleton, not_or]
    exact ⟨(activeKey_ne_metadataKey _ _).symm, (key_ne_metadataKey _ _).symm⟩) _ hhighest
  refine ⟨tx₁, tx₂, tx₃, _, _, hput, hactive, hmetadata, hprepared₃, ?_, ?_, ?_, ?_⟩
  · rw [update_of_ne (key_ne_metadataKey _ _), update_of_ne (key_ne_activeKey _ _ _ _), update_self]
  · rw [update_of_ne (activeKey_ne_metadataKey _ _), update_self]
  · rw [update_self]
  · intro key hkey hactiveKey hmetadataKey
    rw [update_of_ne hmetadataKey, update_of_ne hactiveKey, update_of_ne hkey]
    exact h.values_eq not_mem_nil

theorem Stores.congr {record : RemoteAttemptRecord} {n : Nat}
    (h : Stores store (valueAt records) values n record)
    (hnext : ∀ key, valueAt next key = values key) :
    Stores store (valueAt records) (valueAt next) n record := by
  rwa [show valueAt next = values from funext hnext]

end Code

/-! ## The calls -/

section Calls

variable {state : store.state.State}

theorem assertWorker_of {workerId : PortableId} (h : workerId = store.workerId) :
    store.assertWorker workerId = .ok () := if_neg (not_not.mpr h)

theorem get_key (store : StateRemoteAttemptStore) (records : Records PersistedValue)
    (taskId attemptId : PortableId) :
    (TransactionCode.get (store.key taskId attemptId) : AttemptCode _) (.start records) =
      .ok (records.lookup (store.key taskId attemptId), .start records) :=
  (prepared_start records).get not_mem_nil (assertStateKey_key taskId attemptId false)

theorem Looks.save (h : Looks store (store.state.records state) table)
    {record : RemoteAttemptRecord}
    (hrecord : WellFormed store.requestFingerprint store.workerId record) :
    ∃ next, store.save state record = (.ok (), next) ∧
      Looks store (store.state.records next) (table.store record) := by
  obtain ⟨highestEpoch, hhighest, hnumber⟩ := h.metadata
  have hstart := prepared_start (store.state.records state)
  obtain ⟨tx₁, tx₂, tx₃, written, after, hput, hactive, hmetadata, hprepared, hstores⟩ :=
    @write_of store _ _ _ hstart record _ hhighest
  have hget := get_key store (store.state.records state) record.request.taskId
    record.request.attemptId
  have hwork : store.saveCode (store.key record.request.taskId record.request.attemptId) record
      (.start (store.state.records state)) = .ok ((), tx₃) := by
    rw [saveCode, TransactionCode.bind_apply hget, TransactionCode.bind_apply hput,
      TransactionCode.bind_apply hactive, hmetadata]
  obtain ⟨next, htransact, hnext⟩ := transact_of_prepared store.state state hwork hprepared
  refine ⟨next, ?_, h.stored hrecord ?_⟩
  · simp only [StateRemoteAttemptStore.save, assertWorker_of hrecord.workerId_eq, parse_of hrecord rfl]
    exact htransact
  · rw [← hnumber]
    exact hstores.congr hnext

theorem Looks.delete (h : Looks store (store.state.records state) table)
    (taskId attemptId : PortableId) :
    ∃ next, store.delete state taskId attemptId = (.ok (), next) ∧
      Looks store (store.state.records next) (table.delete (taskId, attemptId)) := by
  have hstart := prepared_start (store.state.records state)
  obtain ⟨tx₁, hdelete, hprepared₁⟩ := @deleteKey_of _ _ _ _ (store.key taskId attemptId) hstart
    not_mem_nil (assertStateKey_key _ _)
  obtain ⟨tx₂, hdeleteActive, hprepared₂⟩ := @deleteKey_of _ _ _ _
    (store.activeKey taskId attemptId) hprepared₁ (by
      rw [mem_singleton]
      exact (key_ne_activeKey _ _ _ _).symm) (assertStateKey_activeKey _ _)
  have hwork : (do
      deleteKey (store.key taskId attemptId)
      deleteKey (store.activeKey taskId attemptId) : AttemptCode Unit)
      (.start (store.state.records state)) = .ok ((), tx₂) := by
    rw [TransactionCode.bind_apply hdelete, hdeleteActive]
  obtain ⟨next, htransact, hnext⟩ := transact_of_prepared store.state state hwork hprepared₂
  have hother : ∀ key, key ≠ store.key taskId attemptId → key ≠ store.activeKey taskId attemptId →
      valueAt (store.state.records next) key = valueAt (store.state.records state) key := by
    intro key hkey hactiveKey
    rw [hnext, update_of_ne hactiveKey, update_of_ne hkey]
  refine ⟨next, htransact, ?_, ?_, ?_, ?_⟩
  · intro otherTask otherAttempt
    rw [AttemptTable.get_delete]
    by_cases heq : (otherTask, otherAttempt) = (taskId, attemptId)
    · rw [if_pos heq, key_inj.mpr heq, hnext, update_of_ne (key_ne_activeKey _ _ _ _), update_self]
      rfl
    · rw [if_neg heq, hother _ (fun hkey => heq (key_inj.mp hkey)) (key_ne_activeKey _ _ _ _),
        h.attempts]
  · intro otherTask otherAttempt
    rw [AttemptTable.get_delete]
    by_cases heq : (otherTask, otherAttempt) = (taskId, attemptId)
    · rw [if_pos heq, activeKey_inj.mpr heq, hnext, update_self]
      rfl
    · rw [if_neg heq, hother _ (key_ne_activeKey _ _ _ _).symm
        (fun hkey => heq (activeKey_inj.mp hkey)), h.active]
  · intro key hnspace hcollection hstarts hkey
    have hkeyNe : key ≠ store.key taskId attemptId := by
      rintro rfl
      revert hcollection
      show js "worker-attempts" = js "worker-active-attempts" → _
      exact fun heq => absurd heq (by decide)
    rw [hother key hkeyNe (hkey _ _)]
    exact h.foreign key hnspace hcollection hstarts hkey
  · obtain ⟨highestEpoch, hhighest, hnumber⟩ := h.metadata
    refine ⟨highestEpoch, ?_, hnumber⟩
    rw [← hhighest]
    exact highestEpochOf_congr (hother _ (key_ne_metadataKey _ _).symm
      (activeKey_ne_metadataKey _ _).symm)

theorem Looks.mapM_parse (h : Looks store records table)
    (hok : table.Ok store.requestFingerprint store.workerId) (taskId attemptId : PortableId) :
    ((records.lookup (store.key taskId attemptId)).mapM fun record =>
      store.parse record.value taskId attemptId) =
      (.ok (table.get (taskId, attemptId)) : Except AttemptStoreError _) := by
  have hvalue := h.attempts taskId attemptId
  unfold valueAt at hvalue
  cases hget : table.get (taskId, attemptId) with
  | none =>
    rw [hget, Option.map_none, Option.map_eq_none_iff] at hvalue
    rw [hvalue]
    rfl
  | some record =>
    rw [hget, Option.map_some, Option.map_eq_some_iff] at hvalue
    obtain ⟨found, hfound, hattempt⟩ := hvalue
    have hparse := parse_of (hok.wellFormed _ _ hget) (hok.attempt _ _ hget)
    rw [hfound, Option.mapM_some, hattempt, hparse]
    rfl

theorem Looks.load (h : Looks store (store.state.records state) table)
    (hok : table.Ok store.requestFingerprint store.workerId) (taskId attemptId : PortableId) :
    store.load state taskId attemptId = .ok (table.get (taskId, attemptId)) := by
  simp only [StateRemoteAttemptStore.load, assertStateKey_key, h.mapM_parse hok, raised]

theorem Looks.isSome (h : Looks store records table) (taskId attemptId : PortableId) :
    (records.lookup (store.key taskId attemptId)).isSome = (table.get (taskId, attemptId)).isSome := by
  have hvalue := congrArg Option.isSome (h.attempts taskId attemptId)
  rwa [valueAt, Option.isSome_map, Option.isSome_map] at hvalue

theorem Looks.refuses_iff (h : Looks store records table) (record : RemoteAttemptRecord)
    (condition : RemoteAttemptCommitCondition) :
    ((condition.expectedRevision = none ∧ (records.lookup
        (store.key record.request.taskId record.request.attemptId)).isSome = true) ∨
      (condition.expectedRevision ≠ none ∧
        (table.get record.attempt).map (·.revision) ≠ condition.expectedRevision) ∨
      otherEpoch (table.get record.attempt) condition = true) ↔
    ((table.get record.attempt).map (·.revision) ≠ condition.expectedRevision ∨
      otherEpoch (table.get record.attempt) condition = true) := by
  have hisSome : (records.lookup (store.key record.request.taskId
      record.request.attemptId)).isSome = (table.get record.attempt).isSome := h.isSome _ _
  rw [hisSome, ← or_assoc]
  refine or_congr_left ?_
  cases condition.expectedRevision with
  | none => cases table.get record.attempt <;> simp
  | some text => simp

theorem Looks.congr (h : Looks store records table)
    (hnext : ∀ key, valueAt next key = valueAt records key) : Looks store next table where
  attempts taskId attemptId := by rw [hnext, h.attempts]
  active taskId attemptId := by rw [hnext, h.active]
  foreign key hnspace hcollection hstarts hkey := by
    rw [hnext]
    exact h.foreign key hnspace hcollection hstarts hkey
  metadata := by
    rw [highestEpochOf_congr (hnext store.metadataKey)]
    exact h.metadata

theorem commit_of {record : RemoteAttemptRecord} {condition : RemoteAttemptCommitCondition}
    (hrecord : WellFormed store.requestFingerprint store.workerId record)
    (hcondition : condition.WellFormed) :
    store.commit state record condition = store.state.transact state (store.commitCode
      (store.key record.request.taskId record.request.attemptId) record condition) := by
  have hmapM : ∀ text : Option JsString, (∀ revision, text = some revision → IsRevision revision) →
      text.mapM parseAttemptRevision = .ok text := by
    intro text htext
    cases text with
    | none => rfl
    | some revision =>
      rw [Option.mapM_some, parseAttemptRevision_of (htext revision rfl)]
      rfl
  simp only [StateRemoteAttemptStore.commit, assertWorker_of hrecord.workerId_eq,
    parse_of hrecord rfl, hmapM _ hcondition.expectedRevision, hmapM _ hcondition.expectedEpoch]
  rfl

theorem Looks.commit (h : Looks store (store.state.records state) table)
    (hok : table.Ok store.requestFingerprint store.workerId) {record : RemoteAttemptRecord}
    {condition : RemoteAttemptCommitCondition}
    (hrecord : WellFormed store.requestFingerprint store.workerId record)
    (hcondition : condition.WellFormed) :
    match table.commit record condition with
    | .error e => store.commit state record condition = (.error (.thrown e), state)
    | .ok none => ∃ next, store.commit state record condition = (.ok none, next) ∧
        Looks store (store.state.records next) table
    | .ok (some stored) => ∃ next, store.commit state record condition = (.ok (some stored), next) ∧
        Looks store (store.state.records next) (table.store stored) := by
  have hget := get_key store (store.state.records state) record.request.taskId
    record.request.attemptId
  have hparse : checked (((store.state.records state).lookup
      (store.key record.request.taskId record.request.attemptId)).mapM fun found =>
        store.parse found.value record.request.taskId record.request.attemptId)
      (.start (store.state.records state)) =
      .ok (table.get record.attempt, .start (store.state.records state)) := by
    rw [h.mapM_parse hok]
    rfl
  have hrefuses := h.refuses_iff record condition
  have hstart := prepared_start (store.state.records state)
  rw [commit_of hrecord hcondition]
  by_cases hrefused : (table.get record.attempt).map (·.revision) ≠ condition.expectedRevision ∨
      otherEpoch (table.get record.attempt) condition = true
  · have hwork : store.commitCode (store.key record.request.taskId record.request.attemptId) record
        condition (.start (store.state.records state)) =
        .ok (none, .start (store.state.records state)) := by
      rw [commitCode, TransactionCode.bind_apply hget, TransactionCode.bind_apply hparse,
        if_pos (hrefuses.mpr hrefused)]
      rfl
    obtain ⟨next, htransact, hnext⟩ := transact_of_prepared store.state state hwork hstart
    rw [AttemptTable.commit, if_pos hrefused]
    exact ⟨next, htransact, h.congr hnext⟩
  · rw [AttemptTable.commit, if_neg hrefused]
    cases hincrement : incrementRevision
        (((table.get record.attempt).map (·.revision)).getD (js "0")) with
    | error e =>
      have hwork : store.commitCode (store.key record.request.taskId record.request.attemptId)
          record condition (.start (store.state.records state)) = .error (.thrown e) := by
        rw [commitCode, TransactionCode.bind_apply hget, TransactionCode.bind_apply hparse,
          if_neg (fun hrefuse => hrefused (hrefuses.mp hrefuse)), hincrement]
        rfl
      show store.state.transact state _ = _
      rw [AtomicStateStore.transact, hwork]
    | ok revision =>
      obtain ⟨highestEpoch, hhighest, hnumber⟩ := h.metadata
      obtain ⟨tx₁, tx₂, tx₃, written, after, hput, hactive, hmetadata, hprepared, hstores⟩ :=
        @write_of store _ _ _ hstart { record with revision := revision } _ hhighest
      have hchecked : checked (.ok revision) (.start (store.state.records state)) =
        .ok (revision, .start (store.state.records state)) := rfl
      have hwork : store.commitCode (store.key record.request.taskId record.request.attemptId)
          record condition (.start (store.state.records state)) =
          .ok (some { record with revision := revision }, tx₃) := by
        rw [commitCode, TransactionCode.bind_apply hget, TransactionCode.bind_apply hparse,
          if_neg (fun hrefuse => hrefused (hrefuses.mp hrefuse)), hincrement,
          TransactionCode.bind_apply hchecked, TransactionCode.bind_apply hput,
          TransactionCode.bind_apply hactive, TransactionCode.bind_apply hmetadata]
        rfl
      obtain ⟨next, htransact, hnext⟩ := transact_of_prepared store.state state hwork hprepared
      refine ⟨next, htransact, h.stored (hrecord.withRevision ?_) ?_⟩
      · exact (incrementRevision_ok (hok.isRevision record.attempt) hincrement).1
      · rw [← hnumber]
        exact hstores.congr hnext

end Calls

end StateRemoteAttemptStore

end AttemptStores

end TegoNext
