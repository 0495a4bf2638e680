/-
What `recover` reads back of the collection of the active attempts.

The collection is read page by page, each after the last id of the one before. By then the
first records of the collection have been collected, as many as were asked for so far, and the
next page goes on after them. A page that is not full is the last one.
-/
import TegoNext.DurableAttempts

set_option autoImplicit false

namespace TegoNext

open Text List Option

namespace AttemptStores

namespace StateRemoteAttemptStore

def recordOf (row : RecordEntry PersistedValue) : Option RemoteAttemptRecord :=
  match row.2.value with
  | .attempt record => some record
  | _ => none

/-- What a scan shows of a row. -/
def shown (row : RecordEntry PersistedValue) : ScannedState PersistedValue :=
  ⟨row.1, row.2.value, row.2.revision⟩

/-- The row holds a record of the table that has not expired. -/
structure Reads (store : StateRemoteAttemptStore) (table : AttemptTable)
    (row : RecordEntry PersistedValue) (record : RemoteAttemptRecord) : Prop where
  value : row.2.value = .attempt record
  key : row.1 = store.activeKey record.request.taskId record.request.attemptId
  get : table.get record.attempt = some record
  active : record.state ≠ .expired

variable {store : StateRemoteAttemptStore} {records : Records PersistedValue}
  {table : AttemptTable} {row : RecordEntry PersistedValue} {rows : List (RecordEntry PersistedValue)}
  {record : RemoteAttemptRecord} {found : Recovered}

theorem Reads.recordOf_eq (h : Reads store table row record) : recordOf row = some record := by
  rw [recordOf, h.value]

/-- The active attempts, as a scan that asks for all of them shows them. -/
def activeRows (store : StateRemoteAttemptStore) (records : Records PersistedValue) :
    List (RecordEntry PersistedValue) := sortedRecords records (store.activeQuery none 1)

theorem mem_activeRows : row ∈ store.activeRows records ↔ row ∈ records.entries ∧
    row.1.nspace = js "tego" ∧ row.1.collection = js WORKER_ACTIVE_ATTEMPT_COLLECTION ∧
    startsWith row.1.id (store.workerId.text ++ [58]) = true := by
  rw [activeRows, mem_sortedRecords]
  refine and_congr_right' ?_
  unfold matchesQuery
  simp only [activeQuery, all_some, all_none, Bool.and_true, Bool.and_eq_true,
    beq_iff_eq, and_assoc]

theorem Looks.reads (h : Looks store records table)
    (hok : table.Ok store.requestFingerprint store.workerId) (hrow : row ∈ store.activeRows records) :
    ∃ record, Reads store table row record := by
  obtain ⟨hmem, hnspace, hcollection, hstarts⟩ := mem_activeRows.mp hrow
  have hlookup : records.lookup row.1 = some row.2 := AList.mem_lookup_iff.mpr hmem
  have hvalue : valueAt records row.1 = some row.2.value := by rw [valueAt, hlookup]; rfl
  have hkey : ∃ taskId attemptId, row.1 = store.activeKey taskId attemptId := by
    by_contra hnone
    push Not at hnone
    rw [h.foreign row.1 hnspace hcollection hstarts hnone] at hvalue
    cases hvalue
  obtain ⟨taskId, attemptId, hkey⟩ := hkey
  rw [hkey, h.active, map_eq_some_iff] at hvalue
  obtain ⟨record, hfilter, hattempt⟩ := hvalue
  rw [filter_eq_some_iff, decide_eq_true_eq] at hfilter
  obtain ⟨hget, hactive⟩ := hfilter
  have hsame := hok.attempt _ _ hget
  refine ⟨record, hattempt.symm, ?_, ?_, hactive⟩
  · rw [hkey]
    exact activeKey_inj.mpr hsame
  · rwa [← hsame]

theorem map_activeKey (hrows : ∀ row ∈ rows, ∃ record, Reads store table row record) :
    (rows.filterMap recordOf).map (fun record =>
      store.activeKey record.request.taskId record.request.attemptId) = rows.map (·.1) := by
  induction rows with
  | nil => rfl
  | cons row rows ih =>
    obtain ⟨record, hreads⟩ := hrows row mem_cons_self
    rw [filterMap_cons_some hreads.recordOf_eq, map_cons, map_cons, hreads.key,
      ih fun other hother => hrows other (mem_cons_of_mem _ hother)]

theorem length_filterMap_recordOf (hrows : ∀ row ∈ rows, ∃ record, Reads store table row record) :
    (rows.filterMap recordOf).length = rows.length := by
  have hlength := congrArg List.length (map_activeKey hrows)
  rwa [length_map, length_map] at hlength

/-- **The active attempts of the collection are those of the table.** -/
theorem Looks.perm_activeRows (h : Looks store records table)
    (hok : table.Ok store.requestFingerprint store.workerId) :
    ((store.activeRows records).filterMap recordOf).Perm table.active := by
  have hrows : ∀ row ∈ store.activeRows records, ∃ record, Reads store table row record :=
    fun row hrow => h.reads hok hrow
  have hkeys : ((store.activeRows records).map (·.1)).Nodup := by
    have hids := nodup_ids records (store.activeQuery none 1)
    have hperm : (store.activeRows records).Perm (matchingRecords records (store.activeQuery none 1)) :=
      perm_insertionSort _ _
    refine List.Nodup.of_map StateKey.id ?_
    rw [List.map_map]
    exact (hperm.map _).nodup_iff.mpr hids
  have hnodup : ((store.activeRows records).filterMap recordOf).Nodup := by
    rw [← map_activeKey hrows] at hkeys
    exact hkeys.of_map _
  rw [perm_ext_iff_of_nodup hnodup (hok.nodup_active.of_map _)]
  intro record
  rw [hok.mem_active, mem_filterMap]
  constructor
  · rintro ⟨row, hrow, hrecord⟩
    obtain ⟨other, hreads⟩ := hrows row hrow
    rw [hreads.recordOf_eq] at hrecord
    obtain rfl := some.inj hrecord
    exact ⟨hreads.get, hreads.active⟩
  · rintro ⟨hget, hactive⟩
    have hvalue := h.active record.request.taskId record.request.attemptId
    have hget' : table.get (record.request.taskId, record.request.attemptId) = some record := hget
    rw [hget', filter_some_pos (by simpa using hactive), map_some, valueAt,
      map_eq_some_iff] at hvalue
    obtain ⟨stored, hlookup, hattempt⟩ := hvalue
    refine ⟨⟨_, stored⟩, mem_activeRows.mpr ⟨AList.mem_lookup_iff.mp hlookup, rfl, rfl, ?_⟩, ?_⟩
    · exact startsWith_attemptStateId _ _ _
    · rw [recordOf, hattempt]

/-! ## The pages -/

theorem Reads.collect (h : Reads store table row record)
    (hok : table.Ok store.requestFingerprint store.workerId)
    (hhighest : number found.highestEpoch = table.highestEpoch) :
    store.collect found (shown row) =
      .ok ⟨found.highestEpoch, found.records ++ [record], some row.1.id⟩ := by
  have hparse : parsePersistedAttempt store.requestFingerprint row.2.value
      ⟨none, row.1.id, none, store.workerId⟩ = .ok record := by
    rw [h.value]
    refine checkPersistedAttempt_of (hok.wellFormed _ _ h.get) ?_ ?_ ?_
    · intro taskId hnone
      cases hnone
    · intro attemptId hnone
      cases hnone
    · rw [h.key]
      rfl
  have hexpired : refuseIf (record.state = .expired)
      "Active Worker attempt index contains an expired tombstone" = .ok () := if_neg h.active
  have hepoch := hok.epoch _ _ h.get
  have hnot : ¬number found.highestEpoch < number record.epoch := by omega
  simp only [StateRemoteAttemptStore.collect, shown, bind_eq_ok, pure_eq_ok]
  refine ⟨record, hparse, (), hexpired, ?_⟩
  rw [if_neg hnot]

theorem foldlM_collect (hok : table.Ok store.requestFingerprint store.workerId)
    (hrows : ∀ row ∈ rows, ∃ record, Reads store table row record)
    (hhighest : number found.highestEpoch = table.highestEpoch) :
    (rows.map shown).foldlM store.collect found = .ok ⟨found.highestEpoch,
      found.records ++ rows.filterMap recordOf,
      (rows.getLast?.map (·.1.id)).or found.afterId⟩ := by
  induction rows generalizing found with
  | nil => simp [pure, Except.pure]
  | cons row rows ih =>
    obtain ⟨record, hreads⟩ := hrows row mem_cons_self
    have hrest := fun other hother => hrows other (mem_cons_of_mem _ hother)
    rw [map_cons, foldlM_cons, hreads.collect hok hhighest]
    show (rows.map shown).foldlM store.collect _ = _
    rw [ih hrest (by exact hhighest), filterMap_cons_some hreads.recordOf_eq]
    simp only [append_assoc, singleton_append, Except.ok.injEq, Recovered.mk.injEq, true_and]
    cases rows with
    | nil => rfl
    | cons other rows =>
      rw [getLast?_cons_cons]
      cases hlast : (other :: rows).getLast? with
      | none => simp at hlast
      | some last => rfl

/-- What has been found when the first `n` rows have been collected. -/
def foundAfter (rows : List (RecordEntry PersistedValue)) (highestEpoch : JsString) (n : Nat) :
    Recovered :=
  ⟨highestEpoch, (rows.take n).filterMap recordOf, (rows.take n).getLast?.map (·.1.id)⟩

theorem foundAfter_add (rows : List (RecordEntry PersistedValue)) (highestEpoch : JsString)
    (n m : Nat) :
    foundAfter rows highestEpoch (n + m) = ⟨highestEpoch,
      (foundAfter rows highestEpoch n).records ++ ((rows.drop n).take m).filterMap recordOf,
      (((rows.drop n).take m).getLast?.map (·.1.id)).or (foundAfter rows highestEpoch n).afterId⟩ := by
  rw [foundAfter, take_add, filterMap_append, getLast?_append, map_or]
  rfl

theorem foundAfter_of_length_le {highestEpoch : JsString} {n m : Nat} (hn : rows.length ≤ n)
    (hm : rows.length ≤ m) : foundAfter rows highestEpoch n = foundAfter rows highestEpoch m := by
  rw [foundAfter, foundAfter, take_of_length_le hn, take_of_length_le hm]

/-- The page that follows the first `n` rows. -/
theorem scan_page (n pageLimit : Nat) (highestEpoch : JsString) :
    scanRecords records (store.activeQuery
      (foundAfter (store.activeRows records) highestEpoch n).afterId pageLimit) =
      (((store.activeRows records).drop n).take pageLimit).map shown := by
  rw [scanRecords_eq]
  show (((sortedRecords records _).take pageLimit).map _) = _
  congr 2
  cases hlast : ((store.activeRows records).take n).getLast? with
  | none =>
    have hnil : (store.activeRows records).take n = [] := getLast?_eq_none_iff.mp hlast
    have hdrop : (store.activeRows records).drop n = store.activeRows records := by
      conv_rhs => rw [← take_append_drop n (store.activeRows records), hnil, nil_append]
    rw [hdrop, foundAfter, hlast]
    rfl
  | some last =>
    rw [foundAfter, hlast]
    exact sortedRecords_after records (store.activeQuery none 1) (some pageLimit) hlast

theorem assertStateQuery_page (hrows : ∀ row ∈ rows, ∃ record, Reads store table row record)
    (n : Nat) {pageLimit : Nat} (hpositive : 0 < pageLimit) (hmax : pageLimit ≤ STATE_QUERY_MAX_LIMIT)
    (highestEpoch : JsString) :
    assertStateQuery (store.activeQuery (foundAfter rows highestEpoch n).afterId pageLimit) =
      .ok () := by
  have hcollection : NameText (js WORKER_ACTIVE_ATTEMPT_COLLECTION) := by decide
  have hnspace : NameText (js "tego") := by decide
  have hid : isPortableStateString (store.workerId.text ++ [58]) = true := by
    apply isPortableStateString_of_nameText
    intro u hu
    rw [mem_append, mem_singleton] at hu
    exact hu.imp (NameText.of_portable store.workerId u) id
  have hafter : (foundAfter rows highestEpoch n).afterId.any
      (fun p => !isPortableStateString p) = false := by
    rw [foundAfter]
    cases hlast : (rows.take n).getLast? with
    | none => rfl
    | some last =>
      obtain ⟨record, hreads⟩ := hrows last (mem_of_mem_take (mem_of_getLast? hlast))
      have hportable : isPortableStateString last.1.id = true := by
        rw [hreads.key]
        exact isPortableStateString_of_nameText (attemptStateId_units _ _ _)
      simp [hportable]
  refine if_neg ?_
  rw [activeQuery, hafter, isPortableStateString_of_nameText fun u hu => .inl (hcollection u hu),
    isPortableStateString_of_nameText fun u hu => .inl (hnspace u hu)]
  simp [hid]
  omega

/-- **The loop collects the first rows, as many as were asked for.** -/
theorem recoverPages_of (hok : table.Ok store.requestFingerprint store.workerId)
    (hrows : ∀ row ∈ store.activeRows records, ∃ record, Reads store table row record)
    {highestEpoch : JsString} (hhighest : number highestEpoch = table.highestEpoch)
    {limit rounds n : Nat} (hrounds : limit ≤ n + rounds) (hn : n ≤ limit)
    (hlength : n ≤ (store.activeRows records).length) :
    store.recoverPages limit rounds (foundAfter (store.activeRows records) highestEpoch n)
      (.start records) =
      .ok (foundAfter (store.activeRows records) highestEpoch limit, .start records) := by
  induction rounds generalizing n with
  | zero =>
    obtain rfl : n = limit := by omega
    rfl
  | succ rounds ih =>
    have hfound : (foundAfter (store.activeRows records) highestEpoch n).records.length = n := by
      rw [foundAfter, length_filterMap_recordOf fun row hrow => hrows row (mem_of_mem_take hrow),
        length_take]
      omega
    rw [recoverPages, hfound]
    by_cases hfull : limit ≤ n
    · obtain rfl : n = limit := by omega
      rw [if_pos hfull]
      rfl
    rw [if_neg hfull]
    have hpositive : 0 < min (limit - n) STATE_QUERY_MAX_LIMIT := by
      have : 0 < STATE_QUERY_MAX_LIMIT := by decide
      omega
    have hscan := (prepared_start records).scan (F := AttemptStoreError)
      (assertStateQuery_page hrows n hpositive (Nat.min_le_right _ _) highestEpoch)
    rw [scan_page] at hscan
    have hcollect : checked ((((((store.activeRows records).drop n).take
        (min (limit - n) STATE_QUERY_MAX_LIMIT)).map shown).foldlM store.collect
        (foundAfter (store.activeRows records) highestEpoch n))) (.start records) =
        .ok (foundAfter (store.activeRows records) highestEpoch
          (n + min (limit - n) STATE_QUERY_MAX_LIMIT), .start records) := by
      rw [foldlM_collect hok (fun row hrow => hrows row
        (mem_of_mem_drop (mem_of_mem_take hrow))) hhighest, foundAfter_add]
      rfl
    simp only [TransactionCode.bind_apply hscan]
    simp only [TransactionCode.bind_apply hcollect]
    simp only [length_map, length_take, length_drop]
    by_cases hlast : min (min (limit - n) STATE_QUERY_MAX_LIMIT)
        ((store.activeRows records).length - n) < min (limit - n) STATE_QUERY_MAX_LIMIT
    · rw [if_pos hlast]
      have hsame := @foundAfter_of_length_le (store.activeRows records) highestEpoch
        (n + min (limit - n) STATE_QUERY_MAX_LIMIT) limit (by omega) (by omega)
      rw [hsame]
      rfl
    · rw [if_neg hlast]
      exact ih (by omega) (by omega) (by omega)

/-- `recover` answers with the first of the active attempts, and the highest epoch. -/
theorem Looks.recoverCode (h : Looks store records table)
    (hok : table.Ok store.requestFingerprint store.workerId) (limit : Nat) :
    ∃ highestEpoch, number highestEpoch = table.highestEpoch ∧
      store.recoverCode limit (.start records) =
        .ok ((highestEpoch, ((store.activeRows records).take limit).filterMap recordOf),
          .start records) := by
  obtain ⟨highestEpoch, hmetadata, hnumber⟩ := h.metadata
  have hget := (prepared_start records).get (F := AttemptStoreError) not_mem_nil
    (assertStateKey_metadataKey false : assertStateKey store.metadataKey false = .ok ())
  have hchecked : checked (store.highestEpochOf (records.lookup store.metadataKey))
      (.start records) = .ok (highestEpoch, .start records) := by
    rw [hmetadata]
    rfl
  have hpages := @recoverPages_of store records table hok (fun row hrow => h.reads hok hrow)
    highestEpoch hnumber limit limit 0 (by omega) (by omega) (by omega)
  have hstart : foundAfter (store.activeRows records) highestEpoch 0 = ⟨highestEpoch, [], none⟩ :=
    rfl
  rw [hstart] at hpages
  refine ⟨highestEpoch, hnumber, ?_⟩
  rw [StateRemoteAttemptStore.recoverCode, TransactionCode.bind_apply hget,
    TransactionCode.bind_apply hchecked, TransactionCode.bind_apply hpages]
  rfl

end StateRemoteAttemptStore

/-! ## The durable store -/

/-- `StateRemoteAttemptStore`, for the calls of its worker. -/
def durableAttemptStore (store : StateRemoteAttemptStore) : AttemptStore where
  State := store.state.State
  apply state
    | .save record =>
      match store.save state record with
      | (.ok _, state) => (.done, state)
      | (.error e, state) => (.failed e, state)
    | .commit record condition =>
      match store.commit state record condition with
      | (.ok stored, state) => (.committed stored, state)
      | (.error e, state) => (.failed e, state)
    | .delete taskId attemptId =>
      match store.delete state taskId attemptId with
      | (.ok _, state) => (.done, state)
      | (.error e, state) => (.failed e, state)
    | .load taskId attemptId =>
      match store.load state taskId attemptId with
      | .ok record => (.loaded record, state)
      | .error e => (.failed e, state)
    | .recover limit =>
      match store.recover state store.workerId limit with
      | (.ok recovered, state) => (.recovered recovered.1 recovered.2, state)
      | (.error e, state) => (.failed e, state)

/-- **The durable store does what the table does.** -/
theorem durable_simulates (store : StateRemoteAttemptStore) :
    Simulates store.requestFingerprint store.workerId (durableAttemptStore store)
      fun state table => store.Looks (store.state.records state) table where
  step state table call h hok hcall := by
    cases call with
    | save record =>
      obtain ⟨next, hsave, hlooks⟩ := h.save hcall
      simp only [durableAttemptStore, hsave]
      exact ⟨rfl, hlooks⟩
    | commit record condition =>
      have hcommit := h.commit hok hcall.1 hcall.2
      simp only [durableAttemptStore, AttemptTable.apply, Shows]
      cases htable : table.commit record condition with
      | error e =>
        rw [htable] at hcommit
        rw [hcommit]
        exact ⟨rfl, h⟩
      | ok stored =>
        rw [htable] at hcommit
        cases stored with
        | none =>
          obtain ⟨next, hnext, hlooks⟩ := hcommit
          rw [hnext]
          exact ⟨rfl, hlooks⟩
        | some stored =>
          obtain ⟨next, hnext, hlooks⟩ := hcommit
          rw [hnext]
          exact ⟨rfl, hlooks⟩
    | delete taskId attemptId =>
      obtain ⟨next, hdelete, hlooks⟩ := h.delete taskId attemptId
      simp only [durableAttemptStore, hdelete]
      exact ⟨rfl, hlooks⟩
    | load taskId attemptId =>
      simp only [durableAttemptStore, h.load hok]
      exact ⟨rfl, h⟩
    | recover limit =>
      simp only [durableAttemptStore, Shows, AttemptTable.apply, StateRemoteAttemptStore.recover]
      rw [if_neg (not_not.mpr rfl)]
      cases assertRecoveryLimit limit with
      | error e => exact ⟨rfl, h⟩
      | ok limit =>
        obtain ⟨highestEpoch, hnumber, hcode⟩ := h.recoverCode hok limit
        obtain ⟨next, htransact, hnext⟩ := transact_of_prepared store.state state hcode
          (prepared_start (store.state.records state))
        simp only [htransact]
        refine ⟨⟨_, _, rfl, hnumber, fun hlimit => ?_⟩, h.congr hnext⟩
        have hperm := h.perm_activeRows hok
        have hlength : (store.activeRows (store.state.records state)).length ≤ limit := by
          rw [← StateRemoteAttemptStore.length_filterMap_recordOf fun row hrow =>
            h.reads hok hrow, hperm.length_eq]
          exact hlimit
        rw [take_of_length_le hlength]
        exact hperm

end AttemptStores

end TegoNext
