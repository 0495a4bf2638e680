/-
What a store of attempts is for.

A table of the attempts of one worker, with the highest epoch that was ever put into it: what
both stores are to look like from the outside. The calls, their outcomes, and what the
table does at each call.
-/
import TegoNext.AttemptStores
import TegoNext.PermissionReading

set_option autoImplicit false

namespace TegoNext

open Text List Option AList

namespace AttemptStores

/-! ## Revisions -/

/-- A text that `parseAttemptRevision` accepts. -/
def IsRevision (text : JsString) : Prop := isNumeric text = true ∧ number text ≤ maximumUnsigned64

variable {text : JsString}

theorem parseAttemptRevision_of (h : IsRevision text) : parseAttemptRevision text = .ok text := by
  rw [parseAttemptRevision, if_neg (by rw [h.1]; decide), if_neg (Nat.not_lt.mpr h.2)]

@[simp] theorem number_decimal (n : Nat) : number (decimal n) = n := by
  rw [number, digits_decimal, getD_some]

theorem isRevision_decimal {n : Nat} (h : n ≤ maximumUnsigned64) : IsRevision (decimal n) :=
  ⟨isNumeric_decimal n, by rwa [number_decimal]⟩

theorem isRevision_zero : IsRevision (js "0") := isRevision_decimal (Nat.zero_le _)

theorem incrementRevision_of (h : IsRevision text) :
    incrementRevision text = if number text = maximumUnsigned64 then
        .error (.revision "Remote attempt revision exhausted its unsigned 64-bit range")
      else .ok (decimal (number text + 1)) := by
  rw [incrementRevision, parseAttemptRevision_of h]
  rfl

theorem incrementRevision_ok {next : JsString} (h : IsRevision text)
    (hnext : incrementRevision text = .ok next) :
    IsRevision next ∧ number next = number text + 1 := by
  rw [incrementRevision_of h] at hnext
  by_cases hmax : number text = maximumUnsigned64
  · rw [if_pos hmax] at hnext
    cases hnext
  rw [if_neg hmax] at hnext
  obtain rfl := Except.ok.inj hnext
  have hle := h.2
  exact ⟨isRevision_decimal (by omega), number_decimal _⟩

/-! ## Well-formed records -/

def RemoteAttemptRecord.attempt (record : RemoteAttemptRecord) : PortableId × PortableId :=
  (record.request.taskId, record.request.attemptId)

/-- A record of the worker that contradicts itself in nothing. -/
structure WellFormed (requestFingerprint : RemoteRequest → JsString) (workerId : PortableId)
    (record : RemoteAttemptRecord) : Prop where
  workerId_eq : record.workerId = workerId
  fingerprint_eq : record.fingerprint = requestFingerprint record.request
  epoch : IsRevision record.epoch
  revision : IsRevision record.revision
  updatedAt : JsDate.validTimestamp record.updatedAt = true
  result : ∀ result, record.result = some result →
    (result.taskId, result.attemptId) = record.attempt ∧
      (record.state = .terminal ∨ record.state = .expired)
  terminal : record.state = .terminal → record.result ≠ none
  acknowledgedAt : ∀ time, record.acknowledgedAt = some time →
    JsDate.validTimestamp time = true ∧ (record.state = .terminal ∨ record.state = .expired)

theorem WellFormed.withRevision {requestFingerprint : RemoteRequest → JsString}
    {workerId : PortableId} {record : RemoteAttemptRecord}
    (h : WellFormed requestFingerprint workerId record) {revision : JsString}
    (hrevision : IsRevision revision) :
    WellFormed requestFingerprint workerId { record with revision := revision } :=
  ⟨h.workerId_eq, h.fingerprint_eq, h.epoch, hrevision, h.updatedAt, h.result, h.terminal,
    h.acknowledgedAt⟩

structure RemoteAttemptCommitCondition.WellFormed (condition : RemoteAttemptCommitCondition) :
    Prop where
  expectedRevision : ∀ text, condition.expectedRevision = some text → IsRevision text
  expectedEpoch : ∀ text, condition.expectedEpoch = some text → IsRevision text

theorem checkPersistedAttempt_of {requestFingerprint : RemoteRequest → JsString}
    {record : RemoteAttemptRecord} {options : AttemptExpectation}
    (h : WellFormed requestFingerprint options.workerId record)
    (htask : ∀ taskId, options.expectedTaskId = some taskId → record.request.taskId = taskId)
    (hattempt : ∀ attemptId, options.expectedAttemptId = some attemptId →
      record.request.attemptId = attemptId)
    (hid : attemptStateId options.workerId record.request.taskId record.request.attemptId =
      options.expectedStateId) :
    checkPersistedAttempt requestFingerprint record options = .ok record := by
  have htask' : options.expectedTaskId.any (record.request.taskId ≠ ·) = false := by
    cases htaskId : options.expectedTaskId with
    | none => rfl
    | some taskId => simp [htask taskId htaskId]
  have hattempt' : options.expectedAttemptId.any (record.request.attemptId ≠ ·) = false := by
    cases hattemptId : options.expectedAttemptId with
    | none => rfl
    | some attemptId => simp [hattempt attemptId hattemptId]
  have hresult : record.result.any (fun result => result.taskId ≠ record.request.taskId ∨
      result.attemptId ≠ record.request.attemptId) = false := by
    cases hresult : record.result with
    | none => rfl
    | some result =>
      have heq := Prod.mk.inj (h.result result hresult).1
      simp [heq.1, heq.2]
  have hstate : ¬((record.state = .terminal ∧ record.result = none) ∨
      (record.state ≠ .terminal ∧ record.state ≠ .expired ∧ record.result ≠ none)) := by
    rintro (⟨hterminal, hnone⟩ | ⟨hterminal, hexpired, hsome⟩)
    · exact h.terminal hterminal hnone
    · obtain ⟨result, hresult⟩ := ne_none_iff_exists'.mp hsome
      exact (h.result result hresult).2.elim hterminal hexpired
  have hacknowledged : record.acknowledgedAt.mapM (parseAttemptTimestamp · "acknowledgedAt") =
      (.ok record.acknowledgedAt : Except AttemptStoreError _) := by
    cases htime : record.acknowledgedAt with
    | none => rfl
    | some time =>
      rw [mapM_some, parseAttemptTimestamp, if_neg (by simp [(h.acknowledgedAt time htime).1])]
      rfl
  have hacknowledgedState : ¬(record.acknowledgedAt ≠ none ∧ record.state ≠ .terminal ∧
      record.state ≠ .expired) := by
    rintro ⟨hsome, hterminal, hexpired⟩
    obtain ⟨time, htime⟩ := ne_none_iff_exists'.mp hsome
    exact (h.acknowledgedAt time htime).2.elim hterminal hexpired
  have hupdated : parseAttemptTimestamp record.updatedAt "updatedAt" = .ok record.updatedAt := by
    rw [parseAttemptTimestamp, if_neg (by simp [h.updatedAt])]
  have hidentity : ¬(options.expectedTaskId.any (record.request.taskId ≠ ·) = true ∨
      options.expectedAttemptId.any (record.request.attemptId ≠ ·) = true ∨
      attemptStateId record.workerId record.request.taskId record.request.attemptId ≠
        options.expectedStateId) := by
    rw [htask', hattempt', h.workerId_eq, hid]
    simp
  have hrefuse : ∀ {wrong : Prop} [Decidable wrong] (message : String), ¬wrong →
      refuseIf wrong message = .ok () := fun _ hnot => if_neg hnot
  simp only [checkPersistedAttempt, bind_eq_ok, pure_eq_ok]
  exact ⟨(), hrefuse _ (not_not.mpr h.workerId_eq), (), hrefuse _ hidentity,
    (), hrefuse _ (not_not.mpr h.fingerprint_eq), _, parseAttemptRevision_of h.epoch,
    _, parseAttemptRevision_of h.revision, _, hupdated, (), hrefuse _ (by rw [hresult]; decide),
    (), hrefuse _ hstate, _, hacknowledged, (), hrefuse _ hacknowledgedState, rfl⟩

/-! ## Calls and the table -/

inductive AttemptCall where
  | save (record : RemoteAttemptRecord)
  | commit (record : RemoteAttemptRecord) (condition : RemoteAttemptCommitCondition)
  | delete (taskId attemptId : PortableId)
  | load (taskId attemptId : PortableId)
  | recover (limit : Int)

/-- What a call resolves with, or is rejected with. A commit that is refused resolves with no
record. -/
inductive AttemptOutcome where
  | done
  | committed (record : Option RemoteAttemptRecord)
  | loaded (record : Option RemoteAttemptRecord)
  | recovered (highestEpoch : JsString) (records : List RemoteAttemptRecord)
  | failed (e : Failure)

structure AttemptStore where
  State : Type
  apply : State → AttemptCall → AttemptOutcome × State

def AttemptStore.run (store : AttemptStore) (state : store.State) :
    List AttemptCall → List AttemptOutcome × store.State
  | [] => ([], state)
  | call :: calls =>
    let applied := store.apply state call
    let rest := store.run applied.2 calls
    (applied.1 :: rest.1, rest.2)

def AttemptCall.WellFormed (requestFingerprint : RemoteRequest → JsString)
    (workerId : PortableId) : AttemptCall → Prop
  | .save record => AttemptStores.WellFormed requestFingerprint workerId record
  | .commit record condition =>
    AttemptStores.WellFormed requestFingerprint workerId record ∧ condition.WellFormed
  | _ => True

/-- The call puts a record of the attempt in, or takes it out, whatever its revision. -/
def AttemptCall.Resets (attempt : PortableId × PortableId) : AttemptCall → Prop
  | .save record => record.attempt = attempt
  | .delete taskId attemptId => (taskId, attemptId) = attempt
  | _ => False

structure AttemptTable where
  records : AList fun _ : PortableId × PortableId => RemoteAttemptRecord
  highestEpoch : Nat

namespace AttemptTable

def empty : AttemptTable := ⟨∅, 0⟩

section

variable (table : AttemptTable)

def get (attempt : PortableId × PortableId) : Option RemoteAttemptRecord :=
  table.records.lookup attempt

def active : List RemoteAttemptRecord :=
  (table.records.entries.map (·.2)).filter (·.state ≠ .expired)

def store (record : RemoteAttemptRecord) : AttemptTable :=
  ⟨table.records.insert record.attempt record, max table.highestEpoch (number record.epoch)⟩

def delete (attempt : PortableId × PortableId) : AttemptTable :=
  ⟨table.records.erase attempt, table.highestEpoch⟩

/-- What a commit stores, if anything: the revision must be the expected one, and the epoch too
if one is expected. -/
def commit (record : RemoteAttemptRecord) (condition : RemoteAttemptCommitCondition) :
    Except AttemptStoreError (Option RemoteAttemptRecord) :=
  let current := table.get record.attempt
  if current.map (·.revision) ≠ condition.expectedRevision ∨
      otherEpoch current condition = true then .ok none
  else do
    let revision ← incrementRevision ((current.map (·.revision)).getD (js "0"))
    pure (some { record with revision := revision })

def apply : AttemptCall → AttemptOutcome × AttemptTable
  | .save record => (.done, table.store record)
  | .commit record condition =>
    match table.commit record condition with
    | .error e => (.failed (.thrown e), table)
    | .ok none => (.committed none, table)
    | .ok (some stored) => (.committed (some stored), table.store stored)
  | .delete taskId attemptId => (.done, table.delete (taskId, attemptId))
  | .load taskId attemptId => (.loaded (table.get (taskId, attemptId)), table)
  | .recover limit =>
    match assertRecoveryLimit limit with
    | .error e => (.failed (.thrown e), table)
    | .ok _ => (.recovered (decimal table.highestEpoch) table.active, table)

def after (calls : List AttemptCall) : AttemptTable :=
  calls.foldl (fun table call => (table.apply call).2) table

theorem get_store (record : RemoteAttemptRecord) (attempt : PortableId × PortableId) :
    (table.store record).get attempt =
      if attempt = record.attempt then some record else table.get attempt := by
  by_cases h : attempt = record.attempt
  · rw [if_pos h, h]
    exact lookup_insert _
  · rw [if_neg h]
    exact lookup_insert_ne h

theorem get_delete (attempt other : PortableId × PortableId) :
    (table.delete attempt).get other = if other = attempt then none else table.get other := by
  by_cases h : other = attempt
  · rw [if_pos h, h]
    exact lookup_erase _ _
  · rw [if_neg h]
    exact lookup_erase_ne h

end

/-! ## What holds of the table -/

structure Ok (requestFingerprint : RemoteRequest → JsString) (workerId : PortableId)
    (table : AttemptTable) : Prop where
  wellFormed : ∀ attempt record, table.get attempt = some record →
    AttemptStores.WellFormed requestFingerprint workerId record
  attempt : ∀ attempt record, table.get attempt = some record → attempt = record.attempt
  epoch : ∀ attempt record, table.get attempt = some record →
    number record.epoch ≤ table.highestEpoch

variable {requestFingerprint : RemoteRequest → JsString} {workerId : PortableId}
  {table : AttemptTable}

theorem get_empty (attempt : PortableId × PortableId) : empty.get attempt = none := rfl

theorem ok_empty : Ok requestFingerprint workerId empty where
  wellFormed attempt record h := by
    rw [get_empty] at h
    cases h
  attempt attempt record h := by
    rw [get_empty] at h
    cases h
  epoch attempt record h := by
    rw [get_empty] at h
    cases h

variable {record : RemoteAttemptRecord}

theorem Ok.store (h : Ok requestFingerprint workerId table)
    (hrecord : AttemptStores.WellFormed requestFingerprint workerId record) :
    Ok requestFingerprint workerId (table.store record) := by
  have hcases : ∀ attempt other, (table.store record).get attempt = some other →
      (attempt = record.attempt ∧ other = record) ∨ table.get attempt = some other := by
    intro attempt other hget
    rw [get_store] at hget
    by_cases heq : attempt = record.attempt
    · rw [if_pos heq] at hget
      exact .inl ⟨heq, (some.inj hget).symm⟩
    · rw [if_neg heq] at hget
      exact .inr hget
  refine ⟨fun attempt other hget => ?_, fun attempt other hget => ?_, fun attempt other hget => ?_⟩
  · rcases hcases attempt other hget with ⟨-, rfl⟩ | hget
    · exact hrecord
    · exact h.wellFormed attempt other hget
  · rcases hcases attempt other hget with ⟨heq, rfl⟩ | hget
    · exact heq
    · exact h.attempt attempt other hget
  · rcases hcases attempt other hget with ⟨-, rfl⟩ | hget
    · exact Nat.le_max_right _ _
    · exact Nat.le_trans (h.epoch attempt other hget) (Nat.le_max_left _ _)

theorem Ok.delete (h : Ok requestFingerprint workerId table)
    (attempt : PortableId × PortableId) : Ok requestFingerprint workerId (table.delete attempt) := by
  have hold : ∀ other record, (table.delete attempt).get other = some record →
      table.get other = some record := by
    intro other record hget
    rw [get_delete] at hget
    by_cases heq : other = attempt
    · rw [if_pos heq] at hget
      cases hget
    · rwa [if_neg heq] at hget
  exact ⟨fun other record hget => h.wellFormed other record (hold other record hget),
    fun other record hget => h.attempt other record (hold other record hget),
    fun other record hget => h.epoch other record (hold other record hget)⟩

def revisionOf (table : AttemptTable) (attempt : PortableId × PortableId) : JsString :=
  ((table.get attempt).map (·.revision)).getD (js "0")

theorem Ok.isRevision (h : Ok requestFingerprint workerId table)
    (attempt : PortableId × PortableId) : IsRevision (table.revisionOf attempt) := by
  rw [revisionOf]
  cases hget : table.get attempt with
  | none => exact isRevision_zero
  | some record => exact (h.wellFormed attempt record hget).revision

variable {stored : RemoteAttemptRecord} {condition : RemoteAttemptCommitCondition}

/-- **A commit that stores something** met the expected revision, and raises it by one. -/
theorem Ok.commit_some (h : Ok requestFingerprint workerId table)
    (hrecord : AttemptStores.WellFormed requestFingerprint workerId record)
    (hcommit : table.commit record condition = .ok (some stored)) :
    (table.get record.attempt).map (·.revision) = condition.expectedRevision ∧
      AttemptStores.WellFormed requestFingerprint workerId stored ∧
      stored = { record with revision := stored.revision } ∧
      number stored.revision = number (table.revisionOf record.attempt) + 1 := by
  unfold commit at hcommit
  dsimp only at hcommit
  split at hcommit
  · cases hcommit
  next hmet =>
  rw [bind_eq_ok] at hcommit
  obtain ⟨revision, hincrement, hstored⟩ := hcommit
  rw [pure_eq_ok] at hstored
  obtain rfl := some.inj hstored
  obtain ⟨hrevision, hnumber⟩ := incrementRevision_ok (h.isRevision record.attempt) hincrement
  rw [not_or, not_not] at hmet
  exact ⟨hmet.1, hrecord.withRevision hrevision, rfl, hnumber⟩

theorem Ok.apply (h : Ok requestFingerprint workerId table) {call : AttemptCall}
    (hcall : call.WellFormed requestFingerprint workerId) :
    Ok requestFingerprint workerId (table.apply call).2 := by
  cases call with
  | save record => exact h.store hcall
  | commit record condition =>
    unfold AttemptTable.apply
    dsimp only
    split
    · exact h
    · exact h
    · next stored hcommit => exact h.store (h.commit_some hcall.1 hcommit).2.1
  | delete taskId attemptId => exact h.delete _
  | load taskId attemptId => exact h
  | recover limit =>
    unfold AttemptTable.apply
    dsimp only
    split
    · exact h
    · exact h

theorem Ok.mem_active (h : Ok requestFingerprint workerId table) :
    record ∈ table.active ↔ table.get record.attempt = some record ∧ record.state ≠ .expired := by
  rw [active, mem_filter, List.mem_map, decide_eq_true_eq]
  refine and_congr_left' ?_
  constructor
  · rintro ⟨⟨attempt, other⟩, hentry, rfl⟩
    have hget : table.get attempt = some other := mem_lookup_iff.mpr hentry
    rwa [h.attempt attempt other hget] at hget
  · intro hget
    exact ⟨⟨record.attempt, record⟩, mem_lookup_iff.mp hget, rfl⟩

theorem Ok.nodup_active (h : Ok requestFingerprint workerId table) :
    (table.active.map (·.attempt)).Nodup := by
  have hkeys : (table.records.entries.map (·.2)).map (·.attempt) = table.records.keys := by
    rw [List.map_map]
    apply map_congr_left
    rintro ⟨attempt, record⟩ hentry
    exact (h.attempt attempt record (mem_lookup_iff.mpr hentry)).symm
  have hall : ((table.records.entries.map (·.2)).map (·.attempt)).Nodup := by
    rw [hkeys]
    exact table.records.nodupKeys
  exact hall.sublist (filter_sublist.map _)

/-! ## What holds from call to call -/

def Above (table : AttemptTable) (attempt : PortableId × PortableId) (n : Nat) : Prop :=
  ∃ record, table.get attempt = some record ∧ n < number record.revision

theorem Ok.above_apply (h : Ok requestFingerprint workerId table) {call : AttemptCall}
    (hcall : call.WellFormed requestFingerprint workerId) {attempt : PortableId × PortableId}
    (hresets : ¬call.Resets attempt) {n : Nat} (habove : table.Above attempt n) :
    (table.apply call).2.Above attempt n := by
  obtain ⟨record, hget, hn⟩ := habove
  cases call with
  | save saved =>
    refine ⟨record, ?_, hn⟩
    show (table.store saved).get attempt = some record
    rw [get_store, if_neg (fun heq => hresets heq.symm), hget]
  | commit committed condition =>
    unfold AttemptTable.apply
    dsimp only
    split
    · exact ⟨record, hget, hn⟩
    · exact ⟨record, hget, hn⟩
    · next stored hcommit =>
      obtain ⟨-, -, hstored, hnumber⟩ := h.commit_some hcall.1 hcommit
      have hattempt : stored.attempt = committed.attempt := by rw [hstored]; rfl
      by_cases heq : attempt = committed.attempt
      · refine ⟨stored, ?_, ?_⟩
        · rw [get_store, if_pos (heq.trans hattempt.symm)]
        · rw [hnumber, revisionOf, ← heq, hget]
          exact Nat.lt_succ_of_lt hn
      · refine ⟨record, ?_, hn⟩
        rw [get_store, if_neg (fun hstored => heq (hstored.trans hattempt)), hget]
  | delete taskId attemptId =>
    refine ⟨record, ?_, hn⟩
    show (table.delete (taskId, attemptId)).get attempt = some record
    rw [get_delete, if_neg (fun heq => hresets heq.symm), hget]
  | load taskId attemptId => exact ⟨record, hget, hn⟩
  | recover limit =>
    unfold AttemptTable.apply
    dsimp only
    split <;> exact ⟨record, hget, hn⟩

theorem Ok.after (h : Ok requestFingerprint workerId table) {calls : List AttemptCall}
    (hcalls : ∀ call ∈ calls, call.WellFormed requestFingerprint workerId) :
    Ok requestFingerprint workerId (table.after calls) := by
  induction calls generalizing table with
  | nil => exact h
  | cons call calls ih =>
    exact ih (h.apply (hcalls call mem_cons_self)) fun other hother =>
      hcalls other (mem_cons_of_mem _ hother)

theorem Ok.above_after (h : Ok requestFingerprint workerId table) {calls : List AttemptCall}
    (hcalls : ∀ call ∈ calls, call.WellFormed requestFingerprint workerId)
    {attempt : PortableId × PortableId} (hresets : ∀ call ∈ calls, ¬call.Resets attempt) {n : Nat}
    (habove : table.Above attempt n) : (table.after calls).Above attempt n := by
  induction calls generalizing table with
  | nil => exact habove
  | cons call calls ih =>
    have hcall := hcalls call mem_cons_self
    exact ih (h.apply hcall) (fun other hother => hcalls other (mem_cons_of_mem _ hother))
      (fun other hother => hresets other (mem_cons_of_mem _ hother))
      (h.above_apply hcall (hresets call mem_cons_self) habove)

theorem Ok.above_of_commit (h : Ok requestFingerprint workerId table)

    (hrecord : AttemptStores.WellFormed requestFingerprint workerId record)
    (hcommit : table.commit record condition = .ok (some stored)) :
    (table.store stored).Above record.attempt (condition.expectedRevision.elim 0 number) := by
  obtain ⟨hmet, -, hstored, hnumber⟩ := h.commit_some hrecord hcommit
  refine ⟨stored, ?_, ?_⟩
  · have hattempt : record.attempt = stored.attempt := by rw [hstored]; rfl
    rw [get_store, if_pos hattempt]
  · rw [hnumber, revisionOf, hmet]
    cases condition.expectedRevision with
    | none => exact Nat.succ_pos _
    | some text => exact Nat.lt_succ_self _

theorem Above.commit_ne
    (habove : table.Above record.attempt (condition.expectedRevision.elim 0 number)) :
    table.commit record condition ≠ .ok (some stored) := by
  intro hcommit
  obtain ⟨current, hget, hn⟩ := habove
  unfold commit at hcommit
  dsimp only at hcommit
  split at hcommit
  · cases hcommit
  next hmet =>
  rw [not_or, not_not, hget] at hmet
  rw [← hmet.1] at hn
  exact Nat.lt_irrefl _ hn

end AttemptTable

end AttemptStores

end TegoNext
