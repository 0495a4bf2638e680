/-
The stores that attempts of a remote executor are kept in.

`MemoryRemoteAttemptStore` of `transport-websocket/src/remote-protocol.ts` has three maps: the
records, those of them that have not expired, and the highest session epoch of each worker.
`StateRemoteAttemptStore` of `cli/src/runtime/remote-attempt-store.ts` keeps the same three in
collections of a state store, for one worker; each of its calls is a transaction.
-/
import TegoNext.AtomicStateStore
import TegoNext.JsMap
import TegoNext.WorkerRuntime

set_option autoImplicit false

namespace TegoNext

open Text

namespace AttemptStores

/-! ## Records -/

structure RemoteAttemptRecord where
  workerId : PortableId
  request : RemoteRequest
  fingerprint : JsString
  state : RemoteAttemptState
  epoch : JsString
  updatedAt : JsString
  result : Option RemoteResult
  acknowledgedAt : Option JsString
  cancellation : Option CancellationCause
  revision : JsString
  deriving DecidableEq

/-- `expectedRevision` is `null`, or `expectedEpoch` is missing, if it is none. -/
structure RemoteAttemptCommitCondition where
  expectedRevision : Option JsString
  expectedEpoch : Option JsString

/-- What the stores throw of their own: a `RemoteAttemptRevisionError`, another `RangeError`, or
an `Error`. -/
inductive AttemptStoreError where
  | revision (message : String)
  | range (message : String)
  | error (message : String)
  deriving DecidableEq

def maximumUnsigned64 : Nat := 18446744073709551615

/-- `BigInt(text)` -/
def number (text : JsString) : Nat := (digits text).getD 0

def parseAttemptRevision (revision : JsString) : Except AttemptStoreError JsString :=
  if isNumeric revision = false then
    .error (.revision "Remote attempt revision is not a valid unsigned 64-bit decimal string")
  else if maximumUnsigned64 < number revision then
    .error (.revision "Remote attempt revision exceeds the unsigned 64-bit limit")
  else .ok revision

def incrementRevision (revision : JsString) : Except AttemptStoreError JsString := do
  let current ← parseAttemptRevision revision
  if number current = maximumUnsigned64 then
    .error (.revision "Remote attempt revision exhausted its unsigned 64-bit range")
  else .ok (decimal (number current + 1))

def otherEpoch (current : Option RemoteAttemptRecord) (condition : RemoteAttemptCommitCondition) :
    Bool :=
  condition.expectedEpoch.any fun epoch => current.any fun record => record.epoch ≠ epoch

/-- A limit that is no integer fails the test of the limit like any other that is not
positive. -/
def assertRecoveryLimit (limit : Int) : Except AttemptStoreError Nat :=
  if 0 < limit ∧ limit ≤ maxSafeInteger then .ok limit.toNat
  else .error (.range "Remote attempt recovery limit must be a positive safe integer")

/-! ## `MemoryRemoteAttemptStore` -/

structure MemoryRemoteAttemptStore where
  activeRecords : JsMap JsString RemoteAttemptRecord
  highestEpochs : JsMap PortableId Nat
  records : JsMap JsString RemoteAttemptRecord

namespace MemoryRemoteAttemptStore

def new : MemoryRemoteAttemptStore := ⟨.empty, .empty, .empty⟩

variable (store : MemoryRemoteAttemptStore)

/-- `#storeSnapshot`. The epoch is read after the maps are set. -/
def storeSnapshot (key : JsString)
    (snapshot : RemoteAttemptRecord) : Except AttemptStoreError Unit × MemoryRemoteAttemptStore :=
  let store := { store with
    records := store.records.set key snapshot
    activeRecords := if snapshot.state = .expired then store.activeRecords.delete key
      else store.activeRecords.set key snapshot }
  match parseAttemptRevision snapshot.epoch with
  | .error e => (.error e, store)
  | .ok epoch =>
    let highestEpoch := (store.highestEpochs.get snapshot.workerId).getD 0
    (.ok (), if highestEpoch < number epoch then
        { store with highestEpochs := store.highestEpochs.set snapshot.workerId (number epoch) }
      else store)

def save (record : RemoteAttemptRecord) :
    Except AttemptStoreError Unit × MemoryRemoteAttemptStore :=
  match parseAttemptRevision record.revision with
  | .error e => (.error e, store)
  | .ok revision =>
    store.storeSnapshot record.request.key { record with revision := revision }

/-- The test in front of a commit. -/
def refuses (current : Option RemoteAttemptRecord) (condition : RemoteAttemptCommitCondition) :
    Except AttemptStoreError Bool :=
  match condition.expectedRevision, current with
  | none, none => .ok false
  | none, some _ => .ok true
  | some _, none => .ok true
  | some expectedRevision, some record => do
    let currentRevision ← parseAttemptRevision record.revision
    let expectedRevision ← parseAttemptRevision expectedRevision
    if currentRevision ≠ expectedRevision then .ok true
    else .ok (otherEpoch (some record) condition)

def commit (record : RemoteAttemptRecord) (condition : RemoteAttemptCommitCondition) :
    Except AttemptStoreError (Option RemoteAttemptRecord) × MemoryRemoteAttemptStore :=
  let key := record.request.key
  let current := store.records.get key
  let prepared : Except AttemptStoreError (Option RemoteAttemptRecord) := do
    let _ ← parseAttemptRevision record.revision
    if ← refuses current condition then pure none
    else do
      let revision ← incrementRevision ((current.map (·.revision)).getD (js "0"))
      pure (some { record with revision := revision })
  match prepared with
  | .error e => (.error e, store)
  | .ok none => (.ok none, store)
  | .ok (some snapshot) =>
    match store.storeSnapshot key snapshot with
    | (.error e, store) => (.error e, store)
    | (.ok _, store) => (.ok (some snapshot), store)

def load (taskId attemptId : PortableId) :
    Option RemoteAttemptRecord := store.records.get (attemptKey taskId attemptId)

def delete (taskId attemptId : PortableId) : MemoryRemoteAttemptStore :=
  let key := attemptKey taskId attemptId
  { store with
    records := store.records.delete key
    activeRecords := store.activeRecords.delete key }

/-- `recover`; an epoch is written with `toString`. -/
def recover (workerId : PortableId) (limit : Int) :
    Except AttemptStoreError (JsString × List RemoteAttemptRecord) := do
  let limit ← assertRecoveryLimit limit
  let records := (store.activeRecords.entries.map (·.2)).filter (·.workerId = workerId)
  pure (decimal ((store.highestEpochs.get workerId).getD 0), records.take limit)

end MemoryRemoteAttemptStore

/-! ## What `StateRemoteAttemptStore` keeps -/

structure WorkerAttemptMetadata where
  highestEpoch : JsString
  workerId : PortableId
  deriving DecidableEq

/-- The values of the collections. Any other JSON value is known by what it is refused with when
an attempt, or metadata, is expected. -/
inductive PersistedValue where
  | attempt (record : RemoteAttemptRecord)
  | metadata (metadata : WorkerAttemptMetadata)
  | other (attemptError metadataError : String)
  deriving DecidableEq

/-- `if (wrong) throw new Error(message)` -/
def refuseIf (wrong : Prop) [Decidable wrong] (message : String) : Except AttemptStoreError Unit :=
  if wrong then .error (.error message) else .ok ()

def parseAttemptMetadata (value : PersistedValue) (workerId : PortableId) :
    Except AttemptStoreError WorkerAttemptMetadata :=
  match value with
  | .attempt _ => .error (.error "Persisted Worker attempt metadata fields are invalid")
  | .other _ metadataError => .error (.error metadataError)
  | .metadata fields => do
    refuseIf (fields.workerId ≠ workerId)
      "Persisted Worker attempt metadata belongs to a different Worker"
    let highestEpoch ← parseAttemptRevision fields.highestEpoch
    pure ⟨highestEpoch, fields.workerId⟩

def attemptStateId (workerId taskId attemptId : PortableId) : JsString :=
  workerId.text ++ 58 :: attemptKey taskId attemptId

def parseAttemptTimestamp (value : JsString) (field : String) : Except AttemptStoreError JsString :=
  if JsDate.validTimestamp value = false then
    .error (.error ("Persisted Worker attempt " ++ field ++ " is invalid"))
  else .ok value

structure AttemptExpectation where
  expectedAttemptId : Option PortableId
  expectedStateId : JsString
  expectedTaskId : Option PortableId
  workerId : PortableId

section Parse

variable (requestFingerprint : RemoteRequest → JsString)

/-- `parsePersistedAttempt` of a record. -/
def checkPersistedAttempt (fields : RemoteAttemptRecord) (options : AttemptExpectation) :
    Except AttemptStoreError RemoteAttemptRecord := do
  refuseIf (fields.workerId ≠ options.workerId)
    "Persisted Worker attempt belongs to a different Worker"
  let request := fields.request
  refuseIf (options.expectedTaskId.any (request.taskId ≠ ·) = true ∨
      options.expectedAttemptId.any (request.attemptId ≠ ·) = true ∨
      attemptStateId fields.workerId request.taskId request.attemptId ≠ options.expectedStateId)
    "Persisted Worker attempt identity does not match its state key"
  refuseIf (fields.fingerprint ≠ requestFingerprint request)
    "Persisted Worker attempt fingerprint does not match its request"
  let epoch ← parseAttemptRevision fields.epoch
  let revision ← parseAttemptRevision fields.revision
  let updatedAt ← parseAttemptTimestamp fields.updatedAt "updatedAt"
  refuseIf (fields.result.any (fun result => result.taskId ≠ request.taskId ∨
      result.attemptId ≠ request.attemptId) = true)
    "Persisted Worker attempt result identity does not match its request"
  refuseIf ((fields.state = .terminal ∧ fields.result = none) ∨
      (fields.state ≠ .terminal ∧ fields.state ≠ .expired ∧ fields.result ≠ none))
    "Persisted Worker attempt state and result are inconsistent"
  let acknowledgedAt ← fields.acknowledgedAt.mapM (parseAttemptTimestamp · "acknowledgedAt")
  refuseIf (acknowledgedAt ≠ none ∧ fields.state ≠ .terminal ∧ fields.state ≠ .expired)
    "Persisted Worker attempt acknowledgement state is invalid"
  pure { fields with
    epoch := epoch
    revision := revision
    updatedAt := updatedAt
    acknowledgedAt := acknowledgedAt }

def parsePersistedAttempt (value : PersistedValue) (options : AttemptExpectation) :
    Except AttemptStoreError RemoteAttemptRecord :=
  match value with
  | .attempt fields => checkPersistedAttempt requestFingerprint fields options
  | .metadata _ => .error (.error "Persisted Worker attempt contains an unknown field")
  | .other attemptError _ => .error (.error attemptError)

end Parse

/-! ## `StateRemoteAttemptStore` -/

def WORKER_ATTEMPT_COLLECTION : String := "worker-attempts"
def WORKER_ACTIVE_ATTEMPT_COLLECTION : String := "worker-active-attempts"
def WORKER_ATTEMPT_METADATA_COLLECTION : String := "worker-attempt-metadata"

/-- A store without fencing. -/
structure StateRemoteAttemptStore where
  state : AtomicStateStore PersistedValue
  workerId : PortableId
  requestFingerprint : RemoteRequest → JsString

abbrev Failure : Type := CallFailure AttemptStoreError

abbrev AttemptCode (α : Type) : Type := TransactionCode PersistedValue AttemptStoreError α

/-- What is thrown while a call runs. -/
def raised {α : Type} : Except AttemptStoreError α → Except Failure α
  | .ok a => .ok a
  | .error e => .error (.thrown e)

/-- Code of the call that may throw. -/
def checked {α : Type} (outcome : Except AttemptStoreError α) : AttemptCode α :=
  TransactionCode.ofExcept (raised outcome)

namespace StateRemoteAttemptStore

variable (store : StateRemoteAttemptStore)

variable (state : store.state.State) (taskId attemptId : PortableId)

def key : StateKey :=
  ⟨js "tego", js WORKER_ATTEMPT_COLLECTION, attemptStateId store.workerId taskId attemptId⟩

def activeKey : StateKey :=
  ⟨js "tego", js WORKER_ACTIVE_ATTEMPT_COLLECTION, attemptStateId store.workerId taskId attemptId⟩

def metadataKey : StateKey :=
  ⟨js "tego", js WORKER_ATTEMPT_METADATA_COLLECTION, store.workerId.text⟩

def assertWorker (workerId : PortableId) : Except AttemptStoreError Unit :=
  refuseIf (workerId ≠ store.workerId) "Remote attempt record belongs to a different Worker"

/-- What the record of an attempt is checked against. -/
def expectation : AttemptExpectation where
  expectedAttemptId := some attemptId
  expectedStateId := (store.key taskId attemptId).id
  expectedTaskId := some taskId
  workerId := store.workerId

def parse (value : PersistedValue) (taskId attemptId : PortableId) :
    Except AttemptStoreError RemoteAttemptRecord :=
  parsePersistedAttempt store.requestFingerprint value (store.expectation taskId attemptId)

/-- The epoch that the metadata has, `0` if there is none. -/
def highestEpochOf (metadata : Option (StoredRecord PersistedValue)) :
    Except AttemptStoreError JsString :=
  match metadata with
  | none => .ok (js "0")
  | some record => do
    let metadata ← parseAttemptMetadata record.value store.workerId
    pure metadata.highestEpoch

def deleteFound (key : StateKey) (current : Option (StoredRecord PersistedValue)) :
    AttemptCode Unit :=
  match current with
  | none => pure ()
  | some record => TransactionCode.delete key (.revision record.revision)

/-- `#writeRecoveryState`, as far as the active attempts go. -/
def writeActive (snapshot : RemoteAttemptRecord) : AttemptCode Unit := do
  let activeKey := store.activeKey snapshot.request.taskId snapshot.request.attemptId
  let active ← TransactionCode.get activeKey
  if snapshot.state = .expired then deleteFound activeKey active
  else TransactionCode.put activeKey (.attempt snapshot) (expectedOf active)

/-- The rest of `#writeRecoveryState`. -/
def writeMetadata (snapshot : RemoteAttemptRecord) : AttemptCode Unit := do
  let currentMetadata ← TransactionCode.get store.metadataKey
  let highestEpoch ← checked (store.highestEpochOf currentMetadata)
  if number highestEpoch < number snapshot.epoch then
    TransactionCode.put store.metadataKey (.metadata ⟨snapshot.epoch, store.workerId⟩)
      (expectedOf currentMetadata)
  else pure ()

/-- The body of the transaction of `save`. -/
def saveCode (key : StateKey) (snapshot : RemoteAttemptRecord) : AttemptCode Unit := do
  let current ← TransactionCode.get key
  TransactionCode.put key (.attempt snapshot) (expectedOf current)
  store.writeActive snapshot
  store.writeMetadata snapshot

def save (record : RemoteAttemptRecord) : Except Failure Unit × store.state.State :=
  let request := record.request
  let prepared : Except AttemptStoreError RemoteAttemptRecord := do
    store.assertWorker record.workerId
    store.parse (.attempt record) request.taskId request.attemptId
  match prepared with
  | .error e => (.error (.thrown e), state)
  | .ok snapshot =>
    store.state.transact state (store.saveCode (store.key request.taskId request.attemptId) snapshot)

/-- The body of the transaction of `commit`. -/
def commitCode (key : StateKey) (validated : RemoteAttemptRecord)
    (condition : RemoteAttemptCommitCondition) : AttemptCode (Option RemoteAttemptRecord) := do
  let request := validated.request
  let current ← TransactionCode.get key
  let currentRecord ← checked (current.mapM fun record =>
    store.parse record.value request.taskId request.attemptId)
  if (condition.expectedRevision = none ∧ current.isSome) ∨
      (condition.expectedRevision ≠ none ∧
        currentRecord.map (·.revision) ≠ condition.expectedRevision) ∨
      otherEpoch currentRecord condition = true then
    pure none
  else
    let revision ← checked (incrementRevision ((currentRecord.map (·.revision)).getD (js "0")))
    let snapshot := { validated with revision := revision }
    TransactionCode.put key (.attempt snapshot) (expectedOf current)
    store.writeActive snapshot
    store.writeMetadata snapshot
    pure (some snapshot)

def commit (record : RemoteAttemptRecord) (condition : RemoteAttemptCommitCondition) :
    Except Failure (Option RemoteAttemptRecord) × store.state.State :=
  let request := record.request
  let prepared : Except AttemptStoreError RemoteAttemptRecord := do
    store.assertWorker record.workerId
    let validated ← store.parse (.attempt record) request.taskId request.attemptId
    let _ ← condition.expectedRevision.mapM parseAttemptRevision
    let _ ← condition.expectedEpoch.mapM parseAttemptRevision
    pure validated
  match prepared with
  | .error e => (.error (.thrown e), state)
  | .ok validated => store.state.transact state
      (store.commitCode (store.key request.taskId request.attemptId) validated condition)

def deleteKey (key : StateKey) : AttemptCode Unit := do
  let current ← TransactionCode.get key
  deleteFound key current

def delete : Except Failure Unit × store.state.State :=
  store.state.transact state do
    deleteKey (store.key taskId attemptId)
    deleteKey (store.activeKey taskId attemptId)

/-- `load`; the read is outside a transaction. -/
def load : Except Failure (Option RemoteAttemptRecord) :=
  let key := store.key taskId attemptId
  match assertStateKey key false with
  | .error e => .error (.state e)
  | .ok _ =>
    raised (((store.state.records state).lookup key).mapM fun record =>
      store.parse record.value taskId attemptId)

/-- What `recover` has found so far. -/
structure Recovered where
  highestEpoch : JsString
  records : List RemoteAttemptRecord
  afterId : Option JsString

/-- The body of the loop over a page. -/
def collect (found : Recovered) (record : ScannedState PersistedValue) :
    Except AttemptStoreError Recovered := do
  let parsed ← parsePersistedAttempt store.requestFingerprint record.value
    ⟨none, record.key.id, none, store.workerId⟩
  refuseIf (parsed.state = .expired) "Active Worker attempt index contains an expired tombstone"
  pure
    { highestEpoch := if number found.highestEpoch < number parsed.epoch then parsed.epoch
        else found.highestEpoch
      records := found.records ++ [parsed]
      afterId := some record.key.id }

def activeQuery (afterId : Option JsString) (limit : Nat) : StateQuery where
  nspace := js "tego"
  collection := js WORKER_ACTIVE_ATTEMPT_COLLECTION
  idPrefix := some (store.workerId.text ++ [58])
  afterId := afterId
  limit := some limit

/-- The loop over the pages; a round that does not end it finds at least one record. -/
def recoverPages (limit : Nat) : Nat → Recovered → AttemptCode Recovered
  | 0, found => pure found
  | rounds + 1, found => do
    if limit ≤ found.records.length then pure found
    else
      let pageLimit := min (limit - found.records.length) STATE_QUERY_MAX_LIMIT
      let page ← TransactionCode.scan (store.activeQuery found.afterId pageLimit)
      let found ← checked (page.foldlM store.collect found)
      if page.length < pageLimit then pure found
      else recoverPages limit rounds found

/-- The body of the transaction of `recover`. -/
def recoverCode (limit : Nat) : AttemptCode (JsString × List RemoteAttemptRecord) := do
  let metadata ← TransactionCode.get store.metadataKey
  let highestEpoch ← checked (store.highestEpochOf metadata)
  let found ← store.recoverPages limit limit ⟨highestEpoch, [], none⟩
  pure (found.highestEpoch, found.records)

def recover (workerId : PortableId) (limit : Int) :
    Except Failure (JsString × List RemoteAttemptRecord) × store.state.State :=
  if workerId ≠ store.workerId then (.ok (js "0", []), state)
  else
    match assertRecoveryLimit limit with
    | .error e => (.error (.thrown e), state)
    | .ok limit => store.state.transact state (store.recoverCode limit)

end StateRemoteAttemptStore

end AttemptStores

end TegoNext
