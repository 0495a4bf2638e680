/-
`MemoryStateStore`: the committed state, and what one job of the commit queue does to it.

Transactions, outbox claims and acknowledgements are jobs of a first-in first-out queue, and a job
runs to its end without interruption. A commit checks everything before it changes anything, so it
is an `Except` on whole stores. A claim does not: it returns the store it leaves behind in either
case, together with the claims it wrote.
-/
import TegoNext.MemoryTransaction

set_option autoImplicit false

namespace TegoNext

/-! ## The state -/

inductive StoreLifecycle where
  | closed
  | created
  | open
  deriving DecidableEq

structure IdempotencyIdentity where
  key : JsString
  fingerprint : JsString
  deriving DecidableEq

structure IdempotencyRecord (V : Type) where
  fingerprint : JsString
  result : V

/-- An entry of the in-flight table; the promise is named by the call that owns
it. -/
structure InFlightRecord where
  fingerprint : JsString
  result : Nat
  deriving DecidableEq

structure StoredOutboxMessage (V : Type) where
  message : OutboxMessage V
  enqueueSequence : Nat
  attempt : Nat
  claim : Option (OutboxClaim V)
  acknowledgement : Option OutboxAcknowledgement
  acknowledgedClaim : Option (OutboxClaim V)

abbrev Outbox (V : Type) : Type := AList fun _ : MessageId => StoredOutboxMessage V

structure MemoryStateStore (V : Type) where
  records : Records V
  operations : AList fun _ : OperationId => PersistedOperationJournalEntry V
  operationHistory : List (PersistedOperationJournalEntry V)
  outbox : Outbox V
  outboxSequence : Nat
  fences : AList fun _ : JsString => FencingEpoch
  changes : List (StateChange V)
  idempotency : AList fun _ : JsString => IdempotencyRecord V
  inFlightIdempotency : AList fun _ : JsString => InFlightRecord
  revision : Revision
  lifecycle : StoreLifecycle

/-! ## Argument checks -/

/-- `assertOutboxClaimRequest`; the result is the limit. -/
def assertOutboxClaimRequest (request : OutboxClaimRequest) : Except StateError Nat :=
  if !Text.isPortableName request.owner || request.topic.any (fun t => !Text.isPortableName t) ||
      request.leaseDurationMs ≤ 0 || 86400000 < request.leaseDurationMs ||
      request.limit.any (fun l => l ≤ 0 || 100 < l) then
    .error
      { code := .STATE_QUERY_INVALID
        message := "Outbox claim request is invalid"
        details := [("leaseDurationMs", .number request.leaseDurationMs),
          ("limit", .ofNumber request.limit), ("owner", .text request.owner),
          ("topic", .ofText request.topic)] }
  else .ok ((request.limit.getD 1).toNat)

def assertOutboxAcknowledgementRequest (request : OutboxAcknowledgementRequest) :
    Except StateError Unit :=
  if !Text.isPortableName request.owner ||
      (request.outcome == .retry && !request.retryAt.any JsDate.validTimestamp) ||
      (request.outcome == .completed && request.retryAt.isSome) then
    .error
      { code := .STATE_QUERY_INVALID
        message := "Outbox acknowledgement request is invalid"
        details := [("messageId", .text request.messageId),
          ("outcome", .literal (if request.outcome = .retry then "retry" else "completed")),
          ("owner", .text request.owner), ("retryAt", .ofText request.retryAt)] }
  else .ok ()

/-- `/^[A-Za-z0-9][A-Za-z0-9._-]*$/u`. -/
def isTopicName : JsString → Bool
  | [] => false
  | u :: rest => Text.isAlphanumeric u && rest.all Text.isNameUnit

def idempotencyIdentity (options : StateTransactionOptions) :
    Except StateError (Option IdempotencyIdentity) :=
  match options.idempotencyKey, options.idempotencyFingerprint with
  | none, none => .ok none
  | some (u :: key), some (v :: fingerprint) => .ok (some ⟨u :: key, v :: fingerprint⟩)
  | key, fingerprint =>
    .error
      { code := .STATE_IDEMPOTENCY_CONFLICT
        message := "Idempotent transactions require a non-empty key and fingerprint"
        details := [("idempotencyKey", .ofText key),
          ("idempotencyFingerprint", .ofText fingerprint)] }

section Messages

variable {V : Type} [WireValue V]

/-- `sameOutboxMessage`: neither timestamp counts. -/
def sameOutboxMessage (left right : OutboxMessage V) : Bool :=
  left.messageId == right.messageId && left.operationId == right.operationId &&
    left.topic == right.topic && decide (left.payload = right.payload)

def assertOutboxMessage (message : OutboxMessage V) : Except StateError Unit :=
  if OUTBOX_TOPIC_MAX_LENGTH < message.topic.length || !isTopicName message.topic ||
      OUTBOX_PAYLOAD_MAX_BYTES < WireValue.byteLength message.payload then
    .error
      { code := .STATE_DATA_INVALID
        message := "Outbox topic or payload exceeds the public contract boundary"
        details := [("messageId", .text message.messageId)] }
  else .ok ()

omit [WireValue V] in
/-- The timestamp check of a commit. -/
def assertOutboxTimestamps (message : OutboxMessage V) : Except StateError Unit :=
  if !JsDate.validTimestamp message.createdAt || !JsDate.validTimestamp message.availableAt then
    .error
      { code := .STATE_DATA_INVALID
        message := "Outbox timestamps must be canonical ISO timestamps"
        details := [("messageId", .text message.messageId)] }
  else .ok ()

def outboxIdentityReused (messageId : MessageId) : StateError where
  code := .STATE_IDEMPOTENCY_CONFLICT
  message := "Outbox message identity was reused with different content"
  details := [("messageId", .text messageId)]

end Messages

namespace MemoryStateStore

variable {V : Type}

def new : MemoryStateStore V where
  records := ∅
  operations := ∅
  operationHistory := []
  outbox := ∅
  outboxSequence := 0
  fences := ∅
  changes := []
  idempotency := ∅
  inFlightIdempotency := ∅
  revision := 0
  lifecycle := .created

variable (store : MemoryStateStore V) (identity : Option IdempotencyIdentity) (result : V)

def closedError : StateError where
  code := .STATE_CLOSED
  message := "Memory state store is closed"
  details := [("lifecycle", .literal (match store.lifecycle with
    | .closed => "closed"
    | .created => "created"
    | .open => "open"))]

def assertOpen : Except StateError Unit :=
  if store.lifecycle = .open then .ok () else .error store.closedError

def openStore : Except StateError (MemoryStateStore V) :=
  if store.lifecycle = .closed then .error store.closedError
  else .ok { store with lifecycle := .open }

def close : MemoryStateStore V := { store with lifecycle := .closed }

def read (key : StateKey) :
    Except StateError (Option (StoredRecord V)) := do
  store.assertOpen
  assertStateKey key false
  pure (store.records.lookup key)

def scan (query : StateQuery) :
    Except StateError (List (ScannedState V)) := do
  store.assertOpen
  assertStateQuery query
  pure (scanRecords store.records query)

/-- The changes a new watcher starts with. -/
def watch (cursor : Revision) :
    Except StateError (List (StateChange V)) := do
  store.assertOpen
  pure (store.changes.filter fun change => cursor < change.revision)

/-! ## Fences -/

/-- `assertFence`: whether the presented epoch advances the fence. -/
def assertFence : Option StateFencing → Except StateError Bool
  | none => .ok false
  | some fencing =>
    match store.fences.lookup fencing.resource with
    | none => .ok true
    | some currentEpoch =>
      if fencing.epoch < currentEpoch then
        .error
          { code := .STATE_FENCE_STALE
            message := "State transaction fencing epoch is stale"
            details := [("resource", .text fencing.resource),
              ("requestedEpoch", .number fencing.epoch), ("currentEpoch", .number currentEpoch)] }
      else .ok (decide (currentEpoch < fencing.epoch))

def advanceFence : Option StateFencing → MemoryStateStore V
  | none => store
  | some fencing => { store with fences := store.fences.insert fencing.resource fencing.epoch }

@[simp] theorem advanceFence_outbox (fencing : Option StateFencing) :
    (store.advanceFence fencing).outbox = store.outbox := by
  cases fencing <;> rfl

/-! ## The commit of a transaction -/

/-- The error of a mutation whose expectation is not met. -/
def revisionConflict (key : StateKey) (expected : ExpectedRevision)
    (current : Option (StoredRecord V)) : StateError where
  code := .STATE_REVISION_CONFLICT
  message := "State record revision does not match"
  details := [("key", .key key), ("expectedRevision", .ofExpected expected),
    ("actualRevision", .ofNat (current.map (·.revision)))]

/-- The loop over the staged mutations; it collects those that change something. -/
def applyMutations (nextRecords : Records V) (applied : List (Sigma fun _ : StateKey => Mutation V)) :
    List (Sigma fun _ : StateKey => Mutation V) →
      Except StateError (Records V × List (Sigma fun _ : StateKey => Mutation V))
  | [] => .ok (nextRecords, applied)
  | ⟨key, mutation⟩ :: rest =>
    let current := nextRecords.lookup key
    if matchesExpectedRevision current mutation.expectedRevision then
      match mutation with
      | .delete _ =>
        if current.isSome then
          applyMutations (nextRecords.erase key) (applied ++ [⟨key, mutation⟩]) rest
        else applyMutations nextRecords applied rest
      | .put _ _ => applyMutations nextRecords (applied ++ [⟨key, mutation⟩]) rest
    else .error (revisionConflict key mutation.expectedRevision current)

/-- The loop over the staged outbox messages: the ones that create an entry, in
order. An entry whose last acknowledgement was a retry is created anew. -/
def stageOutbox [WireValue V] (outbox : Outbox V) (newOutbox : List (OutboxMessage V)) :
    List (OutboxMessage V) → Except StateError (List (OutboxMessage V))
  | [] => .ok newOutbox
  | message :: rest => do
    assertOutboxMessage message
    assertOutboxTimestamps message
    match newOutbox.find? fun staged => staged.messageId == message.messageId with
    | some stagedExisting =>
      if sameOutboxMessage stagedExisting message then stageOutbox outbox newOutbox rest
      else .error (outboxIdentityReused message.messageId)
    | none =>
      match outbox.lookup message.messageId with
      | none => stageOutbox outbox (newOutbox ++ [message]) rest
      | some existing =>
        if existing.acknowledgement.any fun a => a.outcome == .retry then
          stageOutbox outbox (newOutbox ++ [message]) rest
        else if sameOutboxMessage existing.message message then stageOutbox outbox newOutbox rest
        else .error (outboxIdentityReused message.messageId)

/-- A put under its key at the revision of the commit; deletions are already
applied. -/
def putRecord (revision : Revision) (records : Records V)
    (entry : Sigma fun _ : StateKey => Mutation V) : Records V :=
  match entry.2 with
  | .put value _ => records.insert entry.1 ⟨value, revision⟩
  | .delete _ => records

/-- The entry a commit creates for an enqueued message. -/
def enqueued (message : OutboxMessage V) (sequence : Nat) : StoredOutboxMessage V where
  message := message
  enqueueSequence := sequence
  attempt := 0
  claim := none
  acknowledgement := none
  acknowledgedClaim := none

/-- Create the entries of `messages`, numbering on from `sequence`. -/
def insertOutbox (outbox : Outbox V) (sequence : Nat) : List (OutboxMessage V) → Outbox V
  | [] => outbox
  | message :: rest =>
    insertOutbox (outbox.insert message.messageId (enqueued message (sequence + 1)))
      (sequence + 1) rest

def change (revision : Revision) (entry : Sigma fun _ : StateKey => Mutation V) : StateChange V where
  revision := revision
  key := entry.1
  value := match entry.2 with
    | .put value _ => some value
    | .delete _ => none

def assertIdempotencyFingerprint (identity : IdempotencyIdentity) (committed : JsString) :
    Except StateError Unit :=
  if identity.fingerprint ≠ committed then
    .error
      { code := .STATE_IDEMPOTENCY_CONFLICT
        message := "Idempotency key was already used for a different transaction"
        details := [("idempotencyKey", .text identity.key),
          ("requestedFingerprint", .text identity.fingerprint),
          ("committedFingerprint", .text committed)] }
  else .ok ()

/-- The part of a commit that writes, once every check has passed. -/
def publish (nextRecords : Records V) (applied : List (Sigma fun _ : StateKey => Mutation V))
    (operations : List (OperationJournalEntry V)) (newOutbox : List (OutboxMessage V))
    (fencing : Option StateFencing) (advancesFence : Bool) : MemoryStateStore V :=
  let revision := store.revision + 1
  let persisted := operations.map fun entry => { entry with revision := revision }
  { store with
    records := applied.foldl (putRecord revision) nextRecords
    operationHistory := store.operationHistory ++ persisted
    operations := persisted.foldl (fun ops entry => ops.insert entry.operationId entry)
      store.operations
    outbox := insertOutbox store.outbox store.outboxSequence newOutbox
    outboxSequence := store.outboxSequence + newOutbox.length
    fences := if advancesFence then (store.advanceFence fencing).fences else store.fences
    changes := store.changes ++ applied.map (change revision)
    revision := revision }

def remember : MemoryStateStore V :=
  match identity with
  | none => store
  | some identity =>
    { store with
      idempotency := store.idempotency.insert identity.key ⟨identity.fingerprint, result⟩ }

@[simp] theorem remember_records : (store.remember identity result).records = store.records := by
  cases identity <;> rfl

@[simp] theorem remember_outbox : (store.remember identity result).outbox = store.outbox := by
  cases identity <;> rfl

@[simp] theorem remember_fences : (store.remember identity result).fences = store.fences := by
  cases identity <;> rfl

@[simp] theorem remember_revision : (store.remember identity result).revision = store.revision := by
  cases identity <;> rfl

@[simp] theorem remember_lifecycle : (store.remember identity result).lifecycle = store.lifecycle := by
  cases identity <;> rfl

def commit [WireValue V] (store : MemoryStateStore V) (fencing : Option StateFencing)
    (identity : Option IdempotencyIdentity) (staged : StagedTransaction V) (result : V) :
    Except StateError (MemoryStateStore V) := do
  store.assertOpen
  let (nextRecords, applied) ← applyMutations store.records [] staged.mutations
  let newOutbox ← stageOutbox store.outbox [] staged.outbox
  let advancesFence ← store.assertFence fencing
  let mutates := !applied.isEmpty || !staged.operations.isEmpty || !newOutbox.isEmpty ||
    advancesFence
  let published := if mutates then
      store.publish nextRecords applied staged.operations newOutbox fencing advancesFence
    else store
  pure (published.remember identity result)

/-! ## Claiming from the outbox -/

def claimOrder (left right : StoredOutboxMessage V) : Bool :=
  ((Text.compareText left.message.availableAt right.message.availableAt).then
    ((compare left.enqueueSequence right.enqueueSequence).then
      (Text.compareText left.message.messageId right.message.messageId))) ≠ .gt

def claimable (request : OutboxClaimRequest) (now : JsDate.Instant)
    (record : StoredOutboxMessage V) : Bool :=
  !(record.acknowledgement.any (fun a => a.outcome == .completed) ||
    request.topic.any (fun t => record.message.topic != t) ||
    (JsDate.parse record.message.availableAt).any (fun at' => now.ms < at') ||
    record.claim.any (fun c => now.ms < c.expiresAt.ms))

def attemptOverflow (messageId : MessageId) : StateError where
  code := .STATE_DATA_INVALID
  message := "Outbox delivery attempt exceeds the safe integer range"
  details := [("messageId", .text messageId)]

def claimOf (request : OutboxClaimRequest) (now expiresAt : JsDate.Instant)
    (record : StoredOutboxMessage V) : OutboxClaim V where
  message := record.message
  owner := request.owner
  claimEpoch := record.attempt + 1
  attempt := record.attempt + 1
  claimedAt := now
  expiresAt := expiresAt

def claimedRecord (record : StoredOutboxMessage V) (claim : OutboxClaim V) :
    StoredOutboxMessage V :=
  { record with
    attempt := claim.attempt, claim := some claim, acknowledgement := none,
    acknowledgedClaim := none }

/-- What the loop of a claim leaves behind: the outbox, the claims it wrote, and
the error it stopped with. -/
structure ClaimScan (V : Type) where
  outbox : Outbox V
  claimed : List (OutboxClaim V)
  failure : Option Rejection

/-- The loop of a claim over the sorted entries, `limit` claims still to go. -/
def claimScan (request : OutboxClaimRequest) (now : JsDate.Instant) (outbox : Outbox V) :
    Nat → List (Sigma fun _ : MessageId => StoredOutboxMessage V) → ClaimScan V
  | _, [] => ⟨outbox, [], none⟩
  | limit, ⟨messageId, record⟩ :: rest =>
    if claimable request now record then
      if maxSafeInteger < record.attempt + 1 then
        ⟨outbox, [], some (.state (attemptOverflow record.message.messageId))⟩
      else
        match now.add? request.leaseDurationMs with
        | none => ⟨outbox, [], some .rangeError⟩
        | some expiresAt =>
          let claim := claimOf request now expiresAt record
          let outbox := outbox.insert messageId (claimedRecord record claim)
          if limit ≤ 1 then ⟨outbox, [claim], none⟩
          else
            let scan := claimScan request now outbox (limit - 1) rest
            { scan with claimed := claim :: scan.claimed }
    else claimScan request now outbox limit rest

def sortedOutbox : List (Sigma fun _ : MessageId => StoredOutboxMessage V) :=
  store.outbox.entries.insertionSort fun left right => claimOrder left.2 right.2

def claimRun (request : OutboxClaimRequest) (limit : Nat) (now : JsDate.Instant) : ClaimScan V :=
  claimScan request now store.outbox limit store.sortedOutbox

/-- The job of `claimOutbox`: the outcome, the store, and all claims it wrote. -/
def claimOutbox (request : OutboxClaimRequest) (limit : Nat) (now : JsDate.Instant) :
    Except Rejection (List (OutboxClaim V)) × MemoryStateStore V × List (OutboxClaim V) :=
  match store.assertOpen with
  | .error e => (.error (.state e), store, [])
  | .ok _ =>
    match store.assertFence request.fencing with
    | .error e => (.error (.state e), store, [])
    | .ok advancesFence =>
      let scan := store.claimRun request limit now
      let store := { store with outbox := scan.outbox }
      match scan.failure with
      | some failure => (.error failure, store, scan.claimed)
      | none =>
        (.ok scan.claimed,
          if !scan.claimed.isEmpty || advancesFence then
            { store with revision := store.revision + 1 }.advanceFence request.fencing
          else store,
          scan.claimed)

/-! ## Acknowledging a claim -/

variable (request : OutboxAcknowledgementRequest)

def namesClaim (claim : OutboxClaim V) : Bool :=
  claim.owner == request.owner && claim.claimEpoch == request.claimEpoch

def outboxMessageMissing (messageId : MessageId) : StateError where
  code := .STATE_QUERY_INVALID
  message := "Outbox message does not exist"
  details := [("messageId", .text messageId)]

def acknowledgedDifferently : StateError where
  code := .STATE_IDEMPOTENCY_CONFLICT
  message := "Outbox claim was acknowledged with a different outcome"
  details := [("claimEpoch", .number request.claimEpoch), ("messageId", .text request.messageId)]

def acknowledgementStale (claim : Option (OutboxClaim V)) : StateError where
  code := .STATE_FENCE_STALE
  message := "Outbox acknowledgement claim fence is stale"
  details := [("actualClaimEpoch", .ofNat (claim.map (·.claimEpoch))),
    ("messageId", .text request.messageId), ("requestedClaimEpoch", .number request.claimEpoch)]

def acknowledgementOf (claim : OutboxClaim V) (now : JsDate.Instant) : OutboxAcknowledgement where
  messageId := request.messageId
  outcome := request.outcome
  attempt := claim.attempt
  acknowledgedAt := now
  duplicate := false
  retryAt := request.retryAt

def acknowledgedRecord (record : StoredOutboxMessage V) (request : OutboxAcknowledgementRequest)
    (claim : OutboxClaim V) (now : JsDate.Instant) : StoredOutboxMessage V :=
  { record with
    acknowledgement := some (acknowledgementOf request claim now)
    acknowledgedClaim := some claim
    claim := none
    message :=
      if request.outcome = .retry then
        { record.message with availableAt := request.retryAt.getD record.message.availableAt }
      else record.message }

def repeatedAcknowledgement (record : StoredOutboxMessage V)
    (request : OutboxAcknowledgementRequest) : Option OutboxAcknowledgement :=
  if record.acknowledgedClaim.any (namesClaim request) then record.acknowledgement else none

/-- The job of `acknowledgeOutbox`: the outcome and the store it leaves behind. -/
def acknowledgeOutbox
    (now : JsDate.Instant) : Except StateError OutboxAcknowledgement × MemoryStateStore V :=
  match store.assertOpen with
  | .error e => (.error e, store)
  | .ok _ =>
    match store.assertFence request.fencing with
    | .error e => (.error e, store)
    | .ok advancesFence =>
      match store.outbox.lookup request.messageId with
      | none => (.error (outboxMessageMissing request.messageId), store)
      | some record =>
        match repeatedAcknowledgement record request with
        | some acknowledgement =>
          if acknowledgement.outcome ≠ request.outcome ∨
              acknowledgement.retryAt ≠ request.retryAt then
            (.error (acknowledgedDifferently request), store)
          else
            (.ok { acknowledgement with duplicate := true },
              if advancesFence then
                { store with revision := store.revision + 1 }.advanceFence request.fencing
              else store)
        | none =>
          match record.claim with
          | none => (.error (acknowledgementStale request record.claim), store)
          | some claim =>
            if namesClaim request claim then
              let outbox := store.outbox.insert request.messageId
                (acknowledgedRecord record request claim now)
              let store := { store with outbox := outbox, revision := store.revision + 1 }
              (.ok (acknowledgementOf request claim now),
                if advancesFence then store.advanceFence request.fencing else store)
            else (.error (acknowledgementStale request record.claim), store)

end MemoryStateStore

end TegoNext
