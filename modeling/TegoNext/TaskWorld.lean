/-
The memory task services share: one state store, the maps of each service, and the answers of
everything outside.

The store is the abstract one of `TegoNext.CasStore` with the receipts of idempotent transactions
beside it. What is outside answers with a `TaskReply` of the schedule. A store that fails may fail
before a transaction takes effect or after (`lost`). No service reads `events`.
-/
import TegoNext.Async
import TegoNext.CasStore
import TegoNext.TaskRecord

set_option autoImplicit false

namespace TegoNext

open Text JsDate

/-! ## The store -/

structure TaskOperationIdentity where
  taskId : PortableId
  attemptId : PortableId
  fingerprint : JsString
  deriving DecidableEq

/-- `taskKey` and `operationKey`. -/
inductive TaskKey where
  | task (taskId : PortableId)
  | operation (operationId : PortableId)
  deriving DecidableEq

inductive TaskEntry where
  | task (record : TaskRecord)
  | operation (identity : TaskOperationIdentity)

abbrev TaskStore : Type := CasStore TaskKey TaskEntry JsString

/-- What an idempotent transaction leaves behind: the fingerprint it was made
with and the result it returned. -/
structure TaskReceipt where
  fingerprint : JsString
  result : TaskRecord

/-! ## The services -/

structure LoadedTask where
  record : TaskRecord
  revision : Nat

/-- An executor as the service sees it; `resumable` is whether it has a
`resume`. -/
structure TaskExecutor where
  id : JsString
  type : ExecutorKind
  resumable : Bool
  deriving DecidableEq

/-- `ExecutorRegistration`. Registrations are compared as objects, so each one
has a serial number of its own. -/
structure ExecutorRegistration where
  executor : TaskExecutor
  authority : RuntimeAuthority
  serial : Nat
  deriving DecidableEq

structure TaskServiceState where
  records : AList fun _ : PortableId => LoadedTask
  executors : PortableId → Option ExecutorRegistration
  dispatches : PortableId → Option Nat
  cancellations : PortableId → Option Nat
  remoteCompletions : PortableId → Option Nat
  waiters : PortableId → List Nat
  ephemeralTerminal : PortableId → Option TaskRecord
  authority : Option RuntimeAuthority
  closed : Bool

def TaskServiceState.initial : TaskServiceState where
  records := ∅
  executors _ := none
  dispatches _ := none
  cancellations _ := none
  remoteCompletions _ := none
  waiters _ := []
  ephemeralTerminal _ := none
  authority := none
  closed := false

/-- A promise of a task's record, by its index. -/
structure TaskPromise where
  taskId : PortableId
  outcome : Option (Except TaskFailure TaskRecord)

structure ExecutionRequest where
  taskId : PortableId
  attemptId : PortableId
  target : TaskExecutionTarget
  applicationId : PortableId
  pluginId : PortableId
  componentId : PortableId
  binding : ExecutionBinding
  input : JsonValue
  deadline : JsString
  orphanPolicy : OrphanPolicy

inductive TaskEvent where
  /-- An admission wrote a new task. -/
  | admitted (record : TaskRecord)
  /-- An admission found the task of its operation; `record` is what it proposed. -/
  | joined (record : TaskRecord)
  /-- A call of `run` with an operation identity goes on with this task. -/
  | continued (operationId : PortableId) (fingerprint : JsString) (taskId : PortableId)
  /-- A call of `run` ended; `bound` is the fingerprint the operation identity
  was bound to when the call was made. -/
  | returned (operationId : PortableId) (fingerprint : JsString) (bound : Option JsString)
      (outcome : Except TaskFailure TaskRecord)
  /-- An uncertain settlement, made from `copy`, was written. -/
  | settled (copy : TaskRecord)
  | dispatchStarted (service : Nat) (taskId : PortableId) (dispatch : Nat)
  | submitted (service : Nat) (request : ExecutionRequest) (dispatch : Nat)
  | dispatchEnded (service : Nat) (taskId : PortableId) (dispatch : Nat)

structure TaskWorld where
  store : TaskStore
  receipts : PortableId → Option TaskReceipt
  services : Nat → TaskServiceState
  promises : List TaskPromise
  serials : Nat
  /-- Newest first. -/
  events : List TaskEvent

def TaskWorld.initial : TaskWorld where
  store := .empty
  receipts _ := none
  services _ := .initial
  promises := []
  serials := 0
  events := []

/-! ## Answers -/

structure TaskIdentity where
  taskId : PortableId
  attemptId : PortableId

structure TaskExecutorSelection where
  target : TaskExecutionTarget
  binding : ExecutionBinding
  executor : TaskExecutor

/-- `AttemptStatus`; a result that does not validate is `none`. -/
inductive AttemptStatus where
  | accepted
  | running
  | terminal (result : Option ExecutionResult)

inductive TaskReply where
  | done
  | failed (d : Option RuntimeDiagnostic)
  | lost (d : Option RuntimeDiagnostic)
  | timeout
  | aborted (d : Option RuntimeDiagnostic)
  | tasks (ids : List PortableId)
  | identity (identity : TaskIdentity)
  | selected (selection : TaskExecutorSelection)
  | handle (taskId attemptId : PortableId)
  | observed (status : Option AttemptStatus)
  | resumed (handle : Option TaskIdentity)
  | result (result : Option ExecutionResult)

/-- What a turn is told: the time, and a reply if it waits for one. -/
structure TaskAnswer where
  now : Instant
  reply : TaskReply

abbrev TaskM (α : Type) : Type := Async TaskWorld TaskAnswer TaskFailure α

/-! ## Turns -/

namespace TaskM

variable {α : Type}

/-- A stretch of code between two awaits. -/
def segment (f : TaskWorld → Instant → Except TaskFailure α × TaskWorld) : TaskM α :=
  Async.atomically fun s r => f s r.now

/-- A stretch that only looks. -/
def query (f : TaskWorld → α) : TaskM α := segment fun s _ => (.ok (f s), s)

/-- A stretch that only changes the memory. -/
def update (f : TaskWorld → TaskWorld) : TaskM Unit := segment fun s _ => (.ok (), f s)

/-- A stretch that looks and may throw. -/
def check (f : TaskWorld → Instant → Except TaskFailure α) : TaskM α := segment fun s now => (f s now, s)

/-- Throw an error that carries the time. -/
def fail (e : Instant → TaskFailure) : TaskM α := check fun _ now => .error (e now)

/-- Run to the outcome. -/
def attempt (m : TaskM α) : TaskM (Except TaskFailure α) :=
  Async.tryCatch (do
    let a ← m
    pure (.ok a)) fun e => pure (.error e)

def ask (accept : TaskReply → Option (Except TaskFailure α)) : TaskM α :=
  Async.turn (fun _ r => (accept r.reply).isSome) fun s r =>
    ((accept r.reply).getD (.error .plain), s)

def storeWorks : TaskReply → Option (Option (Option RuntimeDiagnostic))
  | .done => some none
  | .failed d => some (some d)
  | _ => none

/-- `state.read(key)`. -/
def read (key : TaskKey) : TaskM (Option (Versioned TaskEntry)) :=
  Async.turn (fun _ r => (storeWorks r.reply).isSome) fun s r =>
    match storeWorks r.reply with
    | some (some d) => (.error (.outside .store d), s)
    | _ => (.ok (s.store.record key), s)

def commit (job : TaskWorld → Instant → Except TaskFailure (α × TaskWorld)) : TaskM α :=
  Async.turn
    (fun _ r =>
      match r.reply with
      | .done | .failed _ | .lost _ => true
      | _ => false)
    fun s r =>
      match r.reply with
      | .failed d => (.error (.outside .store d), s)
      | reply =>
        match job s r.now with
        | .error e => (.error e, s)
        | .ok (a, t) =>
          match reply with
          | .lost d => (.error (.outside .store d), t)
          | _ => (.ok a, t)

def awaitPromise (p : Nat) : TaskM TaskRecord :=
  Async.turn (fun s _ => (s.promises[p]?.bind (·.outcome)).isSome) fun s _ =>
    ((s.promises[p]?.bind (·.outcome)).getD (.error .plain), s)

end TaskM

/-! ## Errors of the service -/

section

variable (taskId : PortableId) (now : Instant)

def stoppedError : TaskFailure :=
  .service (plainDiagnostic .BOOTSTRAP_STOPPED
    "Task service stopped before the task reached a terminal state" "runtime" (js "tasks") now)

def missingTask : TaskFailure :=
  .service (plainDiagnostic .EXECUTOR_TASK_NOT_FOUND "Task record does not exist" "executor"
    taskId.text now)

def corruptTask : TaskFailure :=
  .service (plainDiagnostic .STATE_TASK_CORRUPT
    "Task identity refers to a missing durable record" "state" taskId.text now)

def idempotencyConflict (id : PortableId) (now : Instant) : TaskFailure :=
  .service (plainDiagnostic .STATE_IDEMPOTENCY_CONFLICT
    "Task operation identity was reused with a different payload" "state" id.text now)

def invalidResult (message : String) (now : Instant) : TaskFailure :=
  .service (plainDiagnostic .EXECUTOR_RESULT_INVALID message "executor" taskId.text now)

def notLeaderError : TaskFailure :=
  .service (plainDiagnostic .COORDINATION_NOT_LEADER
    "Task mutation requires active runtime leadership" "coordination" (js "tasks") now)

def fenceRejectedError (resource : JsString) (now : Instant) : TaskFailure :=
  .service (plainDiagnostic .COORDINATION_FENCE_REJECTED
    "Task authority changed while the operation was active" "coordination" resource now)

def targetMismatch (mismatchedFields : List String) (now : Instant) : TaskFailure :=
  .service
    { plainDiagnostic .EXECUTOR_TARGET_MISMATCH
        "Selected executor does not match the immutable execution target" "executor" taskId.text
        now with
      details := .mismatchedFields mismatchedFields }

def targetUnavailable (executorId : Option JsString)
    (causeCode : Option TaskCode) (now : Instant) : TaskFailure :=
  .service
    { plainDiagnostic .EXECUTOR_TARGET_UNAVAILABLE
        "The immutable execution target is unavailable" "executor" taskId.text now with
      retryable := true
      details := .unavailable causeCode executorId }

/-- How the store words the refusal of a commit. -/
def storeError (e : CasError) (now : Instant) : TaskFailure :=
  .outside .store (some (match e with
    | .conflict => plainDiagnostic .STATE_REVISION_CONFLICT
        "State record revision does not match" "state" (js "tego") now
    | .staleFence => plainDiagnostic .STATE_FENCE_STALE
        "State transaction fencing epoch is stale" "state" (js "tego") now))

/-- How the store words the reuse of an idempotency key. -/
def receiptConflict : TaskFailure :=
  .outside .store (some (plainDiagnostic .STATE_IDEMPOTENCY_CONFLICT
    "Idempotency key was already used for a different transaction" "state" (js "tego") now))

end

namespace TaskWorld

/-! ## Looking at the memory -/

variable (s : TaskWorld) (me : Nat) (taskId : PortableId)

def requireAuthority (now : Instant) : Except TaskFailure RuntimeAuthority :=
  match (s.services me).authority with
  | none => .error (notLeaderError now)
  | some authority => .ok authority

def assertAuthority (expected : RuntimeAuthority) (now : Instant) : Except TaskFailure Unit :=
  if (s.services me).authority = some expected then .ok ()
  else
    match s.requireAuthority me now with
    | .error e => .error e
    | .ok _ => .error (fenceRejectedError expected.resource now)

def assertOpen (now : Instant) : Except TaskFailure Unit :=
  if (s.services me).closed then .error (stoppedError now) else .ok ()

def taskRecord : Option TaskRecord :=
  match s.store.record (.task taskId) with
  | some ⟨.task record, _⟩ => some record
  | _ => none

def operationIdentity (operationId : PortableId) : Option TaskOperationIdentity :=
  match s.store.record (.operation operationId) with
  | some ⟨.operation identity, _⟩ => some identity
  | _ => none

/-! ## Changing the memory -/

def log (e : TaskEvent) : TaskWorld := { s with events := e :: s.events }

def updateService (f : TaskServiceState → TaskServiceState) : TaskWorld :=
  { s with services := Function.update s.services me (f (s.services me)) }

def setRecord (loaded : LoadedTask) : TaskWorld :=
  s.updateService me fun service =>
    { service with records := service.records.insert taskId loaded }

/-- `#executors.set`, with the registration it makes. -/
def register (executor : TaskExecutor)
    (authority : RuntimeAuthority) : ExecutorRegistration × TaskWorld :=
  let registration := ⟨executor, authority, s.serials⟩
  (registration,
    { s.updateService me fun service =>
        { service with executors := Function.update service.executors taskId (some registration) }
      with serials := s.serials + 1 })

/-- Drop the executor of a task if it is still this registration; `none` drops
whatever is there. -/
def unregister (registration : Option ExecutorRegistration) : TaskWorld :=
  if registration = none ∨ (s.services me).executors taskId = registration then
    s.updateService me fun service =>
      { service with executors := Function.update service.executors taskId none }
  else s

def setEphemeral (record : Option TaskRecord) : TaskWorld :=
  s.updateService me fun service =>
    { service with ephemeralTerminal := Function.update service.ephemeralTerminal taskId record }

/-- A new promise; its index is the number of promises before. -/
def allocate : TaskWorld := { s with promises := s.promises ++ [⟨taskId, none⟩] }

/-- Resolve or reject a promise that is still pending. -/
def settle (p : Nat) (outcome : Except TaskFailure TaskRecord) : TaskWorld :=
  { s with promises := s.promises.modify p fun promise =>
      if promise.outcome.isNone then { promise with outcome := some outcome } else promise }

def settleAll (ps : List Nat) (outcome : Except TaskFailure TaskRecord) : TaskWorld :=
  ps.foldl (fun s p => s.settle p outcome) s

def setWaiters (ps : List Nat) : TaskWorld :=
  s.updateService me fun service =>
    { service with waiters := Function.update service.waiters taskId ps }

def notify (record : TaskRecord) : TaskWorld :=
  (s.settleAll ((s.services me).waiters record.taskId) (.ok record)).setWaiters me record.taskId []

/-! ## Transactions -/

/-- A transaction that replaces one record; it leaves `note` behind. -/
def putTask (next : TaskRecord) (revision : Nat)
    (authority : RuntimeAuthority) (note : List TaskEvent) (now : Instant) :
    Except TaskFailure (Unit × TaskWorld) :=
  match s.store.commit [⟨.task taskId, some (.task next), .at revision⟩]
      (some (authority.resource, authority.epoch)) false with
  | .error e => .error (storeError e now)
  | .ok store => .ok ((), { s with store := store, events := note ++ s.events })

def admissionWrites (candidate : TaskRecord) (fingerprint : JsString) :
    List (CasWrite TaskKey TaskEntry) :=
  ⟨.task candidate.taskId, some (.task candidate), .absent⟩ ::
    (candidate.request.operationId.map fun operationId =>
      ⟨.operation operationId,
        some (.operation ⟨candidate.taskId, candidate.attemptId, fingerprint⟩),
        .absent⟩).toList

/-- The receipt of an idempotent transaction, where there is one. -/
def replayReceipt (operationId : Option PortableId) (fingerprint : JsString)
    (now : Instant) : Except TaskFailure (Option TaskRecord) :=
  match operationId.bind s.receipts with
  | none => .ok none
  | some receipt =>
    if receipt.fingerprint = fingerprint then .ok (some receipt.result)
    else .error (receiptConflict now)

def commitAdmission (candidate : TaskRecord) (fingerprint : JsString)
    (authority : RuntimeAuthority) (existing : Option TaskRecord) (now : Instant) :
    Except TaskFailure (TaskRecord × TaskWorld) :=
  match s.replayReceipt candidate.request.operationId fingerprint now with
  | .error e => .error e
  | .ok (some result) => .ok (result, s)
  | .ok none =>
    let writes := if existing.isSome then [] else admissionWrites candidate fingerprint
    match s.store.commit writes (some (authority.resource, authority.epoch)) false with
    | .error e => .error (storeError e now)
    | .ok store =>
      let result := existing.getD candidate
      .ok (result,
        { s with
          store := store
          receipts :=
            match candidate.request.operationId with
            | none => s.receipts
            | some operationId =>
              Function.update s.receipts operationId (some ⟨fingerprint, result⟩)
          events := (if existing.isSome then .joined candidate else .admitted candidate) :: s.events })

/-! ## Dispatches -/

/-- `#ensureDispatch` up to its await: the promise of the dispatch, and the same
again if it has to be started. -/
def startDispatch : (Nat × Option Nat) × TaskWorld :=
  match (s.services me).dispatches taskId with
  | some p => ((p, none), s)
  | none =>
    let p := s.promises.length
    ((p, some p),
      ((s.allocate taskId).updateService me fun service =>
        { service with dispatches := Function.update service.dispatches taskId (some p) }).log
          (.dispatchStarted me taskId p))

def endDispatch (p : Nat) (outcome : Except TaskFailure TaskRecord) : TaskWorld :=
  ((s.settle p outcome).updateService me fun service =>
    if service.dispatches taskId = some p then
      { service with dispatches := Function.update service.dispatches taskId none }
    else service).log (.dispatchEnded me taskId p)

end TaskWorld

end TegoNext
