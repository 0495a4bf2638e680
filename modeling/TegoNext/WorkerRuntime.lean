/-
The worker runtime of the WebSocket transport, as far as attempts go.

A worker takes assignments from a session, executes them and reports their results. Attempts are
kept in a store that any number of runtimes share: one that is never resumed has crashed, and a
restart is another one with the same identity.

Messages of a session wait on a chain, transitions of an attempt on a chain of their own. What
store, executors, sessions and clock do are answers of the schedule; a request may also work with
its answer lost. No function looks at `origin`, `works` and `events`.
-/
import TegoNext.AsyncSpec
import TegoNext.DecimalText
import TegoNext.TaskRecord

set_option autoImplicit false

namespace TegoNext

open Text

/-! ## Requests, results and records -/

/-- What the worker looks at in an `ExecutionRequest`; `workerId` is the one of a remote
target. -/
structure RemoteRequest where
  taskId : PortableId
  attemptId : PortableId
  orphanPolicy : OrphanPolicy
  workerId : Option PortableId
  content : JsString
  deriving DecidableEq

/-- An `ExecutionResult` of a remote attempt; `code` is the one of its diagnostic. -/
structure RemoteResult where
  taskId : PortableId
  attemptId : PortableId
  workerId : PortableId
  status : ExecutionTerminalStatus
  code : Option JsString
  message : JsString
  output : Option JsString
  completedAt : Int
  deriving DecidableEq

def attemptKey (taskId attemptId : PortableId) : JsString :=
  decimal taskId.text.length ++ 58 :: (taskId.text ++ attemptId.text)

theorem attemptKey_injective {taskId taskId' attemptId attemptId' : PortableId}
    (h : attemptKey taskId attemptId = attemptKey taskId' attemptId') :
    taskId = taskId' ∧ attemptId = attemptId' := by
  obtain ⟨hlength, hrest⟩ :=
    append_cons_inj_of_first (colon_notMem_decimal _) (colon_notMem_decimal _) h
  obtain ⟨htask, hattempt⟩ := List.append_inj hrest (decimal_injective hlength)
  exact ⟨PortableId.ext htask, PortableId.ext hattempt⟩

def RemoteRequest.key (request : RemoteRequest) : JsString :=
  attemptKey request.taskId request.attemptId

def RemoteResult.key (result : RemoteResult) : JsString := attemptKey result.taskId result.attemptId

inductive RemoteAttemptState where
  | acknowledged
  | assigned
  | expired
  | running
  | terminal
  | unknown
  deriving DecidableEq

inductive CancellationCause where
  | cancelled
  | timedOut
  deriving DecidableEq

structure RemoteAttemptRecord where
  workerId : PortableId
  request : RemoteRequest
  fingerprint : JsString
  state : RemoteAttemptState
  epoch : Nat
  result : Option RemoteResult
  acknowledgedAt : Option Int
  cancellation : Option CancellationCause
  revision : Nat
  deriving DecidableEq

structure RemoteAttemptCommitCondition where
  expectedRevision : Option Nat
  expectedEpoch : Option Nat

/-! ## The runtime -/

inductive WorkerAttemptState where
  | acknowledged
  | running
  | terminal
  deriving DecidableEq

def WorkerAttemptState.toRemote : WorkerAttemptState → RemoteAttemptState
  | .acknowledged => .acknowledged
  | .running => .running
  | .terminal => .terminal

/-- Where an attempt comes from: it is being created, it was created, or it was read from
the store. -/
inductive AttemptOrigin where
  | assigning
  | assigned
  | hydrated
  deriving DecidableEq

/-- `issued` and `served` are the chain of the attempt's transitions. -/
structure WorkerAttempt where
  worker : Nat
  request : RemoteRequest
  fingerprint : JsString
  revision : Nat
  issued : Nat
  served : Nat
  state : WorkerAttemptState
  epoch : Nat
  reservedBytes : Nat
  executor : Bool
  result : Option RemoteResult
  acknowledgedAt : Option Int
  cancellation : Option CancellationCause
  origin : AttemptOrigin

inductive InitializationPhase where
  | idle
  | loading
  | failed
  | hydrated
  deriving DecidableEq

structure WorkerState where
  /-- In the order of insertion. -/
  attempts : List (JsString × Nat)
  results : List (JsString × RemoteResult)
  session : Option Nat
  /-- The session attached last; it may have been lost. -/
  attached : Option Nat
  highestEpoch : Nat
  initialization : InitializationPhase
  recovered : Bool
  closed : Bool
  reservedResults : Nat
  reservedResultBytes : Nat
  persistenceAvailable : Bool
  attemptPersistenceAvailable : Bool
  receiveIssued : Nat
  receiveServed : Nat
  attachIssued : Nat
  attachServed : Nat

def WorkerState.initial : WorkerState where
  attempts := []
  results := []
  session := none
  attached := none
  highestEpoch := 0
  initialization := .idle
  recovered := false
  closed := false
  reservedResults := 0
  reservedResultBytes := 0
  persistenceAvailable := true
  attemptPersistenceAvailable := true
  receiveIssued := 0
  receiveServed := 0
  attachIssued := 0
  attachServed := 0

/-- The work a message asks for, from its arrival until it has been handled. -/
structure WorkerWork where
  worker : Nat
  session : Nat
  closed : Bool

inductive WorkerEvent where
  /-- An attempt is added for an assignment. -/
  | created (worker attempt work : Nat)
  /-- `#execute` is started for it. -/
  | launched (worker attempt work : Nat)
  | submitted (attempt : Nat)
  /-- The attempt is marked cancelled, for a message or by the runtime itself. -/
  | cancelled (worker attempt : Nat) (work : Option Nat)
  | acknowledged (worker : Nat) (key : JsString) (work : Nat)
  /-- A result is sent to the main side. -/
  | reported (worker : Nat) (key : JsString) (result : RemoteResult)
  /-- An inventory is sent: the attempts that are acknowledged or running, and those that
  are terminal and unacknowledged. -/
  | inventory (worker : Nat) (unfinished terminal : List JsString)
  /-- Hydration has ended with these results in the buffer. -/
  | restored (worker : Nat) (results : List (JsString × RemoteResult))
  /-- A commit of an attempt that is not terminal has ended without effect. -/
  | ignored (attempt : Nat)
  /-- A terminal attempt has taken over another result from the store. -/
  | replaced (attempt : Nat)

structure WorkerWorld where
  records : JsString → Option RemoteAttemptRecord
  highestEpochs : PortableId → Nat
  durableResults : JsString → Option RemoteResult
  workers : Nat → WorkerState
  attempts : List WorkerAttempt
  /-- The watches of commits: whether they are aborted. -/
  watches : List Bool
  /-- The publications that wait in the background; whether they have been started. -/
  publications : List (Nat × RemoteResult × Bool)
  works : List WorkerWork
  /-- Newest first. -/
  events : List WorkerEvent

def WorkerWorld.initial : WorkerWorld where
  records _ := none
  highestEpochs _ := 0
  durableResults _ := none
  workers _ := .initial
  attempts := []
  watches := []
  publications := []
  works := []
  events := []

inductive WorkerError where
  /-- `AttemptPersistenceUnavailableError`. -/
  | unavailable
  /-- `RemoteAttemptRevisionError`. -/
  | revision
  /-- A transition that lost its authority, or whose record is gone. -/
  | lostAuthority
  | other
  deriving DecidableEq

inductive StoreOutcome where
  | done
  | failed (revision : Bool)
  | lost
  | late

inductive ParseOutcome where
  | valid
  | malformed
  | badRevision

/-- An answer of the environment; a turn looks at the parts it needs. -/
structure WorkerAnswer where
  now : Int
  ok : Bool
  outcome : StoreOutcome
  parsed : ParseOutcome
  keys : List JsString
  rounds : Nat
  localResult : Option RemoteResult

structure WorkerOptions where
  workerId : PortableId
  maxAssignments : Nat
  maxAssignmentBytes : Nat
  maxInventoryItems : Nat
  maxResultBytes : Nat
  maxBufferedResults : Nat
  maxBufferedBytes : Nat
  retentionMs : Int
  /-- `resultStore?.durable`. -/
  resultStore : Option Bool

structure WorkerPlatform where
  options : Nat → WorkerOptions
  epoch : Nat → Nat
  requestBytes : RemoteRequest → Nat
  resultBytes : RemoteResult → Nat
  requestFingerprint : RemoteRequest → JsString

abbrev WorkerM (α : Type) : Type := Async WorkerWorld WorkerAnswer WorkerError α

namespace WorkerWorld

variable (s : WorkerWorld) (me : Nat)

def log (e : WorkerEvent) : WorkerWorld := { s with events := e :: s.events }

def modifyWorker (f : WorkerState → WorkerState) : WorkerWorld :=
  { s with workers := Function.update s.workers me (f (s.workers me)) }

def modifyAttempt (i : Nat) (f : WorkerAttempt → WorkerAttempt) : WorkerWorld :=
  { s with attempts := s.attempts.modify i f }

/-- `attempt.state === "terminal"`. -/
def isTerminal (i : Nat) : Bool := s.attempts[i]?.any fun attempt => attempt.state == .terminal

def lookup (key : JsString) : Option Nat := (s.workers me).attempts.lookup key

def buffered (key : JsString) : Option RemoteResult := (s.workers me).results.lookup key

def available : Bool := (s.workers me).attemptPersistenceAvailable

def setUnavailable : WorkerWorld :=
  s.modifyWorker me fun worker => { worker with attemptPersistenceAvailable := false }

/-! ## The attempt store -/

def conflicts (key : JsString) (condition : RemoteAttemptCommitCondition) : Bool :=
  match s.records key with
  | none => condition.expectedRevision.isSome
  | some current =>
    condition.expectedRevision != some current.revision ||
      condition.expectedEpoch.any fun epoch => current.epoch != epoch

/-- `commit` of the attempt store. -/
def commitRecord (record : RemoteAttemptRecord)
    (condition : RemoteAttemptCommitCondition) : Option RemoteAttemptRecord × WorkerWorld :=
  if s.conflicts record.request.key condition then (none, s)
  else
    let snapshot := { record with
      revision := (s.records record.request.key).elim 1 fun current => current.revision + 1 }
    (some snapshot, { s with
      records := Function.update s.records record.request.key (some snapshot)
      highestEpochs := Function.update s.highestEpochs record.workerId
        (max (s.highestEpochs record.workerId) record.epoch) })

/-- The unexpired records of a worker that the store lists. -/
def recoverable (workerId : PortableId) (keys : List JsString) : List RemoteAttemptRecord :=
  (keys.filterMap s.records).filter fun record =>
    record.workerId == workerId && record.state != .expired

end WorkerWorld

def WorkerAttempt.record (attempt : WorkerAttempt) (workerId : PortableId)
    (state : RemoteAttemptState) (result : Option RemoteResult) : RemoteAttemptRecord where
  workerId := workerId
  request := attempt.request
  fingerprint := attempt.fingerprint
  state := state
  epoch := attempt.epoch
  result := result
  acknowledgedAt := attempt.acknowledgedAt
  cancellation := attempt.cancellation
  revision := attempt.revision

namespace WorkerRuntime

open Async

variable (platform : WorkerPlatform)

section

variable (s : WorkerWorld) (me : Nat)

/-- `#result`. -/
def failureResult (request : RemoteRequest) (status : ExecutionTerminalStatus)
    (code message : String) (now : Int) : RemoteResult where
  taskId := request.taskId
  attemptId := request.attemptId
  workerId := (platform.options me).workerId
  status := status
  code := some (js code)
  message := js message
  output := none
  completedAt := now

def minimumTerminalBytes (request : RemoteRequest) (now : Int) : Nat :=
  ([failureResult platform me request .cancelled "EXECUTOR_REMOTE_CANCELLED"
      "Worker runtime closed before local execution completed" now,
    failureResult platform me request .cancelled "EXECUTOR_REMOTE_ORPHAN_CANCELLED"
      "Assignment acknowledgement was interrupted" now,
    failureResult platform me request .failed "EXECUTOR_REMOTE_RESULT_IDENTITY_MISMATCH"
      "Worker local Executor returned a result for a different attempt identity" now,
    failureResult platform me request .failed "EXECUTOR_REMOTE_LOCAL_FAILURE"
      "Worker local executor failed to run the remote assignment" now,
    failureResult platform me request .failed "EXECUTOR_REMOTE_RESULT_TOO_LARGE"
      "Worker terminal diagnostic exceeds maxResultBytes" now,
    failureResult platform me request .failed "EXECUTOR_REMOTE_PERSISTENCE_FAILED"
      "Worker durable result persistence failed" now,
    failureResult platform me request .failed "EXECUTOR_REMOTE_RESTART_UNCERTAIN"
      "Worker restart cannot safely re-execute an unfinished remote attempt" now].map
    platform.resultBytes).foldl max 0

def resultReservationBytes (request : RemoteRequest) (now : Int) : Nat :=
  max (platform.options me).maxResultBytes (minimumTerminalBytes platform me request now)

/-- `bytes` of the result buffer. -/
def bufferBytes (results : List (JsString × RemoteResult)) : Nat :=
  (results.map fun entry => platform.resultBytes entry.2).sum

/-- `put` of the result buffer. -/
def putResult (result : RemoteResult) : Except WorkerError Unit × WorkerWorld :=
  match s.buffered me result.key with
  | some existing => if existing = result then (.ok (), s) else (.error .other, s)
  | none =>
    if (platform.options me).maxBufferedResults ≤ (s.workers me).results.length ∨
        (platform.options me).maxBufferedBytes <
          bufferBytes platform (s.workers me).results + platform.resultBytes result then
      (.error .other, s)
    else (.ok (), s.modifyWorker me fun worker =>
      { worker with results := worker.results ++ [(result.key, result)] })

def releaseReserved (me i : Nat) : WorkerWorld :=
  (s.modifyWorker me fun worker =>
    { worker with
      reservedResultBytes := worker.reservedResultBytes -
        (s.attempts[i]?.elim 0 (·.reservedBytes)) }).modifyAttempt i fun attempt =>
    { attempt with reservedBytes := 0 }

def terminalVolatile (me i : Nat) (result : RemoteResult) : Except WorkerError Unit × WorkerWorld :=
  if s.isTerminal i then (.ok (), s)
  else
    let t := s.modifyAttempt i fun attempt =>
      { attempt with result := some result, state := .terminal }
    match putResult platform t me result with
    | (.error e, t) => (.error e, t)
    | (.ok (), t) => (.ok (), releaseReserved t me i)

/-- The failure of an attempt whose persistence is unavailable. -/
def unavailableResult (request : RemoteRequest) (message : String) (now : Int) : RemoteResult :=
  failureResult platform me request .indeterminate "EXECUTOR_REMOTE_STATE_UNAVAILABLE" message now

def parseStoredRecord (fingerprint : Option JsString) (record : RemoteAttemptRecord)
    (parsed : ParseOutcome) : Except WorkerError RemoteAttemptRecord :=
  match parsed with
  | .badRevision => .error .revision
  | .malformed => .error .other
  | .valid =>
    if record.workerId ≠ (platform.options me).workerId ∨
        fingerprint.any (fun expected => record.fingerprint != expected) ∨
        (record.state = .terminal ∧ record.result = none) ∨
        (record.state ≠ .terminal ∧ record.state ≠ .expired ∧ record.result ≠ none) ∨
        record.result.any (fun result => result.key != record.request.key) then
      .error .other
    else .ok record

/-! ## Requests to the stores -/

/-- `#storeOperation`: a request that is overtaken by its timeout may still work later. -/
def storeOperation {α : Type} (me : Nat) (request : WorkerWorld → WorkerAnswer → α × WorkerWorld) :
    WorkerM α := do
  let answer ← spawn (fun s r =>
      match r.outcome with
      | .done => (.ok (some (request s r).1, none), (request s r).2)
      | .lost => (.ok (none, none), (request s r).2)
      | .failed _ => (.ok (none, none), s)
      | .late => (.ok (none, some ()), s))
    fun () => run (update fun s r => (request s r).2 : WorkerM Unit)
  atomically fun s r =>
    match answer, r.ok with
    | some a, true => (.ok a, s)
    | _, _ => (.error .unavailable, s.setUnavailable me)

def load (key : JsString) : WorkerM (Option RemoteAttemptRecord) :=
  storeOperation me fun s _ => (s.records key, s)

/-- `session.send`, or a callback that is waited for. -/
def send : WorkerM Unit := check fun _ r => if r.ok then .ok () else .error .other

/-! ## Transitions and commits -/

/-- `#background` of a publication. -/
def publishLater (result : RemoteResult) : WorkerWorld :=
  { s with publications := s.publications ++ [(me, result, false)] }

def failAttemptPersistence (me i : Nat) (message : String) (now : Int) :
    Except WorkerError Unit × WorkerWorld :=
  let s := s.setUnavailable me
  match s.attempts[i]? with
  | none => (.ok (), s)
  | some attempt =>
    if attempt.state = .terminal then (.ok (), s)
    else
      let failure := unavailableResult platform me attempt.request message now
      match terminalVolatile platform s me i failure with
      | (.error e, s) => (.error e, s)
      | (.ok (), s) => (.ok (), publishLater s me failure)

/-- The timeout of a commit. -/
def watchPersistence (me i w : Nat) : WorkerM Unit :=
  atomically fun s r =>
    if s.watches[w]? = some false then
      failAttemptPersistence platform s me i "Worker attempt persistence operation timed out" r.now
    else (.ok (), s)

/-- The record to be written and its condition; the watch of the request is started. -/
def beginCommit (me i : Nat) (state : WorkerAttemptState) (result : Option RemoteResult) :
    WorkerM (Nat × RemoteAttemptRecord × RemoteAttemptCommitCondition) :=
  spawn (fun s _ =>
      match s.attempts[i]? with
      | none => (.error .other, s)
      | some attempt =>
        (.ok ((s.watches.length, attempt.record (platform.options me).workerId state.toRemote result,
            ⟨some attempt.revision, some attempt.epoch⟩), some s.watches.length),
          { s with watches := s.watches ++ [false] }))
    fun w => run (watchPersistence platform me i w)

/-- `attempt.revision`, `attempt.state` and `attempt.result` after a commit. -/
def committed (i : Nat) (revision : Nat) (state : WorkerAttemptState)
    (result : Option RemoteResult) : WorkerWorld :=
  s.modifyAttempt i fun attempt =>
    { attempt with revision := revision, state := state, result := result.or attempt.result }

end

/-- The end of the commit of an attempt: `false` when the store has refused it. -/
def endCommit (me i w : Nat) (state : WorkerAttemptState) (result : Option RemoteResult)
    (answer : Except WorkerError (Option RemoteAttemptRecord)) : WorkerM Bool :=
  atomically fun s r =>
    let s := { s with watches := s.watches.set w true }
    match answer with
    | .error e => (.error e, s)
    | .ok committedRecord =>
      if !s.available me then
        (.ok true, if s.isTerminal i then s else s.log (.ignored i))
      else
        match committedRecord with
        | none => (.ok false, s)
        | some record =>
          match parseStoredRecord platform me none record r.parsed with
          | .error .revision => (.error .revision, s.setUnavailable me)
          | .error e => (.error e, s)
          | .ok record => (.ok true, committed s i record.revision state result)

/-- What a transition takes over from the store when its commit was refused. -/
def adoptLatest (me i : Nat) (latest : Option RemoteAttemptRecord) : WorkerM Unit :=
  atomically fun s r =>
    match latest, s.attempts[i]? with
    | some latest, some attempt =>
      match parseStoredRecord platform me (some attempt.fingerprint) latest r.parsed with
      | .error .revision => (.error .revision, s.setUnavailable me)
      | .error e => (.error e, s)
      | .ok latest =>
        if latest.revision ≤ attempt.revision then (.error .revision, s)
        else
          let t := s.modifyAttempt i fun attempt =>
            { attempt with
              revision := latest.revision
              epoch := latest.epoch
              cancellation := latest.cancellation }
          if latest.result.isSome ∨ latest.state = .terminal then
            let t := t.modifyAttempt i fun attempt =>
              { attempt with state := .terminal, result := latest.result.or attempt.result }
            (.ok (), if s.isTerminal i ∧ latest.result.or attempt.result ≠ attempt.result then
              t.log (.replaced i) else t)
          else (.error .lostAuthority, t)
    | _, _ => (.error .lostAuthority, s)

def commitOnce (me i : Nat) (state : WorkerAttemptState) (result : Option RemoteResult) :
    WorkerM Unit := do
  let (w, record, condition) ← beginCommit platform me i state result
  let answer ← atomically fun s r =>
    match r.outcome with
    | .done => (.ok (.ok (s.commitRecord record condition).1), (s.commitRecord record condition).2)
    | .lost => (.ok (.error .other), (s.commitRecord record condition).2)
    | .failed true => (.ok (.error .revision), s)
    | _ => (.ok (.error .other), s)
  let done ← endCommit platform me i w state result answer
  if done then pure ()
  else do
    let latest ← load me record.request.key
    adoptLatest platform me i latest

/-- `#commit`; `rounds` is how often it may still be tried. -/
def commit (me i : Nat) (state : WorkerAttemptState) (result : Option RemoteResult) :
    Nat → WorkerM Unit
  | 0 => do
    atomically fun s r => failAttemptPersistence platform s me i
      "Worker attempt persistence remained unavailable after bounded retries" r.now
    throw .unavailable
  | rounds + 1 => tryCatch (commitOnce platform me i state result) fun e => do
    let available ← query fun s => s.available me
    match e, available with
    | .revision, _ => do
      atomically fun s r => failAttemptPersistence platform s me i
        "Worker attempt persistence returned an invalid revision" r.now
      throw .revision
    | _, false => do
      atomically fun s r => failAttemptPersistence platform s me i
        "Worker attempt persistence is unavailable" r.now
      throw .unavailable
    | .unavailable, true => throw .unavailable
    | .lostAuthority, true => throw .lostAuthority
    | .other, true => commit me i state result rounds

def maxPersistenceAttempts : Nat := 8

/-- `#commit(attempt)`: the state and the result are the ones the attempt has. -/
def commitCurrent (me i : Nat) : WorkerM Unit := do
  let current ← query fun s => s.attempts[i]?.map fun attempt => (attempt.state, attempt.result)
  match current with
  | none => pure ()
  | some (state, result) => commit platform me i state result maxPersistenceAttempts

/-- Take the next place on the chain of an attempt. -/
def takeTurn (i : Nat) : WorkerM Nat :=
  atomically fun s _ =>
    match s.attempts[i]? with
    | some attempt => (.ok attempt.issued, s.modifyAttempt i fun attempt =>
      { attempt with issued := attempt.issued + 1 })
    | none => (.error .other, s)

/-- Wait until the transitions before have ended. -/
def awaitTurn (i n : Nat) : WorkerM Unit :=
  turn (fun s _ => s.attempts[i]?.any fun attempt => attempt.served == n) fun s _ => (.ok (), s)

def transition (i : Nat) (operation : WorkerM Unit) : WorkerM Unit := do
  let n ← takeTurn i
  awaitTurn i n
  tryFinally operation (update fun s _ => s.modifyAttempt i fun attempt =>
    { attempt with served := n + 1 })

/-! ## Results -/

variable (s : WorkerWorld) (me : Nat)

def deleteResult (key : JsString) : WorkerM Unit :=
  if (platform.options me).resultStore.isSome then
    atomically fun s r =>
      let t := { s with durableResults := Function.update s.durableResults key none }
      match r.outcome with
      | .done => (.ok (), t)
      | .lost => (.error .other, t)
      | _ => (.error .other, s)
  else pure ()

variable (me i : Nat) (request : RemoteRequest)

/-- The transition of `#acknowledgeResult`. -/
def acknowledgeAttempt (key : JsString) (work : Nat) : WorkerM Unit := do
  let first ← atomically fun s r =>
    if s.attempts[i]?.any fun attempt => attempt.acknowledgedAt.isNone then
      (.ok true, (s.modifyAttempt i fun attempt =>
        { attempt with acknowledgedAt := some r.now }).log (.acknowledged me key work))
    else (.ok false, s)
  if first then
    tryCatch (commitCurrent platform me i) fun e => do
      update fun s _ => s.modifyAttempt i fun attempt => { attempt with acknowledgedAt := none }
      throw e
  else pure ()

def acknowledgeResult (key : JsString) (work : Nat) : WorkerM Unit := do
  let (retained, attempt, available) ← query fun s =>
    ((s.buffered me key).isSome, s.lookup me key, s.available me)
  match retained, attempt, available with
  | false, _, _ => pure ()
  | true, some i, false =>
    atomically fun s r => failAttemptPersistence platform s me i
      "Worker attempt persistence is unavailable" r.now
  | true, attempt, _ => do
    match attempt with
    | some i => transition i (acknowledgeAttempt platform me i key work)
    | none => pure ()
    deleteResult platform me key
    update fun s _ => (s.modifyWorker me fun worker =>
      { worker with
        results := worker.results.filter fun entry => entry.1 != key
        reservedResults := worker.reservedResults - 1 }).log (.acknowledged me key work)

def openWork (me session : Nat) : Nat × WorkerWorld :=
  (s.works.length, { s with works := s.works ++ [⟨me, session, false⟩] })

def closeWork (work : Nat) : WorkerWorld :=
  { s with works := s.works.modify work fun entry => { entry with closed := true } }

/-- `#publish`: the result is sent when a session is ready. -/
def publish (result : RemoteResult) : WorkerM Unit := do
  let session ← atomically fun s r =>
    match (s.workers me).session, r.ok with
    | some session, true => (.ok (some session), s.log (.reported me result.key result))
    | _, _ => (.ok none, s)
  match session with
  | none => pure ()
  | some session =>
    tryCatch (do
        let work ← atomically fun s r =>
          if r.ok then (.ok (openWork s me session).1, (openWork s me session).2)
          else (.error .other, s)
        tryFinally (acknowledgeResult platform me result.key work)
          (update fun s _ => closeWork s work))
      fun _ => pure ()

def markCancelled (work : Option Nat) : WorkerM Unit := do
  let marked ← atomically fun s _ =>
    if s.isTerminal i then (.ok false, s)
    else (.ok true, (s.modifyAttempt i fun attempt =>
      { attempt with cancellation := some .cancelled }).log (.cancelled me i work))
  if marked then
    transition i do
      let terminal ← query fun s => s.isTerminal i
      if terminal then pure () else commitCurrent platform me i
  else pure ()

def boundedResult (attempt : WorkerAttempt) (candidate : RemoteResult) (now : Int) : RemoteResult :=
  let tooLarge := js "EXECUTOR_REMOTE_RESULT_TOO_LARGE"
  let result :=
    if (platform.options me).maxResultBytes < platform.resultBytes candidate then
      failureResult platform me attempt.request .failed "EXECUTOR_REMOTE_RESULT_TOO_LARGE"
        "Worker local result exceeds maxResultBytes" now
    else candidate
  if attempt.reservedBytes < platform.resultBytes result ∧ candidate.code ≠ some tooLarge then
    failureResult platform me attempt.request .failed "EXECUTOR_REMOTE_RESULT_TOO_LARGE"
      "Worker terminal diagnostic exceeds maxResultBytes" now
  else result

def persistResult (result : RemoteResult) :
    WorkerM RemoteResult := do
  if request.orphanPolicy = .finishAndPersist ∧ (platform.options me).resultStore.isSome then do
    let stored ← atomically fun s r =>
      let t := { s with
        durableResults := Function.update s.durableResults result.key (some result) }
      match r.outcome with
      | .done => (.ok true, t)
      | .lost => (.ok false, t)
      | _ => (.ok false, s)
    if stored then pure result
    else
      atomically fun s r =>
        (.ok (failureResult platform me request .failed "EXECUTOR_REMOTE_PERSISTENCE_FAILED"
            "Worker durable result persistence failed" r.now),
          s.modifyWorker me fun worker => { worker with persistenceAvailable := false })
  else pure result

/-- The result of an attempt whose terminal commit has returned goes into the buffer. -/
def bufferTerminal (result : RemoteResult) : WorkerM Unit :=
  atomically fun s _ =>
    let authoritative := (s.attempts[i]?.bind (·.result)).getD result
    if authoritative ≠ result then (.error .other, s)
    else
      match putResult platform s me authoritative with
      | (.error e, s) => (.error e, s)
      | (.ok (), s) => (.ok (), releaseReserved s me i)

/-- The transition of `#terminal`. -/
def terminalTransition (result : RemoteResult) : WorkerM Unit := do
  let terminal ← query fun s => s.isTerminal i
  if terminal then pure ()
  else do
    commit platform me i .terminal (some result) maxPersistenceAttempts
    bufferTerminal platform me i result

def terminalFailed (e : WorkerError) : WorkerM Unit :=
  atomically fun s r =>
    if (e = .other ∨ e = .lostAuthority) ∧ s.available me then (.error e, s)
    else
      let t := if e = .revision then s.setUnavailable me else s
      terminalVolatile platform t me i (unavailableResult platform me request
        (if e = .revision then "Worker attempt persistence returned an invalid revision"
          else "Worker attempt persistence is unavailable") r.now)

/-- `#terminal`; the candidate is made from the time. -/
def terminal (me i : Nat) (candidate : RemoteRequest → Int → RemoteResult) : WorkerM Unit := do
  let prepared ← atomically fun s r =>
    (.ok (if s.isTerminal i then none else s.attempts[i]?.map fun attempt =>
      (attempt.request, boundedResult platform me attempt (candidate attempt.request r.now) r.now)), s)
  match prepared with
  | none => pure ()
  | some (request, bounded) => do
    let result ← persistResult platform me request bounded
    tryCatch (transition i (terminalTransition platform me i result))
      fun e => terminalFailed platform me i request e
    update fun s _ => publishLater s me ((s.attempts[i]?.bind (·.result)).getD result)

/-- A failure that ends an attempt. -/
def terminalFailure (me i : Nat) (status : ExecutionTerminalStatus) (code message : String) :
    WorkerM Unit :=
  terminal platform me i fun request now => failureResult platform me request status code message now

/-! ## Execution -/

/-- `for (const attempt of this.#attempts.values())`: every entry once, also one that is
added while the loop waits. `rounds` bounds the entries a loop comes to. -/
def forAttempts (me : Nat) (body : Nat → WorkerM Unit) : Nat → List Nat → WorkerM Unit
  | 0, _ => pure ()
  | rounds + 1, seen => do
    let next ← query fun s => ((s.workers me).attempts.map (·.2)).find? fun i => !seen.contains i
    match next with
    | none => pure ()
    | some i => do
      body i
      forAttempts me body rounds (i :: seen)

/-- `for (const attempt of this.#attempts.values())`, with a bound the schedule gives. -/
def forEachAttempt (body : Nat → WorkerM Unit) : WorkerM Unit := do
  let rounds ← check fun _ r => .ok r.rounds
  forAttempts me body rounds []

def isStopped : Bool :=
  s.isTerminal i || s.attempts[i]?.any (fun attempt => attempt.cancellation.isSome) ||
    (s.workers me).closed

/-- `attempt.cancellation !== undefined || this.#closed`. -/
def isCancelled : Bool :=
  s.attempts[i]?.any (fun attempt => attempt.cancellation.isSome) || (s.workers me).closed

/-- The turn in which the selected executor gets the attempt; `false` when the attempt was
stopped before. -/
def submit : WorkerM Bool :=
  atomically fun s r =>
    if isStopped s me i then (.ok false, s)
    -- an executor that is remote itself is refused
    else if !r.ok then (.error .other, s)
    else (.ok true, (s.modifyAttempt i fun attempt => { attempt with executor := true }).log
      (.submitted i))

/-- The transition of an attempt to `running`. -/
def runningTransition : WorkerM Unit := do
  let current ← query fun s =>
    if s.isTerminal i || isCancelled s me i then none
    else s.attempts[i]?.map fun attempt => attempt.result
  match current with
  | none => pure ()
  | some result => commit platform me i .running result maxPersistenceAttempts

def remoteResult (localResult : Option RemoteResult) (request : RemoteRequest)
    (now : Int) : RemoteResult :=
  match localResult with
  | some result =>
    if result.taskId ≠ request.taskId ∨ result.attemptId ≠ request.attemptId then
      failureResult platform me request .failed "EXECUTOR_REMOTE_RESULT_IDENTITY_MISMATCH"
        "Worker local Executor returned a result for a different attempt identity" now
    else { result with workerId := (platform.options me).workerId }
  | none => failureResult platform me request .failed "EXECUTOR_REMOTE_RESULT_IDENTITY_MISMATCH"
      "Worker local Executor returned a result for a different attempt identity" now

/-- The part of `#execute` that may throw. -/
def executeLocally (me i : Nat) : WorkerM Unit := do
  let stopped ← query fun s => isStopped s me i
  if stopped then pure ()
  else do
    send
    let submitted ← submit me i
    if !submitted then pure ()
    else do
      send
      let terminated ← query fun s => s.isTerminal i
      if terminated then send
      else do
        let cancelled ← query fun s => isCancelled s me i
        if cancelled then send else transition i (runningTransition platform me i)
        let terminated ← query fun s => s.isTerminal i
        if terminated then send
        else do
          let cancelled ← query fun s => isCancelled s me i
          if cancelled then send else pure ()
          let localResult ← check fun _ r => if r.ok then .ok r.localResult else .error .other
          terminal platform me i (remoteResult platform me localResult)

def execute (me i : Nat) : WorkerM Unit :=
  tryCatch (executeLocally platform me i) fun _ => do
    let terminated ← query fun s => s.isTerminal i
    if terminated then pure ()
    else
      terminalFailure platform me i .failed "EXECUTOR_REMOTE_LOCAL_FAILURE"
        "Worker local executor failed to run the remote assignment"

/-- `#background(this.#execute(attempt))`. -/
def launch (me i work : Nat) : WorkerM Unit :=
  spawn (fun s _ => (.ok ((), some ()), s.log (.launched me i work)))
    fun () => run (execute platform me i)

/-! ## Assignments -/

/-- The expiry of one attempt of `#pruneAcknowledged`. -/
def expireAttempt (cutoff : Int) : WorkerM Unit := do
  let expired ← query fun s =>
    s.attempts[i]?.bind fun attempt =>
      if attempt.state = .terminal ∧ attempt.acknowledgedAt.any (· ≤ cutoff) then
        some (attempt.record (platform.options me).workerId .expired attempt.result,
          attempt.revision, attempt.epoch)
      else none
  match expired with
  | none => pure ()
  | some (record, revision, epoch) => do
    let answer ← storeOperation me fun s _ => s.commitRecord record ⟨some revision, some epoch⟩
    match answer with
    | none => pure ()
    | some committedRecord =>
      atomically fun s r =>
        match parseStoredRecord platform me none committedRecord r.parsed with
        | .error .revision => (.error .revision, s.setUnavailable me)
        | .error e => (.error e, s)
        | .ok _ => (.ok (), s.modifyWorker me fun worker =>
          { worker with
            attempts := worker.attempts.filter fun entry => entry.1 != record.request.key })

def pruneAcknowledged : WorkerM Unit := do
  let cutoff ← check fun _ r => .ok (r.now - (platform.options me).retentionMs)
  forEachAttempt me fun i => expireAttempt platform me i cutoff

def assignExisting : WorkerM Unit := do
  let current ← atomically fun s _ =>
    match s.attempts[i]? with
    | none => (.ok none, s)
    | some attempt =>
      if attempt.fingerprint ≠ platform.requestFingerprint request then (.ok none, s)
      else
        match attempt.result with
        | none => (.ok none, s)
        | some result => (.ok (some result), s.log (.reported me request.key result))
  send
  match current with
  | none => pure ()
  | some result => do
    let retained ← query fun s => s.buffered me result.key
    if retained.isSome then publish platform me result else pure ()

def admits (now : Int) : Bool :=
  let worker := s.workers me
  let options := platform.options me
  worker.attempts.length < options.maxAssignments &&
    worker.reservedResults < options.maxBufferedResults &&
    minimumTerminalBytes platform me request now ≤ options.maxResultBytes &&
    bufferBytes platform worker.results + worker.reservedResultBytes +
      resultReservationBytes platform me request now ≤ options.maxBufferedBytes &&
    (request.orphanPolicy != .finishAndPersist ||
      options.resultStore == some true && worker.persistenceAvailable)

/-- The attempt of an assignment that is admitted. -/
def newAttempt (me session : Nat) (request : RemoteRequest) (now : Int) : WorkerAttempt where
  worker := me
  request := request
  fingerprint := platform.requestFingerprint request
  revision := 0
  issued := 0
  served := 0
  state := .acknowledged
  epoch := platform.epoch session
  reservedBytes := resultReservationBytes platform me request now
  executor := false
  result := none
  acknowledgedAt := none
  cancellation := none
  origin := .assigning

/-- The record of a new attempt is written; `origin` notes that it was. -/
def createRecord (i : Nat) (record : RemoteAttemptRecord) :
    Option RemoteAttemptRecord × WorkerWorld :=
  match s.commitRecord record ⟨none, none⟩ with
  | (some snapshot, s) => (some snapshot, s.modifyAttempt i fun attempt =>
    { attempt with origin := .assigned })
  | (none, s) => (none, s)

def create : WorkerM Unit := do
  let record ← check fun s _ =>
    match s.attempts[i]? with
    | some attempt => .ok (attempt.record (platform.options me).workerId .acknowledged attempt.result)
    | none => .error .other
  let answer ← storeOperation me fun s _ => createRecord s i record
  match answer with
  | none => throw .other
  | some committedRecord =>
    atomically fun s r =>
      match parseStoredRecord platform me none committedRecord r.parsed with
      | .error .revision => (.error .revision, s.setUnavailable me)
      | .error e => (.error e, s)
      | .ok record => (.ok (), s.modifyAttempt i fun attempt =>
        { attempt with revision := record.revision })

def insertAttempt (key : JsString) : WorkerWorld :=
  s.modifyWorker me fun worker =>
    { worker with
      attempts := worker.attempts ++ [(key, i)]
      reservedResults := worker.reservedResults + 1
      reservedResultBytes := worker.reservedResultBytes + (s.attempts[i]?.elim 0 (·.reservedBytes)) }

def startAttempt (me i work : Nat) (request : RemoteRequest) : WorkerM Unit := do
  let created ← tryCatch (do
      create platform me i
      pure true)
    fun _ => do
      update fun s _ => s.setUnavailable me
      pure false
  if !created then send
  else do
    update fun s _ => (insertAttempt s me i request.key).log (.created me i work)
    let acknowledged ← attempt send
    match acknowledged with
    | .ok () => launch platform me i work
    | .error e => do
      if request.orphanPolicy ≠ .cancel then launch platform me i work
      else
        terminalFailure platform me i .cancelled "EXECUTOR_REMOTE_ORPHAN_CANCELLED"
          "Assignment acknowledgement was interrupted"
      throw e

/-- An assignment whose attempt the worker does not have. A rejection is sent back
whenever the attempt is not created. -/
def assignNew (me session work : Nat) (request : RemoteRequest) : WorkerM Unit := do
  let loaded ← tryCatch (do
      let persisted ← load me request.key
      pure (some persisted))
    fun e => match e with
      | .unavailable => pure none
      | e => throw e
  match loaded with
  | none => send
  | some persisted => do
    let refused ← atomically fun s r =>
      match persisted with
      | none => (.ok false, s)
      | some record =>
        match parseStoredRecord platform me none record r.parsed with
        | .error .revision => (.error .revision, s.setUnavailable me)
        | .error e => (.error e, s)
        | .ok record => (.ok (record.fingerprint != platform.requestFingerprint request ||
            record.state == .expired), s)
    if refused then send
    else do
      let admitted ← check fun s r => .ok (admits platform s me request r.now)
      if !admitted then send
      else do
        let i ← atomically fun s r => (.ok s.attempts.length, { s with
          attempts := s.attempts ++ [newAttempt platform me session request r.now] })
        startAttempt platform me i work request

/-- `#assign`. The checks of the target and of the activation, and `validateAssignment`,
are one answer. -/
def assign (me session work : Nat) (request : RemoteRequest) : WorkerM Unit := do
  if (platform.options me).maxAssignmentBytes < platform.requestBytes request then throw .other
  let valid ← check fun _ r => .ok r.ok
  if request.workerId ≠ some (platform.options me).workerId ∨ !valid then send
  else do
    let available ← query fun s => s.available me
    if !available then send
    else do
      let pruned ← tryCatch (do
          pruneAcknowledged platform me
          pure true)
        fun e => match e with
          | .unavailable => pure false
          | e => throw e
      let available ← query fun s => s.available me
      if !pruned || !available then send
      else do
        let existing ← query fun s => s.lookup me request.key
        match existing with
        | some i => assignExisting platform me i request
        | none => assignNew platform me session work request

/-! ## Cancellation and inventory -/

/-- An attempt is cancelled; `message` says why it never ran. -/
def cancelAttempt (me i : Nat) (work : Option Nat) (code message : String) : WorkerM Unit := do
  let terminated ← query fun s => s.isTerminal i
  if terminated then pure ()
  else do
    markCancelled platform me i work
    let executor ← query fun s => s.attempts[i]?.any (·.executor)
    if executor then send
    else terminalFailure platform me i .cancelled code message

def cancel (me work : Nat) (request : RemoteRequest) : WorkerM Unit := do
  let existing ← query fun s => s.lookup me request.key
  match existing with
  | none => pure ()
  | some i =>
    cancelAttempt platform me i (some work) "EXECUTOR_REMOTE_CANCELLED"
      "Remote attempt was cancelled before local execution"
  update fun s _ =>
    match existing.bind fun i => s.attempts[i]?.bind (·.result) with
    | none => s
    | some result => s.log (.reported me request.key result)
  send

/-- The attempts of a list in one of two states. -/
def unfinishedKeys (entries : List (JsString × Nat)) : List JsString :=
  (entries.filter fun entry => s.attempts[entry.2]?.any fun attempt =>
    attempt.state == .acknowledged || attempt.state == .running).map (·.1)

/-- `#inventory`, without the activations it begins with. -/
def inventory : WorkerM Unit := do
  send
  let (attempts, buffered) ← query fun s => ((s.workers me).attempts, (s.workers me).results)
  if (platform.options me).maxInventoryItems < attempts.length + buffered.length then send
  else do
    send
    let fits ← check fun _ r => .ok r.ok
    if !fits then send
    else do
      update fun s _ => buffered.foldl (fun s entry => s.log (.reported me entry.1 entry.2))
        (s.log (.inventory me (unfinishedKeys s attempts) (buffered.map (·.1))))
      send

/-! ## Sessions -/

inductive WorkerMessage where
  /-- `none` is a message that does not parse. -/
  | assign (request : Option RemoteRequest)
  | cancel (request : Option RemoteRequest)
  | inventory
  | ack (taskId attemptId : PortableId)
  | other

/-- `#receive`, up to the answers it sends when something is thrown. -/
def receive (me session work : Nat) : WorkerMessage → WorkerM Unit
  | .assign none => throw .other
  | .assign (some request) => assign platform me session work request
  | .cancel none => throw .other
  | .cancel (some request) => cancel platform me work request
  | .inventory => inventory platform me
  | .ack taskId attemptId => acknowledgeResult platform me (attemptKey taskId attemptId) work
  | .other => send

def handle (me session n work : Nat) (message : WorkerMessage) : WorkerM Unit := do
  turn (fun s _ => (s.workers me).receiveServed == n) fun s _ => (.ok (), s)
  tryFinally (tryCatch (receive platform me session work message) fun _ => pure ())
    (update fun s _ => closeWork (s.modifyWorker me fun worker =>
      { worker with receiveServed := n + 1 }) work)

/-- A message arrives; the listener of a session that is not the worker's any more does
nothing. -/
def onMessage (me session : Nat) (message : WorkerMessage) : WorkerM Unit :=
  spawn (fun s _ =>
      if (s.workers me).session = some session then
        let n := (s.workers me).receiveIssued
        let (work, t) := openWork s me session
        (.ok ((), some (n, work)), t.modifyWorker me fun worker =>
          { worker with receiveIssued := n + 1 })
      else (.ok ((), none), s))
    fun entry => run (handle platform me session entry.1 entry.2 message)

def sessionLost (me session : Nat) : WorkerM Unit := do
  let lost ← atomically fun s _ =>
    if (s.workers me).session = some session then
      (.ok true, s.modifyWorker me fun worker => { worker with session := none })
    else (.ok false, s)
  if !lost then pure ()
  else forEachAttempt me fun i => do
    let orphaned ← query fun s => s.attempts[i]?.any fun attempt =>
      attempt.state != .terminal && attempt.request.orphanPolicy == .cancel
    if orphaned then
      cancelAttempt platform me i none "EXECUTOR_REMOTE_ORPHAN_CANCELLED"
        "Worker session was lost before local execution"
    else pure ()

def recoverHydrated (me : Nat) : WorkerM Unit := do
  let recovered ← atomically fun s _ => (.ok (s.workers me).recovered,
    s.modifyWorker me fun worker => { worker with recovered := true })
  if recovered then pure ()
  else forEachAttempt me fun i => do
    let unfinished ← query fun s => s.attempts[i]?.bind fun attempt =>
      if attempt.state = .terminal then none
      else some (attempt.cancellation.isSome, attempt.request.orphanPolicy == .cancel)
    match unfinished with
    | none => pure ()
    | some (cancelled, orphan) => do
      if !cancelled && orphan then markCancelled platform me i none else pure ()
      if cancelled || orphan then
        terminalFailure platform me i .cancelled "EXECUTOR_REMOTE_ORPHAN_CANCELLED"
          "Worker restart cancelled an unfinished remote attempt"
      else
        terminalFailure platform me i .failed "EXECUTOR_REMOTE_RESTART_UNCERTAIN"
          "Worker restart cannot safely re-execute an unfinished remote attempt"

/-! ## Hydration -/

def hydratedAttempt (record : RemoteAttemptRecord) (state : WorkerAttemptState)
    (reservedBytes : Nat) (result : Option RemoteResult) : WorkerAttempt where
  worker := me
  request := record.request
  fingerprint := record.fingerprint
  revision := record.revision
  issued := 0
  served := 0
  state := state
  epoch := record.epoch
  reservedBytes := reservedBytes
  executor := false
  result := result
  acknowledgedAt := record.acknowledgedAt
  cancellation := record.cancellation
  origin := .hydrated

def addHydrated (attempt : WorkerAttempt) : WorkerWorld :=
  { s.modifyWorker attempt.worker fun worker =>
      { worker with
        attempts := worker.attempts ++ [(attempt.request.key, s.attempts.length)] } with
    attempts := s.attempts ++ [attempt] }

/-- One record of `#hydrate`; `durable` is its result in the result store. -/
def hydrateRecord (record : RemoteAttemptRecord) (durable : Option RemoteResult) : WorkerM Unit :=
  match durable with
  | some result => do
    if result.key ≠ record.request.key ∨ result.workerId ≠ (platform.options me).workerId then
      throw .other
    let i ← atomically fun s _ =>
      match putResult platform
        (addHydrated s (hydratedAttempt me record .terminal 0 (some result))) me result with
      | (.error e, t) => (.error e, t)
      | (.ok (), t) => (.ok s.attempts.length, t)
    commit platform me i .terminal (some result) maxPersistenceAttempts
  | none =>
    atomically fun s r =>
      match record.state, record.result with
      | .terminal, some result =>
        let t := addHydrated s (hydratedAttempt me record .terminal 0 (some result))
        if record.acknowledgedAt.isNone then putResult platform t me result else (.ok (), t)
      | .acknowledged, _ | .running, _ =>
        (.ok (), addHydrated s (hydratedAttempt me record .acknowledged
          (resultReservationBytes platform me record.request r.now) none))
      | _, _ => (.ok (), s)

/-- The records of `#hydrate`, with the durable results that are left. -/
def hydrateRecords (me : Nat) : List RemoteAttemptRecord → List (JsString × RemoteResult) →
    WorkerM (List (JsString × RemoteResult))
  | [], durable => pure durable
  | record :: records, durable => do
    hydrateRecord platform me record (durable.lookup record.request.key)
    hydrateRecords me records (durable.filter fun entry => entry.1 != record.request.key)

/-- The results that are left go into the buffer. -/
def putResults (me : Nat) : List RemoteResult → WorkerWorld → Except WorkerError Unit × WorkerWorld
  | [], s => (.ok (), s)
  | result :: results, s =>
    match putResult platform s me result with
    | (.error e, s) => (.error e, s)
    | (.ok (), s) => putResults me results s

def unfinished : List WorkerAttempt :=
  ((s.workers me).attempts.filterMap fun entry => s.attempts[entry.2]?).filter fun attempt =>
    attempt.state != .terminal

def endHydration (durable : List (JsString × RemoteResult)) (s : WorkerWorld) (now : Int) :
    Except WorkerError Unit × WorkerWorld :=
  let fail := fun (s : WorkerWorld) =>
    s.modifyWorker me fun worker => { worker with initialization := .failed }
  match putResults platform me (durable.map (·.2)) s with
  | (.error e, s) => (.error e, fail s)
  | (.ok (), s) =>
    let attempts := unfinished s me
    let reserved := (attempts.map (·.reservedBytes)).sum
    let s := s.modifyWorker me fun worker =>
      { worker with
        reservedResults := attempts.length + worker.results.length
        reservedResultBytes := reserved }
    if attempts.any (fun attempt =>
          (platform.options me).maxResultBytes <
            minimumTerminalBytes platform me attempt.request now) ∨
        (platform.options me).maxBufferedBytes <
          bufferBytes platform (s.workers me).results + reserved then
      (.error .other, fail s)
    else (.ok (), (s.modifyWorker me fun worker => { worker with initialization := .hydrated }).log
      (.restored me (s.workers me).results))

/-- Do the recovered records pass the checks of `#hydrate`? -/
def recoverable (records : List RemoteAttemptRecord) (highestEpoch : Nat)
    (parsed : ParseOutcome) : Bool :=
  records.length ≤ (platform.options me).maxInventoryItems &&
    records.all (fun record => match parseStoredRecord platform me none record parsed with
      | .ok _ => record.epoch ≤ highestEpoch
      | .error _ => false) &&
    decide (records.map fun record => record.request.key).Nodup

/-- `#hydrate`, once `#initialization` holds its promise. -/
def hydrate : WorkerM Unit :=
  tryCatch (do
      let available ← query fun s => s.available me
      if !available then throw .unavailable
      let (records, highestEpoch) ← storeOperation me fun s r =>
        ((s.recoverable (platform.options me).workerId r.keys,
          s.highestEpochs (platform.options me).workerId), s)
      check fun _ r => if recoverable platform me records highestEpoch r.parsed then .ok ()
        else .error .other
      let durable ← check fun s r =>
        if (platform.options me).resultStore.isNone then .ok []
        else if r.ok then
          .ok (r.keys.dedup.filterMap fun key => (s.durableResults key).map fun result => (key, result))
        else .error .other
      update fun s _ => s.modifyWorker me fun worker =>
        { worker with highestEpoch := max worker.highestEpoch highestEpoch }
      let durable ← hydrateRecords platform me records durable
      atomically fun s r => endHydration platform me durable s r.now)
    fun _ => update fun s _ => s.modifyWorker me fun worker =>
      { worker with initialization := .failed }

def initialized : WorkerM Unit := do
  spawn (fun s _ =>
      if (s.workers me).closed then (.error .other, s)
      else if (s.workers me).initialization = .idle then
        (.ok ((), some ()), s.modifyWorker me fun worker => { worker with initialization := .loading })
      else (.ok ((), none), s))
    fun () => run (hydrate platform me)
  turn (fun s _ => (s.workers me).initialization == .hydrated ||
      (s.workers me).initialization == .failed) fun s _ =>
    (if (s.workers me).initialization = .hydrated then .ok () else .error .other, s)

/-! ## Attaching and closing -/

def attachSession (me session : Nat) : WorkerM Unit := do
  check fun s r => if (s.workers me).closed ∨ !r.ok then .error .other else .ok ()
  initialized platform me
  let current ← check fun s _ =>
    if platform.epoch session ≤ (s.workers me).highestEpoch ∧
        (s.workers me).session ≠ some session then .error .other
    else .ok (s.workers me).session
  match current with
  | some current => if current ≠ session then sessionLost platform me current else pure ()
  | none => pure ()
  update fun s _ => s.modifyWorker me fun worker =>
    { worker with
      highestEpoch := platform.epoch session
      session := some session
      attached := some session }
  recoverHydrated platform me

/-- `attach`: attachments wait for the ones before. -/
def attach (me session : Nat) : WorkerM Unit := do
  let n ← atomically fun s _ => (.ok (s.workers me).attachIssued, s.modifyWorker me fun worker =>
    { worker with attachIssued := worker.attachIssued + 1 })
  turn (fun s _ => (s.workers me).attachServed == n) fun s _ => (.ok (), s)
  tryFinally (attachSession platform me session) (update fun s _ => s.modifyWorker me fun worker =>
    { worker with attachServed := n + 1 })

def detachAll (body : Nat → WorkerM Unit) : List Nat → WorkerM Unit
  | [] => pure ()
  | i :: rest => do
    detach (run (body i))
    detachAll body rest

def close (me : Nat) : WorkerM Unit := do
  let session ← atomically fun s _ =>
    if (s.workers me).closed then (.error .other, s)
    else (.ok (s.workers me).session, s.modifyWorker me fun worker => { worker with closed := true })
  match session with
  | some session => sessionLost platform me session
  | none => pure ()
  let attempts ← query fun s => (s.workers me).attempts.map (·.2)
  detachAll (fun i => cancelAttempt platform me i none "EXECUTOR_REMOTE_CANCELLED"
    "Worker runtime closed before local execution completed") attempts

def publication (n : Nat) : WorkerM Unit := do
  let next ← atomically fun s _ =>
    match s.publications[n]? with
    | some (me, result, false) => (.ok (some (me, result)), { s with
        publications := s.publications.set n (me, result, true) })
    | _ => (.ok none, s)
  match next with
  | some (me, result) => publish platform me result
  | none => pure ()

end WorkerRuntime

inductive WorkerCall where
  | init (worker : Nat)
  | attach (worker session : Nat)
  | message (worker session : Nat) (message : WorkerRuntime.WorkerMessage)
  /-- The session is not ready any more. -/
  | stateChange (worker session : Nat)
  | publication (n : Nat)
  | close (worker : Nat)

namespace WorkerRuntime

variable (platform : WorkerPlatform)

def entry : WorkerCall → Proc WorkerWorld WorkerAnswer
  | .init me => Async.run (initialized platform me)
  | .attach me session => Async.run (attach platform me session)
  | .message me session message => Async.run (onMessage platform me session message)
  | .stateChange me session => Async.run (sessionLost platform me session)
  | .publication n => Async.run (publication platform n)
  | .close me => Async.run (close platform me)

/-- All runs of any number of runtimes over an empty store. -/
def machine : Machine (World WorkerWorld WorkerAnswer) (Sched WorkerCall WorkerAnswer) :=
  World.machine (· = .initial) (entry platform)

end WorkerRuntime

end TegoNext
