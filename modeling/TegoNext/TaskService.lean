/-
The task service, function by function.

Each function of the class is an `Async` program under the source's name. A turn is a stretch of
the source between two awaits, or one action of the store. Several services share one memory, and
`me` is the service whose functions these are. The functions of the environment are called in the
turn before and answered in the turn after.
-/
import TegoNext.TaskWorld

set_option autoImplicit false

namespace TegoNext

open Text JsDate

/-! ## Texts and comparisons -/

def targetMismatchedFields (expected selected : TaskExecutionTarget) : List String :=
  (if expected.artifactDigest ≠ selected.artifactDigest then ["artifactDigest"] else []) ++
    (if expected.deploymentGeneration ≠ selected.deploymentGeneration then
      ["deploymentGeneration"] else []) ++
    (if expected.executor.id ≠ selected.executor.id then ["executor.id"] else []) ++
    (if expected.executor.type ≠ selected.executor.type then ["executor.type"] else []) ++
    (if expected.executor.workerId ≠ selected.executor.workerId then ["executor.workerId"]
      else []) ++
    (if expected.instanceId ≠ selected.instanceId then ["instanceId"] else [])

def sameTarget (left right : TaskExecutionTarget) : Bool :=
  (targetMismatchedFields left right).isEmpty

def resultExecutor (record : TaskRecord) : ExecutionExecutor :=
  match record.target with
  | some target => ⟨target.executor.type, target.executor.workerId⟩
  | none => ⟨(record.executor.map (·.type)).getD .process, none⟩

/-- `record.target?.executor.type === "remote"`. -/
def TaskRecord.isRemote (record : TaskRecord) : Bool :=
  record.target.any fun target => target.executor.type == .remote

/-- `#classifyDefiniteAdmissionRejection`: whether the rejection is retryable. -/
def classifyDefiniteAdmissionRejection (error : TaskFailure) : Option Bool :=
  match error.code with
  | some .EXECUTOR_ATTEMPT_CAPACITY_EXCEEDED => some true
  | some .EXECUTOR_DRAINING => some true
  | some .EXECUTOR_INPUT_LIMIT_EXCEEDED => some false
  | some .EXECUTOR_QUEUE_CAPACITY_EXCEEDED => some true
  | _ => none

def uncertainDiagnostic (record : TaskRecord) (error : TaskFailure) (now : Instant) :
    RuntimeDiagnostic :=
  let indeterminate := plainDiagnostic .EXECUTOR_RESULT_INDETERMINATE
    "The execution or persistence boundary cannot prove an authoritative task result" "executor"
    record.taskId.text now
  match error.diagnostic with
  | none => indeterminate
  | some d =>
    if d.code = .EXECUTOR_TARGET_MISMATCH ∨ d.code = .EXECUTOR_TARGET_UNAVAILABLE ∨
        d.code = .EXECUTOR_RESULT_INVALID then
      { d with retryable := false, observedAt := now }
    else indeterminate

/-- The record an uncertain settlement writes: the given copy, made terminal. -/
def indeterminateRecord (record : TaskRecord) (error : TaskFailure) (now : Instant) : TaskRecord :=
  { record with
    state := .terminal
    updatedAt := now
    result := some
      { taskId := record.taskId
        attemptId := record.attemptId
        executor := resultExecutor record
        status := .indeterminate
        output := none
        diagnostic := some (uncertainDiagnostic record error now)
        startedAt := record.createdAt
        completedAt := now } }

def rejectedRecord (record current : TaskRecord) (error : TaskFailure)
    (authority : RuntimeAuthority) (retryable : Bool) (now : Instant) : TaskRecord :=
  { current with
    state := .terminal
    authority := some authority
    updatedAt := now
    result := some
      { taskId := record.taskId
        attemptId := record.attemptId
        executor := resultExecutor record
        status := .rejected
        output := none
        diagnostic := some
          { plainDiagnostic (error.code.getD .EXECUTOR_SUBMISSION_REJECTED)
              "Executor rejected the task before creating an attempt" "executor"
              record.taskId.text now with
            retryable := retryable }
        startedAt := record.createdAt
        completedAt := now } }

def parseExecutionResult (input : Option ExecutionResult) (now : Instant) :
    Except TaskFailure ExecutionResult :=
  match input with
  | some result => .ok result
  | none => .error (.service (plainDiagnostic .EXECUTOR_RESULT_INVALID
      "Execution result is invalid" "executor" (js "result") now))

inductive ObservationOutcome where
  | observed (value : Option AttemptStatus)
  | timeout

namespace TaskService

open TaskM

variable (platform : TaskPlatform) (me : Nat)

def assertAuthority (authority : RuntimeAuthority) : TaskM Unit :=
  check fun s now => s.assertAuthority me authority now

def assertOpen : TaskM Unit := check fun s now => s.assertOpen me now

/-! ## Reading -/

/-- `parseTaskRecord` of what was read. -/
def parseStored (entry : TaskEntry) : TaskM TaskRecord :=
  check fun _ now =>
    match entry with
    | .task record => parseTaskRecord platform record now
    | .operation _ =>
      .error (operationError "Runtime operation fields do not match the contract" now)

def load (taskId : PortableId) : TaskM (Option LoadedTask) := do
  let stored ← read (.task taskId)
  match stored with
  | none => pure none
  | some stored =>
    let record ← parseStored platform stored.value
    let loaded := ⟨record, stored.revision⟩
    update fun s => s.setRecord me taskId loaded
    pure (some loaded)

def status (taskId : PortableId) : TaskM (Option TaskRecord) := do
  assertOpen me
  let loaded ← load platform me taskId
  match loaded with
  | some loaded =>
    if loaded.record.state = .terminal then
      update fun s => s.setEphemeral me taskId none
      pure (some loaded.record)
    else
      query fun s => some (((s.services me).ephemeralTerminal taskId).getD loaded.record)
  | none => query fun s => (s.services me).ephemeralTerminal taskId

/-- `(await this.status(record.taskId)) ?? record`. -/
def statusOr (record : TaskRecord) : TaskM TaskRecord := do
  let current ← status platform me record.taskId
  pure (current.getD record)

/-- One stored task of `recover`. -/
def recoverOne (taskId : PortableId) : TaskM Unit := do
  let stored ← read (.task taskId)
  match stored with
  | none => pure ()
  | some stored =>
    let record ← parseStored platform stored.value
    update fun s => s.setRecord me record.taskId ⟨record, stored.revision⟩

/-- The loop of `recover` over the stored tasks. -/
def recoverAll : List PortableId → TaskM Unit
  | [] => pure ()
  | taskId :: rest => do
    recoverOne platform me taskId
    recoverAll rest

def recover : TaskM Unit := do
  assertOpen me
  update fun s => s.updateService me fun service => { service with records := ∅ }
  let ids ← ask fun
    | .tasks ids => some (.ok ids)
    | .failed d => some (.error (.outside .store d))
    | _ => none
  recoverAll platform me ids

/-- Register a waiter; a service that is closed rejects it at once. -/
def addWaiter (s : TaskWorld) (taskId : PortableId) (now : Instant) : TaskWorld :=
  let p := s.promises.length
  let s := (s.allocate taskId).setWaiters me taskId ((s.services me).waiters taskId ++ [p])
  if (s.services me).closed then s.settle p (.error (stoppedError now)) else s

/-- The look at the record after a waiter was registered. -/
def notifyIfTerminal (taskId : PortableId) : TaskM Unit := do
  let afterRegistration ← status platform me taskId
  match afterRegistration.filter fun record => record.state = .terminal with
  | some record => update fun s => s.notify me record
  | none => pure ()

/-- The rest of `wait` once the waiter is registered. -/
def awaitWaiter (taskId : PortableId) (p : Nat) : TaskM TaskRecord :=
  Async.tryFinally (awaitPromise p)
    (update fun s => s.setWaiters me taskId (((s.services me).waiters taskId).filter (· ≠ p)))

def wait (taskId : PortableId) : TaskM TaskRecord := do
  assertOpen me
  let current ← status platform me taskId
  match current with
  | none => fail (missingTask taskId)
  | some current =>
    if current.state = .terminal then pure current
    else
      let (p, closed) ← segment fun s now =>
        (.ok (s.promises.length, (s.services me).closed), addWaiter me s taskId now)
      if closed then awaitWaiter me taskId p
      else
        Async.tryCatch (notifyIfTerminal platform me taskId)
          fun e => update fun s => s.settle p (.error e)
        awaitWaiter me taskId p

/-! ## Rewriting a record -/

/-- `#transition`; `note` is what its commit leaves behind. -/
def transition (note : List TaskEvent) (taskId : PortableId) (authority : RuntimeAuthority)
    (next : TaskRecord → Instant → TaskRecord) : Nat → TaskM TaskRecord
  | 0 => fail (corruptTask taskId)
  | attempts + 1 => do
    assertAuthority me authority
    let loaded ← load platform me taskId
    match loaded with
    | none => fail (missingTask taskId)
    | some loaded =>
      if loaded.record.state = .terminal then pure loaded.record
      else
        let record ← check fun _ now => parseTaskRecord platform (next loaded.record now) now
        Async.tryCatch (do
          assertAuthority me authority
          commit fun s now => s.putTask taskId record loaded.revision authority note now
          assertAuthority me authority
          let persisted ← load platform me taskId
          match persisted with
          | none => fail (corruptTask taskId)
          | some persisted => pure persisted.record) fun e =>
            if e.code = some .STATE_REVISION_CONFLICT then
              transition note taskId authority next attempts
            else Async.throw e

def transitionAttempts : Nat := 4

variable (record : TaskRecord) (authority : RuntimeAuthority)

def settleUncertain (error : TaskFailure) (authority : RuntimeAuthority)
    (allowEphemeral : Bool) : TaskM Unit := do
  let prepared ← segment fun s now =>
    if ((s.services me).ephemeralTerminal record.taskId).isSome ∨
        (s.services me).authority ≠ some authority then (.ok none, s)
    else ((parseTaskRecord platform (indeterminateRecord record error now) now).map some, s)
  match prepared with
  | none => pure ()
  | some indeterminate =>
    Async.tryCatch (do
      let persisted ← transition platform me [.settled record] record.taskId authority
        (fun _ _ => indeterminate) transitionAttempts
      update fun s => s.notify me persisted) fun e =>
        update fun s =>
          if (s.services me).authority ≠ some authority ∨
              e.code = some .STATE_REVISION_CONFLICT ∨
              e.code = some .COORDINATION_FENCE_REJECTED ∨
              e.code = some .COORDINATION_NOT_LEADER ∨ !allowEphemeral then s
          else (s.setEphemeral me record.taskId (some indeterminate)).notify me indeterminate

/-- `#markUnknown` and `#markTargetUnavailable`: the record with a diagnostic. -/
def markDiagnostic (diagnostic : Instant → RuntimeDiagnostic) : TaskM Unit := do
  let _ ← transition platform me [] record.taskId authority
    (fun current now =>
      { current with
        authority := some authority, diagnostic := some (diagnostic now), updatedAt := now })
    transitionAttempts

def markUnknown (code : TaskCode) : TaskM Unit :=
  markDiagnostic platform me record authority fun now =>
    { plainDiagnostic code
        "Executor acknowledgement is unavailable; durable reconciliation remains pending"
        "executor" record.taskId.text now with
      retryable := true }

def markTargetUnavailable (d : RuntimeDiagnostic) : TaskM Unit :=
  markDiagnostic platform me record authority fun _ => d

def rejectAdmission (error : TaskFailure) (authority : RuntimeAuthority)
    (retryable : Bool) : TaskM TaskRecord := do
  let terminal ← transition platform me [] record.taskId authority
    (fun current now => rejectedRecord record current error authority retryable now)
    transitionAttempts
  update fun s => s.notify me terminal
  pure terminal

/-- The transition to `running`. -/
def markRunning : TaskM TaskRecord :=
  transition platform me [] record.taskId authority
    (fun current now =>
      { current with state := .running, authority := some authority, updatedAt := now })
    transitionAttempts

def complete (input : Option ExecutionResult) (authority : RuntimeAuthority)
    (registration : Option ExecutorRegistration) : TaskM Unit :=
  Async.tryFinally
    (Async.tryCatch (do
      let result ← check fun _ now => parseExecutionResult input now
      if result.taskId ≠ record.taskId ∨ result.attemptId ≠ record.attemptId then
        fail (invalidResult record.taskId "Executor result identity does not match the task")
      else if result.output.any fun output =>
          runtimeOperationMaxBytes < platform.outputBytes output then
        fail (invalidResult record.taskId "Executor output exceeds the durable result limit")
      else
        let terminal ← transition platform me [] record.taskId authority
          (fun current now =>
            { current with
              state := .terminal, authority := some authority, result := some result,
              updatedAt := now })
          transitionAttempts
        update fun s => s.notify me terminal) fun e =>
          settleUncertain platform me record e authority true)
    (update fun s => s.unregister me record.taskId registration)

/-! ## Executors -/

def selectExecutorBounded (taskId : PortableId)
    (target : Option TaskExecutionTarget) : TaskM TaskExecutorSelection := do
  let outcome ← attempt (ask fun
    | .selected selection => some (.ok selection)
    | .failed d => some (.error (.outside .selection d))
    | .aborted d => some (.error (.outside .clock d))
    | .timeout => some (.error .plain)
    | _ => none)
  let executorId := target.map fun target => target.executor.id
  match outcome with
  | .ok selection =>
    assertAuthority me authority
    pure selection
  | .error (.outside .selection d) =>
    let code := d.map (·.code)
    if code = some .BOOTSTRAP_STOPPED ∨ code = some .COORDINATION_FENCE_REJECTED ∨
        code = some .COORDINATION_NOT_LEADER then
      Async.throw (.outside .selection d)
    else fail (targetUnavailable taskId executorId code)
  | .error .plain => fail (targetUnavailable taskId executorId none)
  | .error e => Async.throw e

def validateSelection (selection : TaskExecutorSelection) (taskId : PortableId) : TaskM Unit :=
  check fun _ now =>
    if selection.executor.id ≠ selection.target.executor.id ∨
        selection.executor.type ≠ selection.target.executor.type then
      .error (targetMismatch taskId
        ((if selection.executor.id ≠ selection.target.executor.id then ["executor.id"] else []) ++
          (if selection.executor.type ≠ selection.target.executor.type then ["executor.type"]
            else [])) now)
    else .ok ()

def resolveExecutor :
    TaskM TaskExecutor := do
  match record.target, record.binding with
  | none, _ => fail (invalidResult record.taskId "Task execution target is missing")
  | _, none => fail (invalidResult record.taskId "Task execution binding is missing")
  | some target, some binding =>
    let retained ← query fun s => (s.services me).executors record.taskId
    match retained.filter fun registration =>
        registration.authority = authority ∧ registration.executor.id = target.executor.id ∧
          registration.executor.type = target.executor.type with
    | some registration => pure registration.executor
    | none =>
      let resolved ← selectExecutorBounded me authority record.taskId (some target)
      validateSelection resolved record.taskId
      if targetMismatchedFields target resolved.target ≠ [] then
        fail (targetMismatch record.taskId (targetMismatchedFields target resolved.target))
      else if resolved.binding.fingerprint ≠ binding.fingerprint then
        fail (targetMismatch record.taskId ["binding.fingerprint"])
      else pure resolved.executor

def observeBounded : TaskM ObservationOutcome :=
  ask fun
    | .observed status => some (.ok (.observed status))
    | .timeout => some (.ok .timeout)
    | .failed d => some (.error (.outside .executor d))
    | .aborted d => some (.error (.outside .clock d))
    | _ => none

/-- `#boundedEffect` of the executor's `cancel`. -/
def boundedEffect : TaskM Unit :=
  ask fun
    | .done => some (.ok ())
    | .timeout => some (.ok ())
    | .failed d => some (.error (.outside .executor d))
    | .aborted d => some (.error (.outside .clock d))
    | _ => none

def handleResult : TaskM (Option ExecutionResult) :=
  ask fun
    | .result result => some (.ok result)
    | .failed d => some (.error (.outside .executor d))
    | _ => none

/-- The continuation of a handle's result. -/
def completion (registration : ExecutorRegistration) : TaskM Unit := do
  let outcome ← attempt handleResult
  match outcome with
  | .ok result => complete platform me record result authority (some registration)
  | .error e => settleUncertain platform me record e authority true

/-! ## Dispatching -/

def executionRequest (target : TaskExecutionTarget)
    (binding : ExecutionBinding) : ExecutionRequest where
  taskId := record.taskId
  attemptId := record.attemptId
  target := target
  applicationId := record.request.applicationId
  pluginId := record.request.pluginId
  componentId := record.request.componentId
  binding := binding
  input := record.request.input
  deadline := record.request.deadline
  orphanPolicy := record.request.orphanPolicy

/-- A rejected submission, after the executor was asked about the attempt. -/
def submissionObserved (executor : TaskExecutor)
    (authority : RuntimeAuthority) (registration : ExecutorRegistration) (error : TaskFailure)
    (outcome : Except TaskFailure ObservationOutcome) : TaskM Unit :=
  match outcome with
  | .ok (.observed (some (.terminal result))) =>
    complete platform me record result authority (some registration)
  | _ =>
    if executor.type ≠ .remote then settleUncertain platform me record error authority true
    else markUnknown platform me record authority .EXECUTOR_SUBMISSION_UNKNOWN

def submissionFailed (executor : TaskExecutor)
    (authority : RuntimeAuthority) (registration : ExecutorRegistration) (error : TaskFailure) :
    TaskM TaskRecord := do
  match classifyDefiniteAdmissionRejection error with
  | some retryable =>
    Async.tryFinally (rejectAdmission platform me record error authority retryable)
      (update fun s => s.unregister me record.taskId (some registration))
  | none =>
    let outcome ← attempt observeBounded
    submissionObserved platform me record executor authority registration error outcome
    statusOr platform me record

def submissionAccepted
    (registration : ExecutorRegistration) (handle : TaskIdentity) : TaskM TaskRecord := do
  if handle.taskId ≠ record.taskId ∨ handle.attemptId ≠ record.attemptId then
    let mismatch ← check fun _ now => .ok
      (invalidResult record.taskId "Executor handle identity does not match the task" now)
    settleUncertain platform me record mismatch authority true
    statusOr platform me record
  else
    let running ← attempt (markRunning platform me record authority)
    match running with
    | .ok running =>
      Async.detach (completion platform me running authority registration).run
      pure running
    | .error e =>
      settleUncertain platform me record e authority true
      let uncertain ← query fun s => (s.services me).ephemeralTerminal record.taskId
      match uncertain with
      | some uncertain => pure uncertain
      | none =>
        let persisted ← status platform me record.taskId
        match persisted with
        | some persisted => pure persisted
        | none => Async.throw e

/-- `#dispatch`, the body of the promise `p`. -/
def dispatch (p : Nat) :
    TaskM TaskRecord := do
  assertAuthority me authority
  let executor ← resolveExecutor me record authority
  match record.target, record.binding with
  | none, _ => fail (invalidResult record.taskId "Task execution target is missing")
  | _, none => fail (invalidResult record.taskId "Task execution binding is missing")
  | some target, some binding =>
    let registration ← segment fun s now =>
      match s.assertAuthority me authority now with
      | .error e => (.error e, s)
      | .ok _ =>
        let (registration, s) := s.register me record.taskId executor authority
        (.ok registration, s.log (.submitted me (executionRequest record target binding) p))
    let handle ← attempt (ask fun
      | .handle taskId attemptId => some (.ok ⟨taskId, attemptId⟩)
      | .failed d => some (.error (.outside .executor d))
      | _ => none)
    match handle with
    | .ok handle => submissionAccepted platform me record authority registration handle
    | .error e => submissionFailed platform me record executor authority registration e

/-- A started dispatch: its body, and then the end of its promise. -/
def dispatchProcess (p : Nat) : Proc TaskWorld TaskAnswer :=
  Async.run (do
    let outcome ← attempt (dispatch platform me record authority p)
    update fun s => s.endDispatch me record.taskId p outcome : TaskM Unit)

def ensureDispatch : TaskM TaskRecord := do
  let p ← Async.spawn
    (fun s _ => ((.ok (s.startDispatch me record.taskId).1), (s.startDispatch me record.taskId).2))
    (dispatchProcess platform me record authority)
  awaitPromise p

/-! ## Recovery -/

def resumeRemoteCompletion (executor : TaskExecutor)
    (authority : RuntimeAuthority) (registration : ExecutorRegistration) : TaskM Unit := do
  let pending ← query fun s => ((s.services me).remoteCompletions record.taskId).isSome
  if pending || !executor.resumable then pure ()
  else
    let handle ← ask fun
      | .resumed handle => some (.ok handle)
      | .failed d => some (.error (.outside .executor d))
      | _ => none
    match handle with
    | none => pure ()
    | some handle =>
      if handle.taskId ≠ record.taskId ∨ handle.attemptId ≠ record.attemptId then
        let mismatch ← check fun _ now => .ok
          (invalidResult record.taskId "Recovered executor handle identity does not match" now)
        settleUncertain platform me record mismatch authority true
      else
        let serial ← segment fun s _ =>
          (.ok s.serials,
            { s.updateService me fun service =>
                { service with
                  remoteCompletions :=
                    Function.update service.remoteCompletions record.taskId (some s.serials) }
              with serials := s.serials + 1 })
        Async.detach (Async.run (do
          let _ ← attempt (completion platform me record authority registration)
          update fun s => s.updateService me fun service =>
            if service.remoteCompletions record.taskId = some serial then
              { service with
                remoteCompletions := Function.update service.remoteCompletions record.taskId none }
            else service : TaskM Unit))

/-- The executor of a record could not be resolved. -/
def recoverUnresolved (error : TaskFailure) : TaskM Unit :=
  if error.code = some .EXECUTOR_TARGET_MISMATCH then
    settleUncertain platform me record error authority true
  else
    match error.diagnostic.filter fun d => d.code = .EXECUTOR_TARGET_UNAVAILABLE ∧ record.isRemote with
    | some d => markTargetUnavailable platform me record authority d
    | none =>
      if record.isRemote then
        markUnknown platform me record authority .EXECUTOR_OBSERVATION_UNKNOWN
      else settleUncertain platform me record error authority true

def followUp (executor : TaskExecutor) (authority : RuntimeAuthority)
    (registration : ExecutorRegistration) : TaskM Unit :=
  if record.isRemote then resumeRemoteCompletion platform me record executor authority registration
  else pure ()

def recoverObserved (executor : TaskExecutor) (authority : RuntimeAuthority)
    (registration : ExecutorRegistration) (observed : Option AttemptStatus) : TaskM Unit := do
  assertAuthority me authority
  match observed with
  | some (.terminal result) =>
    complete platform me record result authority (some registration)
  | some .running =>
    if record.state = .accepted then
      let _ ← markRunning platform me record authority
      followUp platform me record executor authority registration
    else followUp platform me record executor authority registration
  | some .accepted => followUp platform me record executor authority registration
  | none =>
    if record.isRemote then
      markUnknown platform me record authority .EXECUTOR_OBSERVATION_UNKNOWN
    else if record.state = .accepted then
      let _ ← ensureDispatch platform me record authority
    else settleUncertain platform me record .plain authority true

/-- The executor's `cancel`, between two checks of the authority. -/
def cancelAttempt : TaskM Unit := do
  assertAuthority me authority
  boundedEffect
  assertAuthority me authority

/-- A recorded cancellation is sent to the executor once more. -/
def repeatCancellation : TaskM Unit :=
  if record.cancellation.isSome then cancelAttempt me authority else pure ()

/-- The observation of recovery; one that takes too long marks the record and
yields nothing. -/
def observeOrMark :
    TaskM (Option (Option AttemptStatus)) := do
  let outcome ← observeBounded
  match outcome with
  | .timeout =>
    markUnknown platform me record authority .EXECUTOR_OBSERVATION_UNKNOWN
    pure none
  | .observed value => pure (some value)

def recoverWith (executor : TaskExecutor) (authority : RuntimeAuthority) :
    TaskM Unit := do
  let registration ← segment fun s now =>
    match s.assertAuthority me authority now with
    | .error e => (.error e, s)
    | .ok _ =>
      let (registration, s) := s.register me record.taskId executor authority
      (.ok registration, s)
  repeatCancellation me record authority
  let observed ← attempt (observeOrMark platform me record authority)
  match observed with
  | .ok none => pure ()
  | .ok (some value) => recoverObserved platform me record executor authority registration value
  | .error e =>
    if record.isRemote then pure () else settleUncertain platform me record e authority true

def recoverRecord : TaskM Unit := do
  match record.binding, record.target with
  | none, _ =>
    let missing ← check fun _ now => .ok
      (invalidResult record.taskId "Task execution binding is missing" now)
    settleUncertain platform me record missing authority true
  | _, none => settleUncertain platform me record .plain authority true
  | some _, some _ =>
    let resolved ← attempt (resolveExecutor me record authority)
    match resolved with
    | .ok executor => recoverWith platform me record executor authority
    | .error e => recoverUnresolved platform me record authority e

def recoverGuarded : TaskM Unit :=
  Async.tryCatch (recoverRecord platform me record authority) fun e =>
    if record.isRemote then pure () else settleUncertain platform me record e authority true

/-- `#recoverPending`: the records are recovered side by side. -/
def recoverPending (authority : RuntimeAuthority) : List TaskRecord → TaskM Unit
  | [] => pure ()
  | record :: rest => do
    Async.detach (recoverGuarded platform me record authority).run
    recoverPending authority rest

def pendingRecords (service : TaskServiceState) : List TaskRecord :=
  (service.records.entries.map fun entry => entry.2.record).filter fun record =>
    record.state ≠ .terminal

def setAuthority (authority : Option RuntimeAuthority) : TaskM Unit := do
  segment fun s now =>
    match s.assertOpen me now with
    | .error e => (.error e, s)
    | .ok _ => (.ok (), s.updateService me fun service => { service with authority := authority })
  match authority with
  | none => pure ()
  | some authority =>
    recover platform me
    let pending ← check fun s now =>
      (s.assertAuthority me authority now).map fun _ => pendingRecords (s.services me)
    recoverPending platform me authority pending

def recoverRemoteWorker (workerId : PortableId) : TaskM Unit := do
  let (authority, pending) ← check fun s now =>
    match s.assertOpen me now with
    | .error e => .error e
    | .ok _ => (s.requireAuthority me now).map fun authority =>
      (authority, (pendingRecords (s.services me)).filter fun record =>
        record.target.any fun target =>
          target.executor.type = .remote ∧ target.executor.workerId = some workerId)
  recoverPending platform me authority pending

/-! ## Cancelling -/

def waitBounded (taskId : PortableId) : TaskM (Option TaskRecord) := do
  let p ← segment fun s _ => (.ok s.promises.length, s.allocate taskId)
  Async.detach (Async.run (do
    let outcome ← attempt (wait platform me taskId)
    update fun s => s.settle p outcome : TaskM Unit))
  Async.turn
    (fun s r =>
      match r.reply with
      | .timeout | .failed _ => true
      | _ => (s.promises[p]?.bind (·.outcome)).isSome)
    fun s r =>
      match r.reply with
      | .timeout => (.ok none, s)
      | .failed d => (.error (.outside .clock d), s)
      | _ => (((s.promises[p]?.bind (·.outcome)).getD (.error .plain)).map some, s)

def intendCancellation (current : TaskRecord) (authority : RuntimeAuthority) : TaskM TaskRecord :=
  if current.cancellation.isNone then
    transition platform me [] current.taskId authority
      (fun record now => { record with cancellation := some ⟨now, authority⟩, updatedAt := now })
      transitionAttempts
  else pure current

/-- Without an executor, wait for the dispatch that is under way. -/
def awaitDispatch (taskId : PortableId) : TaskM Unit := do
  let waiting ← query fun s =>
    if ((s.services me).executors taskId).isSome then none
    else (s.services me).dispatches taskId
  match waiting with
  | none => pure ()
  | some p =>
    let _ ← attempt (awaitPromise p)

def cancelAndObserve (registration : Option ExecutorRegistration) : TaskM ObservationOutcome :=
  match registration with
  | none => pure .timeout
  | some _ => do
    cancelAttempt me authority
    observeBounded

def completeObserved
    (registration : Option ExecutorRegistration) (observed : ObservationOutcome) : TaskM Unit :=
  match observed with
  | .observed (some (.terminal result)) =>
    complete platform me record result authority registration
  | _ => pure ()

def concludeCancellation (intended : TaskRecord) (authority : RuntimeAuthority) :
    TaskM TaskRecord := do
  let completed ← waitBounded platform me intended.taskId
  match completed with
  | some completed => pure completed
  | none =>
    let after ← status platform me intended.taskId
    match after.filter fun record => record.state = .terminal with
    | some record => pure record
    | none =>
      settleUncertain platform me intended .plain authority true
      statusOr platform me intended

/-- `#cancel`. -/
def cancelTask (taskId : PortableId) : TaskM TaskRecord := do
  let authority ← check fun s now => s.requireAuthority me now
  let current ← status platform me taskId
  match current with
  | none => fail (missingTask taskId)
  | some current =>
    if current.state = .terminal then pure current
    else
      let intended ← intendCancellation platform me current authority
      assertAuthority me authority
      awaitDispatch me taskId
      let registration ← query fun s => (s.services me).executors taskId
      let observed ← cancelAndObserve me authority registration
      assertAuthority me authority
      completeObserved platform me intended authority registration observed
      concludeCancellation platform me intended authority

/-- The promise of a cancellation, and the same again if it has to be started. -/
def startCancellation (s : TaskWorld) (taskId : PortableId) : (Nat × Option Nat) × TaskWorld :=
  match (s.services me).cancellations taskId with
  | some p => ((p, none), s)
  | none =>
    let p := s.promises.length
    ((p, some p),
      (s.allocate taskId).updateService me fun service =>
        { service with cancellations := Function.update service.cancellations taskId (some p) })

/-- A cancellation that fails leaves the map. -/
def endCancellation (s : TaskWorld) (taskId : PortableId) (p : Nat)
    (outcome : Except TaskFailure TaskRecord) : TaskWorld :=
  match outcome with
  | .ok _ => s.settle p outcome
  | .error _ => (s.settle p outcome).updateService me fun service =>
    if service.cancellations taskId = some p then
      { service with cancellations := Function.update service.cancellations taskId none }
    else service

def cancel (taskId : PortableId) : TaskM TaskRecord := do
  let p ← Async.spawn
    (fun s r =>
      match s.assertOpen me r.now, s.requireAuthority me r.now with
      | .error e, _ => (.error e, s)
      | _, .error e => (.error e, s)
      | .ok _, .ok _ => (.ok (startCancellation me s taskId).1, (startCancellation me s taskId).2))
    (fun p => Async.run (do
      let outcome ← attempt (cancelTask platform me taskId)
      update fun s => endCancellation me s taskId p outcome : TaskM Unit))
  awaitPromise p

def close : TaskM Unit :=
  segment fun s now =>
    if (s.services me).closed then (.ok (), s)
    else
      let waiting := (s.services me).waiters
      (.ok (), { s with
        services := Function.update s.services me
          { s.services me with closed := true, authority := none, waiters := fun _ => [] }
        promises := s.promises.mapIdx fun p promise =>
          if promise.outcome.isNone ∧ p ∈ waiting promise.taskId then
            { promise with outcome := some (.error (stoppedError now)) }
          else promise })

/-! ## Running a task -/

def boundIdentity (operationId : Option PortableId) (fingerprint : JsString) :
    TaskM (Option TaskOperationIdentity) :=
  match operationId with
  | none => pure none
  | some operationId => do
    let stored ← read (.operation operationId)
    match stored with
    | none => pure none
    | some ⟨.operation identity, _⟩ =>
      if identity.fingerprint ≠ fingerprint then fail (idempotencyConflict operationId)
      else pure (some identity)
    | some _ => fail (idempotencyConflict operationId)

variable (request : RunTaskRequest)

def findReplay (fingerprint : JsString) : TaskM (Option TaskRecord) := do
  let bound ← boundIdentity request.operationId fingerprint
  match bound with
  | none => pure none
  | some identity =>
    let task ← load platform me identity.taskId
    match task with
    | none => fail (corruptTask identity.taskId)
    | some task => pure (some task.record)

def admissionBody (candidate : TaskRecord) (fingerprint : JsString) :
    TaskM (Option TaskRecord) := do
  let bound ← boundIdentity candidate.request.operationId fingerprint
  match bound with
  | some identity =>
    let existing ← read (.task identity.taskId)
    match existing with
    | none => fail (corruptTask identity.taskId)
    | some existing =>
      let record ← parseStored platform existing.value
      pure (some record)
  | none =>
    let existing ← read (.task candidate.taskId)
    match existing with
    | none => pure none
    | some existing =>
      let record ← parseStored platform existing.value
      if fingerprintOf platform.numberText record.request ≠ fingerprint then
        fail (idempotencyConflict (candidate.request.operationId.getD candidate.taskId))
      else pure (some record)

def transactAdmission (candidate : TaskRecord) (fingerprint : JsString)
    (authority : RuntimeAuthority) : TaskM TaskRecord := do
  let replay ← commit fun s now =>
    (s.replayReceipt candidate.request.operationId fingerprint now).map fun r => (r, s)
  match replay with
  | some result => pure result
  | none =>
    let existing ← admissionBody platform candidate fingerprint
    commit fun s now => s.commitAdmission candidate fingerprint authority existing now

def candidateRecord (proposed : TaskIdentity)
    (selection : TaskExecutorSelection) (authority : RuntimeAuthority) (now : Instant) :
    TaskRecord where
  taskId := proposed.taskId
  attemptId := proposed.attemptId
  request := request
  state := .accepted
  createdAt := now
  updatedAt := now
  target := some selection.target
  binding := some selection.binding
  executor := none
  authority := some authority
  cancellation := none
  diagnostic := none
  result := none

/-- `#admit`. -/
def admitTask (fingerprint : JsString) (proposed : TaskIdentity)
    (selection : TaskExecutorSelection) (authority : RuntimeAuthority) : TaskM TaskRecord := do
  let candidate ← check fun s now =>
    match s.assertAuthority me authority now with
    | .error e => .error e
    | .ok _ =>
      parseTaskRecord platform (candidateRecord request proposed selection authority now) now
  let admitted ← transactAdmission platform candidate fingerprint authority
  assertAuthority me authority
  let loaded ← load platform me admitted.taskId
  match loaded with
  | none => fail (corruptTask admitted.taskId)
  | some loaded => pure loaded.record

def noteContinued (fingerprint : JsString) (taskId : PortableId) : TaskM Unit :=
  match request.operationId with
  | none => pure ()
  | some operationId => update fun s => s.log (.continued operationId fingerprint taskId)

/-- The part of `run` for an operation that already has a task. -/
def runReplay (replay : TaskRecord) : TaskM TaskRecord :=
  if replay.state = .terminal then pure replay
  else do
    let active ← query fun s => (s.services me).dispatches replay.taskId
    match active with
    | some p => awaitPromise p
    | none =>
      let current ← check fun s now => s.requireAuthority me now
      recoverRecord platform me replay current
      statusOr platform me replay

/-- The part of `run` after the admission. -/
def runAdmitted (admitted : TaskRecord) (selected : TaskExecutorSelection)
    (authority : RuntimeAuthority) : TaskM TaskRecord := do
  let existing ← segment fun s _ =>
    let s :=
      if admitted.target.any (fun target => sameTarget target selected.target) ∧
          admitted.binding.any (fun b => b.fingerprint = selected.binding.fingerprint) then
        (s.register me admitted.taskId selected.executor authority).2
      else s
    (.ok ((s.services me).dispatches admitted.taskId), s)
  match existing with
  | some p => awaitPromise p
  | none =>
    if admitted.state = .accepted then ensureDispatch platform me admitted authority
    else pure admitted

/-- `run`, on a request that has been parsed. -/
def run : TaskM TaskRecord := do
  let authority ← check fun s now =>
    match s.assertOpen me now with
    | .error e => .error e
    | .ok _ => s.requireAuthority me now
  let fingerprint := fingerprintOf platform.numberText request
  let replay ← findReplay platform me request fingerprint
  match replay with
  | some replay =>
    noteContinued request fingerprint replay.taskId
    runReplay platform me replay
  | none =>
    let proposed ← ask fun
      | .identity identity => some (.ok identity)
      | _ => none
    let selected ← selectExecutorBounded me authority proposed.taskId none
    validateSelection selected proposed.taskId
    assertAuthority me authority
    let admitted ← admitTask platform me request fingerprint proposed selected authority
    noteContinued request fingerprint admitted.taskId
    runAdmitted platform me admitted selected authority

end TaskService

/-! ## Runs of several services -/

inductive TaskCall where
  | recover
  | setAuthority (epoch : Option Nat)
  | recoverRemoteWorker (workerId : PortableId)
  | run (request : RunTaskRequest)
  | status (taskId : PortableId)
  | wait (taskId : PortableId)
  | cancel (taskId : PortableId)
  | close

namespace TaskService

variable (platform : TaskPlatform) (leadership : JsString)

/-- A call of `run`, with a note of how it ended. -/
def runNoted (me : Nat) (request : RunTaskRequest) : TaskM Unit :=
  match request.operationId with
  | none => do
    let _ ← run platform me request
  | some operationId => do
    let bound ← TaskM.query fun s => (s.operationIdentity operationId).map (·.fingerprint)
    let outcome ← TaskM.attempt (run platform me request)
    TaskM.update fun s => s.log
      (.returned operationId (fingerprintOf platform.numberText request) bound outcome)

/-- The activity a call starts; the authorities of the services differ in their epochs. -/
def call (me : Nat) : TaskCall → Proc TaskWorld TaskAnswer
  | .recover => (recover platform me).run
  | .setAuthority epoch => (setAuthority platform me (epoch.map fun e => ⟨leadership, e⟩)).run
  | .recoverRemoteWorker workerId => (recoverRemoteWorker platform me workerId).run
  | .run request => (runNoted platform me request).run
  | .status taskId => (status platform me taskId).run
  | .wait taskId => (wait platform me taskId).run
  | .cancel taskId => (cancel platform me taskId).run
  | .close => (close me).run

/-- All interleavings of the calls of any number of services. -/
def machine : Machine (World TaskWorld TaskAnswer) (Sched (Nat × TaskCall) TaskAnswer) :=
  World.machine (fun s => s = .initial) fun c => call platform leadership c.1 c.2

end TaskService

end TegoNext
