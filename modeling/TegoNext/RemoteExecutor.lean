/-
The components of a remote worker, as the main records them (`remote-executor.ts`).

The table of component activations says which target runs at the worker, or is being drained there.
Activating, draining and stopping ask the worker and wait; attaching a session asks for its
inventory. Beside it stand the capability invocations that were sent, and their tombstones.

A step is what runs between two `await`s. Targets stand for their canonical texts.
-/
import TegoNext.JsMap
import TegoNext.TaskRecord
import TegoNext.WorkerSession

set_option autoImplicit false

namespace TegoNext

open Text

/-! ## Data -/

structure RemoteComponentActivation where
  target : TaskExecutionTarget
  bindingFingerprint : JsString
  /-- The canonical text of the other fields. -/
  content : JsString
  deriving DecidableEq

inductive ComponentProvenance where
  | main
  | mainTeardown
  | workerTeardown
  deriving DecidableEq

inductive RemoteComponentState where
  | active
  | draining
  deriving DecidableEq

/-- An entry of `#componentActivations`, and the number of drains and stops that had been
recorded when what it records was asked for. -/
structure ComponentEntry where
  activation : RemoteComponentActivation
  provenance : ComponentProvenance
  state : RemoteComponentState
  since : Nat
  deriving DecidableEq

structure RemoteCapabilityInvocation where
  invocationId : JsString
  bindingFingerprint : JsString
  target : TaskExecutionTarget
  invocation : JsonValue

/-- An entry of `#capabilityInvocations`; its promise is that of an invocation that was sent. -/
structure RemoteInvocationEntry where
  fingerprint : JsString
  invocation : Nat
  target : TaskExecutionTarget
  settled : Bool

/-- What a call throws; only a diagnostic has a code. -/
structure RemoteError where
  code : Option JsString
  message : JsString
  deriving DecidableEq

def remoteError (code message : String) : RemoteError := ⟨some (js code), js message⟩

/-- An entry of `#indeterminateCapabilityInvocations`, a tombstone. -/
structure IndeterminateEntry where
  fingerprint : JsString
  error : RemoteError
  target : TaskExecutionTarget

structure RemoteExecutorOptions where
  id : JsString
  workerId : PortableId
  maxInventoryItems : Nat
  maxInventoryBytes : Nat
  maxCapabilityInvocations : Nat
  maxIndeterminateCapabilityInvocations : Nat
  maxCapabilityInvocationBytes : Nat
  /-- `jsonBytes` and `capabilityInvocationFingerprint` of an invocation. -/
  invocationBytes : RemoteCapabilityInvocation → Nat
  invocationFingerprint : RemoteCapabilityInvocation → JsString
  /-- `jsonBytes` of the activations sent with the request for the inventory. -/
  activationBytes : List (RemoteComponentActivation × RemoteComponentState) → Nat

/-- What the executor reads of a session. -/
structure RemoteSession where
  state : WorkerSessionState
  available : Bool

/-! ## Waiting calls -/

inductive LifecycleKind where
  | activate
  | drain
  | stop
  deriving DecidableEq

def LifecycleKind.responseType : LifecycleKind → WorkerMessageType
  | activate => .componentActivated
  | drain => .componentDrain
  | stop => .componentStop

structure LifecycleCall where
  kind : LifecycleKind
  session : Nat
  activation : RemoteComponentActivation
  provenance : ComponentProvenance
  since : Nat

structure Reconciliation where
  session : Nat
  since : Nat

structure ResponseError where
  code : JsString
  message : JsString

/-- The error of a response that is not `ok`, as the executor throws it. -/
def ResponseError.thrown : Option ResponseError → RemoteError → RemoteError
  | some error, _ => ⟨some error.code, error.message⟩
  | none, otherwise => otherwise

structure RemoteComponentLifecycleResponse where
  ok : Bool
  target : TaskExecutionTarget
  bindingFingerprint : Option JsString
  error : Option ResponseError

/-- What `session.request` answers: a message, with its payload or the text of what its parse
throws. -/
structure LifecycleAnswer where
  type : WorkerMessageType
  payload : Except JsString RemoteComponentLifecycleResponse

structure RemoteCapabilityInvocationResponse where
  invocationId : JsString
  fingerprint : JsString
  ok : Bool
  error : Option ResponseError

/-- The same, with the payload if it is well formed. -/
structure CapabilityAnswer where
  type : WorkerMessageType
  payload : Option RemoteCapabilityInvocationResponse

structure SentInvocation where
  request : RemoteCapabilityInvocation
  fingerprint : JsString
  session : Nat
  result : Option (Except RemoteError Unit)
  /-- The callbacks of the outcome have run. -/
  handled : Bool
  /-- Its component has been stopped since. -/
  stopped : Bool

structure RemoteExecutor where
  sessions : Nat → RemoteSession
  session : Option Nat
  authorityRevoked : Bool
  closed : Bool
  lifecycleManaged : Bool
  componentActivations : JsMap TaskExecutionTarget ComponentEntry
  capabilityInvocations : JsMap JsString RemoteInvocationEntry
  indeterminateCapabilityInvocations : JsMap JsString IndeterminateEntry
  lifecycleCalls : List LifecycleCall
  /-- The session whose attachment awaits the recovery of the attempts. -/
  attaching : Option Nat
  reconciliation : Option Reconciliation
  invocations : List SentInvocation
  /-- How many drains and stops have been recorded, and how many at the last drain and the last
  stop of a target. -/
  recorded : Nat
  lastDrain : TaskExecutionTarget → Nat
  lastStop : TaskExecutionTarget → Nat

/-- A method that may throw; what it has done before stays done. -/
abbrev RemoteOutcome : Type := RemoteExecutor × Option RemoteError

namespace RemoteExecutor

def new : RemoteExecutor where
  sessions _ := ⟨.authenticating, false⟩
  session := none
  authorityRevoked := false
  closed := false
  lifecycleManaged := false
  componentActivations := .empty
  capabilityInvocations := .empty
  indeterminateCapabilityInvocations := .empty
  lifecycleCalls := []
  attaching := none
  reconciliation := none
  invocations := []
  recorded := 0
  lastDrain _ := 0
  lastStop _ := 0

/-! ## Targets -/

def sameTarget (left right : TaskExecutionTarget) : Bool :=
  left.instanceId = right.instanceId && left.deploymentGeneration = right.deploymentGeneration &&
    left.artifactDigest = right.artifactDigest && left.executor.id = right.executor.id &&
    left.executor.type = right.executor.type && left.executor.workerId = right.executor.workerId

theorem sameTarget_iff {left right : TaskExecutionTarget} :
    sameTarget left right = true ↔ left = right := by
  obtain ⟨instanceId, generation, digest, ⟨id, type, workerId, hworker⟩⟩ := left
  obtain ⟨instanceId', generation', digest', ⟨id', type', workerId', hworker'⟩⟩ := right
  simp [sameTarget, and_assoc]

section

variable (options : RemoteExecutorOptions) (e : RemoteExecutor)

def ownTarget (target : TaskExecutionTarget) : Bool :=
  target.executor.type = .remote && target.executor.id = options.id &&
    target.executor.workerId = some options.workerId

def assertExactTarget (target : TaskExecutionTarget) (operation : String) : Option RemoteError :=
  if ownTarget options target then none
  else some (remoteError "PROTOCOL_EXECUTION_TARGET_INVALID"
    ("Remote " ++ operation ++ " target does not match this authenticated RemoteExecutor"))

/-! ## Requests about components -/

def usableSession : Option Nat :=
  e.session.filter fun x => !e.authorityRevoked && !e.closed &&
    decide ((e.sessions x).state = .ready) && (e.sessions x).available

/-- `#componentLifecycleRequest`, as far as its `await`. -/
def componentLifecycleRequest (kind : LifecycleKind)
    (activation : RemoteComponentActivation) (provenance : ComponentProvenance) : RemoteOutcome :=
  match e.usableSession with
  | none => (e, some (remoteError "LIFECYCLE_COMPONENT_HOST_UNAVAILABLE"
      "Remote component lifecycle requires an authenticated ready Worker session"))
  | some session =>
    ({ e with
      lifecycleCalls := e.lifecycleCalls ++
        [{ kind := kind
           session := session
           activation := activation
           provenance := provenance
           since := e.recorded }] }, none)

def lifecycleIndeterminate (message : String) : RemoteError :=
  remoteError "LIFECYCLE_REMOTE_INDETERMINATE" message

/-- `#componentLifecycleRequest`, after its `await`. -/
def lifecycleOutcome (call : LifecycleCall) : Option LifecycleAnswer → Except RemoteError Unit
  | none => .error (lifecycleIndeterminate ("Remote component lifecycle is indeterminate " ++
      "because the session ended before acknowledgement"))
  | some answer =>
    if e.session ≠ some call.session || (e.sessions call.session).state ≠ .ready ||
        answer.type ≠ call.kind.responseType then
      .error (lifecycleIndeterminate
        "Remote component lifecycle authority changed before acknowledgement")
    else
      match answer.payload with
      | .error message => .error ⟨none, message⟩
      | .ok result =>
        if !sameTarget result.target call.activation.target then
          .error (remoteError "PROTOCOL_COMPONENT_LIFECYCLE_INVALID"
            "Worker component lifecycle response does not match its exact target")
        else if !result.ok then
          .error (ResponseError.thrown result.error
            (remoteError "LIFECYCLE_COMPONENT_HOST_UNAVAILABLE"
              "Worker rejected remote component lifecycle"))
        else if result.bindingFingerprint ≠ some call.activation.bindingFingerprint then
          .error (remoteError "PROTOCOL_COMPONENT_LIFECYCLE_INVALID"
            "Worker component lifecycle response does not match its exact binding")
        else .ok ()

section

variable (target : TaskExecutionTarget)

def recordDraining (entry : ComponentEntry) : RemoteExecutor :=
  { e with
    componentActivations := e.componentActivations.set target { entry with state := .draining }
    recorded := e.recorded + 1
    lastDrain := Function.update e.lastDrain target (e.recorded + 1) }

/-! ## The methods -/

/-- What `activateComponent` finds wrong with the table. -/
def activationRefused (activation : RemoteComponentActivation) : Option RemoteError :=
  match e.componentActivations.get activation.target with
  | none => none
  | some existing =>
    if existing.state = .draining then
      some (remoteError "LIFECYCLE_COMPONENT_NOT_ACTIVE"
        "A draining component activation cannot be promoted back to active")
    else if existing.activation.bindingFingerprint ≠ activation.bindingFingerprint then
      some (remoteError "PROTOCOL_COMPONENT_ACTIVATION_CONFLICT"
        "Exact component activation has a different binding fingerprint")
    else none

/-- `activateComponent`, as far as its `await`. -/
def activateComponent (activation : RemoteComponentActivation) : RemoteOutcome :=
  match assertExactTarget options activation.target "component activation" with
  | some thrown => (e, some thrown)
  | none =>
    let e := { e with lifecycleManaged := true }
    match e.activationRefused activation with
    | some thrown => (e, some thrown)
    | none => e.componentLifecycleRequest .activate activation .main

def restoreComponentForTermination (activation : RemoteComponentActivation) : RemoteOutcome :=
  match assertExactTarget options activation.target "component termination restoration" with
  | some thrown => (e, some thrown)
  | none =>
    let e := { e with lifecycleManaged := true }
    let restored := e.recordDraining activation.target
      ⟨activation, .mainTeardown, .draining, e.recorded⟩
    match e.componentActivations.get activation.target with
    | none => (restored, none)
    | some existing =>
      if existing.activation ≠ activation then
        (e, some (remoteError "PROTOCOL_COMPONENT_ACTIVATION_CONFLICT"
          "Exact component termination restoration conflicts with retained activation state"))
      else (restored, none)

/-- `drainComponent`, as far as its `await`. -/
def drainComponent (bindingFingerprint : Option JsString) : RemoteOutcome :=
  let notActive := remoteError "LIFECYCLE_COMPONENT_NOT_ACTIVE"
    "Remote component drain requires an active exact target"
  match assertExactTarget options target "component drain", e.componentActivations.get target with
  | some thrown, _ => (e, some thrown)
  | none, none => (e, some notActive)
  | none, some entry =>
    if !sameTarget entry.activation.target target then (e, some notActive)
    else if (entry.provenance ≠ .main || bindingFingerprint.isSome) &&
        bindingFingerprint ≠ some entry.activation.bindingFingerprint then
      (e, some (remoteError "PROTOCOL_COMPONENT_ACTIVATION_CONFLICT"
        "Remote component drain requires the Main-derived binding fingerprint"))
    else
      (e.recordDraining target entry).componentLifecycleRequest .drain entry.activation
        entry.provenance

/-- `stopComponent`, as far as its `await`. -/
def stopComponent (bindingFingerprint : Option JsString) : RemoteOutcome :=
  let notActive := remoteError "LIFECYCLE_COMPONENT_NOT_ACTIVE"
    "Remote component stop requires an active exact target"
  match assertExactTarget options target "component stop", e.componentActivations.get target with
  | some thrown, _ => (e, some thrown)
  | none, none => (e, some notActive)
  | none, some entry =>
    let requested := bindingFingerprint.or
      (if entry.provenance = .main then some entry.activation.bindingFingerprint else none)
    if !sameTarget entry.activation.target target then (e, some notActive)
    else if requested ≠ some entry.activation.bindingFingerprint then
      (e, some (remoteError "PROTOCOL_COMPONENT_ACTIVATION_CONFLICT"
        "Worker-reported teardown requires the Main-derived binding fingerprint"))
    else
      (e.recordDraining target entry).componentLifecycleRequest .stop entry.activation
        entry.provenance

def clearCapabilityHistory : RemoteExecutor :=
  { e with
    capabilityInvocations := e.capabilityInvocations.filter fun _ entry =>
      !sameTarget entry.target target
    indeterminateCapabilityInvocations := e.indeterminateCapabilityInvocations.filter fun _ entry =>
      !sameTarget entry.target target
    invocations := e.invocations.map fun sent =>
      if sent.request.target = target then { sent with stopped := true } else sent }

/-- The end of `stopComponent`. -/
def completeStop : RemoteExecutor :=
  { e with
    componentActivations := e.componentActivations.delete target
    recorded := e.recorded + 1
    lastStop := Function.update e.lastStop target (e.recorded + 1) }.clearCapabilityHistory target

end

/-- What a call does with the outcome of its request. -/
def lifecycleCompleted (call : LifecycleCall)
    (outcome : Except RemoteError Unit) : RemoteExecutor :=
  match call.kind, outcome with
  | .activate, .ok () =>
    { e with
      componentActivations :=
        e.componentActivations.set call.activation.target
          ⟨call.activation, .main, .active, call.since⟩ }
  | .stop, .ok () => e.completeStop call.activation.target
  | .stop, .error thrown =>
    if call.provenance = .mainTeardown &&
        thrown.code = some (js "LIFECYCLE_COMPONENT_NOT_ACTIVE") then
      e.completeStop call.activation.target
    else e
  | _, _ => e

def lifecycleAnswered (i : Nat) (answer : Option LifecycleAnswer) : Option RemoteExecutor :=
  e.lifecycleCalls[i]?.map fun call =>
    { e with lifecycleCalls := e.lifecycleCalls.eraseIdx i }.lifecycleCompleted call
      (e.lifecycleOutcome call answer)

/-! ## Reconciliation -/

/-- `#sessionLost`, where the session is still the attached one. -/
def sessionLost : RemoteExecutor := { e with session := none }

/-- The activations the main tells the worker of. -/
def mainActivations : List (RemoteComponentActivation × RemoteComponentState) :=
  (e.componentActivations.entries.filter fun entry => entry.2.provenance = .main).map fun entry =>
    (entry.2.activation, entry.2.state)

/-- `#attach`, as far as `#hydrate`; attachments are made one at a time. -/
def attach (session : Nat) : Option RemoteExecutor :=
  if e.attaching.isSome || e.reconciliation.isSome || e.authorityRevoked || e.closed ||
      (e.sessions session).state ≠ .ready || !(e.sessions session).available then none
  else some { e with attaching := some session }

/-- `#attach` after `#hydrate`, and `#reconcile` as far as its `await`. -/
def hydrated : Option RemoteExecutor :=
  e.attaching.map fun session =>
    let e := { e with attaching := none }
    if e.authorityRevoked then e
    else if options.maxInventoryItems < e.mainActivations.length ||
        options.maxInventoryBytes < options.activationBytes e.mainActivations then
      e.sessionLost
    else
      { e with session := some session, reconciliation := some ⟨session, e.recorded⟩ }

/-- What the inventory says of one activation: none if it is left alone. -/
def teardownCandidate (since : Nat) (activation : RemoteComponentActivation)
    (state : RemoteComponentState) : Except Unit (Option ComponentEntry) :=
  match e.componentActivations.get activation.target with
  | some existing =>
    if existing.activation.bindingFingerprint ≠ activation.bindingFingerprint ||
        !sameTarget existing.activation.target activation.target then .error ()
    else if existing.provenance ≠ .mainTeardown ∧ existing.state ≠ state then .error ()
    else if existing.provenance = .workerTeardown then
      if existing.state ≠ .draining then .error ()
      else .ok (some ⟨existing.activation, .workerTeardown, .draining, existing.since⟩)
    else .ok none
  | none =>
    .ok (if state = .draining then some ⟨activation, .workerTeardown, .draining, since⟩
      else none)

/-- The loop over the inventory. -/
def teardownCandidates (options : RemoteExecutorOptions) (e : RemoteExecutor) (since : Nat) :
    List TaskExecutionTarget → List (RemoteComponentActivation × RemoteComponentState) →
      Except Unit (List (TaskExecutionTarget × ComponentEntry))
  | _, [] => .ok []
  | retained, (activation, state) :: rest =>
    if !ownTarget options activation.target || retained.contains activation.target then .error ()
    else do
      let candidate ← e.teardownCandidate since activation state
      let candidates ← e.teardownCandidates options since (activation.target :: retained) rest
      pure ((candidate.map fun entry => (activation.target, entry)).toList ++ candidates)

/-- The candidates replace what an earlier inventory has told. -/
def recordCandidates (candidates : List (TaskExecutionTarget × ComponentEntry)) : RemoteExecutor :=
  candidates.foldl (fun e candidate => e.recordDraining candidate.1 candidate.2)
    { e with
      componentActivations := e.componentActivations.filter fun _ entry =>
        entry.provenance ≠ .workerTeardown }

/-- The rest of `#reconcile` as far as components go, with the inventory if the worker's answer
is well formed. -/
def reconcileAnswered (answer : Option (List (RemoteComponentActivation × RemoteComponentState))) :
    Option RemoteExecutor :=
  match e.reconciliation with
  | none => none
  | some reconciliation =>
    let answered := { e with reconciliation := none }
    if e.session ≠ some reconciliation.session then some answered
    else
      match answer with
      | none => some answered.sessionLost
      | some inventory =>
        match e.teardownCandidates options reconciliation.since [] inventory with
        | .error () => some answered.sessionLost
        | .ok candidates => some
            { answered.recordCandidates candidates with
              lifecycleManaged := e.lifecycleManaged || !inventory.isEmpty }

/-- A session changes its state; the attached one is lost when it is no longer ready. -/
def sessionChanged (session : Nat) (value : RemoteSession) : RemoteExecutor :=
  { e with
    sessions := Function.update e.sessions session value
    session := if e.session = some session ∧ value.state ≠ .ready then none else e.session }

def revokeAuthority : RemoteExecutor :=
  { e with authorityRevoked := true, session := none }

/-- `close`, once everything is drained. -/
def close : RemoteExecutor :=
  { e with
    closed := true
    session := none
    capabilityInvocations := .empty
    indeterminateCapabilityInvocations := .empty }

/-! ## Capability invocations -/

variable (request : RemoteCapabilityInvocation)

def assertCapabilityActivation : Bool :=
  !e.lifecycleManaged ||
    (e.componentActivations.get request.target).any fun entry =>
      entry.state = .active && entry.activation.bindingFingerprint = request.bindingFingerprint

/-- `getCapabilityEntry`: a settled entry becomes the most recently used. -/
def getCapabilityEntry (entries : JsMap JsString RemoteInvocationEntry) (key : JsString) :
    Option RemoteInvocationEntry × JsMap JsString RemoteInvocationEntry :=
  match entries.get key with
  | some entry =>
    (some entry, if entry.settled then (entries.delete key).set key entry else entries)
  | none => (none, entries)

/-- `reserveCapabilityEntry`, with a bound on the turns of its loop. -/
def reserveCapabilityEntry (maximum : Nat) :
    Nat → JsMap JsString RemoteInvocationEntry → Bool × JsMap JsString RemoteInvocationEntry
  | 0, entries => (decide (entries.size < maximum), entries)
  | turns + 1, entries =>
    if entries.size < maximum then (true, entries)
    else
      match entries.entries.find? (·.2.settled) with
      | none => (false, entries)
      | some leastRecentlyUsed =>
        reserveCapabilityEntry maximum turns (entries.delete leastRecentlyUsed.1)

def countPendingCapabilityEntries (entries : JsMap JsString RemoteInvocationEntry) : Nat :=
  entries.total fun entry => if entry.settled then 0 else 1

def exhausted (message : String) : RemoteError :=
  remoteError "CAPABILITY_INVOCATION_EXHAUSTED" message

def capabilityConflict : RemoteError :=
  remoteError "PROTOCOL_CAPABILITY_INVOCATION_CONFLICT"
    "Capability invocation identity has a different canonical fingerprint"

def sendInvocation (fingerprint : JsString) (session : Nat) : RemoteExecutor :=
  { e with
    capabilityInvocations := e.capabilityInvocations.set request.invocationId
      { fingerprint := fingerprint
        invocation := e.invocations.length
        target := request.target
        settled := false }
    invocations := e.invocations ++
      [{ request := request
         fingerprint := fingerprint
         session := session
         result := none
         handled := false
         stopped := false }] }

/-- The admission of an invocation that is not known: room is made for it. -/
def admitInvocation (fingerprint : JsString) : RemoteOutcome :=
  let (reserved, entries) := reserveCapabilityEntry options.maxCapabilityInvocations
    e.capabilityInvocations.size e.capabilityInvocations
  let e := { e with capabilityInvocations := entries }
  if !reserved then (e, some (exhausted "Remote capability invocation capacity is exhausted"))
  else if options.maxIndeterminateCapabilityInvocations ≤
      e.indeterminateCapabilityInvocations.size +
        countPendingCapabilityEntries e.capabilityInvocations then
    (e, some (exhausted
      "Remote indeterminate capability tombstone capacity is exhausted until component stop"))
  else
    match e.usableSession with
    | none => (e, some (remoteError "CAPABILITY_REMOTE_NOT_AVAILABLE"
        "Remote capability invocation requires an authenticated ready Worker session"))
    | some session => (e.sendInvocation request fingerprint session, none)

/-- `invokeCapability`, as far as its request. -/
def invokeCapability : RemoteOutcome :=
  if !ownTarget options request.target then
    (e, some (remoteError "PROTOCOL_CAPABILITY_TARGET_INVALID"
      "Capability invocation target does not match this authenticated RemoteExecutor"))
  else if !e.assertCapabilityActivation request then
    (e, some (remoteError "CAPABILITY_PROVIDER_NOT_READY"
      "Capability invocation does not match an active exact remote component binding"))
  else if options.maxCapabilityInvocationBytes < options.invocationBytes request then
    (e, some (exhausted "Remote capability invocation exceeds maxCapabilityInvocationBytes"))
  else
    let fingerprint := options.invocationFingerprint request
    let (existing, entries) := getCapabilityEntry e.capabilityInvocations request.invocationId
    let e := { e with capabilityInvocations := entries }
    match existing with
    | some existing =>
      (e, if existing.fingerprint ≠ fingerprint then some capabilityConflict else none)
    | none =>
      match e.indeterminateCapabilityInvocations.get request.invocationId with
      | some indeterminate =>
        (e, some (if indeterminate.fingerprint ≠ fingerprint then capabilityConflict
          else indeterminate.error))
      | none => e.admitInvocation options request fingerprint

def indeterminateCode : JsString := js "CAPABILITY_INVOCATION_INDETERMINATE"

def capabilityOutcome (sent : SentInvocation) : Option CapabilityAnswer → Except RemoteError Unit
  | none => .error ⟨some indeterminateCode, js ("Remote capability invocation is " ++
      "indeterminate because the session ended before an authoritative response")⟩
  | some answer =>
    if e.session ≠ some sent.session || (e.sessions sent.session).state ≠ .ready ||
        answer.type ≠ .capabilityInvoke then
      .error ⟨some indeterminateCode, js ("Remote capability invocation is " ++
        "indeterminate because session authority changed before its response")⟩
    else
      match answer.payload with
      | none => .error (remoteError "PROTOCOL_CAPABILITY_RESPONSE_INVALID"
          "Worker returned an invalid capability invocation response")
      | some payload =>
        if payload.invocationId ≠ sent.request.invocationId ||
            payload.fingerprint ≠ sent.fingerprint then
          .error (remoteError "PROTOCOL_CAPABILITY_RESPONSE_INVALID"
            "Worker capability response identity does not match its invocation")
        else if !payload.ok then
          .error (ResponseError.thrown payload.error
            (remoteError "CAPABILITY_INVOCATION_FAILED" "Remote capability invocation failed"))
        else .ok ()

/-- The worker answers an invocation, or its session ends. -/
def capabilityAnswered (n : Nat) (answer : Option CapabilityAnswer) : Option RemoteExecutor :=
  match e.invocations[n]? with
  | some sent =>
    match sent.result with
    | none => some
        { e with
          invocations := e.invocations.set n
            { sent with result := some (e.capabilityOutcome sent answer) } }
    | some _ => none
  | none => none

def indeterminateError : Except RemoteError Unit → Option RemoteError
  | .error thrown => if thrown.code = some indeterminateCode then some thrown else none
  | .ok () => none

/-- The object of an entry is marked as settled; it may have left the table. -/
def settleEntry (entries : JsMap JsString RemoteInvocationEntry) (key : JsString) (n : Nat) :
    JsMap JsString RemoteInvocationEntry :=
  match entries.get key with
  | some entry =>
    if entry.invocation = n then entries.set key { entry with settled := true } else entries
  | none => entries

/-- The callbacks of an outcome. -/
def capabilityHandled (n : Nat) : Option RemoteExecutor :=
  match e.invocations[n]? with
  | some sent =>
    match sent.result, sent.handled with
    | some result, false =>
      let e := { e with invocations := e.invocations.set n { sent with handled := true } }
      match indeterminateError result with
      | some error => some
        { e with
          capabilityInvocations := e.capabilityInvocations.delete sent.request.invocationId
          indeterminateCapabilityInvocations :=
            e.indeterminateCapabilityInvocations.set sent.request.invocationId
              ⟨sent.fingerprint, error, sent.request.target⟩ }
      | none => some
        { e with
          capabilityInvocations :=
            settleEntry e.capabilityInvocations sent.request.invocationId n }
    | _, _ => none
  | none => none

/-! ## Steps -/

inductive RemoteLabel where
  | activateComponent (activation : RemoteComponentActivation)
  | restoreComponentForTermination (activation : RemoteComponentActivation)
  | drainComponent (target : TaskExecutionTarget) (bindingFingerprint : Option JsString)
  | stopComponent (target : TaskExecutionTarget) (bindingFingerprint : Option JsString)
  | lifecycleAnswered (i : Nat) (answer : Option LifecycleAnswer)
  | attach (session : Nat)
  | hydrated
  /-- The recovery fails, or the epoch of the session is stale. -/
  | attachFailed
  | reconcileAnswered (answer : Option (List (RemoteComponentActivation × RemoteComponentState)))
  /-- What is left of `#reconcile` fails. -/
  | reconcileFailed
  | sessionChanged (session : Nat) (value : RemoteSession)
  | invokeCapability (request : RemoteCapabilityInvocation)
  | capabilityAnswered (n : Nat) (answer : Option CapabilityAnswer)
  | capabilityHandled (n : Nat)
  | revokeAuthority
  | close

def step : RemoteLabel → Option RemoteExecutor
  | .activateComponent activation => some (e.activateComponent options activation).1
  | .restoreComponentForTermination activation =>
    some (e.restoreComponentForTermination options activation).1
  | .drainComponent target bindingFingerprint =>
    some (e.drainComponent options target bindingFingerprint).1
  | .stopComponent target bindingFingerprint =>
    some (e.stopComponent options target bindingFingerprint).1
  | .lifecycleAnswered i answer => e.lifecycleAnswered i answer
  | .attach session => e.attach session
  | .hydrated => e.hydrated options
  | .attachFailed => some { e with attaching := none }
  | .reconcileAnswered answer => e.reconcileAnswered options answer
  | .reconcileFailed => some e.sessionLost
  | .sessionChanged session value => some (e.sessionChanged session value)
  | .invokeCapability request => some (e.invokeCapability options request).1
  | .capabilityAnswered n answer => e.capabilityAnswered n answer
  | .capabilityHandled n => e.capabilityHandled n
  | .revokeAuthority => some e.revokeAuthority
  | .close => some e.close

end

def machine (options : RemoteExecutorOptions) : Machine RemoteExecutor RemoteLabel where
  Init e := e = new
  step := step options

/-! ## An executor with a session -/

theorem portable_w : isPortableName (js "w") = true := by decide

def sampleWorker : PortableId := ⟨js "w", portable_w⟩

def sampleOptions : RemoteExecutorOptions where
  id := js "remote"
  workerId := sampleWorker
  maxInventoryItems := 16
  maxInventoryBytes := 1024
  maxCapabilityInvocations := 16
  maxIndeterminateCapabilityInvocations := 1
  maxCapabilityInvocationBytes := 1024
  invocationBytes _ := 64
  invocationFingerprint request := request.invocationId
  activationBytes _ := 2

def sampleActivation : RemoteComponentActivation where
  target := ⟨⟨js "i", rfl⟩, 1, js "d", ⟨js "remote", .remote, some sampleWorker, rfl⟩⟩
  bindingFingerprint := js "b"
  content := []

/-- The first session is attached; the inventory of the worker is empty. -/
def attachment : List RemoteLabel :=
  [.sessionChanged 0 ⟨.ready, true⟩, .attach 0, .hydrated, .reconcileAnswered (some [])]

def sampleResponse : RemoteComponentLifecycleResponse where
  ok := true
  target := sampleActivation.target
  bindingFingerprint := some sampleActivation.bindingFingerprint
  error := none

def activatedAnswer : LifecycleAnswer := ⟨.componentActivated, .ok sampleResponse⟩

end RemoteExecutor

end TegoNext
