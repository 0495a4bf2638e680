/-
Task requests, task records and what makes a record well formed.

`parseTaskRecord` is the check every record passes before it is written and after it is read; hash
functions and serialised sizes are part of `TaskPlatform`. The fingerprint of a request is its
canonical text. Two requests with the same fingerprint carry the same operation identity
(`operationId_of_fingerprint`); that is what lets a stored record answer for an operation.
-/
import TegoNext.CanonicalJson
import TegoNext.JsDate
import TegoNext.Placement

set_option autoImplicit false

namespace TegoNext

open Text JsDate List

/-! ## Requests -/

inductive OrphanPolicy where
  | cancel
  | finishAndBuffer
  | finishAndPersist
  deriving DecidableEq

def OrphanPolicy.text : OrphanPolicy → String
  | cancel => "cancel"
  | finishAndBuffer => "finish-and-buffer"
  | finishAndPersist => "finish-and-persist"

structure RunTaskRequest where
  applicationId : PortableId
  pluginId : PortableId
  componentId : PortableId
  input : JsonValue
  deadline : JsString
  orphanPolicy : OrphanPolicy
  operationId : Option PortableId

namespace RunTaskRequest

def textField (name : String) (value : JsString) : JsString × JsonValue := (js name, .string value)

/-- The request as a value, its keys in order; `operationId` is there when it is
defined. -/
def toValue (request : RunTaskRequest) : JsonValue :=
  .object ([textField "applicationId" request.applicationId.text,
      textField "componentId" request.componentId.text, textField "deadline" request.deadline,
      (js "input", request.input)] ++
    (request.operationId.map fun id => textField "operationId" id.text).toList ++
    [textField "orphanPolicy" (js request.orphanPolicy.text),
      textField "pluginId" request.pluginId.text])

end RunTaskRequest

/-! ## Records -/

structure RuntimeAuthority where
  resource : JsString
  epoch : Nat
  deriving DecidableEq

/-- The diagnostic codes the service writes or tests. -/
inductive TaskCode where
  | BOOTSTRAP_STOPPED
  | COORDINATION_FENCE_REJECTED
  | COORDINATION_NOT_LEADER
  | EXECUTOR_ATTEMPT_CAPACITY_EXCEEDED
  | EXECUTOR_DRAINING
  | EXECUTOR_INPUT_LIMIT_EXCEEDED
  | EXECUTOR_OBSERVATION_UNKNOWN
  | EXECUTOR_QUEUE_CAPACITY_EXCEEDED
  | EXECUTOR_RESULT_INDETERMINATE
  | EXECUTOR_RESULT_INVALID
  | EXECUTOR_SUBMISSION_REJECTED
  | EXECUTOR_SUBMISSION_UNKNOWN
  | EXECUTOR_TARGET_MISMATCH
  | EXECUTOR_TARGET_UNAVAILABLE
  | EXECUTOR_TASK_NOT_FOUND
  | PROTOCOL_EXECUTION_BINDING_INVALID
  | PROTOCOL_OPERATION_INVALID
  | STATE_FENCE_STALE
  | STATE_IDEMPOTENCY_CONFLICT
  | STATE_REVISION_CONFLICT
  | STATE_TASK_CORRUPT
  | other (code : JsString)
  deriving DecidableEq

/-- The source of a diagnostic; its `kind` is one of the words of the contract. -/
structure DiagnosticSource where
  kind : String
  id : JsString
  deriving DecidableEq

inductive DiagnosticDetails where
  | none
  | mismatchedFields (fields : List String)
  | unavailable (causeCode : Option TaskCode) (executorId : Option JsString)
  deriving DecidableEq

/-- The fields of a `RuntimeDiagnostic` that the service reads or writes. -/
structure RuntimeDiagnostic where
  code : TaskCode
  message : String
  source : DiagnosticSource
  retryable : Bool
  details : DiagnosticDetails
  observedAt : Instant
  deriving DecidableEq

/-- `runtimeDiagnostic` of an error without details that is not retryable. -/
def plainDiagnostic (code : TaskCode) (message kind : String) (id : JsString) (now : Instant) :
    RuntimeDiagnostic :=
  { code := code
    message := message
    source := ⟨kind, id⟩
    retryable := false
    details := .none
    observedAt := now }

/-- The executor of a target; a remote one has a worker and only a remote one. -/
structure TargetExecutor where
  id : JsString
  type : ExecutorKind
  workerId : Option PortableId
  workerId_iff : workerId.isSome = (type == .remote)
  deriving DecidableEq

structure TaskExecutionTarget where
  instanceId : PortableId
  deploymentGeneration : Nat
  artifactDigest : ArtifactDigest
  executor : TargetExecutor
  deriving DecidableEq

/-- `ExecutionBinding`; its content is carried along. -/
structure ExecutionBinding where
  fingerprint : JsString
  content : JsonValue

structure TaskExecutorReference where
  id : JsString
  type : ExecutorKind
  deriving DecidableEq

structure TaskCancellationIntent where
  requestedAt : Instant
  authority : RuntimeAuthority
  deriving DecidableEq

inductive ExecutionTerminalStatus where
  | cancelled
  | failed
  | indeterminate
  | rejected
  | succeeded
  | timedOut
  deriving DecidableEq

structure ExecutionExecutor where
  kind : ExecutorKind
  workerId : Option PortableId
  deriving DecidableEq

structure ExecutionResult where
  taskId : PortableId
  attemptId : PortableId
  executor : ExecutionExecutor
  status : ExecutionTerminalStatus
  output : Option JsonValue
  diagnostic : Option RuntimeDiagnostic
  startedAt : Instant
  completedAt : Instant

inductive TaskRecordState where
  | accepted
  | running
  | terminal
  deriving DecidableEq

structure TaskRecord where
  taskId : PortableId
  attemptId : PortableId
  request : RunTaskRequest
  state : TaskRecordState
  createdAt : Instant
  updatedAt : Instant
  target : Option TaskExecutionTarget
  binding : Option ExecutionBinding
  executor : Option TaskExecutorReference
  authority : Option RuntimeAuthority
  cancellation : Option TaskCancellationIntent
  diagnostic : Option RuntimeDiagnostic
  result : Option ExecutionResult

/-! ## Errors -/

/-- Who an error came from, when it did not arise in the service itself. -/
inductive Outside where
  | store
  | selection
  | executor
  | clock
  deriving DecidableEq

/-- An error as it is thrown: a diagnostic of the service, or whatever one of the
parties it talks to rejects with, which may carry a diagnostic too. -/
inductive TaskFailure where
  | service (d : RuntimeDiagnostic)
  | plain
  | outside (origin : Outside) (d : Option RuntimeDiagnostic)
  deriving DecidableEq

namespace TaskFailure

def diagnostic : TaskFailure → Option RuntimeDiagnostic
  | service d => some d
  | plain => none
  | outside _ d => d

def code (e : TaskFailure) : Option TaskCode := e.diagnostic.map (·.code)

end TaskFailure

/-! ## The record check -/

/-- What the runtime leaves to hashing and serialisation. -/
structure TaskPlatform where
  numberText : CanonicalJson.NumberText
  /-- `assertExecutionBindingMatches` does not throw. -/
  bindingMatches : RunTaskRequest → TaskExecutionTarget → ExecutionBinding → Bool
  serializedBytes : TaskRecord → Nat
  outputBytes : JsonValue → Nat

/-- `runtimeOperationMaxBytes`, which is also `maxResultBytes`. -/
def runtimeOperationMaxBytes : Nat := 1048576

def operationError (message : String) (now : Instant) : TaskFailure :=
  .service (plainDiagnostic .PROTOCOL_OPERATION_INVALID message "protocol"
    (js "runtime-operation") now)

/-- The error of `assertExecutionBindingMatches`. -/
def bindingError (now : Instant) : TaskFailure :=
  .service (plainDiagnostic .PROTOCOL_EXECUTION_BINDING_INVALID
    "Execution binding fingerprint does not match its immutable target identity" "executor"
    (js "execution-binding") now)

def resultMatches (record : TaskRecord) (result : ExecutionResult) : Bool :=
  result.taskId = record.taskId && result.attemptId = record.attemptId &&
    match record.target with
    | some target =>
      result.executor.kind = target.executor.type &&
        result.executor.workerId = target.executor.workerId
    | none => record.executor.all fun executor => result.executor.kind = executor.type

/-- `parseTaskRecord`, the checks in the order of the source. -/
def parseTaskRecord (platform : TaskPlatform) (record : TaskRecord) (now : Instant) :
    Except TaskFailure TaskRecord :=
  if record.binding.isSome ∧ record.target = none then
    .error (operationError "Task execution binding requires an immutable target" now)
  else if !(record.target.all fun target => record.binding.all fun binding =>
      platform.bindingMatches record.request target binding) then
    .error (bindingError now)
  else if !(record.target.all fun target => record.executor.all fun executor =>
      target.executor.id = executor.id && target.executor.type = executor.type) then
    .error (operationError "Task target and legacy executor bindings must match exactly" now)
  else if (record.state = .terminal) ≠ (record.result.isSome = true) then
    .error (operationError "Terminal task records must contain exactly one result" now)
  else if record.updatedAt.ms < record.createdAt.ms then
    .error (operationError "updatedAt must not precede createdAt" now)
  else if !(record.result.all (resultMatches record)) then
    .error (operationError "Task result identity or executor does not match its record" now)
  else if runtimeOperationMaxBytes < platform.serializedBytes record then
    .error (operationError "Runtime operation exceeds the serialized size limit" now)
  else .ok record

theorem parseTaskRecord_ok {platform : TaskPlatform} {record parsed : TaskRecord} {now : Instant}
    (h : parseTaskRecord platform record now = .ok parsed) : parsed = record := by
  unfold parseTaskRecord at h
  repeat' split at h
  all_goals first | exact (Except.ok.inj h).symm | cases h

/-! ## Fingerprints -/

/-- `canonical(request)`. -/
def fingerprintOf (numberText : CanonicalJson.NumberText) (request : RunTaskRequest) : JsString :=
  CanonicalJson.canonical numberText request.toValue

namespace RunTaskRequest

open CanonicalJson

/-- The members of the request after the key `input`. -/
def lateMembers (request : RunTaskRequest) : List JsString :=
  (request.operationId.map fun id => member (js "operationId") (quoted id.text)).toList ++
    [member (js "orphanPolicy") (quoted (js request.orphanPolicy.text)),
      member (js "pluginId") (quoted request.pluginId.text)]

/-- The members of the request up to the key `input`. -/
def earlyMembers (numberText : NumberText) (request : RunTaskRequest) : List JsString :=
  [member (js "applicationId") (quoted request.applicationId.text),
    member (js "componentId") (quoted request.componentId.text),
    member (js "deadline") (quoted request.deadline),
    member (js "input") (canonical numberText request.input)]

theorem keysInOrder_plain :
    [js "applicationId", js "componentId", js "deadline", js "input", js "orphanPolicy",
      js "pluginId"].Pairwise fun left right => compareText left right ≠ .gt := by
  decide +kernel

theorem keysInOrder_operation :
    [js "applicationId", js "componentId", js "deadline", js "input", js "operationId",
      js "orphanPolicy", js "pluginId"].Pairwise fun left right => compareText left right ≠ .gt := by
  decide +kernel

theorem fingerprintOf_eq (numberText : NumberText) (request : RunTaskRequest) :
    fingerprintOf numberText request =
      123 :: joinParts [44] (request.earlyMembers numberText ++ request.lateMembers) ++ [125] := by
  unfold fingerprintOf toValue
  rw [canonical]
  cases hop : request.operationId with
  | none =>
    rw [sortMembers_of_sorted]
    · simp [canonicalFields, canonical, earlyMembers, lateMembers, hop, textField]
    · rw [canonicalFields_keys]
      exact keysInOrder_plain
  | some id =>
    rw [sortMembers_of_sorted]
    · simp [canonicalFields, canonical, earlyMembers, lateMembers, hop, textField]
    · rw [canonicalFields_keys]
      exact keysInOrder_operation

theorem neutral_members (numberText : NumberText) (request : RunTaskRequest) :
    ∀ part ∈ request.earlyMembers numberText ++ request.lateMembers, Neutral part := by
  intro part hpart
  simp only [earlyMembers, lateMembers, mem_append, mem_cons, not_mem_nil,
    or_false, Option.mem_toList, Option.map_eq_some_iff] at hpart
  rcases hpart with (rfl | rfl | rfl | rfl) | ⟨id, -, rfl⟩ | rfl | rfl
  all_goals first | exact neutral_member (neutral_quoted _) | exact neutral_member (neutral_canonical _ _)

/-- **The operation identity can be read off the fingerprint.** -/
theorem operationId_of_fingerprint {numberText : NumberText} {left right : RunTaskRequest}
    (h : fingerprintOf numberText left = fingerprintOf numberText right) :
    left.operationId = right.operationId := by
  rw [fingerprintOf_eq, fingerprintOf_eq, cons_append, cons_append] at h
  have hparts : left.earlyMembers numberText ++ left.lateMembers =
      right.earlyMembers numberText ++ right.lateMembers :=
    joinParts_inj (.inr rfl) (cons_ne_nil _ _) (cons_ne_nil _ _)
      (left.neutral_members numberText) (right.neutral_members numberText) (List.cons.inj h).2
  have hlate : left.lateMembers = right.lateMembers :=
    (append_inj hparts (by simp only [earlyMembers, length_cons, length_nil])).2
  unfold lateMembers at hlate
  cases hl : left.operationId with
  | none =>
    cases hr : right.operationId with
    | none => rfl
    | some id =>
      have hlen := congrArg List.length hlate
      simp [hl, hr] at hlen
  | some id =>
    cases hr : right.operationId with
    | none =>
      have hlen := congrArg List.length hlate
      simp [hl, hr] at hlen
    | some id' =>
      rw [hl, hr] at hlate
      have hmember : member (js "operationId") (quoted id.text) =
          member (js "operationId") (quoted id'.text) := (List.cons.inj hlate).1
      have hquoted : quoted id.text = quoted id'.text :=
        (List.cons.inj (append_cancel_left hmember)).2
      rw [quoted_of_nameText (.of_portable id), quoted_of_nameText (.of_portable id')] at hquoted
      have htext : id.text = id'.text := append_cancel_right (List.cons.inj hquoted).2
      rw [PortableId.ext htext]

end RunTaskRequest

end TegoNext
