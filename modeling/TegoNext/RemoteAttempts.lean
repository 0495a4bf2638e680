/-
The executions at a remote worker, as the main keeps them (`remote-executor.ts`).

An attempt is written to a store with conditional commits, and its writes wait on a chain. Results
come in answers, in messages of their own and in the inventory of a session; authority may be
revoked, an orphan given up and a store declared unavailable at any time.

A step is what runs between two `await`s. Who calls the methods, deadlines and the admission of an
attempt are left open. Sessions are numbers; `options.epoch` gives their epochs.
-/
import TegoNext.WorkerRuntime
import TegoNext.WorkerSession

set_option autoImplicit false

namespace TegoNext

open Text

/-! ## Data -/

/-- `ExecutionResult` -/
structure TerminalResult where
  taskId : PortableId
  attemptId : PortableId
  status : ExecutionTerminalStatus
  code : Option JsString
  /-- The source of its diagnostic is the executor `worker-runtime`. -/
  ofWorkerRuntime : Bool
  content : JsString
  deriving DecidableEq

/-- A `RemoteAttemptRecord` that was read and parsed. -/
structure StoredAttempt where
  request : RemoteRequest
  fingerprint : JsString
  state : RemoteAttemptState
  epoch : Nat
  result : Option TerminalResult
  cancellation : Option CancellationCause
  revision : Nat
  result_of_terminal : state = .terminal → result.isSome = true
  no_result : state ≠ .terminal → state ≠ .expired → result = none

inductive AttemptTransition where
  /-- `#publish`; `settle` says whether the result is made known when it is committed. -/
  | publish (result : TerminalResult) (bounded settle : Bool)
  /-- `#publishCreatedAttempt` -/
  | assigned (session : Nat)
  /-- `#assign`, acknowledged or failed. -/
  | answered (state : RemoteAttemptState) (session : Nat)
  /-- `cancel` -/
  | cancel
  | unknown
  /-- `#requestCancel`, failed. -/
  | uncancelled (session : Nat)
  | reconciled (state : RemoteAttemptState) (session : Nat)
  /-- `#sessionLost` -/
  | orphaned (session : Nat)
  deriving DecidableEq

inductive CommitPhase where
  /-- The write is on its way. -/
  | storing
  /-- It has conflicted; the record is read. -/
  | loading
  /-- It has failed, and is tried again. -/
  | retrying
  deriving DecidableEq

structure AttemptCommit where
  state : RemoteAttemptState
  result : Option TerminalResult
  epoch : Nat
  /-- `useBoundedPersistence` -/
  bounded : Bool
  immediateRetries : Nat
  /-- The revision of the record that is written. -/
  expected : Nat
  phase : CommitPhase
  deriving DecidableEq

structure RemoteAttempt where
  request : RemoteRequest
  fingerprint : JsString
  revision : Nat
  state : RemoteAttemptState
  epoch : Nat
  terminal : Option TerminalResult
  /-- What `settled` has resolved the handle with. -/
  resolved : Option TerminalResult
  persistenceFailed : Bool
  cancellation : Option CancellationCause
  publication : Option TerminalResult
  /-- The operations on the chain; the first may be under way. -/
  transition : List AttemptTransition
  commit : Option AttemptCommit
  /-- It has left the table. -/
  pruned : Bool
  deriving DecidableEq

/-- `AttemptStatus` -/
inductive RemoteAttemptStatus where
  | accepted
  | running
  | terminal (result : TerminalResult)
  deriving DecidableEq

structure ExecutionSession where
  state : WorkerSessionState
  available : Bool
  acceptingAssignments : Bool

/-- What of an inventory is left to be worked through. -/
structure AttemptInventory where
  session : Nat
  acknowledged : List JsString
  running : List JsString
  terminal : List TerminalResult

inductive AttemptRequestKind where
  | assign
  | cancel
  deriving DecidableEq

structure AttemptRequest where
  kind : AttemptRequestKind
  session : Nat
  attempt : Nat

structure AttemptOptions where
  epoch : Nat → Nat
  resultBytes : TerminalResult → Nat
  maxResultBytes : Nat
  maxInventoryItems : Nat

structure RemoteAttempts where
  sessions : Nat → ExecutionSession
  session : Option Nat
  highestEpoch : Nat
  accepting : Bool
  draining : Bool
  closed : Bool
  hydrated : Bool
  persistenceDegraded : Bool
  authorityRevoked : Bool
  workerUnavailableEpoch : Option Nat
  attempts : List RemoteAttempt
  /-- The attempt that is being created, and the session that admitted it. -/
  creating : Option (RemoteRequest × JsString × Nat)
  requests : List AttemptRequest
  /-- The session whose attachment awaits the recovery. -/
  attaching : Option Nat
  /-- The session whose inventory is awaited. -/
  reconciliation : Option Nat
  inventory : Option AttemptInventory
  /-- The attempts that the loss of the session has orphaned. -/
  orphans : Option (List Nat)
  /-- The watermark that was recovered, and the epochs of the sessions that got attached, the
  last one first. No method reads these. -/
  watermark : Nat
  attached : List Nat

/-- What a store throws, as far as `#commit` tells errors apart. -/
inductive CommitError where
  | unavailable
  | staleEpoch
  | revision
  | other
  deriving DecidableEq

/-- What becomes of a conditional write; a record that comes back is its revision, if it is the
one that was written. -/
inductive CommitAnswer where
  | committed (revision : Except CommitError Nat)
  | conflict
  | failed (error : CommitError)
  | timedOut

inductive LoadAnswer where
  | latest (record : Except CommitError StoredAttempt)
  | missing
  | failed (error : CommitError)

/-! ## One attempt -/

namespace RemoteAttempt

variable (a : RemoteAttempt)

def key : JsString := a.request.key

def settle : RemoteAttempt :=
  if a.resolved.isSome then a else { a with resolved := a.terminal }

def publishVolatile (result : TerminalResult) : RemoteAttempt :=
  match a.terminal with
  | none => { a with terminal := some result, state := .terminal }.settle
  | some _ => a.settle

/-- `#transition` -/
def enqueue (t : AttemptTransition) : RemoteAttempt := { a with transition := a.transition ++ [t] }

/-- The operation at the head has ended; a publication settles, if it is to and did not fail. -/
def finish (ok : Bool) : RemoteAttempt :=
  let ended := { a with transition := a.transition.tail, commit := none }
  match a.transition.head? with
  | some (.publish _ _ settle) =>
    let ended := { ended with publication := none }
    if ok && settle then ended.settle else ended
  | _ => ended

/-- `#commit` has returned: a publication fails if its result is not the terminal one. -/
def commitReturned : RemoteAttempt :=
  match a.transition.head? with
  | some (.publish result _ _) => a.finish (decide (a.terminal.getD result = result))
  | _ => a.finish true

def status : RemoteAttemptStatus :=
  match a.terminal with
  | some result => .terminal result
  | none => if a.state = .assigned ∨ a.state = .acknowledged then .accepted else .running

/-- `#commit`, as far as its first `await`. -/
def beginCommit (state : RemoteAttemptState) (result : Option TerminalResult)
    (epoch : Nat) (bounded : Bool) : RemoteAttempt :=
  { a with
    commit := some
      { state := state
        result := result
        epoch := epoch
        bounded := bounded || decide (state = .terminal)
        immediateRetries := 0
        expected := a.revision
        phase := .storing } }

end RemoteAttempt

namespace RemoteAttempts

def new : RemoteAttempts where
  sessions _ := ⟨.authenticating, false, false⟩
  session := none
  highestEpoch := 0
  accepting := false
  draining := false
  closed := false
  hydrated := false
  persistenceDegraded := false
  authorityRevoked := false
  workerUnavailableEpoch := none
  attempts := []
  creating := none
  requests := []
  attaching := none
  reconciliation := none
  inventory := none
  orphans := none
  watermark := 0
  attached := []

/-! ## Terminal results -/

def unavailableCode : JsString := js "EXECUTOR_REMOTE_STATE_UNAVAILABLE"

/-- `#failure`, at a time. -/
def failure (request : RemoteRequest) (status : ExecutionTerminalStatus) (code message : String)
    (now : JsString) : TerminalResult where
  taskId := request.taskId
  attemptId := request.attemptId
  status := status
  code := some (js code)
  ofWorkerRuntime := false
  content := js message ++ now

section

variable (options : AttemptOptions) (e : RemoteAttempts) (i : Nat)

def modifyAttempt (f : RemoteAttempt → RemoteAttempt) : RemoteAttempts :=
  { e with attempts := e.attempts.modify i f }

def lookup (key : JsString) : Option Nat :=
  e.attempts.findIdx? fun a => !a.pruned && decide (a.key = key)

def degradePersistence : RemoteAttempts :=
  { e with persistenceDegraded := true, accepting := false }

def publishVolatile (result : TerminalResult) : RemoteAttempts :=
  e.degradePersistence.modifyAttempt i (·.publishVolatile result)

def failAttemptPersistence (message : String) (now : JsString) : RemoteAttempts :=
  match e.attempts[i]? with
  | none => e
  | some a =>
    if a.persistenceFailed then e
    else
      (e.modifyAttempt i fun a => { a with persistenceFailed := true }).publishVolatile i
        (failure a.request .indeterminate "EXECUTOR_REMOTE_STATE_UNAVAILABLE" message now)

def latchWorkerUnavailable (session : Nat) (result : TerminalResult) : RemoteAttempts :=
  if e.session ≠ some session || result.code ≠ some unavailableCode || !result.ofWorkerRuntime then
    e
  else
    { e with workerUnavailableEpoch := some (options.epoch session), accepting := false }

/-! ## Commits -/

def maxPersistenceAttempts : Nat := 8

def commitFailed (a : RemoteAttempt) (c : AttemptCommit)
    (error : CommitError) (now : JsString) : RemoteAttempts :=
  let ended := fun e : RemoteAttempts => e.modifyAttempt i (·.finish false)
  if a.persistenceFailed then ended e
  else
    match error with
    | .unavailable =>
      ended (e.failAttemptPersistence i "Remote attempt persistence operation timed out" now)
    | .staleEpoch | .revision => ended e
    | .other =>
      if maxPersistenceAttempts ≤ c.immediateRetries + 1 then
        ended (e.failAttemptPersistence i
          "Remote attempt persistence remained unavailable after bounded retries" now)
      else
        e.modifyAttempt i fun a =>
          { a with
            commit := some
              { c with
                immediateRetries := c.immediateRetries + 1
                phase := .retrying } }

def committed (a : RemoteAttempt) (c : AttemptCommit) (revision : Nat) : RemoteAttempt :=
  if a.terminal.isSome ∧ c.state ≠ .terminal then a
  else
    { a with
      revision := revision
      state := c.state
      epoch := c.epoch
      terminal := c.result.or a.terminal }

/-- `#commit`, when the store has answered a write. -/
def commitAnswered (answer : CommitAnswer) (now : JsString) : Option RemoteAttempts :=
  match e.attempts[i]? with
  | none => none
  | some a =>
    match a.commit with
    | none => none
    | some c =>
      if c.phase ≠ .storing then none
      else
        match answer with
        | .timedOut =>
          if c.bounded then some (e.degradePersistence.commitFailed i a c .unavailable now)
          else none
        | .failed error => some (e.commitFailed i a c error now)
        | .conflict => some
            (if a.persistenceFailed then e.modifyAttempt i (·.commitReturned)
            else
              e.modifyAttempt i fun a => { a with commit := some { c with phase := .loading } })
        | .committed parsed =>
          if a.persistenceFailed then some (e.modifyAttempt i (·.commitReturned))
          else
            match parsed with
            | .error error => some (e.commitFailed i a c error now)
            | .ok revision => some
                (if revision ≤ c.expected then e.commitFailed i a c .revision now
                else e.modifyAttempt i fun a => (committed a c revision).commitReturned)

/-- The attempt takes over what was read. -/
def reloaded (a : RemoteAttempt) (latest : StoredAttempt) : RemoteAttempt :=
  { a with
    revision := latest.revision
    epoch := latest.epoch
    state :=
      if latest.state = .expired ∨ latest.result.isSome then .terminal else latest.state
    cancellation := latest.cancellation
    terminal := latest.result.or a.terminal }

/-- `#commit`, when the record has been read again. -/
def loaded (answer : LoadAnswer) (now : JsString) : Option RemoteAttempts :=
  match e.attempts[i]? with
  | none => none
  | some a =>
    match a.commit with
    | none => none
    | some c =>
      if c.phase ≠ .loading then none
      else
        match answer with
        | .failed error => some (e.degradePersistence.commitFailed i a c error now)
        | .missing => some (e.commitFailed i a c .other now)
        | .latest (.error error) => some (e.commitFailed i a c error now)
        | .latest (.ok latest) => some
            (if latest.request.key ≠ a.key ∨ latest.fingerprint ≠ a.fingerprint then
              e.commitFailed i a c .other now
            else if latest.revision ≤ a.revision then e.commitFailed i a c .revision now
            else
              let e := e.modifyAttempt i (reloaded · latest)
              if (reloaded a latest).state = .terminal then e.modifyAttempt i (·.commitReturned)
              else e.commitFailed i (reloaded a latest) c .staleEpoch now)

/-- `#commit` tries again. -/
def commitRetried : Option RemoteAttempts :=
  match e.attempts[i]? with
  | none => none
  | some a =>
    match a.commit with
    | none => none
    | some c =>
      if c.phase ≠ .retrying then none
      else some
        (e.modifyAttempt i fun a =>
          { a with
            commit := some
              { c with
                expected := a.revision
                phase := .storing } })

/-- `#watchPersistence`: the write of an unbounded commit takes too long. -/
def persistenceTimedOut (now : JsString) : Option RemoteAttempts :=
  match e.attempts[i]? with
  | none => none
  | some a =>
    match a.commit with
    | none => none
    | some c =>
      if c.bounded ∨ c.phase ≠ .storing then none
      else some (e.failAttemptPersistence i "Remote attempt persistence operation timed out" now)

/-! ## Transitions -/

/-- The operation at the head of a chain, as far as its first `await`. -/
def begin (a : RemoteAttempt) : AttemptTransition → RemoteAttempt
  | .publish result bounded _ =>
    match a.terminal with
    | some _ => a.commitReturned
    | none => a.beginCommit .terminal (some result) a.epoch bounded
  | .assigned session =>
    if a.state ≠ .terminal ∧ a.epoch ≠ options.epoch session then
      a.beginCommit .assigned a.terminal (options.epoch session) false
    else a.finish true
  | .answered state session =>
    if e.session ≠ some session ∨ a.state = .terminal ∨ a.epoch ≠ options.epoch session then
      a.finish true
    else a.beginCommit state a.terminal a.epoch false
  | .cancel =>
    if a.state = .terminal then a.finish true
    else
      { a with cancellation := some (a.cancellation.getD .cancelled) }.beginCommit a.state
        a.terminal a.epoch false
  | .unknown =>
    if a.state = .terminal then a.finish true
    else a.beginCommit .unknown a.terminal a.epoch false
  | .uncancelled session =>
    if a.state ≠ .terminal ∧ a.epoch = options.epoch session then
      a.beginCommit .unknown a.terminal a.epoch false
    else a.finish true
  | .reconciled state session =>
    if a.state = .terminal then a.finish true
    else a.beginCommit state a.terminal (options.epoch session) false
  | .orphaned session =>
    if a.state ≠ .terminal ∧ a.epoch = options.epoch session then
      a.beginCommit .unknown a.terminal a.epoch true
    else a.finish true

/-- The chain of an attempt goes on. -/
def transitionBegun : Option RemoteAttempts :=
  match e.attempts[i]? with
  | none => none
  | some a =>
    match a.commit, a.transition.head? with
    | none, some t => some (e.modifyAttempt i (begin options e · t))
    | _, _ => none

/-! ## Publication -/

inductive PublicationError where
  | identityMismatch
  | conflict
  deriving DecidableEq

def publishedResult (a : RemoteAttempt) (candidate : TerminalResult)
    (now : JsString) : TerminalResult :=
  if options.maxResultBytes < options.resultBytes candidate then
    failure a.request .failed "EXECUTOR_REMOTE_RESULT_TOO_LARGE"
      "Remote result exceeds maxResultBytes" now
  else if a.cancellation = some .timedOut ∧ candidate.status = .cancelled then
    { candidate with status := .timedOut }
  else candidate

/-- `#publish`, as far as its first `await`. -/
def publish (candidate : TerminalResult)
    (settle bounded : Bool) (now : JsString) : Except PublicationError RemoteAttempts :=
  match e.attempts[i]? with
  | none => .ok e
  | some a =>
    if candidate.taskId ≠ a.request.taskId ∨ candidate.attemptId ≠ a.request.attemptId then
      .error .identityMismatch
    else
      let result := publishedResult options a candidate now
      match a.terminal, a.publication with
      | some terminal, _ =>
        if terminal ≠ result then .error .conflict
        else .ok (if settle then e.modifyAttempt i (·.settle) else e)
      | none, some publication => if publication ≠ result then .error .conflict else .ok e
      | none, none => .ok
          (e.modifyAttempt i fun a =>
            { a with publication := some result }.enqueue (.publish result bounded settle))

/-! ## Messages of the worker -/

/-- The payload of an answer to an assignment or a cancellation. -/
structure AckPayload where
  taskId : JsString
  attemptId : JsString
  error : Bool
  /-- None where it is not a truth value. -/
  accepted : Option Bool
  found : Option Bool
  /-- The result, if there is one; none inside where it does not parse. -/
  result : Option (Option TerminalResult)

inductive AckAnswer where
  /-- The request fails; does the text of the error match the patterns, and speak of an
  identity? -/
  | rejected (named identity : Bool)
  | otherType
  | malformed
  | ack (payload : AckPayload)

/-- The catch of `#assign`; `code` is the one of the failure to publish, if the error is one of
the protocol. -/
def assignFailed (i session : Nat)
    (protocol : Option (String × String)) (now : JsString) : RemoteAttempts :=
  match e.attempts[i]? with
  | none => e
  | some a =>
    if e.session ≠ some session ∨ a.terminal.isSome then e
    else
      match protocol with
      | some (code, message) =>
        match e.publish options i (failure a.request .failed code message now) true false now with
        | .ok e => e
        | .error _ => e
      | none => e.modifyAttempt i (·.enqueue (.answered .unknown session))

/-- The errors of `#assign` that are published. -/
def rejectedAcknowledgement : String × String :=
  ("EXECUTOR_REMOTE_ASSIGNMENT_REJECTED",
    "Worker returned an invalid remote assignment acknowledgement")

def mismatchedIdentity : String × String :=
  ("EXECUTOR_REMOTE_RESULT_IDENTITY_MISMATCH",
    "Remote assignment returned a response for a different attempt identity")

/-- `#publish` in `#assign`, whose errors it catches. -/
def assignPublish (i session : Nat)
    (result : TerminalResult) (settle : Bool) (now : JsString) : RemoteAttempts :=
  match e.publish options i result settle false now with
  | .ok e => e
  | .error .identityMismatch => e.assignFailed options i session (some mismatchedIdentity) now
  | .error .conflict => e.assignFailed options i session none now

/-- `#assign`, when its request is answered. -/
def assignAnswered (i session : Nat)
    (a : RemoteAttempt) (answer : AckAnswer) (now : JsString) : RemoteAttempts :=
  match answer with
  | .rejected named identity => e.assignFailed options i session
      (if identity then some mismatchedIdentity
      else if named then some rejectedAcknowledgement else none) now
  | answer =>
    if e.session ≠ some session ∨ a.terminal.isSome then e
    else
      match answer with
      | .rejected _ _ => e
      | .otherType => e.assignFailed options i session (some rejectedAcknowledgement) now
      | .malformed => e.assignFailed options i session none now
      | .ack payload =>
        if payload.taskId ≠ a.request.taskId.text ∨ payload.attemptId ≠ a.request.attemptId.text then
          e.assignFailed options i session (some mismatchedIdentity) now
        else if payload.error then
          e.assignFailed options i session (some rejectedAcknowledgement) now
        else
          match payload.accepted, payload.result with
          | some false, none =>
            e.assignPublish options i session
              (failure a.request .rejected "EXECUTOR_REMOTE_ASSIGNMENT_REJECTED"
                "Worker rejected the remote assignment without a terminal result" now) true now
          | some false, some (some result) =>
            (e.latchWorkerUnavailable options session result).assignPublish options i session
              result true now
          | none, _ => e.assignFailed options i session (some rejectedAcknowledgement) now
          | some true, some (some result) =>
            (e.latchWorkerUnavailable options session result).assignPublish options i session
              result false now
          | some true, none => e.modifyAttempt i (·.enqueue (.answered .running session))
          | some _, some none => e.assignFailed options i session none now

/-- The catch of `#requestCancel` for an error that is not one of the protocol. -/
def cancelFailed (i session : Nat) : RemoteAttempts :=
  match e.attempts[i]? with
  | none => e
  | some a =>
    if e.session = some session ∧ a.terminal = none then
      e.modifyAttempt i (·.enqueue (.uncancelled session))
    else e

/-- What an acknowledged cancellation publishes, if anything, and whether it is to be settled. -/
def cancelledResult (a : RemoteAttempt) (payload : AckPayload) (now : JsString) :
    Option (TerminalResult × Bool) :=
  if payload.taskId ≠ a.request.taskId.text ∨ payload.attemptId ≠ a.request.attemptId.text ∨
      payload.error then none
  else
    match payload.found, payload.result with
    | none, _ => none
    | some _, some (some result) => some (result, false)
    | some _, some none => none
    | some true, none => none
    | some false, none =>
      if a.terminal.isSome then none
      else if a.cancellation = some .timedOut then
        some (failure a.request .timedOut "EXECUTOR_REMOTE_DEADLINE_EXCEEDED"
          "Worker confirmed that the cancelled remote attempt was never admitted" now, true)
      else
        some (failure a.request .cancelled "EXECUTOR_REMOTE_CANCELLED"
          "Worker confirmed that the cancelled remote attempt was never admitted" now, true)

/-- `#requestCancel`, when its request is answered. -/
def cancelAnswered (i session : Nat)
    (a : RemoteAttempt) (answer : AckAnswer) (now : JsString) : RemoteAttempts :=
  match answer with
  | .rejected named identity => if named || identity then e else e.cancelFailed i session
  | .otherType => e
  | .malformed => e.cancelFailed i session
  | .ack payload =>
    match cancelledResult a payload now with
    | none => e
    | some (result, settle) =>
      let e := if settle then e else e.latchWorkerUnavailable options session result
      match e.publish options i result settle false now with
      | .ok e => e
      | .error .identityMismatch => e
      | .error .conflict => e.cancelFailed i session

def answered (n : Nat) (answer : AckAnswer) (now : JsString) : Option RemoteAttempts :=
  match e.requests[n]? with
  | none => none
  | some request =>
    let e := { e with requests := e.requests.eraseIdx n }
    match e.attempts[request.attempt]? with
    | none => some e
    | some a => some
        (match request.kind with
        | .assign => e.assignAnswered options request.attempt request.session a answer now
        | .cancel => e.cancelAnswered options request.attempt request.session a answer now)

/-- `#receive` of a result. -/
def received (session : Nat) (result : TerminalResult) (now : JsString) : RemoteAttempts :=
  if e.session ≠ some session then e
  else
    match e.lookup (attemptKey result.taskId result.attemptId) with
    | none => e
    | some i =>
      match e.attempts[i]? with
      | none => e
      | some a =>
        if a.epoch ≠ options.epoch session then e
        else
          let e := e.latchWorkerUnavailable options session result
          match e.publish options i result false false now with
          | .ok e => e
          | .error _ => e

/-! ## Sessions -/

def isActive (a : RemoteAttempt) : Bool := !a.pruned && decide (a.state ≠ .terminal)

/-- `#sessionLost`, as far as its first `await`. -/
def sessionLost (session : Nat) : RemoteAttempts :=
  if e.session ≠ some session then e
  else
    let orphaned := fun a : RemoteAttempt =>
      isActive a && decide (a.epoch = options.epoch session)
    { e with
      accepting := false
      session := none
      attempts := e.attempts.map fun a => if orphaned a then a.enqueue (.orphaned session) else a
      orphans := some ((e.attempts.zipIdx.filter fun item => orphaned item.1).map Prod.snd) }

def sessionChanged (session : Nat) (value : ExecutionSession) : RemoteAttempts :=
  let e := { e with sessions := Function.update e.sessions session value }
  if value.state ≠ .ready then e.sessionLost options session else e

def settleRevokedAttempts (now : JsString) : RemoteAttempts :=
  { e with
    attempts := e.attempts.map fun a =>
      if isActive a then
        { a with
          terminal := some (failure a.request .indeterminate "EXECUTOR_REMOTE_AUTHORITY_REVOKED"
            "RemoteExecutor authority was revoked before the attempt reached a terminal result" now)
          state := .terminal }.settle
      else a }

def revokeAuthority (now : JsString) : RemoteAttempts :=
  if e.authorityRevoked then e
  else
    { e with
      authorityRevoked := true
      accepting := false
      session := none
      orphans := none }.settleRevokedAttempts now

/-- `#expireOrphans` gives one orphan up; it waits for the store, or it does not. -/
def orphanExpired (volatile : Bool) (now : JsString) : Option RemoteAttempts :=
  match e.orphans, e.attempts[i]? with
  | some orphans, some a =>
    if e.session.isSome ∨ i ∉ orphans ∨ a.terminal.isSome then none
    else
      let result := failure a.request .failed "EXECUTOR_REMOTE_ORPHAN_UNAVAILABLE"
        "Remote Worker did not reconnect within the orphan recovery window" now
      if volatile then some (e.publishVolatile i result)
      else
        match e.publish options i result true true now with
        | .ok e => some e
        | .error _ => some e
  | _, _ => none

/-! ## Attachment -/

/-- What the store answers to `recover`. -/
inductive RecoveryAnswer where
  | failed
  | malformed
  | recovered (highestEpoch : Nat) (records : List StoredAttempt)

/-- The checks of `#hydrate`. -/
def recoverable (highestEpoch : Nat) (records : List StoredAttempt) : Bool :=
  decide (records.length ≤ options.maxInventoryItems) &&
    (records.all fun record => decide (record.state ≠ .expired) &&
      decide (record.epoch ≤ highestEpoch)) &&
    decide ((records.map fun record => record.request.key).Nodup)

def recoveredAttempt (record : StoredAttempt) : RemoteAttempt where
  request := record.request
  fingerprint := record.fingerprint
  revision := record.revision
  state := record.state
  epoch := record.epoch
  terminal := record.result
  resolved := record.result
  persistenceFailed := false
  cancellation := record.cancellation
  publication := none
  transition := []
  commit := none
  pruned := false

/-- `#hydrate`, when the store has answered. -/
def hydrate (highestEpoch : Nat) (records : List StoredAttempt) : RemoteAttempts :=
  { e with
    highestEpoch := max e.highestEpoch highestEpoch
    attempts := e.attempts ++ records.map recoveredAttempt
    hydrated := true
    watermark := highestEpoch }

/-- `#attach`, as far as `#hydrate`; attachments are made one at a time. -/
def attach (session : Nat) : Option RemoteAttempts :=
  if e.attaching.isSome || e.reconciliation.isSome || e.inventory.isSome || e.authorityRevoked ||
      e.closed || (e.sessions session).state ≠ .ready || !(e.sessions session).available then none
  else some { e with attaching := some session }

/-- `#attach` from `#hydrate` on, as far as the request of `#reconcile`. -/
def attachHydrated (session : Nat) (now : JsString) : RemoteAttempts :=
  if e.authorityRevoked then e.settleRevokedAttempts now
  else if e.persistenceDegraded then e
  else if options.epoch session ≤ e.highestEpoch ∧ e.session ≠ some session then e
  else
    { e with
      accepting := false
      orphans := none
      session := some session
      highestEpoch := options.epoch session
      reconciliation := some session
      attached := if e.session = some session then e.attached
        else options.epoch session :: e.attached }

/-- The end of `#hydrate`; the answer is not looked at if it was done before. -/
def hydrationEnded (answer : RecoveryAnswer) (now : JsString) : Option RemoteAttempts :=
  match e.attaching with
  | none => none
  | some session =>
    let e := { e with attaching := none }
    if e.hydrated then some (e.attachHydrated options session now)
    else if e.persistenceDegraded then some e
    else
      match answer with
      | .failed => some e.degradePersistence
      | .malformed => some e
      | .recovered highestEpoch records => some
          (if recoverable options highestEpoch records then
            (e.hydrate highestEpoch records).attachHydrated options session now
          else e)

/-- What becomes of the request for the inventory; does it say that the store of the worker is
there? -/
inductive InventoryAnswer where
  | failed (persistenceAvailable : Bool)
  | accepted (persistenceAvailable : Bool) (acknowledged running : List JsString)
      (terminal : List TerminalResult)

def workerUnavailable (session : Nat) (persistenceAvailable : Bool) : RemoteAttempts :=
  if persistenceAvailable then e
  else
    { e with workerUnavailableEpoch := some (options.epoch session), accepting := false }

/-- `#reconcile`, when its request is answered. -/
def inventoryAnswered (answer : InventoryAnswer) : Option RemoteAttempts :=
  match e.reconciliation with
  | none => none
  | some session =>
    let e := { e with reconciliation := none }
    if e.session ≠ some session then some e
    else
      match answer with
      | .failed available => some
          ((e.workerUnavailable options session available).sessionLost options session)
      | .accepted available acknowledged running terminal => some
          { e.workerUnavailable options session available with
            inventory := some ⟨session, acknowledged, running, terminal⟩ }

/-- The error of `#reconcile` reaches `#attach`. -/
def reconcileFailed (inventory : AttemptInventory) : RemoteAttempts :=
  { e with inventory := none }.sessionLost options inventory.session

def reconcileTerminal (k : Nat) (now : JsString) : Option RemoteAttempts :=
  match e.inventory with
  | none => none
  | some inventory =>
    match inventory.terminal[k]? with
    | none => none
    | some result =>
      match e.lookup (attemptKey result.taskId result.attemptId) with
      | none => some e
      | some i =>
        if (e.attempts[i]?.bind RemoteAttempt.terminal).isSome then some e
        else
          match e.publish options i result false false now with
          | .ok e => some e
          | .error _ => some (e.reconcileFailed options inventory)

/-- The state the inventory gives to an attempt that it does not report as terminal. -/
def inventoryState (inventory : AttemptInventory) (a : RemoteAttempt) : Option RemoteAttemptState :=
  if a.key ∈ inventory.running then some .running
  else if a.key ∈ inventory.acknowledged then some .acknowledged
  else if a.cancellation = none then some .assigned
  else none

def reconcileAttempt : Option RemoteAttempts :=
  match e.inventory, e.attempts[i]? with
  | some inventory, some a =>
    if !isActive a ∨ a.key ∈ inventory.terminal.map (fun r => attemptKey r.taskId r.attemptId) then
      some e
    else
      match inventoryState inventory a with
      | none => some e
      | some state => some (e.modifyAttempt i (·.enqueue (.reconciled state inventory.session)))
  | _, _ => none

/-- The end of `#reconcile` and of `#attach`. -/
def reconcileEnded (persistenceAvailable : Bool) : Option RemoteAttempts :=
  match e.inventory with
  | none => none
  | some inventory =>
    let e := { e with inventory := none }
    if e.session ≠ some inventory.session ∨ (e.sessions inventory.session).state ≠ .ready then some e
    else
      let unavailable := e.workerUnavailableEpoch.filter fun epoch =>
        !(persistenceAvailable && decide (epoch < options.epoch inventory.session))
      some
        { e with
          workerUnavailableEpoch := unavailable
          accepting := !e.draining && !e.persistenceDegraded && unavailable.isNone }

/-! ## Assignments and cancellations -/

/-- `#submit`, as far as `#create`; `admitted` is the rest of its admission. -/
def submit (request : RemoteRequest) (fingerprint : JsString)
    (admitted : Bool) : Option RemoteAttempts :=
  match e.session with
  | none => none
  | some session =>
    if e.authorityRevoked || e.persistenceDegraded || e.closed || e.draining || !e.accepting ||
        !admitted || e.creating.isSome || (e.lookup request.key).isSome ||
        (e.sessions session).state ≠ .ready || !(e.sessions session).acceptingAssignments then none
    else some { e with creating := some (request, fingerprint, session) }

/-- `#submit` after `#create`, as far as `#publishCreatedAttempt`; none is a failure. -/
def created (revision : Option Nat) (now : JsString) : Option RemoteAttempts :=
  match e.creating with
  | none => none
  | some (request, fingerprint, session) =>
    let e := { e with creating := none }
    match revision with
    | none => some e
    | some revision =>
      let a : RemoteAttempt :=
        { request := request
          fingerprint := fingerprint
          revision := revision
          state := .assigned
          epoch := options.epoch session
          terminal := none
          resolved := none
          persistenceFailed := false
          cancellation := none
          publication := none
          transition := []
          commit := none
          pruned := false }
      if e.authorityRevoked then some
        { e with
          attempts := e.attempts ++
            [{ a with
              terminal := some (failure request .indeterminate "EXECUTOR_REMOTE_AUTHORITY_REVOKED"
                "RemoteExecutor authority was revoked while the assignment was being persisted" now)
              state := .terminal }.settle] }
      else some { e with attempts := e.attempts ++ [a] }

/-- `#publishCreatedAttempt` takes a created attempt over to the session. -/
def takenOver : Option RemoteAttempts :=
  match e.session, e.attempts[i]? with
  | some session, some a =>
    if e.authorityRevoked || (e.sessions session).state ≠ .ready ||
        !(e.sessions session).acceptingAssignments || a.epoch = options.epoch session then none
    else some (e.modifyAttempt i (·.enqueue (.assigned session)))
  | _, _ => none

def assign (i session : Nat) : Option RemoteAttempts :=
  match e.attempts[i]? with
  | none => none
  | some a =>
    if e.session ≠ some session ∨ a.state = .terminal then some e
    else some { e with requests := e.requests ++ [⟨.assign, session, i⟩] }

/-- `cancel`, as far as its transition; `deadline` is that of `#watchDeadline`. -/
def cancel (deadline : Bool) : Option RemoteAttempts :=
  match e.attempts[i]? with
  | none => none
  | some a =>
    if !isActive a then some e
    else some
      (e.modifyAttempt i fun a =>
        { a with
          cancellation := if deadline then some .timedOut else a.cancellation }.enqueue .cancel)

/-- `cancel` goes on: it asks the session, if there is one. -/
def cancelRequested : Option RemoteAttempts :=
  match e.attempts[i]? with
  | none => none
  | some _ =>
    match e.session.filter fun session => decide ((e.sessions session).state = .ready) with
    | none => some (e.modifyAttempt i (·.enqueue .unknown))
    | some session => some { e with requests := e.requests ++ [⟨.cancel, session, i⟩] }

def reconcileCancel : Option RemoteAttempts :=
  match e.inventory, e.attempts[i]? with
  | some inventory, some _ =>
    some { e with requests := e.requests ++ [⟨.cancel, inventory.session, i⟩] }
  | _, _ => none

/-- `#pruneTerminals`: the record of an attempt has expired. -/
def pruned (e : RemoteAttempts) (i : Nat) : Option RemoteAttempts :=
  match e.attempts[i]? with
  | none => none
  | some a =>
    if a.terminal = none ∨ a.state ≠ .terminal then none
    else some (e.modifyAttempt i fun a => { a with pruned := true })

def observe : Option RemoteAttemptStatus :=
  (e.attempts[i]?.filter fun a => !a.pruned).map RemoteAttempt.status

end

/-! ## Steps -/

inductive AttemptLabel where
  | sessionChanged (session : Nat) (value : ExecutionSession)
  | attach (session : Nat)
  | hydrationEnded (answer : RecoveryAnswer) (now : JsString)
  | inventoryAnswered (answer : InventoryAnswer)
  | reconcileTerminal (k : Nat) (now : JsString)
  | reconcileAttempt (i : Nat)
  | reconcileCancel (i : Nat)
  /-- What is left of `#reconcile` fails. -/
  | reconcileFailed
  | reconcileEnded (persistenceAvailable : Bool)
  | submit (request : RemoteRequest) (fingerprint : JsString) (admitted : Bool)
  | created (revision : Option Nat) (now : JsString)
  | takenOver (i : Nat)
  | assign (i session : Nat)
  | cancel (i : Nat) (deadline : Bool)
  | cancelRequested (i : Nat)
  | answered (n : Nat) (answer : AckAnswer) (now : JsString)
  | received (session : Nat) (result : TerminalResult) (now : JsString)
  /-- `#assign`, when its publication has failed. -/
  | assignFailed (i session : Nat) (now : JsString)
  /-- `#requestCancel`, when its publication has failed. -/
  | cancelFailed (i session : Nat)
  | settle (i : Nat)
  | transitionBegun (i : Nat)
  | commitAnswered (i : Nat) (answer : CommitAnswer) (now : JsString)
  | loaded (i : Nat) (answer : LoadAnswer) (now : JsString)
  | commitRetried (i : Nat)
  | persistenceTimedOut (i : Nat) (now : JsString)
  | orphanExpired (i : Nat) (volatile : Bool) (now : JsString)
  | pruned (i : Nat)
  | revokeAuthority (now : JsString)
  | drain
  | close

def step (options : AttemptOptions) (e : RemoteAttempts) : AttemptLabel → Option RemoteAttempts
  | .sessionChanged session value => some (e.sessionChanged options session value)
  | .attach session => e.attach session
  | .hydrationEnded answer now => e.hydrationEnded options answer now
  | .inventoryAnswered answer => e.inventoryAnswered options answer
  | .reconcileTerminal k now => e.reconcileTerminal options k now
  | .reconcileAttempt i => e.reconcileAttempt i
  | .reconcileCancel i => e.reconcileCancel i
  | .reconcileFailed => e.inventory.map (e.reconcileFailed options)
  | .reconcileEnded available => e.reconcileEnded options available
  | .submit request fingerprint admitted => e.submit request fingerprint admitted
  | .created revision now => e.created options revision now
  | .takenOver i => e.takenOver options i
  | .assign i session => e.assign i session
  | .cancel i deadline => e.cancel i deadline
  | .cancelRequested i => e.cancelRequested i
  | .answered n answer now => e.answered options n answer now
  | .received session result now => some (e.received options session result now)
  | .assignFailed i session now => some (e.assignFailed options i session none now)
  | .cancelFailed i session => some (e.cancelFailed i session)
  | .settle i => some (e.modifyAttempt i (·.settle))
  | .transitionBegun i => e.transitionBegun options i
  | .commitAnswered i answer now => e.commitAnswered i answer now
  | .loaded i answer now => e.loaded i answer now
  | .commitRetried i => e.commitRetried i
  | .persistenceTimedOut i now => e.persistenceTimedOut i now
  | .orphanExpired i volatile now => e.orphanExpired options i volatile now
  | .pruned i => e.pruned i
  | .revokeAuthority now => some (e.revokeAuthority now)
  | .drain => some { e with draining := true, accepting := false }
  | .close => some { e with closed := true, accepting := false, session := none }

/-- One executor, from its construction on. -/
def machine (options : AttemptOptions) : Machine RemoteAttempts AttemptLabel where
  Init e := e = new
  step := step options

/-! ## An executor with a session -/

def sampleAttemptOptions : AttemptOptions where
  epoch session := session + 1
  resultBytes _ := 64
  maxResultBytes := 1024
  maxInventoryItems := 16

def sampleRequest : RemoteRequest where
  taskId := ⟨js "t", rfl⟩
  attemptId := ⟨js "a", rfl⟩
  orphanPolicy := .cancel
  workerId := some ⟨js "w", rfl⟩
  content := []

def attachFirst : List AttemptLabel :=
  [.sessionChanged 0 ⟨.ready, true, true⟩, .attach 0, .hydrationEnded (.recovered 0 []) [],
    .inventoryAnswered (.accepted true [] [] []), .reconcileEnded true]

end RemoteAttempts

end TegoNext
