/-
`WorkerSession`: the authenticated session over one WebSocket.

A session takes control frames in the order of their numbers, puts the binary parts of a message
together, and passes what is complete to the handshake or to the application.

A method that calls out or waits leaves what remains of it as a `SessionContinuation`, and the
machine may take any other step before it resumes. What time, the socket and the callbacks do is
left to the label.
-/
import TegoNext.ReplayWindow
import TegoNext.ProcessChannel

set_option autoImplicit false

namespace TegoNext

open Text CanonicalJson

/-! ## Messages -/

inductive WorkerMessageType where
  | artifactPrepare
  | artifactPrepared
  | authenticate
  | capabilityInvoke
  | componentActivate
  | componentActivated
  | componentDrain
  | componentStop
  | heartbeat
  | hello
  | sessionReady
  | sessionReconcile
  | taskAcknowledge
  | taskAssign
  | taskCancel
  | taskResult
  | workerRegister
  deriving DecidableEq

namespace WorkerMessageType

def text : WorkerMessageType → String
  | artifactPrepare => "artifact.prepare"
  | artifactPrepared => "artifact.prepared"
  | authenticate => "authenticate"
  | capabilityInvoke => "capability.invoke"
  | componentActivate => "component.activate"
  | componentActivated => "component.activated"
  | componentDrain => "component.drain"
  | componentStop => "component.stop"
  | heartbeat => "heartbeat"
  | hello => "hello"
  | sessionReady => "session.ready"
  | sessionReconcile => "session.reconcile"
  | taskAcknowledge => "task.acknowledge"
  | taskAssign => "task.assign"
  | taskCancel => "task.cancel"
  | taskResult => "task.result"
  | workerRegister => "worker.register"

def reserved : WorkerMessageType → Bool
  | authenticate | heartbeat | hello | sessionReady | workerRegister => true
  | _ => false

end WorkerMessageType

/-- A control frame of protocol `1.0`. The number is written in decimal digits. -/
structure WorkerControlEnvelope where
  messageId : JsString
  sessionId : JsString
  sequence : Nat
  correlationId : JsString
  type : WorkerMessageType
  sentAt : JsString
  payload : JsonValue
  binaryBytes : Option Nat
  binaryChunks : Option Nat

structure WorkerBinaryChunk where
  correlationId : JsString
  chunkIndex : Nat
  totalChunks : Nat
  payload : List UInt8

/-- A message for the application, with its binary part. -/
structure WorkerSessionMessage where
  envelope : WorkerControlEnvelope
  binary : Option (List UInt8)

inductive WorkerSessionRole where
  | main
  | worker
  deriving DecidableEq

def WorkerSessionRole.text : WorkerSessionRole → String
  | .main => "main"
  | .worker => "worker"

structure WorkerRegistration where
  workerId : PortableId
  labels : JsonFields
  resources : JsonFields
  executors : List ExecutorKind
  preparedArtifacts : List JsString

/-! ## Errors -/

inductive SessionErrorCode where
  | PROTOCOL_AUTHENTICATION_FAILED
  | PROTOCOL_BINARY_CORRELATION_UNKNOWN
  | PROTOCOL_BINARY_INVALID
  | PROTOCOL_BINARY_LIMIT_EXCEEDED
  | PROTOCOL_BINARY_ORDER_INVALID
  | PROTOCOL_ENVELOPE_INVALID
  | PROTOCOL_FRAME_INVALID
  | PROTOCOL_FRAME_TOO_LARGE
  | PROTOCOL_HANDSHAKE_INCOMPLETE
  | PROTOCOL_HANDSHAKE_INVALID
  | PROTOCOL_HANDSHAKE_ORDER_INVALID
  | PROTOCOL_HANDSHAKE_TIMEOUT
  | PROTOCOL_IDENTITY_INVALID
  | PROTOCOL_INFLIGHT_LIMIT_EXCEEDED
  | PROTOCOL_JSON_INVALID
  | PROTOCOL_MESSAGE_INVALID
  | PROTOCOL_MESSAGE_TYPE_RESERVED
  | PROTOCOL_REGISTRATION_INVALID
  | PROTOCOL_SEQUENCE_GAP_LIMIT_EXCEEDED
  | PROTOCOL_SEQUENCE_LIMIT_EXCEEDED
  | PROTOCOL_SEQUENCE_OUT_OF_ORDER
  | PROTOCOL_SEQUENCE_REPLAY
  | PROTOCOL_SESSION_ID_MISMATCH
  | PROTOCOL_VERSION_UNSUPPORTED
  | PROTOCOL_WIRE_VALUE_INVALID
  | WORKER_ENDPOINT_UNAVAILABLE
  | WORKER_ENVELOPE_INVALID
  | WORKER_HEARTBEAT_EXPIRED
  | WORKER_SESSION_CLOSED
  | WORKER_SESSION_NOT_AVAILABLE
  | WORKER_TRANSPORT_ERROR
  deriving DecidableEq

structure SessionDiagnostic where
  code : SessionErrorCode
  message : String

/-- What a method throws: a `DiagnosticError`, or another error. -/
inductive SessionThrown where
  | diagnostic (d : SessionDiagnostic)
  | other

def diagnosticError (code : SessionErrorCode) (message : String) : SessionThrown :=
  .diagnostic ⟨code, message⟩

/-- The diagnostic a caught error is reported with, unless it has one. -/
def SessionThrown.orElse (thrown : SessionThrown) (d : SessionDiagnostic) : SessionDiagnostic :=
  match thrown with
  | .diagnostic d' => d'
  | .other => d

/-! ## What a session is given -/

/-- `WorkerProtocolLimits`, as `normalizeLimits` leaves them. -/
structure WorkerProtocolLimits where
  maxFrameBytes : Nat
  maxBinaryBytes : Nat
  maxBinaryChunks : Nat
  maxPendingCorrelations : Nat
  maxInflightMessages : Nat
  maxSequenceGap : Nat
  replayRetention : Nat
  replayRetention_pos : 0 < replayRetention

structure SessionPlatform where
  numberText : NumberText
  sha256 : Sha256
  /-- HMAC-SHA-256, in `base64url`. -/
  hmac : JsString → JsString → JsString
  applicationMessageBytes : WorkerSessionMessage → Nat

/-- `credential` is the given one or the one made up in its place. -/
structure WorkerSessionOptions where
  role : WorkerSessionRole
  limits : WorkerProtocolLimits
  nonce : JsString
  sessionId : JsString
  credential : JsString
  worker : Option WorkerRegistration
  /-- Is there an `onRegister`? -/
  registers : Bool

/-! ## Authentication -/

structure AuthenticationProofInput where
  credential : JsString
  workerId : JsString
  senderNonce : JsString
  receiverNonce : JsString
  senderRole : WorkerSessionRole

def authenticationDomain : JsString := js "tego-worker-session-v1"

def createAuthenticationProof (platform : SessionPlatform) (input : AuthenticationProofInput) :
    JsString :=
  platform.hmac input.credential (authenticationDomain ++ [0] ++ input.workerId ++ [0] ++
    input.senderNonce ++ [0] ++ input.receiverNonce ++ [0] ++ js input.senderRole.text)

def verifyAuthenticationProof (platform : SessionPlatform) (input : AuthenticationProofInput)
    (proof : JsString) : Bool :=
  platform.hmac authenticationDomain (createAuthenticationProof platform input) =
    platform.hmac authenticationDomain proof

/-! ## Payloads -/

section Payloads

/-- `canonicalJson` of an envelope, hashed. -/
def replayFingerprint (platform : SessionPlatform) (envelope : WorkerControlEnvelope) : JsString :=
  let number (name : String) (value : Option Nat) : JsonFields :=
    value.toList.map fun n => (js name, .number n)
  (platform.sha256 (js "tego.worker-envelope-replay/1.0" ++ [0] ++
    canonical platform.numberText (.object
      ([(js "protocol", .string (js "1.0")),
        (js "messageId", .string envelope.messageId),
        (js "sessionId", .string envelope.sessionId),
        (js "sequence", .string (js (toString envelope.sequence))),
        (js "correlationId", .string envelope.correlationId),
        (js "type", .string (js envelope.type.text)),
        (js "sentAt", .string envelope.sentAt),
        (js "payload", envelope.payload)] ++
      number "binaryBytes" envelope.binaryBytes ++
      number "binaryChunks" envelope.binaryChunks)))).toList.map hexDigit

def asObject (value : JsonValue) (type : WorkerMessageType) : Except SessionThrown JsonFields :=
  match value with
  | .object fields => .ok fields
  | _ => .error (diagnosticError .PROTOCOL_MESSAGE_INVALID
    (type.text ++ " payload must be an object"))

/-- `requireExactFields`: there are no others. -/
def requireExactFields (record : JsonFields) (fields : List String) (type : WorkerMessageType) :
    Except SessionThrown Unit :=
  if record.any fun field => !(fields.map js).contains field.1 then
    .error (diagnosticError .PROTOCOL_MESSAGE_INVALID (type.text ++ " payload has unknown fields"))
  else .ok ()

def parseWorkerId : Option JsonValue → Except SessionThrown PortableId
  | some (.string s) =>
    if h : isPortableName s = true then .ok ⟨s, h⟩
    else .error (diagnosticError .PROTOCOL_IDENTITY_INVALID
      "WorkerId must be a non-empty portable identifier")
  | _ => .error (diagnosticError .PROTOCOL_IDENTITY_INVALID
    "WorkerId must be a non-empty portable identifier")

/-- `parseArtifactDigest`: `sha256:` and sixty-four hexadecimal digits. -/
def parseArtifactDigest (s : JsString) : Except SessionThrown JsString :=
  let digits := s.drop 7
  if startsWith s (js "sha256:") && digits.length == 64 &&
      digits.all (fun u => isDigit u || (97 ≤ u && u ≤ 102)) then .ok s
  else .error (diagnosticError .PROTOCOL_IDENTITY_INVALID
    "ArtifactDigest must be a non-empty portable identifier")

def registrationInvalid : SessionThrown :=
  diagnosticError .PROTOCOL_REGISTRATION_INVALID "Worker registration fields are invalid"

/-- `serializeWireValue` of a member, which copies JSON data and refuses `undefined`. -/
def serializeMember : Option JsonValue → Except SessionThrown JsonValue
  | some value => .ok value
  | none => .error (diagnosticError .PROTOCOL_WIRE_VALUE_INVALID
    "Value at $ cannot be serialized for the wire: undefined is not JSON data")

def executorOf : JsonValue → Option ExecutorKind
  | .string s => ExecutorKind.ofText s
  | _ => none

def artifactOf : JsonValue → Option JsString
  | .string [] => none
  | .string s => some s
  | _ => none

def normalizeRegistration (value : JsonFields) : Except SessionThrown WorkerRegistration := do
  let workerId ← parseWorkerId (value.lookup (js "workerId"))
  let labels ← serializeMember (value.lookup (js "labels"))
  let resources ← serializeMember (value.lookup (js "resources"))
  match labels, resources, value.lookup (js "executors"), value.lookup (js "preparedArtifacts") with
  | .object labels, .object resources, some (.array executors), some (.array artifacts) =>
    match executors.mapM executorOf, artifacts.mapM artifactOf with
    | some executors, some artifacts => do
      let preparedArtifacts ← artifacts.mapM parseArtifactDigest
      pure { workerId, labels, resources, executors, preparedArtifacts }
    | _, _ => throw registrationInvalid
  | _, _, _, _ => throw registrationInvalid

end Payloads

/-! ## The state -/

inductive WorkerSessionState where
  | authenticating
  | closed
  | ready
  | unavailable
  deriving DecidableEq

structure PendingBinary where
  envelope : WorkerControlEnvelope
  chunks : List (List UInt8)
  nextChunk : Nat
  receivedBytes : Nat

/-- What a method has left to do once it is called back. -/
inductive SessionContinuation where
  /-- The microtask of the constructor. -/
  | hello
  /-- `#receiveHello`, after `#sendHello`. -/
  | authentication
  /-- `#receiveRegistration`, waiting for `onRegister`. -/
  | registration
  /-- `#receiveRegistration`, after `#notifyState`. -/
  | registered
  /-- `#receiveReady`, after `#notifyState`. -/
  | ready
  /-- A round of `#sendHeartbeats`. -/
  | heartbeat
  /-- The rejection of `#receiveRegistration`. -/
  | rejected (thrown : SessionThrown)
  /-- The end of a session, after `#notifyState`. -/
  | rejectPending
  /-- The end of a session, after the socket is closed. -/
  | detach
  /-- A round of the loop in `onMessage`. -/
  | flush

/-- Arriving messages. What comes after `flushingPendingMessages` is only written: the control
frames that got a number, the calls of `#dispatch`, what it passed on, the answers it dropped, and
the requests ever issued. -/
structure SessionInbound where
  received : ReplayWindow JsString JsString
  pendingBinary : AList fun _ : JsString => PendingBinary
  pendingBinaryBytes : Int
  pendingRequests : List JsString
  issuedRequestIds : List JsString
  issuedRequestOrder : List JsString
  listeners : List Nat
  pendingMessages : List WorkerSessionMessage
  pendingMessageBytes : Nat
  flushingPendingMessages : Bool
  accepted : List WorkerControlEnvelope
  dispatched : List WorkerSessionMessage
  messages : List WorkerSessionMessage
  late : List WorkerControlEnvelope
  requested : List JsString

inductive HandshakeEvent where
  /-- A hello claims a principal; the credential found for it. -/
  | claimed (workerId nonce : JsString) (credential : Option JsString)
  | proved (input : AuthenticationProofInput) (proof : JsString)
  | registered (registration : WorkerRegistration)
  | ready (epoch : Nat)

/-- The handshake; `events` is only written. -/
structure SessionHandshake where
  credential : JsString
  remoteNonce : Option JsString
  remoteRole : Option WorkerSessionRole
  remoteHelloSessionId : Option JsString
  principalWorkerId : Option JsString
  principalAuthorized : Bool
  peerAuthenticated : Bool
  helloSent : Bool
  authenticationSent : Bool
  registrationSent : Bool
  registrationPending : Bool
  events : List HandshakeEvent

structure WorkerSession where
  state : WorkerSessionState
  available : Bool
  acceptingAssignments : Bool
  diagnostic : Option SessionDiagnostic
  sessionId : JsString
  epoch : Nat
  nextSequence : Nat
  detached : Bool
  inbound : SessionInbound
  handshake : SessionHandshake
  continuations : List SessionContinuation

structure SocketAnswer where
  /-- `readyState === 1` -/
  isOpen : Bool
  /-- Does the codec encode the envelope and its chunks? -/
  encoded : Except SessionThrown Unit
  sent : Bool

/-- What the surroundings answer while a step runs. -/
structure SessionAnswer where
  socket : SocketAnswer
  /-- `resolveCredential` -/
  credential : Except SessionThrown (Option JsString)
  /-- `onRegister` -/
  epoch : Except SessionThrown Nat

/-- A method that may throw; what it has done before stays done. -/
abbrev SessionOutcome : Type := WorkerSession × Option SessionThrown

namespace WorkerSession

section

variable (platform : SessionPlatform) (options : WorkerSessionOptions) (s : WorkerSession)
  (envelope : WorkerControlEnvelope)

def new : WorkerSession where
  state := .authenticating
  available := false
  acceptingAssignments := false
  diagnostic := none
  sessionId := options.sessionId
  epoch := 0
  nextSequence := 0
  detached := false
  inbound :=
    { received := .empty
      pendingBinary := ∅
      pendingBinaryBytes := 0
      pendingRequests := []
      issuedRequestIds := []
      issuedRequestOrder := []
      listeners := []
      pendingMessages := []
      pendingMessageBytes := 0
      flushingPendingMessages := false
      accepted := []
      dispatched := []
      messages := []
      late := []
      requested := [] }
  handshake :=
    { credential := options.credential
      remoteNonce := none
      remoteRole := none
      remoteHelloSessionId := none
      principalWorkerId := if options.role = .worker then options.worker.map (·.workerId.text) else none
      principalAuthorized := options.role = .worker
      peerAuthenticated := false
      helloSent := false
      authenticationSent := false
      registrationSent := false
      registrationPending := false
      events := [] }
  continuations := [.hello]

/-- Neither closed nor unavailable. -/
def live : Bool := s.state = .authenticating || s.state = .ready

def push (c : SessionContinuation) : WorkerSession :=
  { s with continuations := s.continuations ++ [c] }

/-! ## The end of a session -/

def fail (d : SessionDiagnostic) : WorkerSession :=
  if s.live then
    { s with
      diagnostic := some d
      state := .closed
      continuations := s.continuations ++ [.rejectPending] }
  else s

/-- The `catch` of `#receive`. -/
def receiveFailure : SessionThrown → SessionDiagnostic
  | .diagnostic d =>
    if d.code = .WORKER_ENVELOPE_INVALID then
      ⟨.PROTOCOL_MESSAGE_INVALID, "Worker control message is invalid"⟩
    else d
  | .other => ⟨.PROTOCOL_FRAME_INVALID, "Worker frame could not be processed"⟩

def rejectPending : WorkerSession :=
  { s with
    available := false
    acceptingAssignments := false
    inbound :=
      { s.inbound with
        pendingRequests := []
        issuedRequestIds := []
        issuedRequestOrder := []
        pendingBinary := ∅
        pendingBinaryBytes := 0 } }

def detach : WorkerSession :=
  if s.detached then s
  else
    { s with
      detached := true
      inbound :=
        { s.inbound with
          listeners := []
          pendingMessages := []
          pendingMessageBytes := 0 } }

def close : WorkerSession :=
  if s.state = .closed then s
  else { s with state := .closed }.push .rejectPending

def replace : WorkerSession :=
  if s.live then { s with state := .unavailable }.push .rejectPending else s

def expire : WorkerSession :=
  if s.state = .ready then
    { s with
      state := .unavailable
      diagnostic := some ⟨.WORKER_HEARTBEAT_EXPIRED, "Worker heartbeat deadline expired"⟩
      }.push .rejectPending
  else s

def transportClosed (endpointUnavailable : Bool) : WorkerSession :=
  if s.live then
    s.fail (if endpointUnavailable then
      ⟨.WORKER_ENDPOINT_UNAVAILABLE, "Worker endpoint is not accepting authoritative registrations"⟩
    else ⟨.WORKER_SESSION_CLOSED, "Worker WebSocket session closed"⟩)
  else s.detach

/-! ## Sending -/

def sendEnvelope (socket : SocketAnswer) : SessionOutcome :=
  if !s.live || !socket.isOpen then
    (s, some (diagnosticError .WORKER_SESSION_CLOSED "Worker session is closed"))
  else
    match socket.encoded with
    | .error thrown => (s, some thrown)
    | .ok () =>
      let s := { s with nextSequence := s.nextSequence + 1 }
      if socket.sent then (s, none)
      else
        let d : SessionDiagnostic :=
          ⟨.WORKER_TRANSPORT_ERROR, "Worker WebSocket transport could not send a frame"⟩
        (s.fail d, some (.diagnostic d))

def sendHello (socket : SocketAnswer) : SessionOutcome :=
  if s.handshake.helloSent then (s, none)
  else
    match sendEnvelope { s with handshake := { s.handshake with helloSent := true } } socket with
    | (s, none) => (s, none)
    | (s, some thrown) =>
      ({ s with handshake := { s.handshake with helloSent := false } }, some thrown)

def sendAuthentication (socket : SocketAnswer) : SessionOutcome :=
  if s.handshake.authenticationSent || !s.handshake.helloSent ||
      s.handshake.remoteNonce.isNone || s.handshake.remoteRole.isNone ||
      s.handshake.principalWorkerId.isNone then (s, none)
  else sendEnvelope { s with handshake := { s.handshake with authenticationSent := true } } socket

def sendRegistration (socket : SocketAnswer) : SessionOutcome :=
  if s.handshake.registrationSent || options.worker.isNone || !s.handshake.peerAuthenticated then
    (s, none)
  else sendEnvelope { s with handshake := { s.handshake with registrationSent := true } } socket

/-! ## Requests -/

/-- A set keeps the order in which its members came. -/
def addId (ids : List JsString) (id : JsString) : List JsString :=
  if id ∈ ids then ids else ids ++ [id]

/-- The loop of `#pruneIssuedRequests`, once through the order: requests that wait go to its
end, and when only those are left there is nothing to forget. -/
def pruneIssued (retention : Nat) (pending : List JsString) :
    List JsString → List JsString → List JsString → List JsString × List JsString
  | ids, [], kept => (ids, kept)
  | ids, removed :: order, kept =>
    if ids.length ≤ retention then (ids, removed :: order ++ kept)
    else if removed ∈ pending then pruneIssued retention pending ids order (kept ++ [removed])
    else pruneIssued retention pending (ids.erase removed) order kept

def pruneIssuedRequests (i : SessionInbound) : SessionInbound :=
  let retention := options.limits.replayRetention + options.limits.maxInflightMessages
  let pruned := pruneIssued retention i.pendingRequests i.issuedRequestIds i.issuedRequestOrder []
  { i with issuedRequestIds := pruned.1, issuedRequestOrder := pruned.2 }

def retainIssuedRequest (i : SessionInbound) (messageId : JsString) : SessionInbound :=
  pruneIssuedRequests options { i with
    issuedRequestIds := addId i.issuedRequestIds messageId
    issuedRequestOrder := i.issuedRequestOrder ++ [messageId] }

/-- A request no longer waits. -/
def settleRequest (i : SessionInbound) (messageId : JsString) : SessionInbound :=
  pruneIssuedRequests options { i with pendingRequests := i.pendingRequests.erase messageId }

/-- The check of `send` and `request` after the type is found not to be reserved. -/
def notAvailable : SessionThrown :=
  diagnosticError .WORKER_SESSION_NOT_AVAILABLE
    (if s.state = .closed then "Worker session is closed" else "Worker session is not available")

/-- `rejectReservedMessageType` -/
def messageTypeReserved : SessionThrown :=
  diagnosticError .PROTOCOL_MESSAGE_TYPE_RESERVED
    "Worker handshake message type is reserved for the session state machine"

def send (type : WorkerMessageType) (socket : SocketAnswer) : SessionOutcome :=
  if type.reserved then (s, some messageTypeReserved)
  else if s.state ≠ .ready || !s.available then (s, some s.notAvailable)
  else s.sendEnvelope socket

/-- `request` under a new message id. `timeoutMs` is the given time or the one of the options. -/
def request (options : WorkerSessionOptions) (s : WorkerSession) (type : WorkerMessageType)
    (messageId : JsString) (timeoutMs : Int) (socket : SocketAnswer) : SessionOutcome :=
  if type.reserved then (s, some messageTypeReserved)
  else if options.limits.maxInflightMessages ≤ s.inbound.pendingRequests.length then
    (s, some (diagnosticError .PROTOCOL_INFLIGHT_LIMIT_EXCEEDED
      "Worker session inflight request limit was reached"))
  else if s.state ≠ .ready || !s.available then (s, some s.notAvailable)
  else
    let waiting := { s with
      inbound := retainIssuedRequest options
        { s.inbound with
          pendingRequests := addId s.inbound.pendingRequests messageId
          requested := s.inbound.requested ++ [messageId] } messageId }
    if timeoutMs ≤ 0 || maxSafeInteger < timeoutMs then (waiting, some .other)
    else
      match waiting.sendEnvelope socket with
      | (s, none) => (s, none)
      | (s, some thrown) =>
        ({ s with
          inbound :=
            { s.inbound with
              pendingRequests := s.inbound.pendingRequests.erase messageId
              issuedRequestIds := s.inbound.issuedRequestIds.erase messageId } }, some thrown)

def requestTimeout (messageId : JsString) : WorkerSession :=
  if messageId ∈ s.inbound.pendingRequests then
    { s with inbound := settleRequest options s.inbound messageId }
  else s

/-! ## Listeners -/

def onMessage (listener : Nat) : WorkerSession :=
  let s := { s with
    inbound :=
      { s.inbound with
        listeners := if listener ∈ s.inbound.listeners then s.inbound.listeners
          else s.inbound.listeners ++ [listener] } }
  if !s.inbound.flushingPendingMessages && !s.inbound.pendingMessages.isEmpty then
    { s with inbound := { s.inbound with flushingPendingMessages := true } }.push .flush
  else s

/-- The function that `onMessage` returns. -/
def removeListener (listener : Nat) : WorkerSession :=
  { s with inbound := { s.inbound with listeners := s.inbound.listeners.erase listener } }

/-- One round of the loop in `onMessage`. -/
def flush : WorkerSession :=
  match s.inbound.pendingMessages with
  | [] => { s with inbound := { s.inbound with flushingPendingMessages := false } }
  | message :: rest =>
    { s with
      inbound :=
        { s.inbound with
          pendingMessages := rest
          -- `Math.max(0, …)` is subtraction of natural numbers
          pendingMessageBytes := s.inbound.pendingMessageBytes -
            platform.applicationMessageBytes message } }.push .flush

/-! ## The handshake -/

def handshakeOrderInvalid (message : String) : SessionThrown :=
  diagnosticError .PROTOCOL_HANDSHAKE_ORDER_INVALID message

/-- The role and the nonce of a hello of the other side. -/
def helloClaim (payload : JsonFields) :
    Except SessionThrown (WorkerSessionRole × JsString) := do
  let role : Option WorkerSessionRole :=
    match payload.lookup (js "role") with
    | some (.string r) =>
      if r = js "main" then some .main else if r = js "worker" then some .worker else none
    | _ => none
  requireExactFields payload
    (if role = some .worker then ["role", "nonce", "workerId"] else ["role", "nonce"]) .hello
  match role, payload.lookup (js "nonce") with
  | some role, some (.string nonce) =>
    if role = options.role || nonce.length < 16 || 128 < nonce.length then
      throw (diagnosticError .PROTOCOL_HANDSHAKE_INVALID "Worker hello is invalid")
    else pure (role, nonce)
  | _, _ => throw (diagnosticError .PROTOCOL_HANDSHAKE_INVALID "Worker hello is invalid")

def normalizeCredential (credential : JsString) : Except SessionThrown JsString :=
  if credential.length = 0 || 4096 < credential.length then .error .other else .ok credential

/-- The part of `#receiveHello` in which Main looks up the claimed principal. -/
def claimPrincipal (payload : JsonFields) (nonce : JsString)
    (resolved : Except SessionThrown (Option JsString)) : SessionOutcome :=
  if options.role ≠ .main then (s, none)
  else
  match payload.lookup (js "workerId") with
  | some (.string workerId) =>
    match parseWorkerId (some (.string workerId)), resolved with
    | .error thrown, _ => (s, some thrown)
    | .ok _, .error thrown => (s, some thrown)
    | .ok _, .ok none =>
      ({ s with
        sessionId := envelope.sessionId
        handshake :=
          { s.handshake with
            principalWorkerId := some workerId
            principalAuthorized := false
            events := s.handshake.events ++ [.claimed workerId nonce none] } }, none)
    | .ok _, .ok (some credential) =>
      match normalizeCredential credential with
      | .error thrown =>
        ({ s with
          handshake :=
            { s.handshake with
              principalWorkerId := some workerId
              principalAuthorized := true } }, some thrown)
      | .ok credential =>
        ({ s with
          sessionId := envelope.sessionId
          handshake :=
            { s.handshake with
              principalWorkerId := some workerId
              principalAuthorized := true
              credential := credential
              events := s.handshake.events ++ [.claimed workerId nonce (some credential)] } }, none)
  | _ => (s, some (diagnosticError .PROTOCOL_HANDSHAKE_INVALID "Worker hello principal is invalid"))

def receiveHello (answer : SessionAnswer) : SessionOutcome :=
  if s.handshake.remoteNonce.isSome || s.state ≠ .authenticating then
    (s, some (handshakeOrderInvalid "Worker hello was duplicated"))
  else
    match asObject envelope.payload .hello with
    | .error thrown => (s, some thrown)
    | .ok payload =>
      match helloClaim options payload with
      | .error thrown => (s, some thrown)
      | .ok (role, nonce) =>
        let s := { s with
          handshake :=
            { s.handshake with
              remoteRole := some role
              remoteNonce := some nonce
              remoteHelloSessionId := some envelope.sessionId } }
        match s.claimPrincipal options envelope payload nonce answer.credential with
        | (s, some thrown) => (s, some thrown)
        | (s, none) =>
          match s.sendHello answer.socket with
          | (s, some thrown) => (s, some thrown)
          | (s, none) => (s.push .authentication, none)

/-- What the proof of an `authenticate` message is checked against. -/
def proofInput
    (workerId nonce : JsString) (role : WorkerSessionRole) : AuthenticationProofInput where
  credential := s.handshake.credential
  workerId := workerId
  senderNonce := nonce
  receiverNonce := options.nonce
  senderRole := role

def authenticationFailed : SessionThrown :=
  diagnosticError .PROTOCOL_AUTHENTICATION_FAILED "Worker session authentication failed"

def receiveAuthentication (answer : SessionAnswer) : SessionOutcome :=
  match s.handshake.peerAuthenticated, s.handshake.remoteNonce, s.handshake.remoteRole,
      s.handshake.principalWorkerId with
  | false, some nonce, some role, some workerId =>
    match asObject envelope.payload .authenticate with
    | .error thrown => (s, some thrown)
    | .ok payload =>
      match requireExactFields payload ["proof"] .authenticate, payload.lookup (js "proof") with
      | .error thrown, _ => (s, some thrown)
      | .ok (), some (.string proof) =>
        let input := proofInput options s workerId nonce role
        if verifyAuthenticationProof platform input proof && s.handshake.principalAuthorized then
          let s := { s with
            handshake :=
              { s.handshake with
                peerAuthenticated := true
                events := s.handshake.events ++ [.proved input proof] } }
          if options.role = .worker then s.sendRegistration options answer.socket else (s, none)
        else (s, some authenticationFailed)
      | .ok (), _ => (s, some authenticationFailed)
  | _, _, _, _ => (s, some (handshakeOrderInvalid "Worker authentication arrived out of order"))

/-- `#receiveRegistration`, up to its `await`. -/
def receiveRegistration : SessionOutcome :=
  if options.role ≠ .main || s.state ≠ .authenticating || s.handshake.registrationPending ||
      !s.handshake.peerAuthenticated || s.handshake.remoteRole ≠ some .worker ||
      !options.registers || s.handshake.remoteHelloSessionId ≠ some envelope.sessionId then
    (s, some (handshakeOrderInvalid "Worker registration arrived before authentication completed"))
  else
    match asObject envelope.payload .workerRegister with
    | .error thrown => (s, some thrown)
    | .ok payload =>
      match requireExactFields payload
          ["workerId", "labels", "resources", "executors", "preparedArtifacts"] .workerRegister,
        normalizeRegistration payload with
      | .error thrown, _ => (s, some thrown)
      | .ok (), .error thrown => (s, some thrown)
      | .ok (), .ok registration =>
        if some registration.workerId.text ≠ s.handshake.principalWorkerId then
          (s, some (diagnosticError .PROTOCOL_AUTHENTICATION_FAILED
            "Worker registration does not match the authenticated principal"))
        else
          ({ s with
            handshake :=
              { s.handshake with
                registrationPending := true
                events := s.handshake.events ++ [HandshakeEvent.registered registration] } }.push
            .registration, none)

def maximumUnsigned64 : Nat := 18446744073709551615

/-- `boundedWorkerEpoch`, and the change to `ready` that follows it. -/
def becomeReady (epoch : Nat) (rest : SessionContinuation) : SessionOutcome :=
  if maximumUnsigned64 < epoch then
    (s, some (diagnosticError .PROTOCOL_SEQUENCE_LIMIT_EXCEEDED
      "Worker session epoch exceeds the unsigned 64-bit protocol limit"))
  else
    ({ s with
      epoch := epoch
      state := .ready
      handshake := { s.handshake with events := s.handshake.events ++ [HandshakeEvent.ready epoch] } }.push rest,
      none)

/-- `#receiveRegistration`, after its `await`. -/
def finishRegistration (epoch : Except SessionThrown Nat) : SessionOutcome :=
  match epoch with
  | .error thrown => (s, some thrown)
  | .ok epoch => if s.state ≠ .authenticating then (s, none) else s.becomeReady epoch .registered

/-- The epoch of a `session.ready` message, written in decimal digits. -/
def readyEpoch (payload : JsonFields) : Except SessionThrown Nat := do
  requireExactFields payload ["epoch"] .sessionReady
  match payload.lookup (js "epoch") with
  | some (.string epoch) =>
    match isNumeric epoch, digits epoch with
    | true, some n => pure n
    | _, _ => throw (diagnosticError .PROTOCOL_IDENTITY_INVALID
        "Sequence must be a non-empty portable identifier")
  | _ => throw (diagnosticError .PROTOCOL_MESSAGE_INVALID "session epoch must be a string")

def receiveReady : SessionOutcome :=
  if options.role ≠ .worker || s.state ≠ .authenticating || !s.handshake.peerAuthenticated ||
      envelope.sessionId ≠ s.sessionId then
    (s, some (handshakeOrderInvalid "Worker session ready arrived before authentication completed"))
  else
    match asObject envelope.payload .sessionReady with
    | .error thrown => (s, some thrown)
    | .ok payload =>
      match readyEpoch payload with
      | .error thrown => (s, some thrown)
      | .ok epoch => s.becomeReady epoch .ready

/-! ## Receiving -/

/-- The end of `#dispatch`: an answer goes to its request, and a message to the listeners, or to
the backlog while there are none. -/
def dispatchMessage (message : WorkerSessionMessage) : SessionOutcome :=
  let envelope := message.envelope
  let passed := s.inbound.messages ++ [message]
  if envelope.correlationId ≠ envelope.messageId then
    if envelope.correlationId ∈ s.inbound.pendingRequests then
      ({ s with
        inbound := settleRequest options { s.inbound with messages := passed }
          envelope.correlationId }, none)
    else if envelope.correlationId ∈ s.inbound.issuedRequestIds then
      ({ s with inbound := { s.inbound with late := s.inbound.late ++ [envelope] } }, none)
    else
      (s, some (diagnosticError .PROTOCOL_MESSAGE_INVALID
        "Worker response correlation does not identify an issued request"))
  else if s.inbound.listeners.isEmpty || s.inbound.flushingPendingMessages then
    let bytes := platform.applicationMessageBytes message
    if options.limits.maxInflightMessages ≤ s.inbound.pendingMessages.length ||
        options.limits.maxBinaryBytes + options.limits.maxFrameBytes <
          s.inbound.pendingMessageBytes + bytes then
      (s, some (diagnosticError .PROTOCOL_INFLIGHT_LIMIT_EXCEEDED
        "Worker session pending application message limit was reached"))
    else
      ({ s with
        inbound :=
          { s.inbound with
            pendingMessages := s.inbound.pendingMessages ++ [message]
            pendingMessageBytes := s.inbound.pendingMessageBytes + bytes
            messages := passed } }, none)
  else ({ s with inbound := { s.inbound with messages := passed } }, none)

def dispatch (message : WorkerSessionMessage) (answer : SessionAnswer) : SessionOutcome :=
  let s := { s with inbound := { s.inbound with dispatched := s.inbound.dispatched ++ [message] } }
  match message.envelope.type with
  | .hello => s.receiveHello options message.envelope answer
  | .authenticate => s.receiveAuthentication platform options message.envelope answer
  | .workerRegister =>
    -- the promise is rejected at once, and its `catch` runs later
    match s.receiveRegistration options message.envelope with
    | (s, some thrown) => (s.push (.rejected thrown), none)
    | (s, none) => (s, none)
  | .sessionReady => s.receiveReady options message.envelope
  | .heartbeat => (s, none)
  | _ =>
    if s.state ≠ .ready then
      (s, some (diagnosticError .PROTOCOL_HANDSHAKE_INCOMPLETE
        "Worker application message arrived before authentication completed"))
    else s.dispatchMessage platform options message

/-- The error of a control frame that is not the next one. -/
def sequenceThrown (w : ReplayWindow JsString JsString)
    (envelope : WorkerControlEnvelope) : ReplayVerdict → SessionThrown
  | .gap => diagnosticError
    (if options.limits.maxSequenceGap < envelope.sequence - w.expectedSequence then
      .PROTOCOL_SEQUENCE_GAP_LIMIT_EXCEEDED
    else .PROTOCOL_SEQUENCE_OUT_OF_ORDER) "Worker message sequence is not contiguous"
  | _ => diagnosticError .PROTOCOL_SEQUENCE_REPLAY
    (if (w.receivedFingerprints.lookup envelope.messageId).isNone then
      "Worker message sequence was replayed with a different identity"
    else if envelope.sequence < w.expectedSequence then
      "Worker message replay did not match its retained canonical content"
    else "Worker message identity was replayed at a different sequence")

def replayOf : RetainedReplay JsString JsString :=
  ⟨envelope.messageId, replayFingerprint platform envelope⟩

/-- A frame under the id of another session. -/
def stale : Bool := s.state = .ready && envelope.sessionId ≠ s.sessionId && envelope.type ≠ .hello

/-- Is there no room for a binary part? -/
def exceedsBinaryLimit (i : SessionInbound) (bytes : Nat) : Bool :=
  options.limits.maxPendingCorrelations ≤ i.pendingBinary.entries.length ||
    (options.limits.maxBinaryBytes : Int) < i.pendingBinaryBytes + bytes

def acceptControl (answer : SessionAnswer) : SessionOutcome :=
  let s := { s with
    inbound :=
      { s.inbound with
        received := s.inbound.received.retain options.limits.replayRetention
          (replayOf platform envelope)
        accepted := s.inbound.accepted ++ [envelope] } }
  if s.stale envelope then
    (s, some (diagnosticError .PROTOCOL_SESSION_ID_MISMATCH
      "Worker message belongs to a stale session"))
  else
    match envelope.binaryBytes with
    | none => s.dispatch platform options ⟨envelope, none⟩ answer
    | some bytes =>
      if exceedsBinaryLimit options s.inbound bytes then
        (s, some (diagnosticError .PROTOCOL_BINARY_LIMIT_EXCEEDED
          "Worker pending binary correlation limit was reached"))
      else
        ({ s with
          inbound :=
            { s.inbound with
              pendingBinary := s.inbound.pendingBinary.insert envelope.messageId
                { envelope := envelope
                  chunks := []
                  nextChunk := 0
                  receivedBytes := 0 }
              pendingBinaryBytes := s.inbound.pendingBinaryBytes + bytes } }, none)

def receiveControl (answer : SessionAnswer) : SessionOutcome :=
  match s.inbound.received.judge envelope.sequence (replayOf platform envelope) with
  | .replayed => (s, none)
  | .next => s.acceptControl platform options envelope answer
  | verdict => (s, some (sequenceThrown options s.inbound.received envelope verdict))

def receiveBinary (chunk : WorkerBinaryChunk) (answer : SessionAnswer) : SessionOutcome :=
  match s.inbound.pendingBinary.lookup chunk.correlationId with
  | none =>
    (s, some (diagnosticError .PROTOCOL_BINARY_CORRELATION_UNKNOWN
      "Worker binary frame has no pending control message"))
  | some pending =>
    if chunk.chunkIndex ≠ pending.nextChunk ||
        some chunk.totalChunks ≠ pending.envelope.binaryChunks then
      (s, some (diagnosticError .PROTOCOL_BINARY_ORDER_INVALID
        "Worker binary chunks are duplicated or out of order"))
    else
      let receivedBytes := pending.receivedBytes + chunk.payload.length
      let declared := pending.envelope.binaryBytes.getD 0
      let update (pending : PendingBinary) : WorkerSession :=
        { s with
          inbound :=
            { s.inbound with
              pendingBinary := s.inbound.pendingBinary.insert chunk.correlationId pending } }
      if declared < receivedBytes || options.limits.maxBinaryBytes < receivedBytes then
        (update { pending with receivedBytes := receivedBytes },
          some (diagnosticError .PROTOCOL_BINARY_LIMIT_EXCEEDED
            "Worker binary aggregate exceeds the declared byte count"))
      else
        let pending : PendingBinary :=
          { pending with
            chunks := pending.chunks ++ [chunk.payload]
            nextChunk := pending.nextChunk + 1
            receivedBytes := receivedBytes }
        if pending.nextChunk ≠ chunk.totalChunks then (update pending, none)
        else if some receivedBytes ≠ pending.envelope.binaryBytes then
          (update pending, some (diagnosticError .PROTOCOL_BINARY_INVALID
            "Worker binary aggregate does not match its declared byte count"))
        else
          let s := { s with
            inbound :=
              { s.inbound with
                pendingBinary := s.inbound.pendingBinary.erase chunk.correlationId
                pendingBinaryBytes := s.inbound.pendingBinaryBytes - declared } }
          s.dispatch platform options ⟨pending.envelope, some pending.chunks.flatten⟩ answer

/-- The `catch` of `#receive`. -/
def orFail : SessionOutcome → WorkerSession
  | (s, none) => s
  | (s, some thrown) => s.fail (receiveFailure thrown)

/-- `#receive`, for a text frame as `decodeControl` decodes it. The socket has no listener once
the session is detached. -/
def receiveText
    (frame : Except SessionThrown WorkerControlEnvelope) (answer : SessionAnswer) : WorkerSession :=
  if s.state = .closed || s.detached then s
  else
    match frame with
    | .error thrown => s.fail (receiveFailure thrown)
    | .ok envelope => orFail (s.receiveControl platform options envelope answer)

/-- `#receive`, for a binary frame as `decodeBinary` decodes it. -/
def receiveBytes
    (frame : Except SessionThrown WorkerBinaryChunk) (answer : SessionAnswer) : WorkerSession :=
  if s.state = .closed || s.detached then s
  else
    match frame with
    | .error thrown => s.fail (receiveFailure thrown)
    | .ok chunk => orFail (s.receiveBinary platform options chunk answer)

/-! ## The machine -/

/-- The diagnostics that caught errors are reported with, unless they have one. -/
def helloFailed : SessionDiagnostic := ⟨.WORKER_TRANSPORT_ERROR, "Worker hello could not be sent"⟩

def registrationFailed : SessionDiagnostic :=
  ⟨.PROTOCOL_HANDSHAKE_INVALID, "Worker session epoch allocation failed"⟩

def becomeAvailable : WorkerSession :=
  { s with available := true, acceptingAssignments := true }

def resume (answer : SessionAnswer) : SessionContinuation → WorkerSession
  | .hello =>
    if s.state = .authenticating then
      match s.sendHello answer.socket with
      | (s, none) => s
      | (s, some thrown) => s.fail (thrown.orElse helloFailed)
    else s
  | .authentication => orFail (s.sendAuthentication answer.socket)
  | .registration =>
    match s.finishRegistration answer.epoch with
    | (s, none) => s
    | (s, some thrown) => s.push (.rejected thrown)
  | .registered =>
    match s.becomeAvailable.sendEnvelope answer.socket with
    | (s, none) => s
    | (s, some thrown) => s.push (.rejected thrown)
  | .ready => s.becomeAvailable.push .heartbeat
  | .heartbeat =>
    if s.state = .ready then
      match s.sendEnvelope answer.socket with
      | (s, none) => s.push .heartbeat
      | (s, some _) => s
    else s
  | .rejected thrown => s.fail (thrown.orElse registrationFailed)
  | .rejectPending => s.rejectPending.push .detach
  | .detach => s.detach
  | .flush => s.flush platform

end

inductive SessionLabel where
  | text (frame : Except SessionThrown WorkerControlEnvelope) (answer : SessionAnswer)
  | binary (frame : Except SessionThrown WorkerBinaryChunk) (answer : SessionAnswer)
  | onMessage (listener : Nat)
  | removeListener (listener : Nat)
  | send (type : WorkerMessageType) (socket : SocketAnswer)
  | request (type : WorkerMessageType) (messageId : JsString) (timeoutMs : Int)
      (socket : SocketAnswer)
  | requestTimeout (messageId : JsString)
  | close
  | replace
  | transportClosed (endpointUnavailable : Bool)
  | transportError
  | handshakeTimeout
  | heartbeatExpired
  /-- One of the methods that wait goes on. -/
  | resume (index : Nat) (answer : SessionAnswer)

/-- The control frame of a step, where it decodes. -/
def SessionLabel.envelope : SessionLabel → Option WorkerControlEnvelope
  | .text (.ok envelope) _ => some envelope
  | _ => none

def step (platform : SessionPlatform) (options : WorkerSessionOptions) (s : WorkerSession) :
    SessionLabel → Option WorkerSession
  | .text frame answer => some (s.receiveText platform options frame answer)
  | .binary frame answer => some (s.receiveBytes platform options frame answer)
  | .onMessage listener => some (s.onMessage listener)
  | .removeListener listener => some (s.removeListener listener)
  | .send type socket => some (s.send type socket).1
  | .request type messageId timeoutMs socket =>
    some (s.request options type messageId timeoutMs socket).1
  | .requestTimeout messageId => some (s.requestTimeout options messageId)
  | .close => some s.close
  | .replace => some s.replace
  | .transportClosed endpointUnavailable => some (s.transportClosed endpointUnavailable)
  | .transportError =>
    some (s.fail ⟨.WORKER_TRANSPORT_ERROR, "Worker WebSocket transport failed"⟩)
  | .handshakeTimeout =>
    if s.state = .authenticating then
      some (s.fail ⟨.PROTOCOL_HANDSHAKE_TIMEOUT, "Worker authentication handshake timed out"⟩)
    else some s
  | .heartbeatExpired => some s.expire
  | .resume index answer =>
    s.continuations[index]?.map fun c =>
      resume platform { s with continuations := s.continuations.eraseIdx index } answer c

def machine (platform : SessionPlatform) (options : WorkerSessionOptions) :
    Machine WorkerSession SessionLabel where
  Init s := s = new options
  step := step platform options

end WorkerSession

end TegoNext
