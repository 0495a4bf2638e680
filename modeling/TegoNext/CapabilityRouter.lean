/-
The capability router.

`invoke` joins calls that are in flight or remembered, and otherwise starts an execution: it
reserves a durable record for the invocation, has the provider dispatched, and completes the
record. Any request in between may fail; any number of routers share the store. What the routers
ask for and how the store fares are answers of the schedule. The cache of gates is left out.
-/
import TegoNext.AsyncSpec
import TegoNext.CasStore
import TegoNext.ReconcilePlan
import TegoNext.TaskRecord

set_option autoImplicit false

namespace TegoNext

open Text CanonicalJson

/-! ## Consumers, calls and routes -/

structure CapabilityIdentity where
  name : PortableId
  protocolVersion : JsString
  deriving DecidableEq

structure ComponentInstanceIdentity where
  applicationId : PortableId
  pluginId : PortableId
  componentId : PortableId
  activation : Activation
  target : TaskExecutionTarget
  bindingFingerprint : JsString
  deriving DecidableEq

structure RoutedCapabilityInvocation where
  invocationId : PortableId
  identity : CapabilityIdentity
  method : JsString
  input : JsonValue

structure CapabilityProvisionRoute where
  identity : CapabilityIdentity
  componentId : PortableId
  methods : List JsString
  requestSchema : JsonValue
  responseSchema : JsonValue

structure CapabilityProviderRoute where
  applicationId : PortableId
  pluginId : PortableId
  componentId : PortableId

structure CapabilityRoute where
  consumer : ComponentInstanceIdentity
  permissionGrants : JsValue
  bindingCapability : CapabilityIdentity
  providerDeployment : PluginDeploymentIdentity
  provision : CapabilityProvisionRoute
  provider : CapabilityProviderRoute

/-- The gate of a provision: the value that passed, or the message of the first
diagnostic. -/
structure CapabilitySchemaGate where
  request : JsonValue → Except JsString JsonValue
  response : JsonValue → Except JsString JsonValue

structure RouterPlatform where
  numberText : NumberText
  sha256 : Sha256
  domainToASCII : JsString → JsString
  schemaGate : CapabilityProvisionRoute → Except JsString CapabilitySchemaGate

section Wire

mutual

/-- `serializeWireValue`: the members of every object in the order of their keys. -/
def serializeWireValue : JsonValue → JsonValue
  | .array items => .array (serializeItems items)
  | .object fields =>
    .object ((serializeFields fields).insertionSort fun left right =>
      compareText left.1 right.1 ≠ .gt)
  | value => value

def serializeItems : List JsonValue → List JsonValue
  | [] => []
  | item :: items => serializeWireValue item :: serializeItems items

def serializeFields : List (JsString × JsonValue) → List (JsString × JsonValue)
  | [] => []
  | (key, value) :: fields => (key, serializeWireValue value) :: serializeFields fields

end

end Wire

def RoutedCapabilityInvocation.normalizeCall (call : RoutedCapabilityInvocation) : RoutedCapabilityInvocation :=
  { call with input := serializeWireValue call.input }

/-! ## Identities of invocations -/

def textMember (name : String) (value : JsString) : JsString × JsonValue := (js name, .string value)

def TaskExecutionTarget.toValue (target : TaskExecutionTarget) : JsonValue :=
  .object [textMember "artifactDigest" target.artifactDigest,
    textMember "deploymentGeneration" (decimal target.deploymentGeneration),
    (js "executor", .object ([textMember "id" target.executor.id,
        textMember "type" (js target.executor.type.text)] ++
      (target.executor.workerId.map fun id => textMember "workerId" id.text).toList)),
    textMember "instanceId" target.instanceId.text]

namespace ComponentInstanceIdentity

def toValue (consumer : ComponentInstanceIdentity) : JsonValue :=
  .object [textMember "activation" (decimal consumer.activation.toNat),
    textMember "applicationId" consumer.applicationId.text,
    textMember "bindingFingerprint" consumer.bindingFingerprint,
    textMember "componentId" consumer.componentId.text,
    textMember "pluginId" consumer.pluginId.text, (js "target", consumer.target.toValue)]

end ComponentInstanceIdentity

namespace RoutedCapabilityInvocation

def toValue (call : RoutedCapabilityInvocation) : JsonValue :=
  .object [(js "identity", .object [textMember "name" call.identity.name.text,
      textMember "protocolVersion" call.identity.protocolVersion]),
    (js "input", call.input), textMember "invocationId" call.invocationId.text,
    textMember "method" call.method]

end RoutedCapabilityInvocation

section Keys

variable (platform : RouterPlatform)

def fingerprint (value : JsonValue) : JsString :=
  (platform.sha256 (canonical platform.numberText value)).toList.map hexDigit

def invocationKey (consumer : ComponentInstanceIdentity) (invocationId : PortableId) : JsString :=
  canonical platform.numberText (.object
    [textMember "activation" (decimal consumer.activation.toNat),
      textMember "applicationId" consumer.applicationId.text,
      textMember "bindingFingerprint" consumer.bindingFingerprint,
      textMember "componentId" consumer.componentId.text,
      textMember "invocationId" invocationId.text,
      textMember "pluginId" consumer.pluginId.text, (js "target", consumer.target.toValue)])

/-- `durableInvocationKey`: the id of the record. -/
def durableInvocationKey (key : JsString) : JsString :=
  js "capability-" ++ fingerprint platform (.string key)

def callFingerprint (consumer : ComponentInstanceIdentity) (call : RoutedCapabilityInvocation) :
    JsString :=
  fingerprint platform (.object [(js "call", call.toValue), (js "consumer", consumer.toValue)])

end Keys

/-! ## Errors and records -/

inductive RouterCode where
  | CAPABILITY_BINDING_STALE
  | CAPABILITY_CONSUMER_IDENTITY_MISMATCH
  | CAPABILITY_INVOCATION_CAPACITY_EXHAUSTED
  | CAPABILITY_INVOCATION_FAILED
  | CAPABILITY_INVOCATION_INDETERMINATE
  | CAPABILITY_METHOD_UNAVAILABLE
  | CAPABILITY_REQUEST_INVALID
  | CAPABILITY_RESPONSE_INVALID
  | CAPABILITY_SCHEMA_INVALID
  | PERMISSION_CAPABILITY_DENIED
  | PROTOCOL_IDEMPOTENCY_CONFLICT
  | other (code : JsString)
  deriving DecidableEq

structure RouterDiagnostic where
  code : RouterCode
  message : JsString
  source : DiagnosticSource
  deriving DecidableEq

/-- An error of the router or of what it calls, or a failed invocation's diagnostic. -/
inductive RouterFailure where
  | router (code : RouterCode) (message : JsString)
  | recorded (diagnostic : RouterDiagnostic)
  | outside (diagnostic : Option RouterDiagnostic) (message : Option JsString)
  deriving DecidableEq

/-- `error`. -/
def routerError (code : RouterCode) (message : String) : RouterFailure := .router code (js message)

def routerDiagnostic (code : RouterCode) (message : JsString) : RouterDiagnostic where
  code := code
  message := message
  source := ⟨"runtime", js "capability-router"⟩

def failureDiagnostic : RouterFailure → RouterDiagnostic
  | .router code message => routerDiagnostic code message
  | .recorded diagnostic => diagnostic
  | .outside (some diagnostic) _ => diagnostic
  | .outside none message => routerDiagnostic .CAPABILITY_INVOCATION_FAILED
      (message.getD (js "Capability invocation failed"))

def idempotencyReuse : RouterFailure :=
  routerError .PROTOCOL_IDEMPOTENCY_CONFLICT
    "Capability invocation identity was reused with a different fingerprint"

def idempotencyChanged : RouterFailure :=
  routerError .PROTOCOL_IDEMPOTENCY_CONFLICT
    "Durable capability invocation identity changed before completion"

def indeterminate (message : String) : RouterFailure :=
  routerError .CAPABILITY_INVOCATION_INDETERMINATE message

inductive InvocationStatus where
  | completed
  | executing
  | failed
  deriving DecidableEq

structure DurableInvocationRecord where
  operationId : JsString
  fingerprint : JsString
  status : InvocationStatus
  result : Option JsonValue
  diagnostic : Option RouterDiagnostic

/-! ## The memory -/

structure InvocationEntry where
  fingerprint : JsString
  /-- The promise of the result, by its index. -/
  result : Nat

structure RouterState where
  maxInvocations : { n : Nat // 1 ≤ n ∧ n ≤ 4096 }
  /-- In the order of insertion. -/
  invocations : List (JsString × InvocationEntry)

/-- The promise of an execution; `settled` is the flag of the entries that hold it. -/
structure InvocationPromise where
  key : JsString
  fingerprint : JsString
  outcome : Option (Except RouterFailure JsonValue)
  settled : Bool

inductive RouterEvent where
  /-- The execution has put the record of the invocation. -/
  | reserved (promise : Nat) (key : JsString)
  | dispatched (promise : Nat) (key fingerprint : JsString)
  /-- The execution has completed the record. -/
  | completed (promise : Nat) (key : JsString)
  /-- A call of `invoke` has ended. -/
  | returned (key fingerprint : JsString) (outcome : Except RouterFailure JsonValue)

structure RouterWorld where
  /-- The records, by the id of `durableInvocationKey`. -/
  store : CasStore JsString DurableInvocationRecord JsString
  routers : Nat → RouterState
  promises : List InvocationPromise
  /-- Newest first. -/
  events : List RouterEvent

inductive RouterReply where
  | done
  | failed (diagnostic : Option RouterDiagnostic) (message : Option JsString)
  | lost (diagnostic : Option RouterDiagnostic) (message : Option JsString)
  | route (route : CapabilityRoute)
  /-- Whether the route is current, and the error of the authority if it is not active. -/
  | revalidated (current : Bool) (inactive : Option RouterFailure)
  | response (value : JsonValue)

abbrev RouterM (α : Type) : Type := Async RouterWorld RouterReply RouterFailure α

namespace RouterWorld

variable (s : RouterWorld) (me : Nat)

def log (e : RouterEvent) : RouterWorld := { s with events := e :: s.events }

def setInvocations (invocations : List (JsString × InvocationEntry)) : RouterWorld :=
  { s with
    routers := Function.update s.routers me { s.routers me with invocations := invocations } }

theorem setInvocations_self (invocations : List (JsString × InvocationEntry)) :
    ((s.setInvocations me invocations).routers me).invocations = invocations := by
  simp [setInvocations]

theorem setInvocations_of_ne {me me' : Nat} (h : me' ≠ me)
    (invocations : List (JsString × InvocationEntry)) :
    (s.setInvocations me invocations).routers me' = s.routers me' := by
  simp [setInvocations, h]

def isSettled (entry : InvocationEntry) : Bool := s.promises[entry.result]?.any (·.settled)

/-- `#pruneInvocations` on the entries of a map: drop settled ones, the oldest first, as
long as there are too many. -/
def pruned (s : RouterWorld) (limit : Nat) :
    Nat → List (JsString × InvocationEntry) → List (JsString × InvocationEntry)
  | 0, invocations => invocations
  | fuel + 1, invocations =>
    if limit ≤ invocations.length then
      if invocations.any fun entry => s.isSettled entry.2 then
        s.pruned limit fuel (invocations.eraseP fun entry => s.isSettled entry.2)
      else invocations
    else invocations

def pruneInvocations : RouterWorld :=
  let invocations := (s.routers me).invocations
  s.setInvocations me (s.pruned (s.routers me).maxInvocations.val invocations.length invocations)

def touchInvocation (key : JsString) (entry : InvocationEntry) : RouterWorld :=
  s.setInvocations me
    (((s.routers me).invocations.filter fun other => other.1 != key) ++ [(key, entry)])

/-- A new execution: its promise, and the entry of the map. -/
def addInvocation (key fingerprint : JsString) : RouterWorld :=
  let invocations := (s.routers me).invocations ++ [(key, ⟨fingerprint, s.promises.length⟩)]
  { s.setInvocations me invocations with
    promises := s.promises ++ [⟨key, fingerprint, none, false⟩] }

def settle (p : Nat) (outcome : Except RouterFailure JsonValue) : RouterWorld :=
  { s with promises := s.promises.modify p fun promise =>
      if promise.outcome.isNone then { promise with outcome := some outcome } else promise }

def markSettled (p : Nat) : RouterWorld :=
  { s with promises := s.promises.modify p fun promise => { promise with settled := true } }

/-- One write of a transaction, with the event it leaves behind. -/
def putRecord (key : JsString) (record : DurableInvocationRecord)
    (expected : Expected) (note : RouterEvent) : Except RouterFailure RouterWorld :=
  match s.store.commit [⟨key, some record, expected⟩] none false with
  | .error _ => .error (.outside (some ⟨.other (js "STATE_REVISION_CONFLICT"),
      js "State record revision does not match", ⟨"state", js "tego"⟩⟩) none)
  | .ok store => .ok ({ s with store := store }.log note)

end RouterWorld

/-! ## Execution -/

namespace CapabilityRouter

open Async

variable (platform : RouterPlatform)

/-- Wait for an answer that is accepted. -/
def ask {α : Type} (accept : RouterReply → Option (Except RouterFailure α)) : RouterM α :=
  turn (fun _ r => (accept r).isSome) fun s r =>
    ((accept r).getD (.error (.outside none none)), s)

/-- `transaction.get(key)` or `state.read(key)`. -/
def get (key : JsString) : RouterM (Option (Versioned DurableInvocationRecord)) :=
  check fun s r =>
    match r with
    | .failed diagnostic message => .error (.outside diagnostic message)
    | _ => .ok (s.store.record key)

/-- The commit of a transaction; `none` is one that has written nothing. -/
def commit (write : Option (JsString × DurableInvocationRecord × Expected × RouterEvent)) :
    RouterM Unit :=
  atomically fun s r =>
    match r with
    | .failed diagnostic message => (.error (.outside diagnostic message), s)
    | _ =>
      let committed : Except RouterFailure RouterWorld := match write with
        | none => .ok s
        | some (key, record, expected, note) => s.putRecord key record expected note
      match committed with
      | .error e => (.error e, s)
      | .ok t =>
        match r with
        | .lost diagnostic message => (.error (.outside diagnostic message), t)
        | _ => (.ok (), t)

section

variable (p : Nat) (consumer : ComponentInstanceIdentity) (call : RoutedCapabilityInvocation)
  (key fingerprint : JsString)

/-- The checks of a route, up to its revalidation; the request that passed its gate, and
the gate. -/
def checkRoute
    (route : CapabilityRoute) : Except RouterFailure (JsonValue × CapabilitySchemaGate) :=
  if route.consumer ≠ consumer then
    .error (routerError .CAPABILITY_CONSUMER_IDENTITY_MISMATCH
      "Resolved capability route does not match its exact consumer activation")
  else if route.bindingCapability ≠ call.identity ∨ route.provision.identity ≠ call.identity ∨
      route.provider.applicationId ≠ route.providerDeployment.applicationId ∨
      route.provider.pluginId ≠ route.providerDeployment.pluginId ∨
      route.provider.componentId ≠ route.provision.componentId then
    .error (routerError .CAPABILITY_BINDING_STALE
      "Durable capability binding does not match the requested exact provider")
  else if call.method ∉ route.provision.methods then
    .error (.router .CAPABILITY_METHOD_UNAVAILABLE
      (js "Capability method " ++ call.method ++ js " is not declared by the provider"))
  else
    let permission := gatePermission platform.domainToASCII route.permissionGrants
      (.object [(js "kind", .string (js "capability")),
        (js "name", .string call.identity.name.text), (js "method", .string call.method)])
    if !permission.allowed then
      .error (.router .PERMISSION_CAPABILITY_DENIED
        ((permission.diagnostics.head?.bind (·.message)).getD
          (js "Capability invocation is not granted")))
    else
      match platform.schemaGate route.provision with
      | .error message => .error (.router .CAPABILITY_SCHEMA_INVALID message)
      | .ok gate =>
        match gate.request call.input with
        | .error message => .error (.router .CAPABILITY_REQUEST_INVALID message)
        | .ok value => .ok (value, gate)

def dispatch (p : Nat) (key fingerprint : JsString) (guarded : Bool) : RouterM Unit :=
  turn
    (fun _ r =>
      match r with
      | .failed _ _ | .revalidated _ _ => true
      | _ => false)
    fun s r =>
      match r with
      | .revalidated true inactive =>
        match guarded, inactive with
        | true, some e => (.error e, s)
        | _, _ => (.ok (), s.log (.dispatched p key fingerprint))
      | .revalidated false _ =>
        (.error (routerError .CAPABILITY_BINDING_STALE
          "Capability binding changed before exact provider dispatch"), s)
      | .failed diagnostic message => (.error (.outside diagnostic message), s)
      | _ => (.error (.outside none none), s)

def execute (guarded : Bool) : RouterM JsonValue := do
  let route ← ask fun r =>
    match r with
    | .route route => some (.ok route)
    | .failed diagnostic message => some (.error (.outside diagnostic message))
    | _ => none
  let (_, gate) ← ofExcept (checkRoute platform consumer call route)
  dispatch p key fingerprint guarded
  let response ← ask fun r =>
    match r with
    | .response value => some (.ok value)
    | .failed diagnostic message => some (.error (.outside diagnostic message))
    | _ => none
  match gate.response response with
  | .error message => throw (.router .CAPABILITY_RESPONSE_INVALID message)
  | .ok value => pure (serializeWireValue value)

def admission :
    RouterM (Bool × DurableInvocationRecord) := do
  let existing ← get key
  match existing with
  | some existing =>
    if existing.value.fingerprint ≠ fingerprint then throw idempotencyReuse
    else do
      commit none
      pure (false, existing.value)
  | none => do
    let record : DurableInvocationRecord :=
      { operationId := key
        fingerprint := fingerprint
        status := .executing
        result := none
        diagnostic := none }
    commit (some (key, record, .absent, .reserved p key))
    pure (true, record)

def completeInvocation (terminal : DurableInvocationRecord) : RouterM DurableInvocationRecord := do
  let current ← get key
  match current with
  | none => throw idempotencyChanged
  | some current =>
    if current.value.fingerprint ≠ fingerprint then throw idempotencyChanged
    else if current.value.status ≠ .executing then do
      commit none
      pure current.value
    else do
      commit (some (key, terminal, .at current.revision, .completed p key))
      pure terminal

def successfulInvocationResult (record : DurableInvocationRecord) :
    Except RouterFailure JsonValue :=
  match record.status, record.result with
  | .completed, some result => .ok (serializeWireValue result)
  | _, _ => .error (indeterminate "Provider completed but durable terminal success is unresolved")

def reloadSuccessfulInvocation : RouterM JsonValue := do
  let current ← tryCatch (get key) fun _ => throw (indeterminate
    "Provider completed but durable completion evidence could not be read")
  match current with
  | none => throw (indeterminate "Provider completed but durable completion evidence is missing")
  | some current =>
    if current.value.fingerprint ≠ fingerprint then throw idempotencyChanged
    else ofExcept (successfulInvocationResult current.value)

/-- What an admitted record answers by itself; `none` is to execute. -/
def answerAdmitted (claimed : Bool) (record : DurableInvocationRecord) :
    Option (Except RouterFailure JsonValue) :=
  match record.status with
  | .completed =>
    match record.result with
    | some result => some (.ok (serializeWireValue result))
    -- `serializeWireValue(undefined)` throws
    | none => some (.error (.outside none none))
  | .failed =>
    match record.diagnostic with
    | none => some (.error (indeterminate "Durable capability failure evidence is incomplete"))
    | some diagnostic => some (.error (.recorded diagnostic))
  | .executing =>
    if claimed then none
    else some (.error (indeterminate
      "Capability invocation is already executing under another runtime authority"))

def terminalRecord (operationId fingerprint : JsString) (status : InvocationStatus)
    (result : Option JsonValue) (diagnostic : Option RouterDiagnostic) :
    DurableInvocationRecord where
  operationId := operationId
  fingerprint := fingerprint
  status := status
  result := result
  diagnostic := diagnostic

def executeDurable (invocation fingerprint : JsString) (guarded : Bool) :
    RouterM JsonValue := do
  let key := durableInvocationKey platform invocation
  let (claimed, admitted) ← admission p key fingerprint
  match answerAdmitted claimed admitted with
  | some answer => ofExcept answer
  | none => do
    let result ← attempt (execute platform p consumer call invocation fingerprint guarded)
    match result with
    | .error cause => do
      let diagnostic := failureDiagnostic cause
      let _ ← completeInvocation p key fingerprint
        (terminalRecord admitted.operationId fingerprint .failed none (some diagnostic))
      throw (.recorded diagnostic)
    | .ok result =>
      tryCatch (do
        let terminal ← completeInvocation p key fingerprint
          (terminalRecord admitted.operationId fingerprint .completed (some result) none)
        ofExcept (successfulInvocationResult terminal))
        fun _ => reloadSuccessfulInvocation key fingerprint

/-! ## Invocations -/

def execution (guarded : Bool) :
    RouterM Unit := do
  let outcome ← attempt (executeDurable platform p consumer call key fingerprint guarded)
  update fun s _ => s.settle p outcome
  update fun s _ => s.markSettled p

/-- The synchronous part of `invoke`: the promise to wait for, and whether it is new. -/
def join (s : RouterWorld) (me : Nat) (key fingerprint : JsString) :
    Except RouterFailure (Nat × Option Nat) × RouterWorld :=
  match (s.routers me).invocations.lookup key with
  | some existing =>
    if existing.fingerprint ≠ fingerprint then (.error idempotencyReuse, s)
    else (.ok (existing.result, none), s.touchInvocation me key existing)
  | none =>
    let s := s.pruneInvocations me
    if (s.routers me).maxInvocations.val ≤ (s.routers me).invocations.length then
      (.error (routerError .CAPABILITY_INVOCATION_CAPACITY_EXHAUSTED
        "Capability invocation capacity is full"), s)
    else (.ok (s.promises.length, some s.promises.length), s.addInvocation me key fingerprint)

def awaitPromise : RouterM JsonValue :=
  turn (fun s _ => (s.promises[p]?.bind (·.outcome)).isSome) fun s _ =>
    ((s.promises[p]?.bind (·.outcome)).getD (.error (.outside none none)), s)

end

/-- `invoke`; `guarded` is whether an authority is passed. -/
def invoke (me : Nat) (consumer : ComponentInstanceIdentity)
    (input : RoutedCapabilityInvocation) (guarded : Bool) : RouterM JsonValue := do
  let call := input.normalizeCall
  let key := invocationKey platform consumer call.invocationId
  let fingerprint := callFingerprint platform consumer call
  let p ← spawn (fun s _ => join s me key fingerprint) fun p =>
    (execution platform p consumer call key fingerprint guarded).run
  awaitPromise p

/-- A call of `invoke`, with a note of how it ended. -/
def invokeNoted (me : Nat) (consumer : ComponentInstanceIdentity)
    (input : RoutedCapabilityInvocation) (guarded : Bool) : RouterM Unit := do
  let outcome ← attempt (invoke platform me consumer input guarded)
  update fun s _ => s.log (.returned (invocationKey platform consumer input.invocationId)
    (callFingerprint platform consumer input.normalizeCall) outcome)

def clear (me : Nat) : RouterM Unit := update fun s _ => s.setInvocations me []

def commitOther : RouterM Unit :=
  update fun s _ =>
    match s.store.commit [] none true with
    | .error _ => s
    | .ok store => { s with store := store }

end CapabilityRouter

/-- What is called on a router, or done to the store by others. -/
inductive RouterCall where
  | invoke (consumer : ComponentInstanceIdentity) (input : RoutedCapabilityInvocation)
      (guarded : Bool)
  | clear
  | commitOther

namespace CapabilityRouter

variable (platform : RouterPlatform)

def call (me : Nat) : RouterCall → Proc RouterWorld RouterReply
  | .invoke consumer input guarded => (invokeNoted platform me consumer input guarded).run
  | .clear => (clear me).run
  | .commitOther => commitOther.run

/-- Where runs start: any store, and routers that have just been constructed. -/
structure Start (s : RouterWorld) : Prop where
  wellFormed : s.store.WellFormed
  routers : ∀ me, (s.routers me).invocations = []
  promises : s.promises = []
  events : s.events = []

/-- All interleavings of the calls on any number of routers. -/
def machine : Machine (World RouterWorld RouterReply) (Sched (Nat × RouterCall) RouterReply) :=
  World.machine Start fun c => call platform c.1 c.2

end CapabilityRouter

end TegoNext
