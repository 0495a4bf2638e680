/-
`deployPlugin` of the operation controllers that share one state store.

A call looks up the installation of its artifact and then tries up to eight times to bring the
stored deployment to what the request asks for: a transaction that reads, compares and
conditionally writes, a second read, and a comparison with what the transaction decided. Everything
else is changed by others at any time. Requests and stored records are typed, so the parsers of the
source do nothing.
-/
import TegoNext.AsyncSpec
import TegoNext.CasStore
import TegoNext.ReconcilePlan
import TegoNext.TaskRecord

set_option autoImplicit false

namespace TegoNext

open Text JsDate

/-! ## Requests, installations and deployments -/

structure OperationPlatform where
  numberText : CanonicalJson.NumberText
  domainToASCII : JsString → JsString

structure DeployPluginRequest where
  applicationId : PortableId
  pluginId : PortableId
  artifactDigest : ArtifactDigest
  essential : Bool
  configuration : JsonValue
  permissionGrants : JsonValue
  capabilityBindings : List (JsString × PluginDeploymentIdentity)

/-- A stored `PluginDeployment`, with the fields the planner does not read. -/
structure DeploymentRecord extends PluginDeployment where
  version : JsString
  essential : Bool
  configuration : JsonValue
  permissionGrants : JsonValue
  capabilityBindings : List (JsString × PluginDeploymentIdentity)

structure ManifestProvision where
  name : JsString
  protocolVersion : JsString

structure ManifestRequirement where
  name : JsString
  protocolRange : JsString

/-- The fields of a manifest the operation reads. -/
structure PluginManifest where
  pluginId : PortableId
  version : JsString
  permissions : JsonValue
  provides : List ManifestProvision
  requires : List ManifestRequirement

structure PluginInstallation where
  pluginId : PortableId
  version : JsString
  digest : ArtifactDigest
  manifest : PluginManifest

structure StoredInstallation where
  storageId : JsString
  installation : PluginInstallation

namespace PluginInstallation

/-- `${pluginId}@${version}@${digest}`. -/
def storageId (installation : PluginInstallation) : JsString :=
  installation.pluginId.text ++ js "@" ++ installation.version ++ js "@" ++ installation.digest

end PluginInstallation

def DeployPluginRequest.deploymentKey (request : DeployPluginRequest) : PluginDeploymentIdentity :=
  ⟨request.applicationId, request.pluginId⟩

/-- The bindings as the value they are compared as. -/
def bindingsValue (bindings : List (JsString × PluginDeploymentIdentity)) : JsonValue :=
  .object (bindings.map fun binding => (binding.1, .object
    [(js "applicationId", .string binding.2.applicationId.text),
      (js "pluginId", .string binding.2.pluginId.text)]))

section SameDesired

open CanonicalJson

def sameDesired (numberText : NumberText) (left : DeploymentRecord)
    (right : DeployPluginRequest) : Bool :=
  left.applicationId == right.applicationId &&
    left.pluginId == right.pluginId &&
    left.artifactDigest == right.artifactDigest &&
    left.essential == right.essential &&
    canonical numberText left.configuration == canonical numberText right.configuration &&
    canonical numberText left.permissionGrants == canonical numberText right.permissionGrants &&
    canonical numberText (bindingsValue left.capabilityBindings) ==
      canonical numberText (bindingsValue right.capabilityBindings)

end SameDesired

def desiredDeployment (request : DeployPluginRequest) (version : JsString)
    (existing : Option DeploymentRecord) : DeploymentRecord where
  applicationId := request.applicationId
  pluginId := request.pluginId
  version := version
  artifactDigest := request.artifactDigest
  generation :=
    match existing with
    | none => 1
    | some current => current.generation + 1
  state := .active
  essential := request.essential
  configuration := request.configuration
  permissionGrants := request.permissionGrants
  capabilityBindings := request.capabilityBindings

theorem sameDesired_desiredDeployment (numberText : CanonicalJson.NumberText)
    (request : DeployPluginRequest) (version : JsString) (existing : Option DeploymentRecord) :
    sameDesired numberText (desiredDeployment request version existing) request = true := by
  simp [sameDesired, desiredDeployment]

/-! ## Errors -/

inductive OperationCode where
  | BOOTSTRAP_SERVICE_UNCONFIGURED
  | COORDINATION_FENCE_REJECTED
  | COORDINATION_NOT_LEADER
  | DEPLOYMENT_ARTIFACT_NOT_INSTALLED
  | DEPLOYMENT_CAPABILITY_BINDING_INVALID
  | DEPLOYMENT_CAPABILITY_BINDING_MISSING
  | DEPLOYMENT_CONCURRENT_UPDATE
  | DEPLOYMENT_PERMISSION_GRANT_INVALID
  | STATE_FENCE_STALE
  | STATE_REVISION_CONFLICT
  | other (code : JsString)
  deriving DecidableEq

/-- An error of the controller, or one of the store or of `wake`, of which only the
code is looked at. -/
inductive OperationFailure where
  | operation (code : OperationCode) (message : String) (source : DiagnosticSource)
      (observedAt : Instant)
  | outside (code : Option OperationCode)
  deriving DecidableEq

def conflictCode : OperationFailure → Option OperationCode
  | .operation code _ _ _ => some code
  | .outside code => code

def deploymentError (code : OperationCode) (message : String) (request : DeployPluginRequest)
    (now : Instant) : OperationFailure :=
  .operation code message
    ⟨"deployment", request.applicationId.text ++ js "/" ++ request.pluginId.text⟩ now

def unconfigured (capability : String) (now : Instant) : OperationFailure :=
  .operation .BOOTSTRAP_SERVICE_UNCONFIGURED
    ("Runtime " ++ capability ++ " service is not configured") ⟨"runtime", js "operations"⟩ now

/-! ## Validation -/

section Validation

mutual

def jsonToJs : JsonValue → JsValue
  | .null => .null
  | .bool b => .bool b
  | .number q => .number q
  | .string s => .string s
  | .array items => .array (jsonItemsToJs items)
  | .object fields => .object (jsonFieldsToJs fields)

def jsonItemsToJs : List JsonValue → List JsValue
  | [] => []
  | item :: items => jsonToJs item :: jsonItemsToJs items

def jsonFieldsToJs : List (JsString × JsonValue) → List (JsString × JsValue)
  | [] => []
  | (key, value) :: fields => (key, jsonToJs value) :: jsonFieldsToJs fields

end

variable (platform : OperationPlatform)

def validateDeployment (request : DeployPluginRequest) (installation : PluginInstallation)
    (now : Instant) : Except OperationFailure Unit :=
  let decision := validatePermissionGrant platform.domainToASCII
    (jsonToJs installation.manifest.permissions) (jsonToJs request.permissionGrants)
  if !decision.allowed then
    .error (deploymentError .DEPLOYMENT_PERMISSION_GRANT_INVALID
      "Deployment permission grant exceeds the plugin manifest" request now)
  else if !(request.capabilityBindings.all fun binding =>
      installation.manifest.requires.any fun capability => capability.name == binding.1) then
    .error (deploymentError .DEPLOYMENT_CAPABILITY_BINDING_INVALID
      "Capability binding is not declared by the plugin manifest" request now)
  else .ok ()

/-- The check that the installation a transaction finds is the one that was located. -/
def validateInstallation (request : DeployPluginRequest) (located : StoredInstallation)
    (found : Option PluginInstallation) (now : Instant) :
    Except OperationFailure PluginInstallation :=
  match found with
  | none => .error (deploymentError .DEPLOYMENT_ARTIFACT_NOT_INSTALLED
      "The selected artifact installation no longer exists" request now)
  | some installation =>
    if located.storageId != installation.storageId ||
        installation.pluginId != request.pluginId ||
        installation.digest != request.artifactDigest ||
        installation.manifest.pluginId != request.pluginId ||
        installation.manifest.version != installation.version then
      .error (deploymentError .DEPLOYMENT_ARTIFACT_NOT_INSTALLED
        "The selected artifact installation identity changed" request now)
    else do
      validateDeployment platform request installation now
      pure installation

def validateProvider (request : DeployPluginRequest) (binding : PluginDeploymentIdentity)
    (provider : Option DeploymentRecord) (now : Instant) :
    Except OperationFailure DeploymentRecord :=
  match provider with
  | none => .error (deploymentError .DEPLOYMENT_CAPABILITY_BINDING_MISSING
      "A capability binding refers to a missing deployment" request now)
  | some provider =>
    if provider.applicationId != binding.applicationId || provider.pluginId != binding.pluginId ||
        provider.state != .active then
      .error (deploymentError .DEPLOYMENT_CAPABILITY_BINDING_INVALID
        "A capability binding refers to an invalid provider deployment" request now)
    else .ok provider

/-- The loop of `#validateProviderBinding`: the first installation of the provider's
artifact decides. -/
def providerSatisfies (name : JsString) (provider : DeploymentRecord)
    (requirement : ManifestRequirement) (installations : List StoredInstallation) : Bool :=
  match installations.find? fun stored => stored.installation.pluginId == provider.pluginId &&
      stored.installation.digest == provider.artifactDigest with
  | none => false
  | some stored =>
    let installation := stored.installation
    if stored.storageId != installation.storageId || provider.version != installation.version ||
        installation.manifest.pluginId != installation.pluginId ||
        installation.manifest.version != installation.version then
      false
    else
      match installation.manifest.provides.find? fun candidate => candidate.name == name with
      | none => false
      | some provided => satisfiesVersionRange provided.protocolVersion requirement.protocolRange

def validateProviderBinding (name : JsString) (provider : DeploymentRecord)
    (consumer : PluginInstallation) (request : DeployPluginRequest)
    (installations : List StoredInstallation) (now : Instant) : Except OperationFailure Unit :=
  match consumer.manifest.requires.find? fun candidate => candidate.name == name with
  | none => .error (deploymentError .DEPLOYMENT_CAPABILITY_BINDING_INVALID
      "Capability binding is not declared by the consumer" request now)
  | some requirement =>
    if providerSatisfies name provider requirement installations then .ok ()
    else .error (deploymentError .DEPLOYMENT_CAPABILITY_BINDING_INVALID
      "Capability provider does not satisfy the declared protocol range" request now)

end Validation

/-! ## The memory -/

structure OperationController where
  authority : Option RuntimeAuthority
  acceptingMutations : Bool

inductive DeployEvent where
  /-- A transaction of the call read the deployment. -/
  | read (call : Nat) (request : DeployPluginRequest) (found : Option DeploymentRecord)
  /-- A transaction of the call wrote the deployment. -/
  | committed (call : Nat) (request : DeployPluginRequest)

structure DeployWorld where
  store : CasStore PluginDeploymentIdentity DeploymentRecord JsString
  /-- In the order of a scan. -/
  installations : List StoredInstallation
  controllers : Nat → OperationController
  calls : Nat
  /-- Newest first. -/
  events : List DeployEvent

inductive DeployReply where
  | done
  | failed (code : Option OperationCode)
  | lost (code : Option OperationCode)

structure DeployAnswer where
  now : Instant
  reply : DeployReply

abbrev DeployM (α : Type) : Type := Async DeployWorld DeployAnswer OperationFailure α

namespace DeployWorld

variable (s : DeployWorld)

def deployment (id : PluginDeploymentIdentity) : Option DeploymentRecord :=
  (s.store.record id).map (·.value)

def requireAuthority (me : Nat) (now : Instant) : Except OperationFailure RuntimeAuthority :=
  match (s.controllers me).acceptingMutations, (s.controllers me).authority with
  | true, some authority => .ok authority
  | _, _ => .error (.operation .COORDINATION_NOT_LEADER
      "Runtime mutation requires active leadership" ⟨"coordination", js "operations"⟩ now)

def assertAuthority (me : Nat) (expected : RuntimeAuthority) (now : Instant) :
    Except OperationFailure Unit :=
  if (s.controllers me).authority = some expected then .ok ()
  else .error (.operation .COORDINATION_FENCE_REJECTED
    "Runtime authority changed while the operation was active"
    ⟨"coordination", expected.resource⟩ now)

def findInstallation (request : DeployPluginRequest) (now : Instant) :
    Except OperationFailure StoredInstallation :=
  match s.installations.find? fun stored => stored.installation.pluginId == request.pluginId &&
      stored.installation.digest == request.artifactDigest with
  | some stored => .ok stored
  | none => .error (deploymentError .DEPLOYMENT_ARTIFACT_NOT_INSTALLED
      "Deployment artifact is not installed for this plugin" request now)

def installation (storageId : JsString) : Option PluginInstallation :=
  (s.installations.find? fun stored => stored.storageId == storageId).map (·.installation)

def log (e : DeployEvent) : DeployWorld := { s with events := e :: s.events }

/-- A commit of the transaction: nothing, or the new deployment. -/
def commitDeployment (call : Nat) (request : DeployPluginRequest)
    (authority : RuntimeAuthority) (write : Option (DeploymentRecord × Expected)) :
    Except OperationFailure DeployWorld :=
  let writes := match write with
    | none => []
    | some (deployment, expected) => [⟨request.deploymentKey, some deployment, expected⟩]
  match s.store.commit writes (some (authority.resource, authority.epoch)) false with
  | .error .conflict => .error (.outside (some .STATE_REVISION_CONFLICT))
  | .error .staleFence => .error (.outside (some .STATE_FENCE_STALE))
  | .ok store =>
    let t := { s with store := store }
    .ok (if write.isSome then t.log (.committed call request) else t)

end DeployWorld

/-! ## The operation -/

namespace RuntimeOperations

open Async

variable (platform : OperationPlatform) (me : Nat)

/-- A request to the store that only reads: it may fail. -/
def ask {α : Type} (f : DeployWorld → Instant → Except OperationFailure α) : DeployM α :=
  check fun s r =>
    match r.reply with
    | .failed code => .error (.outside code)
    | _ => f s r.now

variable (call : Nat) (request : DeployPluginRequest) (authority : RuntimeAuthority)

def assertAuthority : DeployM Unit := check fun s r => s.assertAuthority me authority r.now

/-- Throw an error that carries the time. -/
def fail {α : Type} (e : Instant → OperationFailure) : DeployM α := check fun _ r => .error (e r.now)

def start : DeployM (Nat × RuntimeAuthority) :=
  atomically fun s r =>
    match s.requireAuthority me r.now with
    | .error e => (.error e, s)
    | .ok authority => (.ok (s.calls, authority), { s with calls := s.calls + 1 })

def checkBinding (consumer : PluginInstallation)
    (binding : JsString × PluginDeploymentIdentity) : DeployM Unit := do
  let provider ← ask fun s now => validateProvider request binding.2 (s.deployment binding.2) now
  ask fun s now =>
    validateProviderBinding binding.1 provider consumer request s.installations now

def checkBindings (request : DeployPluginRequest) (consumer : PluginInstallation) :
    List (JsString × PluginDeploymentIdentity) → DeployM Unit
  | [] => pure ()
  | binding :: bindings => do
    checkBinding request consumer binding
    checkBindings request consumer bindings

/-- `transaction.get(key)` of the deployment itself. -/
def getExisting : DeployM (Option (Versioned DeploymentRecord)) :=
  atomically fun s r =>
    match r.reply with
    | .failed code => (.error (.outside code), s)
    | _ =>
      let existing := s.store.record request.deploymentKey
      (.ok existing, s.log (.read call request (existing.map (·.value))))

def commit (write : Option (DeploymentRecord × Expected)) : DeployM Unit :=
  atomically fun s r =>
    match r.reply with
    | .failed code => (.error (.outside code), s)
    | reply =>
      match s.commitDeployment call request authority write with
      | .error e => (.error e, s)
      | .ok t =>
        match reply with
        | .lost code => (.error (.outside code), t)
        | _ => (.ok (), t)

def decideWrite (version : JsString) (existing : Option (Versioned DeploymentRecord)) :
    DeploymentRecord × Option (DeploymentRecord × Expected) :=
  match existing with
  | none =>
    let deployment := desiredDeployment request version none
    (deployment, some (deployment, .absent))
  | some found =>
    if sameDesired platform.numberText found.value request then (found.value, none)
    else
      let deployment := desiredDeployment request version (some found.value)
      (deployment, some (deployment, .at found.revision))

def transact (request : DeployPluginRequest)
    (located : StoredInstallation) : DeployM (DeploymentRecord × Bool) := do
  assertAuthority me authority
  let installation ← ask fun s now => validateInstallation platform request located
    (s.installation located.installation.storageId) now
  checkBindings request installation request.capabilityBindings
  let existing ← getExisting call request
  let (deployment, write) := decideWrite platform request installation.version existing
  commit call request authority write
  pure (deployment, write.isSome)

/-- One attempt: what to return, or `none` when what was persisted is something else. -/
def attemptOnce (request : DeployPluginRequest)
    (located : StoredInstallation) : DeployM (Option DeploymentRecord) := do
  let (deployment, changed) ← transact platform me call authority request located
  assertAuthority me authority
  let persisted ← ask fun s _ => .ok (s.deployment request.deploymentKey)
  assertAuthority me authority
  match persisted with
  | none => fail (unconfigured "deployment persistence")
  | some persisted =>
    if persisted.generation == deployment.generation &&
        sameDesired platform.numberText persisted request then do
      if changed then do
        assertAuthority me authority
        -- `wake`
        ask fun _ _ => .ok ()
        assertAuthority me authority
      pure (some persisted)
    else pure none

def attempts (call : Nat) (authority : RuntimeAuthority) (request : DeployPluginRequest)
    (located : StoredInstallation) : Nat → DeployM DeploymentRecord
  | 0 => fail (deploymentError .DEPLOYMENT_CONCURRENT_UPDATE
      "Deployment could not be committed after concurrent updates" request)
  | n + 1 => do
    assertAuthority me authority
    let result ← Async.tryCatch (attemptOnce platform me call authority request located) fun e =>
      if conflictCode e = some .STATE_REVISION_CONFLICT then pure none else throw e
    match result with
    | some deployment => pure deployment
    | none => attempts call authority request located n

def deployPlugin : DeployM DeploymentRecord := do
  let (call, authority) ← start me
  let located ← ask fun s now => s.findInstallation request now
  check fun _ r => validateDeployment platform request located.installation r.now
  attempts platform me call authority request located 8

end RuntimeOperations

/-! ## Calls -/

/-- A call of `deployPlugin`, or something others do. -/
inductive DeployCall where
  | deployPlugin (request : DeployPluginRequest)
  | setAuthority (authority : Option RuntimeAuthority)
  | setMutations (accepting : Bool)
  | install (installations : List StoredInstallation)
  /-- A commit that writes other records of the store. -/
  | commitOther (fencing : Option (JsString × Nat))

namespace RuntimeOperations

variable (platform : OperationPlatform)

def commitOther (fencing : Option (JsString × Nat)) : DeployM Unit :=
  Async.update fun s _ =>
    match s.store.commit [] fencing true with
    | .error _ => s
    | .ok store => { s with store := store }

def setController (me : Nat) (f : OperationController → OperationController) : DeployM Unit :=
  Async.update fun s _ =>
    { s with controllers := Function.update s.controllers me (f (s.controllers me)) }

/-- The artifact service changes the installations. -/
def install (installations : List StoredInstallation) : DeployM Unit :=
  Async.update fun s _ => { s with installations := installations }

def call (me : Nat) : DeployCall → Proc DeployWorld DeployAnswer
  | .deployPlugin request => (deployPlugin platform me request).run
  | .setAuthority authority =>
    (setController me fun c => { c with authority := authority }).run
  | .setMutations accepting =>
    (setController me fun c => { c with acceptingMutations := accepting }).run
  | .install installations => (install installations).run
  | .commitOther fencing => (commitOther fencing).run

/-- Where runs start: any store, and no call made. -/
structure Start (s : DeployWorld) : Prop where
  wellFormed : s.store.WellFormed
  calls : s.calls = 0
  events : s.events = []

/-- All interleavings of the calls of any number of controllers. -/
def machine : Machine (World DeployWorld DeployAnswer) (Sched (Nat × DeployCall) DeployAnswer) :=
  World.machine Start fun c => call platform c.1 c.2

end RuntimeOperations

end TegoNext
