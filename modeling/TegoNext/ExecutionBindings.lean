/-
Execution bindings: the configuration, the grants and the capabilities a component instance runs
with, under a fingerprint that names the instance.

`createExecutionBinding` puts the content into a normal form: lists of texts in the order of their
units, lists of entries in the order the platform's `localeCompare` gives their keys. The
fingerprint is the digest of the canonical text of identity and content. Values are typed: of the
schemas the checks on texts and numbers are left.
-/
import TegoNext.CanonicalValue
import TegoNext.StableSorting

set_option autoImplicit false

namespace TegoNext

namespace ExecutionBindings

open Text CanonicalJson

/-! ## Permissions, capabilities and bindings -/

structure CapabilityPermissionEntry where
  name : JsString
  methods : List JsString
  deriving DecidableEq

structure FilesystemRootPermission where
  path : JsString
  access : List FilesystemAccess
  deriving DecidableEq

structure WorkerResourceCeilings where
  cpuMillis : Rat
  memoryBytes : Rat
  storageBytes : Rat
  deriving DecidableEq

inductive Permission where
  | capability (capabilities : List CapabilityPermissionEntry)
  | executor (executors : List ExecutorKind)
  | network (hosts : List JsString) (ports : List Rat) (methods : List HttpMethod)
  | filesystem (roots : List FilesystemRootPermission)
  | secret (names : List JsString)
  | environment (names : List JsString)
  | worker (labels : List (JsString × JsString)) (resources : WorkerResourceCeilings)
  deriving DecidableEq

structure CapabilityIdentity where
  name : JsString
  protocolVersion : JsString
  deriving DecidableEq

structure CapabilityDefinition where
  identity : CapabilityIdentity
  methods : List JsString
  requestSchema : JsonValue
  responseSchema : JsonValue

structure PluginDeploymentIdentity where
  applicationId : JsString
  pluginId : JsString
  deriving DecidableEq

structure CapabilityBinding where
  capability : CapabilityIdentity
  providerDeployment : PluginDeploymentIdentity
  deriving DecidableEq

structure ExecutionBindingContent where
  configuration : JsonValue
  permissionGrants : List Permission
  capabilityDefinitions : List CapabilityDefinition
  capabilityBindings : List CapabilityBinding

structure ExecutionBinding extends ExecutionBindingContent where
  fingerprint : JsString

structure TargetExecutor where
  id : JsString
  type : ExecutorKind
  workerId : Option JsString
  deriving DecidableEq

structure TaskExecutionTarget where
  instanceId : JsString
  deploymentGeneration : JsString
  artifactDigest : JsString
  executor : TargetExecutor
  deriving DecidableEq

structure ExecutionBindingIdentity where
  applicationId : JsString
  pluginId : JsString
  componentId : JsString
  target : TaskExecutionTarget
  deriving DecidableEq

/-! ## Their JSON values -/

def textArray (values : List JsString) : JsonValue := .array (values.map .string)

def CapabilityPermissionEntry.toValue (entry : CapabilityPermissionEntry) : JsonValue :=
  .object [textMember "name" entry.name, (js "methods", textArray entry.methods)]

def FilesystemRootPermission.toValue (root : FilesystemRootPermission) : JsonValue :=
  .object [textMember "path" root.path,
    (js "access", textArray (root.access.map fun access => js access.text))]

def WorkerResourceCeilings.toValue (resources : WorkerResourceCeilings) : JsonValue :=
  .object [(js "cpuMillis", .number resources.cpuMillis),
    (js "memoryBytes", .number resources.memoryBytes),
    (js "storageBytes", .number resources.storageBytes)]

def Permission.toValue : Permission → JsonValue
  | .capability capabilities =>
    .object [textMember "kind" (js "capability"),
      (js "capabilities", .array (capabilities.map CapabilityPermissionEntry.toValue))]
  | .executor executors =>
    .object [textMember "kind" (js "executor"),
      (js "executors", textArray (executors.map fun executor => js executor.text))]
  | .network hosts ports methods =>
    .object [textMember "kind" (js "network"), (js "hosts", textArray hosts),
      (js "ports", .array (ports.map .number)),
      (js "methods", textArray (methods.map fun method => js method.text))]
  | .filesystem roots =>
    .object [textMember "kind" (js "filesystem"),
      (js "roots", .array (roots.map FilesystemRootPermission.toValue))]
  | .secret names => .object [textMember "kind" (js "secret"), (js "names", textArray names)]
  | .environment names =>
    .object [textMember "kind" (js "environment"), (js "names", textArray names)]
  | .worker labels resources =>
    .object [textMember "kind" (js "worker"),
      (js "labels", .object (labels.map fun label => (label.1, .string label.2))),
      (js "resources", resources.toValue)]

def CapabilityIdentity.toValue (identity : CapabilityIdentity) : JsonValue :=
  .object [textMember "name" identity.name, textMember "protocolVersion" identity.protocolVersion]

def CapabilityDefinition.toValue (definition : CapabilityDefinition) : JsonValue :=
  .object [(js "identity", definition.identity.toValue),
    (js "methods", textArray definition.methods), (js "requestSchema", definition.requestSchema),
    (js "responseSchema", definition.responseSchema)]

def PluginDeploymentIdentity.toValue (deployment : PluginDeploymentIdentity) : JsonValue :=
  .object [textMember "applicationId" deployment.applicationId,
    textMember "pluginId" deployment.pluginId]

def CapabilityBinding.toValue (binding : CapabilityBinding) : JsonValue :=
  .object [(js "capability", binding.capability.toValue),
    (js "providerDeployment", binding.providerDeployment.toValue)]

def ExecutionBindingContent.toValue (content : ExecutionBindingContent) : JsonValue :=
  .object [(js "configuration", content.configuration),
    (js "permissionGrants", .array (content.permissionGrants.map Permission.toValue)),
    (js "capabilityDefinitions",
      .array (content.capabilityDefinitions.map CapabilityDefinition.toValue)),
    (js "capabilityBindings", .array (content.capabilityBindings.map CapabilityBinding.toValue))]

def TaskExecutionTarget.toValue (target : TaskExecutionTarget) : JsonValue :=
  .object [textMember "instanceId" target.instanceId,
    textMember "deploymentGeneration" target.deploymentGeneration,
    textMember "artifactDigest" target.artifactDigest,
    (js "executor", .object ([textMember "id" target.executor.id,
        textMember "type" (js target.executor.type.text)] ++
      (target.executor.workerId.map fun id => textMember "workerId" id).toList))]

def ExecutionBindingIdentity.toValue (identity : ExecutionBindingIdentity) : JsonValue :=
  .object [textMember "applicationId" identity.applicationId,
    textMember "pluginId" identity.pluginId, textMember "componentId" identity.componentId,
    (js "target", identity.target.toValue)]

/-! ## Diagnostics -/

inductive BindingCode where
  | CAPABILITY_BINDING_INVALID
  | CAPABILITY_DEFINITION_INVALID
  | PERMISSION_ENVELOPE_INVALID
  | PROTOCOL_EXECUTION_BINDING_INVALID
  | PROTOCOL_EXECUTION_TARGET_INVALID
  | PROTOCOL_IDENTITY_INVALID
  deriving DecidableEq

/-- The details of a diagnostic. Those of a failed schema check are the checker's. -/
inductive BindingDetails where
  | none
  | issues
  | identity (name : String) (value : JsString)
  | mismatch (identity : ExecutionBindingIdentity)
  deriving DecidableEq

/-- A `DiagnosticError`. -/
structure BindingThrown where
  code : BindingCode
  message : String
  source : DiagnosticSource
  details : BindingDetails
  deriving DecidableEq

def invalidIdentity (name : String) (value : JsString) : BindingThrown where
  code := .PROTOCOL_IDENTITY_INVALID
  message := name ++ " must be a non-empty portable identifier"
  source := ⟨"protocol", js name⟩
  details := .identity name value

def targetError (message : String) : BindingThrown where
  code := .PROTOCOL_EXECUTION_TARGET_INVALID
  message := message
  source := ⟨"protocol", js "task-execution-target"⟩
  details := .none

def parseWithValidator {α : Type} (validate : α → Bool) (input : α) (code : BindingCode)
    (message kind id : String) : Except BindingThrown α :=
  if validate input then .ok input else .error ⟨code, message, ⟨kind, js id⟩, .issues⟩

/-! ## Schemas -/

/-- `SEMVER_PATTERN`. -/
def isSemver (s : JsString) : Bool :=
  let tag (text : JsString) : Bool :=
    !text.isEmpty && text.all fun u => isAlphanumeric u || u == 46 || u == 45
  let numbers := (s.takeWhile fun u => isDigit u || u == 46).splitOn 46
  let build : JsString → Bool
    | [] => true
    | u :: rest => u == 43 && tag rest
  numbers.length == 3 && numbers.all isNumeric &&
    match s.dropWhile fun u => isDigit u || u == 46 with
    | 45 :: rest => tag (rest.takeWhile (· != 43)) && build (rest.dropWhile (· != 43))
    | rest => build rest

/-- `LOGICAL_ROOT_PATTERN`. -/
def isLogicalRoot : JsString → Bool
  | 47 :: rest =>
    rest.isEmpty || (rest.splitOn 47).all fun segment =>
      !segment.isEmpty && segment.all isNameUnit && segment != js "." && segment != js ".."
  | _ => false

/-- `type: "integer"` between bounds. -/
def isIntegerBetween (minimum maximum : Rat) (q : Rat) : Bool :=
  q.den == 1 && decide (minimum ≤ q) && decide (q ≤ maximum)

def isCeiling (q : Rat) : Bool := isIntegerBetween 0 maxSafeInteger q

/-- `permissionSchema`. -/
def validatePermission : Permission → Bool
  | .capability capabilities =>
    capabilities.all fun entry => isPortableName entry.name && entry.methods.all isPortableName
  | .executor _ => true
  | .network hosts ports _ =>
    hosts.all (fun host => !host.isEmpty) && ports.all (isIntegerBetween 1 65535)
  | .filesystem roots => roots.all fun root => isLogicalRoot root.path
  | .secret names => names.all isPortableName
  | .environment names => names.all isEnvironmentName
  | .worker labels resources =>
    labels.all (fun label => isPortableName label.1 && isPortableName label.2) &&
      isCeiling resources.cpuMillis && isCeiling resources.memoryBytes &&
        isCeiling resources.storageBytes

/-- `permissionSetSchema`. -/
def validatePermissionSet (permissions : List Permission) : Bool :=
  permissions.all validatePermission

/-- `capabilityIdentitySchema`. -/
def validateCapabilityIdentity (identity : CapabilityIdentity) : Bool :=
  isPortableName identity.name && isSemver identity.protocolVersion

def isJsonSchema : JsonValue → Bool
  | .bool _ => true
  | .object _ => true
  | _ => false

def validateCapabilityDefinition (definition : CapabilityDefinition) : Bool :=
  validateCapabilityIdentity definition.identity && !definition.methods.isEmpty &&
    decide definition.methods.Nodup && definition.methods.all isPortableName &&
      isJsonSchema definition.requestSchema && isJsonSchema definition.responseSchema

/-- `capabilityBindingSchema`. -/
def validateCapabilityBinding (binding : CapabilityBinding) : Bool :=
  validateCapabilityIdentity binding.capability &&
    isPortableName binding.providerDeployment.applicationId &&
      isPortableName binding.providerDeployment.pluginId

/-- `[0-9a-f]{64}`. -/
def isSha256Hex (s : JsString) : Bool :=
  s.length == 64 && s.all fun u => isDigit u || (97 ≤ u && u ≤ 102)

/-- `executionBindingSchema`. -/
def validateExecutionBinding (binding : ExecutionBinding) : Bool :=
  validatePermissionSet binding.permissionGrants &&
    binding.capabilityDefinitions.all validateCapabilityDefinition &&
      binding.capabilityBindings.all validateCapabilityBinding && isSha256Hex binding.fingerprint

/-! ## Parsers -/

def parsePermissionSet (input : List Permission) : Except BindingThrown (List Permission) :=
  parseWithValidator validatePermissionSet input .PERMISSION_ENVELOPE_INVALID
    "Permission envelope is invalid" "deployment" "permissions"

/-- `canonicalMethods`: every method is before the next. -/
def canonicalMethods : List JsString → Bool
  | [] => true
  | [_] => true
  | previous :: current :: methods =>
    compareText previous current == .lt && canonicalMethods (current :: methods)

def parseCapabilityDefinition (input : CapabilityDefinition) :
    Except BindingThrown CapabilityDefinition := do
  let definition ← parseWithValidator validateCapabilityDefinition input
    .CAPABILITY_DEFINITION_INVALID "Capability definition is invalid" "capability" "definition"
  if !canonicalMethods definition.methods then
    throw ⟨.CAPABILITY_DEFINITION_INVALID,
      "Capability definition methods must be canonical, non-empty, and unique",
      ⟨"capability", js "definition"⟩, .none⟩
  pure definition

def parseCapabilityBinding (input : CapabilityBinding) : Except BindingThrown CapabilityBinding :=
  parseWithValidator validateCapabilityBinding input .CAPABILITY_BINDING_INVALID
    "Capability binding is invalid" "capability" "binding"

def parseExecutionBinding (input : ExecutionBinding) : Except BindingThrown ExecutionBinding :=
  parseWithValidator validateExecutionBinding input .PROTOCOL_EXECUTION_BINDING_INVALID
    "Execution binding is invalid" "executor" "execution-binding"

def parseIdentity (value : JsString) (name : String) : Except BindingThrown JsString :=
  if isPortableName value then .ok value else .error (invalidIdentity name value)

/-- `EXECUTOR_ID_PATTERN`. -/
def isExecutorId : JsString → Bool
  | [] => false
  | u :: rest =>
    isAlphanumeric u && rest.length ≤ 127 &&
      rest.all (fun v => isNameUnit v || v == 58 || v == 47) &&
        rest.getLast?.all isNameUnit &&
          ((u :: rest).splitOn 47).all fun segment => segment != js "." && segment != js ".."

def parseExecutorId (value : JsString) : Except BindingThrown JsString :=
  if isExecutorId value then .ok value else .error (invalidIdentity "ExecutorId" value)

/-- `SHA256_PATTERN`. -/
def parseArtifactDigest (value : JsString) : Except BindingThrown JsString :=
  if startsWith value (js "sha256:") && isSha256Hex (value.drop 7) then .ok value
  else .error (invalidIdentity "ArtifactDigest" value)

def UINT64_MAX : JsString := js "18446744073709551615"

def parseGeneration (value : JsString) : Except BindingThrown JsString :=
  if !isNumeric value then .error (invalidIdentity "Generation" value)
  else if value.length > UINT64_MAX.length ||
      (value.length == UINT64_MAX.length && compareText value UINT64_MAX == .gt) then
    .error (invalidIdentity "Generation" value)
  else .ok value

/-- `parseTaskExecutionTarget`, of values with the right fields. -/
def parseTaskExecutionTarget (input : TaskExecutionTarget) :
    Except BindingThrown TaskExecutionTarget := do
  let executor := input.executor
  if executor.workerId.isSome != (executor.type == .remote) then
    throw (targetError "Task execution target worker binding is invalid")
  let id ← parseExecutorId executor.id
  let workerId ← executor.workerId.mapM fun id => parseIdentity id "WorkerId"
  let instanceId ← parseIdentity input.instanceId "ComponentInstanceId"
  let deploymentGeneration ← parseGeneration input.deploymentGeneration
  let artifactDigest ← parseArtifactDigest input.artifactDigest
  pure ⟨instanceId, deploymentGeneration, artifactDigest, ⟨id, executor.type, workerId⟩⟩

/-! ## The normal form -/

structure BindingPlatform where
  numberText : NumberText
  sha256 : Sha256
  localeCompare : JsString → JsString → Ordering

/-- `sortedStrings`: the texts of `values` in the order of their units. -/
def sortedStrings {α : Type} (text : α → JsString) (values : List α) : List α :=
  sortBy (fun left right => compareText (text left) (text right)) values

section Normalize

variable (platform : BindingPlatform)

def canonicalJson (value : JsonValue) : JsString := canonical platform.numberText value

def normalizedPermission : Permission → Permission
  | .capability capabilities =>
    .capability (sortBy (fun left right => platform.localeCompare left.name right.name)
      (capabilities.map fun entry => ⟨entry.name, sortedStrings id entry.methods⟩))
  | .environment names => .environment (sortedStrings id names)
  | .secret names => .secret (sortedStrings id names)
  | .executor executors => .executor (sortedStrings (fun executor => js executor.text) executors)
  | .filesystem roots =>
    .filesystem (sortBy (fun left right => platform.localeCompare left.path right.path)
      (roots.map fun root =>
        ⟨root.path, sortedStrings (fun access => js access.text) root.access⟩))
  | .network hosts ports methods =>
    .network (sortedStrings id hosts) (sortBy compare ports)
      (sortedStrings (fun method => js method.text) methods)
  | .worker labels resources => .worker labels resources

def comparePermissions (left right : Permission) : Ordering :=
  platform.localeCompare (canonicalJson platform left.toValue)
    (canonicalJson platform right.toValue)

def compareCapabilities (left right : CapabilityIdentity) : Ordering :=
  (platform.localeCompare left.name right.name).then
    (platform.localeCompare left.protocolVersion right.protocolVersion)

def compareDefinitions (left right : CapabilityDefinition) : Ordering :=
  compareCapabilities platform left.identity right.identity

def compareBindings (left right : CapabilityBinding) : Ordering :=
  (compareCapabilities platform left.capability right.capability).then
    ((platform.localeCompare left.providerDeployment.applicationId
        right.providerDeployment.applicationId).then
      (platform.localeCompare left.providerDeployment.pluginId right.providerDeployment.pluginId))

def normalizeExecutionBindingContent (input : ExecutionBindingContent) :
    Except BindingThrown ExecutionBindingContent := do
  let permissionGrants ← parsePermissionSet input.permissionGrants
  let capabilityDefinitions ← input.capabilityDefinitions.mapM parseCapabilityDefinition
  let capabilityBindings ← input.capabilityBindings.mapM parseCapabilityBinding
  pure {
    configuration := input.configuration
    permissionGrants := sortBy (comparePermissions platform)
      (permissionGrants.map (normalizedPermission platform))
    capabilityDefinitions := sortBy (compareDefinitions platform) capabilityDefinitions
    capabilityBindings := sortBy (compareBindings platform) capabilityBindings }

/-! ## Creating and checking bindings -/

def bindingText (identity : ExecutionBindingIdentity) (binding : ExecutionBindingContent) :
    JsString :=
  canonical platform.numberText (.object [textMember "domain" (js "tego.execution-binding/1.0"),
    (js "identity", identity.toValue), (js "binding", binding.toValue)])

def executionBindingFingerprint (identity : ExecutionBindingIdentity)
    (binding : ExecutionBindingContent) : JsString :=
  (platform.sha256 (bindingText platform identity binding)).toList.map hexDigit

def createExecutionBinding (identityInput : ExecutionBindingIdentity)
    (contentInput : ExecutionBindingContent) : Except BindingThrown ExecutionBinding := do
  let applicationId ← parseIdentity identityInput.applicationId "ApplicationId"
  let pluginId ← parseIdentity identityInput.pluginId "PluginId"
  let componentId ← parseIdentity identityInput.componentId "ComponentId"
  let target ← parseTaskExecutionTarget identityInput.target
  let candidate ← parseExecutionBinding ⟨contentInput, List.replicate 64 48⟩
  let content ← normalizeExecutionBindingContent platform candidate.toExecutionBindingContent
  pure ⟨content,
    executionBindingFingerprint platform ⟨applicationId, pluginId, componentId, target⟩ content⟩

def assertExecutionBindingMatches (identity : ExecutionBindingIdentity) (input : ExecutionBinding) :
    Except BindingThrown ExecutionBinding := do
  let binding ← parseExecutionBinding input
  let normalized ← normalizeExecutionBindingContent platform binding.toExecutionBindingContent
  let expected := executionBindingFingerprint platform identity normalized
  if binding.fingerprint ≠ expected then
    throw ⟨.PROTOCOL_EXECUTION_BINDING_INVALID,
      "Execution binding fingerprint does not match its immutable target identity",
      ⟨"executor", js "execution-binding"⟩, .mismatch identity⟩
  pure binding

end Normalize

end ExecutionBindings

end TegoNext
