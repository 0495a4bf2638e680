/-
Where a component runs.

`planPlacement` takes the first executor, in a fixed order of preference, that the component
declares, the host supports and the grant admits; for the remote executor it also needs a worker
that has the artifact, runs one of the component's executors and lies inside the grant, which goes
back to the permission gate as a value.
-/
import TegoNext.CapabilityGraph
import TegoNext.Identity
import TegoNext.PermissionGate

set_option autoImplicit false

namespace TegoNext

open Text JsValue

/-- A digest text; the planner only compares and copies it. -/
abbrev ArtifactDigest : Type := JsString

/-! ## Permissions as values -/

def textValue (s : String) : JsValue := .string (js s)

def integerValue (n : Int) : JsValue := .number n

def textArray (texts : List JsString) : JsValue := .array (texts.map JsValue.string)

def ResourceCeilings.toValue (resources : ResourceCeilings) : JsValue :=
  .object [field "cpuMillis" (integerValue resources.cpuMillis),
    field "memoryBytes" (integerValue resources.memoryBytes),
    field "storageBytes" (integerValue resources.storageBytes)]

def labelsValue (labels : List (JsString × JsString)) : JsValue :=
  .object (labels.map fun label => (label.1, .string label.2))

def Permission.toValue : Permission → JsValue
  | .capability capabilities => .object [field "kind" (textValue "capability"),
      field "capabilities" (.array (capabilities.map fun entry =>
        .object [field "name" (.string entry.name), field "methods" (textArray entry.methods)]))]
  | .environment names => .object [field "kind" (textValue "environment"),
      field "names" (textArray names)]
  | .executor executors => .object [field "kind" (textValue "executor"),
      field "executors" (.array (executors.map fun executor => textValue executor.text))]
  | .filesystem roots => .object [field "kind" (textValue "filesystem"),
      field "roots" (.array (roots.map fun root =>
        .object [field "path" (.string root.path.text),
          field "access" (.array (root.access.map fun access => textValue access.text))]))]
  | .network hosts methods ports => .object [field "kind" (textValue "network"),
      field "hosts" (textArray hosts),
      field "methods" (.array (methods.map fun method => textValue method.text)),
      field "ports" (.array (ports.map integerValue))]
  | .secret names => .object [field "kind" (textValue "secret"), field "names" (textArray names)]
  | .worker labels resources => .object [field "kind" (textValue "worker"),
      field "labels" (labelsValue labels), field "resources" resources.toValue]

def grantValue (granted : List Permission) : JsValue := .array (granted.map Permission.toValue)

/-! ## Placement -/

structure PlacementWorker where
  workerId : JsString
  labels : List (JsString × JsString)
  resources : ResourceCeilings
  executors : List ExecutorKind
  preparedArtifacts : List ArtifactDigest

structure ComponentPlacement where
  executor : ExecutorKind
  workerId : Option JsString
  deriving DecidableEq

inductive PlacementDiagnosticCode where
  | DEPLOYMENT_EXECUTOR_UNAVAILABLE
  | PERMISSION_GRANT_EXCEEDS_REQUEST
  deriving DecidableEq

structure PlacementDiagnostic where
  code : PlacementDiagnosticCode
  message : String
  componentId : PortableId
  deriving DecidableEq

/-- The planner reads these fields of a `PluginComponent`. -/
structure PluginComponent where
  componentId : PortableId
  executors : List ExecutorKind

structure PlacementInput where
  artifactDigest : ArtifactDigest
  component : PluginComponent
  grantedPermissions : List Permission
  supportedExecutors : List ExecutorKind
  workers : Option (List PlacementWorker)

structure PlacementDecision where
  ok : Bool
  diagnostics : List PlacementDiagnostic
  placement : Option ComponentPlacement
  deriving DecidableEq

def executorPreference : List ExecutorKind := [.process, .thread, .remote]

section Gate

variable (domainToASCII : JsString → JsString)

variable (input : PlacementInput)

def executorAllowed (executor : ExecutorKind) : Bool :=
  (gatePermission domainToASCII (grantValue input.grantedPermissions)
    (.object [field "kind" (textValue "executor"),
      field "executor" (textValue executor.text)])).allowed

def workerAllowed (worker : PlacementWorker) : Bool :=
  (gatePermission domainToASCII (grantValue input.grantedPermissions)
    (.object [field "kind" (textValue "worker"), field "labels" (labelsValue worker.labels),
      field "resources" worker.resources.toValue])).allowed

/-- The loop over the workers: the first that has the artifact, runs one of the
component's executors and is admitted. -/
def findWorker : Option PlacementWorker :=
  (sortBy (fun left right => compareText left.workerId right.workerId)
    (input.workers.getD [])).find? fun worker =>
      worker.preparedArtifacts.contains input.artifactDigest &&
        worker.executors.any (fun executor => input.component.executors.contains executor) &&
        workerAllowed domainToASCII input worker

/-- The loop over the executors, with the flag `permissionDenied`. -/
def placementLoop (input : PlacementInput) : List ExecutorKind → Bool → PlacementDecision
  | [], permissionDenied =>
    { ok := false
      diagnostics :=
        [{ code := if permissionDenied then .PERMISSION_GRANT_EXCEEDS_REQUEST
            else .DEPLOYMENT_EXECUTOR_UNAVAILABLE
           message :=
            if permissionDenied then
              "No component executor is inside the granted permission envelope"
            else "No supported executor placement is available for the component"
           componentId := input.component.componentId }]
      placement := none }
  | executor :: rest, permissionDenied =>
    if !input.component.executors.contains executor ||
        !input.supportedExecutors.contains executor then
      placementLoop input rest permissionDenied
    else if !executorAllowed domainToASCII input executor then placementLoop input rest true
    else if executor ≠ .remote then
      { ok := true, diagnostics := [], placement := some ⟨executor, none⟩ }
    else
      match findWorker domainToASCII input with
      | some worker =>
        { ok := true, diagnostics := [], placement := some ⟨executor, some worker.workerId⟩ }
      | none => placementLoop input rest permissionDenied

def planPlacement : PlacementDecision := placementLoop domainToASCII input executorPreference false

theorem placementLoop_cases (executors : List ExecutorKind) (denied : Bool) :
    (∃ placement, placementLoop domainToASCII input executors denied =
        { ok := true, diagnostics := [], placement := some placement }) ∨
      ∃ d, placementLoop domainToASCII input executors denied =
        { ok := false, diagnostics := [d], placement := none } := by
  induction executors generalizing denied with
  | nil => exact .inr ⟨_, rfl⟩
  | cons executor rest ih =>
    unfold placementLoop
    split
    · exact ih denied
    split
    · exact ih true
    split
    · exact .inl ⟨_, rfl⟩
    split
    · exact .inl ⟨_, rfl⟩
    · exact ih denied

theorem planPlacement_cases :
    (∃ placement, planPlacement domainToASCII input =
        { ok := true, diagnostics := [], placement := some placement }) ∨
      ∃ d, planPlacement domainToASCII input =
        { ok := false, diagnostics := [d], placement := none } :=
  placementLoop_cases domainToASCII input executorPreference false

end Gate

end TegoNext
