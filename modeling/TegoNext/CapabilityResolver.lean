/-
The capability resolver.

Which provider a requirement is bound to depends, in this order, on the explicit binding of the
consumer, on the persisted one, and on which compatible providers are ready. What one requirement
contributes does not depend on the others, so the loop over all of them is a function of one
requirement, `resolveRequirement`, and a fold. The input is typed: its identities are portable.
-/
import TegoNext.Identity
import TegoNext.VersionRange
import TegoNext.CapabilityGraph

set_option autoImplicit false

namespace TegoNext

open Text

/-! ## Input and result -/

abbrev CapabilityName : Type := PortableId

structure CapabilityResolutionProvision where
  name : CapabilityName
  protocolVersion : JsString
  deriving DecidableEq

inductive ProviderLossAction where
  | degrade
  | fail
  | suspend
  deriving DecidableEq

/-- `PluginCapabilityRequirement`; the last two fields may be left out. -/
structure PluginCapabilityRequirement where
  name : CapabilityName
  protocolRange : JsString
  optional : Option Bool
  lossPolicy : Option ProviderLossAction

structure NormalizedCapabilityRequirement where
  name : CapabilityName
  protocolRange : JsString
  optional : Bool
  lossPolicy : ProviderLossAction
  deriving DecidableEq

structure CapabilityResolutionDeployment where
  identity : PluginDeploymentIdentity
  activated : Bool
  ready : Bool
  provides : List CapabilityResolutionProvision
  requires : List PluginCapabilityRequirement
  bindings : List (CapabilityName × PluginDeploymentIdentity)

structure PreviousCapabilityBinding where
  consumer : PluginDeploymentIdentity
  capability : CapabilityName
  provider : PluginDeploymentIdentity

structure CapabilityResolutionInput where
  deployments : List CapabilityResolutionDeployment
  previousBindings : List PreviousCapabilityBinding

inductive CapabilityResolutionDiagnosticCode where
  | CAPABILITY_AMBIGUOUS
  | CAPABILITY_BINDING_UNKNOWN
  | CAPABILITY_DUPLICATE_DEPLOYMENT
  | CAPABILITY_DUPLICATE_PROVIDER
  | CAPABILITY_DUPLICATE_PREVIOUS_BINDING
  | CAPABILITY_DUPLICATE_REQUIREMENT
  | CAPABILITY_EXPLICIT_PROVIDER_INCOMPATIBLE
  | CAPABILITY_EXPLICIT_PROVIDER_MISSING
  | CAPABILITY_EXPLICIT_PROVIDER_UNREADY
  | CAPABILITY_PROTOCOL_RANGE_INVALID
  | CAPABILITY_PROTOCOL_VERSION_INVALID
  | CAPABILITY_REQUIRED_CYCLE
  | CAPABILITY_REQUIRED_MISSING
  | CAPABILITY_REQUIRED_UNAVAILABLE
  deriving DecidableEq

def CapabilityResolutionDiagnosticCode.text : CapabilityResolutionDiagnosticCode → String
  | CAPABILITY_AMBIGUOUS => "CAPABILITY_AMBIGUOUS"
  | CAPABILITY_BINDING_UNKNOWN => "CAPABILITY_BINDING_UNKNOWN"
  | CAPABILITY_DUPLICATE_DEPLOYMENT => "CAPABILITY_DUPLICATE_DEPLOYMENT"
  | CAPABILITY_DUPLICATE_PROVIDER => "CAPABILITY_DUPLICATE_PROVIDER"
  | CAPABILITY_DUPLICATE_PREVIOUS_BINDING => "CAPABILITY_DUPLICATE_PREVIOUS_BINDING"
  | CAPABILITY_DUPLICATE_REQUIREMENT => "CAPABILITY_DUPLICATE_REQUIREMENT"
  | CAPABILITY_EXPLICIT_PROVIDER_INCOMPATIBLE => "CAPABILITY_EXPLICIT_PROVIDER_INCOMPATIBLE"
  | CAPABILITY_EXPLICIT_PROVIDER_MISSING => "CAPABILITY_EXPLICIT_PROVIDER_MISSING"
  | CAPABILITY_EXPLICIT_PROVIDER_UNREADY => "CAPABILITY_EXPLICIT_PROVIDER_UNREADY"
  | CAPABILITY_PROTOCOL_RANGE_INVALID => "CAPABILITY_PROTOCOL_RANGE_INVALID"
  | CAPABILITY_PROTOCOL_VERSION_INVALID => "CAPABILITY_PROTOCOL_VERSION_INVALID"
  | CAPABILITY_REQUIRED_CYCLE => "CAPABILITY_REQUIRED_CYCLE"
  | CAPABILITY_REQUIRED_MISSING => "CAPABILITY_REQUIRED_MISSING"
  | CAPABILITY_REQUIRED_UNAVAILABLE => "CAPABILITY_REQUIRED_UNAVAILABLE"

structure CapabilityResolutionDiagnostic where
  code : CapabilityResolutionDiagnosticCode
  message : String
  consumer : Option PluginDeploymentIdentity
  capability : Option CapabilityName
  candidates : List PluginDeploymentIdentity

structure ResolvedCapabilityProvider where
  deployment : PluginDeploymentIdentity
  capability : CapabilityResolutionProvision
  deriving DecidableEq

structure ResolvedCapabilityBinding where
  consumer : PluginDeploymentIdentity
  requirement : NormalizedCapabilityRequirement
  provider : Option ResolvedCapabilityProvider
  deriving DecidableEq

structure ProviderLossDecision where
  action : ProviderLossAction
  capability : CapabilityName
  consumer : PluginDeploymentIdentity
  provider : PluginDeploymentIdentity
  deriving DecidableEq

/-- Bindings and order are there exactly when the resolution succeeds. -/
structure ResolutionResult where
  ok : Bool
  diagnostics : List CapabilityResolutionDiagnostic
  providerLossActions : List ProviderLossDecision
  bindings : Option (List ResolvedCapabilityBinding)
  order : Option (List PluginDeploymentIdentity)

/-! ## Diagnostics of the input -/

def diagnostic (code : CapabilityResolutionDiagnosticCode) (message : String)
    (consumer : Option PluginDeploymentIdentity) (capability : Option CapabilityName)
    (candidates : List PluginDeploymentIdentity) : CapabilityResolutionDiagnostic where
  code := code
  message := message
  consumer := consumer
  capability := capability
  candidates := sortBy compareIdentity candidates

def compareDiagnostic (left right : CapabilityResolutionDiagnostic) : Ordering :=
  let consumerKey (d : CapabilityResolutionDiagnostic) : JsString :=
    (d.consumer.map identityKey).getD []
  let capabilityText (d : CapabilityResolutionDiagnostic) : JsString :=
    (d.capability.map PortableId.text).getD []
  (compareText (js left.code.text) (js right.code.text)).then
    ((compareText (consumerKey left) (consumerKey right)).then
      (compareText (capabilityText left) (capabilityText right)))

def normalizeRequirement (requirement : PluginCapabilityRequirement) :
    NormalizedCapabilityRequirement where
  name := requirement.name
  protocolRange := requirement.protocolRange
  optional := requirement.optional.getD false
  lossPolicy := requirement.lossPolicy.getD .fail

/-- The diagnostics of the provisions of one deployment; `seen` are the keys of
the ones before. -/
def providerDiagnostics (identity : PluginDeploymentIdentity) (seen : List JsString) :
    List CapabilityResolutionProvision → List CapabilityResolutionDiagnostic
  | [] => []
  | provider :: rest =>
    let providerKey := provider.name.text ++ js "@" ++ provider.protocolVersion
    (if seen.contains providerKey then
      [diagnostic .CAPABILITY_DUPLICATE_PROVIDER
        "Deployment contains a duplicate capability provider" (some identity)
        (some provider.name) []]
    else []) ++
    (if isValidVersion provider.protocolVersion then []
    else
      [diagnostic .CAPABILITY_PROTOCOL_VERSION_INVALID
        "Capability provider protocol version is invalid" (some identity)
        (some provider.name) []]) ++
    providerDiagnostics identity (providerKey :: seen) rest

/-- The diagnostics of the requirements of one deployment; `seen` are the names
of the ones before. -/
def requirementDiagnostics (identity : PluginDeploymentIdentity) (seen : List CapabilityName) :
    List PluginCapabilityRequirement → List CapabilityResolutionDiagnostic
  | [] => []
  | requirement :: rest =>
    (if seen.contains requirement.name then
      [diagnostic .CAPABILITY_DUPLICATE_REQUIREMENT
        "Deployment contains a duplicate capability requirement" (some identity)
        (some requirement.name) []]
    else []) ++
    (if isValidVersionRange requirement.protocolRange then []
    else
      [diagnostic .CAPABILITY_PROTOCOL_RANGE_INVALID
        "Capability requirement protocol range is invalid" (some identity)
        (some requirement.name) []]) ++
    requirementDiagnostics identity (requirement.name :: seen) rest

def bindingDiagnostics (deployment : CapabilityResolutionDeployment) :
    List CapabilityResolutionDiagnostic :=
  (deployment.bindings.filter fun binding =>
    !deployment.requires.any fun requirement => requirement.name == binding.1).map fun binding =>
      diagnostic .CAPABILITY_BINDING_UNKNOWN
        "Explicit capability binding has no matching requirement" (some deployment.identity)
        (some binding.1) []

/-- The diagnostics of the deployments; `seen` are the keys of the ones before. -/
def deploymentDiagnostics (seen : List JsString) :
    List CapabilityResolutionDeployment → List CapabilityResolutionDiagnostic
  | [] => []
  | deployment :: rest =>
    let key := identityKey deployment.identity
    (if seen.contains key then
      [diagnostic .CAPABILITY_DUPLICATE_DEPLOYMENT
        "Capability resolution input contains a duplicate deployment" (some deployment.identity)
        none []]
    else []) ++
    (providerDiagnostics deployment.identity [] deployment.provides ++
      requirementDiagnostics deployment.identity [] deployment.requires ++
      bindingDiagnostics deployment) ++
    deploymentDiagnostics (key :: seen) rest

def requirementKey (consumer : PluginDeploymentIdentity) (capability : CapabilityName) : JsString :=
  identityKey consumer ++ keySeparator :: capability.text

def duplicatePrevious (binding : PreviousCapabilityBinding) : CapabilityResolutionDiagnostic :=
  diagnostic .CAPABILITY_DUPLICATE_PREVIOUS_BINDING
    "Capability resolution input contains a duplicate previous binding" (some binding.consumer)
    (some binding.capability) [binding.provider]

/-- The diagnostics of the previous bindings; `seen` are the keys of the ones
before. -/
def previousDiagnostics (seen : List JsString) :
    List PreviousCapabilityBinding → List CapabilityResolutionDiagnostic
  | [] => []
  | binding :: rest =>
    let key := requirementKey binding.consumer binding.capability
    (if seen.contains key then [duplicatePrevious binding] else []) ++
      previousDiagnostics (key :: seen) rest

variable (deployments : List CapabilityResolutionDeployment)
  (previousBindings : List PreviousCapabilityBinding)

def sortDeployments : List CapabilityResolutionDeployment :=
  sortBy (fun left right => compareIdentity left.identity right.identity) deployments

def inputDiagnostics : List CapabilityResolutionDiagnostic :=
  sortBy compareDiagnostic
    (deploymentDiagnostics [] (sortDeployments deployments) ++
      previousDiagnostics [] previousBindings)

/-! ## Lookups -/

/-- `byIdentity.get(identityKey(identity))`. -/
def byIdentity (identity : PluginDeploymentIdentity) : Option CapabilityResolutionDeployment :=
  deployments.find? fun deployment => identityKey deployment.identity == identityKey identity

/-- `previousByRequirement.get(...)`. -/
def previousByRequirement (consumer : PluginDeploymentIdentity) (capability : CapabilityName) :
    Option PreviousCapabilityBinding :=
  previousBindings.find? fun binding =>
    requirementKey binding.consumer binding.capability == requirementKey consumer capability

def ownBinding (bindings : List (CapabilityName × PluginDeploymentIdentity))
    (name : CapabilityName) : Option PluginDeploymentIdentity :=
  bindings.lookup name

def compatibleProvisions (deployment : CapabilityResolutionDeployment)
    (requirement : NormalizedCapabilityRequirement) : List CapabilityResolutionProvision :=
  sortBy (fun left right => compareText left.protocolVersion right.protocolVersion)
    (deployment.provides.filter fun provided => provided.name == requirement.name &&
      satisfiesVersionRange provided.protocolVersion requirement.protocolRange)

def providerLossDecision (previous : PreviousCapabilityBinding) : Option ProviderLossDecision := do
  let consumer ← byIdentity deployments previous.consumer
  let requirementSource ← consumer.requires.find? fun candidate =>
    candidate.name == previous.capability
  if !consumer.activated then none
  if (ownBinding consumer.bindings previous.capability).any fun explicit =>
      identityKey explicit != identityKey previous.provider then none
  let requirement := normalizeRequirement requirementSource
  let available := (byIdentity deployments previous.provider).any fun provider =>
    provider.ready && !(compatibleProvisions provider requirement).isEmpty
  if available then none
  else some ⟨requirement.lossPolicy, requirement.name, consumer.identity, previous.provider⟩

def ProviderLossAction.text : ProviderLossAction → String
  | degrade => "degrade"
  | fail => "fail"
  | suspend => "suspend"

def providerLossDecisions : List ProviderLossDecision :=
  sortBy (fun left right =>
    (compareIdentity left.consumer right.consumer).then
      ((compareText left.capability.text right.capability.text).then
        ((compareIdentity left.provider right.provider).then
          (compareText (js left.action.text) (js right.action.text)))))
    (previousBindings.filterMap (providerLossDecision deployments))

/-! ## One requirement -/

/-- What one requirement contributes. Edges go from provider to consumer. -/
structure RequirementOutcome where
  bindings : List ResolvedCapabilityBinding
  diagnostics : List CapabilityResolutionDiagnostic
  required : List (JsString × JsString)
  optional : List (JsString × JsString)

def RequirementOutcome.failed (d : CapabilityResolutionDiagnostic) : RequirementOutcome :=
  ⟨[], [d], [], []⟩

def edge (provider consumer : CapabilityResolutionDeployment) : JsString × JsString :=
  (identityKey provider.identity, identityKey consumer.identity)

variable (consumer : CapabilityResolutionDeployment) (requirement : NormalizedCapabilityRequirement)

/-- The binding of a requirement without a provider. -/
def unbound : ResolvedCapabilityBinding := ⟨consumer.identity, requirement, none⟩

/-- The end of the loop body: bind to the provider that was found, after the
diagnostics `before`. -/
def attach (consumer provider : CapabilityResolutionDeployment)
    (requirement : NormalizedCapabilityRequirement)
    (before : List CapabilityResolutionDiagnostic) : RequirementOutcome :=
  match compatibleProvisions provider requirement with
  | [] => ⟨[], before, [], []⟩
  | provision :: _ =>
    { bindings :=
        if provider.ready then
          [⟨consumer.identity, requirement, some ⟨provider.identity, provision⟩⟩]
        else if requirement.optional then [unbound consumer requirement]
        else []
      diagnostics := before
      required := if requirement.optional then [] else [edge provider consumer]
      optional := if requirement.optional && provider.ready then [edge provider consumer] else [] }

/-- The branch with a selected provider; `persistedOnly` says that the selection
is a persisted binding and no explicit one. -/
def resolveSelected
    (selectedIdentity : PluginDeploymentIdentity) (persistedOnly : Bool) : RequirementOutcome :=
  let problem code message candidates :=
    diagnostic code message (some consumer.identity) (some requirement.name) candidates
  match (byIdentity deployments selectedIdentity).filter fun provider =>
      provider.identity.applicationId == consumer.identity.applicationId with
  | none =>
    .failed (problem .CAPABILITY_EXPLICIT_PROVIDER_MISSING
      "Explicit capability provider does not exist in the consumer application"
      [selectedIdentity])
  | some provider =>
    if !provider.provides.any fun provided => provided.name == requirement.name then
      .failed (problem .CAPABILITY_EXPLICIT_PROVIDER_MISSING
        "Explicit deployment does not provide the required capability" [provider.identity])
    else if (compatibleProvisions provider requirement).isEmpty then
      .failed (problem .CAPABILITY_EXPLICIT_PROVIDER_INCOMPATIBLE
        "Explicit capability provider has no compatible protocol version" [provider.identity])
    else if provider.ready then attach consumer provider requirement []
    else if persistedOnly then
      { bindings := [unbound consumer requirement]
        diagnostics := []
        required := if requirement.optional then [] else [edge provider consumer]
        optional := [] }
    else
      attach consumer provider requirement
        [problem .CAPABILITY_EXPLICIT_PROVIDER_UNREADY
          "Explicit capability provider is not ready" [provider.identity]]

def compatibleDeployments : List CapabilityResolutionDeployment :=
  deployments.filter fun provider =>
    provider.identity.applicationId == consumer.identity.applicationId &&
      !(compatibleProvisions provider requirement).isEmpty

/-- The branch without a selected provider. -/
def resolveUnselected : RequirementOutcome :=
  let problem code message candidates :=
    diagnostic code message (some consumer.identity) (some requirement.name) candidates
  let compatible := compatibleDeployments deployments consumer requirement
  let unavailable :=
    if requirement.optional then []
    else [problem .CAPABILITY_REQUIRED_UNAVAILABLE "Compatible providers exist but none are ready"
      (compatible.map (·.identity))]
  match compatible with
  | [] =>
    if requirement.optional then ⟨[unbound consumer requirement], [], [], []⟩
    else
      .failed (problem .CAPABILITY_REQUIRED_MISSING
        "No compatible provider satisfies the required capability" [])
  | only :: others =>
    match compatible.filter (·.ready) with
    | [provider] => attach consumer provider requirement []
    | [] =>
      if others.isEmpty then attach consumer only requirement unavailable
      else ⟨[unbound consumer requirement], unavailable, [], []⟩
    | ready =>
      .failed (problem .CAPABILITY_AMBIGUOUS
        "Multiple ready compatible providers satisfy the capability" (ready.map (·.identity)))

/-- The loop body of `resolveCapabilities`. -/
def resolveRequirement (sourceRequirement : PluginCapabilityRequirement) : RequirementOutcome :=
  let requirement := normalizeRequirement sourceRequirement
  let persisted := previousByRequirement previousBindings consumer.identity requirement.name
  let explicit := ownBinding consumer.bindings requirement.name
  match explicit.or (persisted.map (·.provider)) with
  | some selectedIdentity =>
    resolveSelected deployments consumer requirement selectedIdentity
      (explicit.isNone && persisted.isSome)
  | none => resolveUnselected deployments consumer requirement

/-! ## The resolution -/

/-- The requirements of a deployment in the order the resolver visits them. -/
def sortRequirements (requirements : List PluginCapabilityRequirement) :
    List PluginCapabilityRequirement :=
  sortBy (fun left right => compareText left.name.text right.name.text) requirements

/-- The contributions of all requirements, in order. -/
def requirementOutcomes : List RequirementOutcome :=
  deployments.flatMap fun consumer => (sortRequirements consumer.requires).map
    (resolveRequirement deployments previousBindings consumer)

def dependencyGraph (keys : List JsString) (edges : List (JsString × JsString)) :
    DirectedGraph JsString :=
  edges.foldl (fun graph edge => graph.addEdge edge.1 edge.2)
    ⟨keys, (keys.map fun key => (⟨key, []⟩ : Sigma fun _ : JsString => List JsString)).toAList⟩

def requiredCycles (graph : DirectedGraph JsString) : List (List JsString) :=
  (stronglyConnectedComponents graph compareText).filter fun component =>
    match component with
    | [] => false
    | [only] => (graph.targets only).contains only
    | _ => true

/-- `reachable`: the search from the nodes that are still pending. -/
def reachableLoop (graph : DirectedGraph JsString) (target : JsString) :
    Nat → List JsString → List JsString → Bool
  | 0, _, _ => false
  | _ + 1, [], _ => false
  | fuel + 1, current :: pending, visited =>
    if current = target then true
    else if visited.contains current then reachableLoop graph target fuel pending visited
    else
      reachableLoop graph target fuel ((graph.targets current).reverse ++ pending)
        (current :: visited)

def reachable (graph : DirectedGraph JsString) (start target : JsString) : Bool :=
  reachableLoop graph target (graph.edgeCount + 2) [start] []

/-- An optional edge is kept when it closes no cycle. -/
def addOptionalEdge (graph : DirectedGraph JsString) (edge : JsString × JsString) :
    DirectedGraph JsString :=
  if edge.1 ≠ edge.2 ∧ reachable graph edge.2 edge.1 = false then graph.addEdge edge.1 edge.2
  else graph

def resolveCapabilities (input : CapabilityResolutionInput) : ResolutionResult :=
  let deployments := sortDeployments input.deployments
  let previousBindings := input.previousBindings
  let diagnostics := inputDiagnostics deployments previousBindings
  if !diagnostics.isEmpty then ⟨false, diagnostics, [], none, none⟩
  else
    let providerLossActions := providerLossDecisions deployments previousBindings
    let outcomes := requirementOutcomes deployments previousBindings
    let keys := deployments.map fun deployment => identityKey deployment.identity
    let identityOf (key : JsString) : Option PluginDeploymentIdentity :=
      (deployments.find? fun deployment => identityKey deployment.identity == key).map (·.identity)
    let graph := dependencyGraph keys (outcomes.flatMap (·.required))
    let cycles := (requiredCycles graph).map fun cycle =>
      diagnostic .CAPABILITY_REQUIRED_CYCLE "Required capability dependencies form a cycle" none
        none (cycle.filterMap identityOf)
    let diagnostics := sortBy compareDiagnostic (outcomes.flatMap (·.diagnostics) ++ cycles)
    if !diagnostics.isEmpty then ⟨false, diagnostics, providerLossActions, none, none⟩
    else
      let optionalEdges := sortBy
        (fun left right => (compareText left.1 right.1).then (compareText left.2 right.2))
        (outcomes.flatMap (·.optional))
      match topologicalOrder (optionalEdges.foldl addOptionalEdge graph) compareText with
      | none =>
        { ok := false
          diagnostics := [diagnostic .CAPABILITY_REQUIRED_CYCLE
            "Required capability dependencies form a cycle" none none []]
          providerLossActions := providerLossActions
          bindings := none
          order := none }
      | some order =>
        { ok := true
          diagnostics := []
          providerLossActions := providerLossActions
          bindings := some (outcomes.flatMap (·.bindings))
          order := some (order.filterMap identityOf) }

end TegoNext
