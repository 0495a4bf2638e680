/-
The reconcile planner.

`planReconcile` reads one deployment, its gate and the recorded instances of its application, and
emits the next effect of each instance: those the deployment no longer wants (`oldInstanceStep`),
and those of the components of the manifest when it is active (`currentInstanceStep`).

An operation identity carries the proof that the parse the source ends with succeeds
(`portableStableId_portable`). SHA-256 is a parameter.
-/
import TegoNext.CapabilityResolver
import TegoNext.ComponentLifecycle
import TegoNext.Placement

set_option autoImplicit false

namespace TegoNext

open Text Option

inductive ReconcileEffectKind where
  | drain
  | prepare
  | start
  | stop
  deriving DecidableEq, Repr

def ReconcileEffectKind.text : ReconcileEffectKind → String
  | drain => "drain"
  | prepare => "prepare"
  | start => "start"
  | stop => "stop"

/-- The texts `parseActivation` accepts are the canonical decimals of these. -/
abbrev Activation : Type := UInt64

/-- A canonical decimal. -/
abbrev Generation : Type := Nat

def decimal (n : Nat) : JsString := (Nat.toDigits 10 n).map fun c => UInt16.ofNat c.toNat

structure ComponentInstance where
  instanceId : JsString
  activation : Activation
  legacyActivation : Bool
  hasStarted : Option Bool
  applicationId : PortableId
  pluginId : PortableId
  componentId : PortableId
  deploymentGeneration : Generation
  observedGeneration : Generation
  lifecycle : ComponentLifecycleState
  executor : ExecutorKind
  workerId : Option JsString
  artifactDigest : Option ArtifactDigest
  executionBinding : Option JsValue
  attempt : Option Nat
  retryAt : Option JsString
  retryEffect : Option ReconcileEffectKind
  diagnosticCode : Option JsString
  completedOperationId : Option PortableId
  completedOperationIds : Option (List PortableId)
  revision : Nat

inductive PluginDeploymentState where
  | active
  | disabled
  deriving DecidableEq

/-- The planner reads these fields of a `PluginDeployment`. -/
structure PluginDeployment where
  applicationId : PortableId
  pluginId : PortableId
  artifactDigest : ArtifactDigest
  generation : Generation
  state : PluginDeploymentState

/-- The manifest's components stand for the artifact. -/
structure ArtifactDeploymentGate where
  components : List PluginComponent
  capabilityResolution : ResolutionResult
  permissionDecision : PermissionDecision

structure ReconcileEffect where
  kind : ReconcileEffectKind
  activation : Activation
  operationId : PortableId
  messageId : PortableId
  instanceId : JsString
  applicationId : PortableId
  pluginId : PortableId
  componentId : PortableId
  deploymentGeneration : Generation
  artifactDigest : ArtifactDigest
  executor : ExecutorKind
  workerId : Option JsString
  executionBinding : Option JsValue

structure ReconcilePlanStep where
  operationId : PortableId
  messageId : PortableId
  instanceId : JsString
  deploymentGeneration : Generation
  effect : ReconcileEffect
  /-- `none` is `"absent"`. -/
  expectedRevision : Option Nat
  currentLifecycle : ComponentLifecycleState
  legacyActivation : Bool

structure ReconcileSnapshot where
  deployment : PluginDeployment
  gate : ArtifactDeploymentGate
  instances : List ComponentInstance
  now : JsString
  supportedExecutors : List ExecutorKind
  workers : Option (List PlacementWorker)
  suspended : Bool
  activations : List (PortableId × Activation)

inductive PlanDiagnostic where
  | capability (d : CapabilityResolutionDiagnostic)
  | permission (d : PermissionDecisionDiagnostic)
  | placement (d : PlacementDiagnostic)
  /-- `DEPLOYMENT_INSTANCE_INCONSISTENT`. -/
  | inconsistent (message : String) (componentId : PortableId) (instanceIds : List JsString)

structure ReconcilePlan where
  deploymentGeneration : Generation
  blocked : Bool
  diagnostics : List PlanDiagnostic
  steps : List ReconcilePlanStep

/-! ## Identities -/

/-- `value.replaceAll(unit, replacement)`. -/
def replaceAll (u : UInt16) (replacement value : JsString) : JsString :=
  value.flatMap fun v => if v = u then replacement else [v]

/-- One part of a stable identity: it has no dot of its own afterwards. -/
def escapePart (part : JsString) : JsString :=
  replaceAll 46 (js "_d") (replaceAll 95 (js "_u") part)

/-- `JSON.stringify(parts)`, for parts without a unit that JSON escapes. -/
def jsonTexts (parts : List JsString) : JsString :=
  js "[" ++ joinParts (js ",") (parts.map fun part => js "\"" ++ part ++ js "\"") ++ js "]"

def hexDigit (d : Fin 16) : UInt16 :=
  if d.val < 10 then 48 + UInt16.ofNat d.val else 87 + UInt16.ofNat d.val

instance neZero_sixteen : NeZero 16 := ⟨by decide⟩

/-- `createHash("sha256")` of a text, as sixty-four hexadecimal digits. -/
abbrev Sha256 : Type := JsString → Vector (Fin 16) 64

open List

section Planner

variable (sha256 : Sha256) (domainToASCII : JsString → JsString)

def portableStableId (parts : List JsString) : JsString :=
  let candidate := joinParts (js ".") (parts.map escapePart)
  if candidate.length ≤ 128 then candidate
  else candidate.take 63 ++ js "." ++ (sha256 (jsonTexts parts)).toList.map hexDigit

section Portable

theorem isNameUnit_hexDigit (d : Fin 16) : isNameUnit (hexDigit d) = true := by
  revert d
  decide

variable {u : UInt16}

theorem isNameUnit_decimal {n : Nat} (h : u ∈ decimal n) : isNameUnit u = true := by
  obtain ⟨c, hc, rfl⟩ := List.mem_map.mp h
  have hdigit : c.isDigit = true := Nat.isDigit_of_mem_toDigits (by decide) (by decide) hc
  simp only [Char.isDigit, Bool.and_eq_true, decide_eq_true_eq] at hdigit
  have hlow : 48 ≤ c.toNat := hdigit.1
  have hhigh : c.toNat ≤ 57 := hdigit.2
  have hval : (UInt16.ofNat c.toNat).toNat = c.toNat := by
    rw [UInt16.toNat_ofNat']
    exact Nat.mod_eq_of_lt (by omega)
  have hdigit' : isDigit (UInt16.ofNat c.toNat) = true := by
    simp only [isDigit, Bool.and_eq_true, decide_eq_true_eq, UInt16.le_iff_toNat_le, hval]
    exact ⟨hlow, hhigh⟩
  simp [isNameUnit, isAlphanumeric, hdigit']

variable {s : JsString}

theorem NameText.append {t : JsString} (hs : NameText s) (ht : NameText t) : NameText (s ++ t) := by
  intro u hu
  exact (mem_append.mp hu).elim (hs u) (ht u)

theorem NameText.replaceAll {v : UInt16} {replacement : JsString} (hs : NameText s)
    (hr : NameText replacement) : NameText (replaceAll v replacement s) := by
  intro u hu
  obtain ⟨w, hw, hmem⟩ := mem_flatMap.mp hu
  split at hmem
  · exact hr u hmem
  · rw [mem_singleton.mp hmem]
    exact hs w hw

theorem NameText.escapePart (hs : NameText s) : NameText (escapePart s) :=
  (hs.replaceAll (by decide)).replaceAll (by decide)

theorem NameText.joinParts {separator : JsString} (hseparator : NameText separator) :
    ∀ {parts : List JsString}, (∀ part ∈ parts, NameText part) →
      NameText (joinParts separator parts)
  | [], _ => by
    intro u hu
    cases hu
  | [part], h => h part mem_cons_self
  | part :: next :: parts, h =>
    ((h part mem_cons_self).append hseparator).append
      (NameText.joinParts hseparator fun p hp => h p (mem_cons_of_mem _ hp))

/-- A text is portable when it begins with a letter or digit, has at most 128
units and only units of names. -/
theorem isPortableName_of_nameText (hhead : s.head? = some u)
    (hu : isAlphanumeric u = true) (hlen : s.length ≤ 128) (hs : NameText s) :
    isPortableName s = true := by
  cases s with
  | nil => cases hhead
  | cons v rest =>
    obtain rfl : v = u := some.inj hhead
    simp only [length_cons] at hlen
    simp only [isPortableName, Bool.and_eq_true, decide_eq_true_eq, List.all_eq_true]
    exact ⟨⟨hu, by omega⟩, fun w hw => hs w (mem_cons_of_mem _ hw)⟩

variable {part : JsString}

theorem head?_joinParts {separator : JsString} {parts : List JsString}
    (h : part.head? = some u) : (joinParts separator (part :: parts)).head? = some u := by
  cases part with
  | nil => cases h
  | cons v rest => cases parts <;> simpa [joinParts] using h

theorem head?_escapePart (h : part.head? = some u)
    (hu : isAlphanumeric u = true) : (escapePart part).head? = some u := by
  cases part with
  | nil => cases h
  | cons v rest =>
    obtain rfl : v = u := some.inj h
    have hdash : v ≠ 95 := by
      rintro rfl
      exact absurd hu (by decide)
    have hdot : v ≠ 46 := by
      rintro rfl
      exact absurd hu (by decide)
    simp [escapePart, replaceAll, hdash, hdot]

/-- **A stable identity of name texts is portable**, cut and hashed or not. -/
theorem portableStableId_portable {parts : List JsString}
    (hhead : part.head? = some u) (hu : isAlphanumeric u = true)
    (h : ∀ p ∈ part :: parts, NameText p) :
    isPortableName (portableStableId sha256 (part :: parts)) = true := by
  have hcandidate : NameText (joinParts (js ".") ((part :: parts).map escapePart)) := by
    refine NameText.joinParts (by decide) fun p hp => ?_
    obtain ⟨q, hq, rfl⟩ := List.mem_map.mp hp
    exact (h q hq).escapePart
  have hfirst : (joinParts (js ".") ((part :: parts).map escapePart)).head? = some u :=
    head?_joinParts (head?_escapePart hhead hu)
  unfold portableStableId
  dsimp only
  split
  · next hlen => exact isPortableName_of_nameText hfirst hu hlen hcandidate
  next hlen =>
  refine isPortableName_of_nameText (u := u) ?_ hu ?_ ?_
  · generalize joinParts (js ".") ((part :: parts).map escapePart) = candidate at hfirst hlen
    cases candidate with
    | nil => cases hfirst
    | cons v rest => simpa using hfirst
  · simp only [length_append, length_take, length_map, Vector.length_toList]
    have hdot : (js ".").length = 1 := by decide
    omega
  · refine NameText.append (NameText.append ?_ (by decide)) ?_
    · exact fun w hw => hcandidate w (mem_of_mem_take hw)
    · intro w hw
      obtain ⟨d, _, rfl⟩ := List.mem_map.mp hw
      exact isNameUnit_hexDigit d

end Portable

/-- `g` or `a` in front of a decimal. -/
def tagged (tag : String) (n : Nat) : JsString := js tag ++ decimal n

section

variable (deployment : PluginDeployment) (componentId : PortableId) (kind : ReconcileEffectKind)

/-- The parts of an effect's identity after `"reconcile"`. The legacy form has no
activation. -/
def effectParts (activation : Option Activation) : List JsString :=
  [deployment.applicationId.text, deployment.pluginId.text, componentId.text,
    tagged "g" deployment.generation] ++
    (activation.map fun a => tagged "a" a.toNat).toList ++ [js kind.text]

theorem nameText_tagged {tag : String} (htag : NameText (js tag)) (n : Nat) :
    NameText (tagged tag n) :=
  htag.append fun _ hu => isNameUnit_decimal hu

theorem nameText_effectParts (activation : Option Activation) :
    ∀ p ∈ js "reconcile" :: effectParts deployment componentId kind activation, NameText p := by
  have hkind : NameText (js kind.text) := by cases kind <;> decide
  have htags : NameText (js "g") ∧ NameText (js "a") ∧ NameText (js "reconcile") :=
    ⟨by decide, by decide, by decide⟩
  intro p hp
  cases activation <;>
    simp only [effectParts, map_none, map_some, toList_none,
      toList_some, append_nil, cons_append, nil_append, mem_cons,
      not_mem_nil, or_false] at hp
  · rcases hp with rfl | rfl | rfl | rfl | rfl | rfl
    exacts [htags.2.2, .of_portable _, .of_portable _, .of_portable _,
      nameText_tagged htags.1 _, hkind]
  · rcases hp with rfl | rfl | rfl | rfl | rfl | rfl | rfl
    exacts [htags.2.2, .of_portable _, .of_portable _, .of_portable _,
      nameText_tagged htags.1 _, nameText_tagged htags.2.1 _, hkind]

structure EffectIdentities where
  instanceId : JsString
  operationId : PortableId
  messageId : PortableId

/-- `parseOperationId(effectId)`, which is also `parseMessageId(effectId)`. -/
def effectId (activation : Option Activation) : PortableId where
  text := portableStableId sha256
    (js "reconcile" :: effectParts deployment componentId kind activation)
  portable := portableStableId_portable sha256 (u := 114) (by decide) (by decide)
    (nameText_effectParts deployment componentId kind activation)

def reconcileEffectIdentities (activation : Activation) : EffectIdentities where
  instanceId := portableStableId sha256
    [deployment.applicationId.text, deployment.pluginId.text, componentId.text,
      tagged "g" deployment.generation, tagged "a" activation.toNat]
  operationId := effectId sha256 deployment componentId kind (some activation)
  messageId := effectId sha256 deployment componentId kind (some activation)

def legacyReconcileInstanceId : JsString :=
  portableStableId sha256
    [deployment.applicationId.text, deployment.pluginId.text, componentId.text,
      tagged "g" deployment.generation]

def legacyReconcileEffectIdentities : EffectIdentities where
  instanceId := legacyReconcileInstanceId sha256 deployment componentId
  operationId := effectId sha256 deployment componentId kind none
  messageId := effectId sha256 deployment componentId kind none

/-- Which of the two an instance uses. -/
def identitiesFor (activation : Activation) (legacyActivation : Bool) : EffectIdentities :=
  if legacyActivation then legacyReconcileEffectIdentities sha256 deployment componentId kind
  else reconcileEffectIdentities sha256 deployment componentId kind activation

/-! ## Steps -/

/-- `step`. -/
def planStep (placement : ComponentPlacement) (expectedRevision : Option Nat)
    (currentLifecycle : ComponentLifecycleState) (activation : Activation)
    (legacyActivation : Bool) (executionBinding : Option JsValue) : ReconcilePlanStep :=
  let identity := identitiesFor sha256 deployment componentId kind activation legacyActivation
  { operationId := identity.operationId
    messageId := identity.messageId
    instanceId := identity.instanceId
    deploymentGeneration := deployment.generation
    effect :=
      { kind := kind
        activation := activation
        operationId := identity.operationId
        messageId := identity.messageId
        instanceId := identity.instanceId
        applicationId := deployment.applicationId
        pluginId := deployment.pluginId
        componentId := componentId
        deploymentGeneration := deployment.generation
        artifactDigest := deployment.artifactDigest
        executor := placement.executor
        workerId := placement.workerId
        executionBinding := executionBinding }
    expectedRevision := expectedRevision
    currentLifecycle := currentLifecycle
    legacyActivation := legacyActivation }

variable (inst : ComponentInstance)

def instanceStep
    (kind : ReconcileEffectKind) (placement : ComponentPlacement) (activation : Activation) :
    ReconcilePlanStep :=
  planStep sha256 deployment inst.componentId kind placement (some inst.revision)
    inst.lifecycle activation inst.legacyActivation inst.executionBinding

/-- `retryAt !== undefined && retryAt > now`. -/
def retryPending (now : JsString) : Bool :=
  inst.retryAt.any fun retryAt => compareText retryAt now == .gt

/-- The deployment an obsolete instance was made by. -/
def oldDeployment : PluginDeployment :=
  { deployment with
    generation := inst.deploymentGeneration
    artifactDigest := inst.artifactDigest.getD deployment.artifactDigest }

def drainCompleted : Bool :=
  let drainOperationId := (identitiesFor sha256 (oldDeployment deployment inst)
    inst.componentId .drain inst.activation inst.legacyActivation).operationId
  inst.completedOperationId == some drainOperationId ||
    (inst.completedOperationIds.getD []).contains drainOperationId

def oldInstanceStep (now : JsString) : Option ReconcilePlanStep :=
  let emit := fun kind => some (instanceStep sha256 (oldDeployment deployment inst) inst
    kind ⟨inst.executor, inst.workerId⟩ inst.activation)
  match inst.lifecycle with
  | .failed =>
    match inst.retryEffect with
    | none => none
    | some retryEffect => if retryPending inst now then none else emit retryEffect
  | .draining => if drainCompleted sha256 deployment inst then emit .stop else emit .drain
  | .stopping => emit .stop
  | .stopped => none
  | _ => emit .drain

end

def currentInstanceStep (snapshot : ReconcileSnapshot) (inst : Option ComponentInstance)
    (componentId : PortableId) (placement : ComponentPlacement) (activation : Activation) :
    Option ReconcilePlanStep :=
  let create := some (planStep sha256 snapshot.deployment componentId .prepare placement none
    .created activation false none)
  match inst with
  | none => create
  | some inst =>
    let emit := fun kind => some (planStep sha256 snapshot.deployment componentId kind placement
      (some inst.revision) inst.lifecycle activation inst.legacyActivation
      inst.executionBinding)
    if inst.diagnosticCode = some (js "LIFECYCLE_RESTORE_FAILED") ∧
        retryPending inst snapshot.now then none
    else
      match inst.lifecycle with
      | .stopped => create
      | .created => emit .prepare
      | .preparing | .starting => emit .start
      | .draining | .stopping => emit .stop
      | .failed =>
        match inst.retryEffect with
        | none => none
        | some retryEffect =>
          if retryPending inst snapshot.now then none else emit retryEffect
      | _ => none

/-! ## The plan -/

namespace ReconcileSnapshot

section

variable (snapshot : ReconcileSnapshot) (component : PluginComponent)

/-- The application's instances in the order of their identities. -/
def sortedInstances : List ComponentInstance :=
  sortBy (fun left right => compareText left.instanceId right.instanceId)
    (snapshot.instances.filter fun inst =>
      inst.applicationId = snapshot.deployment.applicationId)

def gateDiagnostics : List PlanDiagnostic :=
  snapshot.gate.capabilityResolution.diagnostics.map .capability ++
    snapshot.gate.permissionDecision.diagnostics.map .permission

def currentInstances : List ComponentInstance :=
  snapshot.sortedInstances.filter fun inst =>
    inst.componentId = component.componentId ∧
      inst.deploymentGeneration = snapshot.deployment.generation

def liveInstances : List ComponentInstance :=
  (snapshot.currentInstances component).filter fun inst =>
    inst.lifecycle ≠ .failed ∧ inst.lifecycle ≠ .stopped

def inconsistent : List PlanDiagnostic :=
  (snapshot.gate.components.filter fun component =>
    1 < (snapshot.liveInstances component).length).map fun component =>
      .inconsistent "One component generation has multiple live instances" component.componentId
        ((snapshot.liveInstances component).map (·.instanceId))

/-- The test of the first loop: the deployment does not want this instance. -/
def obsolete (generation : Generation) : Bool :=
  snapshot.deployment.state = .disabled ∨ generation ≠ snapshot.deployment.generation ∨
    snapshot.suspended

def placementOf : PlacementDecision :=
  planPlacement domainToASCII
    { artifactDigest := snapshot.deployment.artifactDigest
      component := component
      grantedPermissions := snapshot.gate.permissionDecision.granted.getD []
      supportedExecutors := snapshot.supportedExecutors
      workers := snapshot.workers }

/-- The activation a component runs under: the one asked for, else the highest
recorded one, else the first. -/
def activationOf : Activation :=
  let highest := (snapshot.currentInstances component).foldl
    (fun (highest : Option Activation) inst =>
      match highest with
      | none => some inst.activation
      | some highest =>
        if highest < inst.activation then some inst.activation else some highest)
    none
  (snapshot.activations.lookup component.componentId).getD (highest.getD 1)

/-- The steps of the first loop. -/
def obsoleteSteps : List ReconcilePlanStep :=
  (snapshot.sortedInstances.filter fun inst =>
    snapshot.obsolete inst.deploymentGeneration).filterMap fun inst =>
      oldInstanceStep sha256 snapshot.deployment inst snapshot.now

/-- The components in the order of their identities, when the second loop runs. -/
def activeComponents : List PluginComponent :=
  if snapshot.deployment.state = .active ∧ ¬ snapshot.suspended then
    sortBy (fun left right => compareText left.componentId.text right.componentId.text)
      snapshot.gate.components
  else []

def componentStep (placement : ComponentPlacement) : Option ReconcilePlanStep :=
  let activation := snapshot.activationOf component
  currentInstanceStep sha256 snapshot
    ((snapshot.currentInstances component).find? fun inst =>
      inst.activation = activation)
    component.componentId placement activation

end

def componentLoop (snapshot : ReconcileSnapshot) :
    List PluginComponent → List ReconcilePlanStep × List PlacementDiagnostic
  | [] => ([], [])
  | component :: components =>
    let (steps, diagnostics) := componentLoop snapshot components
    let decision := snapshot.placementOf domainToASCII component
    match decision.ok, decision.placement with
    | true, some placement =>
      ((snapshot.componentStep sha256 component placement).toList ++ steps, diagnostics)
    | _, _ => (steps, decision.diagnostics ++ diagnostics)

end ReconcileSnapshot

def planReconcile (snapshot : ReconcileSnapshot) : ReconcilePlan :=
  let blocked := fun diagnostics : List PlanDiagnostic =>
    { deploymentGeneration := snapshot.deployment.generation
      blocked := true
      diagnostics := diagnostics
      steps := [] : ReconcilePlan }
  if !snapshot.gate.capabilityResolution.ok || !snapshot.gate.permissionDecision.allowed then
    blocked snapshot.gateDiagnostics
  else if snapshot.inconsistent ≠ [] then blocked snapshot.inconsistent
  else
    let (current, placementDiagnostics) :=
      snapshot.componentLoop sha256 domainToASCII snapshot.activeComponents
    { deploymentGeneration := snapshot.deployment.generation
      blocked := !placementDiagnostics.isEmpty
      diagnostics := snapshot.gateDiagnostics ++ placementDiagnostics.map .placement
      steps :=
        if placementDiagnostics.isEmpty then snapshot.obsoleteSteps sha256 ++ current else [] }

end Planner

end TegoNext
