/-
Can the reconciler persist what the planner plans?

A step names its instance and the revision it expects; the reconciler writes it only if the record
is still at that revision, and the effect may begin in the instance's lifecycle state. A plan holds
that promise but for a stopped instance, which is planned anew under its identity, and for two
components of one name, which plan two steps for one instance.
-/
import TegoNext.EffectIdentity
import TegoNext.TeardownPlanning

set_option autoImplicit false

namespace TegoNext

open Text ReconcileSnapshot List

/-! ## What the reconciler checks -/

section Reconciler

def preEffectLifecycle (kind : ReconcileEffectKind) (inst : ComponentInstance)
    (observedAt : JsString) : Except LifecycleTransitionInvalid ComponentLifecycleState :=
  let enter := fun next =>
    if inst.lifecycle = next then .ok next
    else transitionComponentLifecycle
      { pluginId := inst.pluginId
        componentId := inst.componentId
        current := inst.lifecycle
        next := next
        observedAt := observedAt }
  match kind with
  | .start => enter .starting
  | .drain => enter .draining
  | .stop => enter .stopping
  | .prepare => .ok inst.lifecycle

/-- The check of `#persistStep`: the record is not the one the step was planned for. -/
def revisionChanged (step : ReconcilePlanStep) (current : Option ComponentInstance) : Bool :=
  (step.expectedRevision.isNone && current.isSome) ||
    (step.expectedRevision.isSome && current.map (·.revision) != step.expectedRevision)

def ReconcileSnapshot.recordOf (snapshot : ReconcileSnapshot) (instanceId : JsString) :
    Option ComponentInstance :=
  snapshot.instances.find? fun inst => inst.instanceId = instanceId

/-- The step passes the check exactly when it expects the revision of the record, or its
absence. -/
theorem revisionChanged_eq_false_iff {step : ReconcilePlanStep} {current : Option ComponentInstance} :
    revisionChanged step current = false ↔ step.expectedRevision = current.map (·.revision) := by
  unfold revisionChanged
  cases step.expectedRevision with
  | none => cases current <;> simp
  | some revision =>
    rw [Option.isNone_some, Bool.false_and, Bool.false_or, Option.isSome_some, Bool.true_and,
      bne_eq_false_iff_eq]
    exact eq_comm

end Reconciler

section Planner

variable (sha256 : Sha256) (domainToASCII : JsString → JsString)

/-! ## The property -/

/-- **The plan applies to its snapshot.** -/
structure PlanApplicable (snapshot : ReconcileSnapshot) : Prop where
  revision : ∀ step ∈ (planReconcile sha256 domainToASCII snapshot).steps,
    step.expectedRevision = (snapshot.recordOf step.instanceId).map (·.revision)
  distinct : ((planReconcile sha256 domainToASCII snapshot).steps.map (·.instanceId)).Nodup
  legal : ∀ step ∈ (planReconcile sha256 domainToASCII snapshot).steps,
    ∀ inst, snapshot.recordOf step.instanceId = some inst → ∀ observedAt,
      ∃ next, preEffectLifecycle step.effect.kind inst observedAt = .ok next ∧
        (next = inst.lifecycle ∨ next ∈ legalTransitions inst.lifecycle)

/-! ## Snapshots the reconciler takes -/

/-- `isCanonicalInstance`: the identity functions read these three fields of a deployment. -/
def isCanonicalInstance (storageId : JsString) (inst : ComponentInstance) : Bool :=
  let deployment : PluginDeployment :=
    { applicationId := inst.applicationId
      pluginId := inst.pluginId
      artifactDigest := inst.artifactDigest.getD []
      generation := inst.deploymentGeneration
      state := .active }
  storageId == inst.instanceId &&
    (if inst.legacyActivation then legacyReconcileInstanceId sha256 deployment inst.componentId
      else (reconcileEffectIdentities sha256 deployment inst.componentId .prepare
        inst.activation).instanceId) == inst.instanceId

/-- The instances are the deployment's own, as they are recorded. -/
structure RecordedInstances (snapshot : ReconcileSnapshot) : Prop where
  own : ∀ inst ∈ snapshot.instances, inst.applicationId = snapshot.deployment.applicationId ∧
    inst.pluginId = snapshot.deployment.pluginId
  canonical : ∀ inst ∈ snapshot.instances, isCanonicalInstance sha256 inst.instanceId inst = true
  keys : (snapshot.instances.map (·.instanceId)).Nodup

def identityActivation (inst : ComponentInstance) : Option Activation :=
  if inst.legacyActivation then none else some inst.activation

section

variable (snapshot : ReconcileSnapshot)

/-- The texts that are hashed for identities that are too long. -/
def identityTexts : List JsString :=
  (snapshot.instances.map fun inst =>
    jsonTexts (instanceParts snapshot.deployment.applicationId snapshot.deployment.pluginId
      inst.componentId inst.deploymentGeneration (identityActivation inst))) ++
  snapshot.activeComponents.map fun component =>
    jsonTexts (instanceParts snapshot.deployment.applicationId snapshot.deployment.pluginId
      component.componentId snapshot.deployment.generation (some (snapshot.activationOf component)))

/-! ## The condition -/

/-- The instance the planner goes on from. -/
def selectedInstance (component : PluginComponent) : Option ComponentInstance :=
  (snapshot.currentInstances component).find? fun inst =>
    inst.activation = snapshot.activationOf component

/-- Its restore failed, and the next attempt is not due. -/
def restoreHeld (inst : ComponentInstance) : Bool :=
  inst.diagnosticCode == some (js "LIFECYCLE_RESTORE_FAILED") && retryPending inst snapshot.now

/-- **Planned anew under an identity in use**: that of a stopped instance. -/
def RestartsInPlace (component : PluginComponent) : Prop :=
  ∃ inst, selectedInstance snapshot component = some inst ∧ inst.lifecycle = .stopped ∧
    restoreHeld snapshot inst = false ∧
    ∃ other ∈ snapshot.currentInstances component,
      other.activation = snapshot.activationOf component ∧ other.legacyActivation = false

/-- The component is neither at rest nor waiting for a retry. -/
def stepDue (component : PluginComponent) : Bool :=
  match selectedInstance snapshot component with
  | none => true
  | some inst =>
    !restoreHeld snapshot inst &&
      match inst.lifecycle with
      | .ready | .degraded => false
      | .failed => inst.retryEffect.isSome && !retryPending inst snapshot.now
      | _ => true

/-- **The condition**: the plan is blocked, or no component is planned anew under an
identity in use and no two components of one name have a step due. -/
def PlansDistinctly : Prop :=
  PlanningBlocked domainToASCII snapshot ∨
    ((∀ component ∈ snapshot.activeComponents, ¬ RestartsInPlace snapshot component) ∧
      ((snapshot.activeComponents.filter (stepDue snapshot)).map (·.componentId)).Nodup)

end

/-! ## Identities -/

variable {sha256} {snapshot : ReconcileSnapshot}

theorem identitiesFor_instanceId (deployment : PluginDeployment) (componentId : PortableId)
    (kind : ReconcileEffectKind) (activation : Activation) (legacyActivation : Bool) :
    (identitiesFor sha256 deployment componentId kind activation legacyActivation).instanceId =
      portableStableId sha256 (instanceParts deployment.applicationId deployment.pluginId componentId
        deployment.generation (if legacyActivation then none else some activation)) := by
  cases legacyActivation <;> rfl

namespace RecordedInstances

variable (h : RecordedInstances sha256 snapshot)

include h in
theorem instanceId_eq {inst : ComponentInstance} (hmem : inst ∈ snapshot.instances) :
    inst.instanceId = portableStableId sha256 (instanceParts snapshot.deployment.applicationId
      snapshot.deployment.pluginId inst.componentId inst.deploymentGeneration
      (identityActivation inst)) := by
  obtain ⟨happlication, hplugin⟩ := h.own inst hmem
  have hcanonical := h.canonical inst hmem
  unfold isCanonicalInstance at hcanonical
  simp only [Bool.and_eq_true, beq_iff_eq] at hcanonical
  rw [← hcanonical.2, ← happlication, ← hplugin, identityActivation]
  cases inst.legacyActivation <;> rfl

include h in
theorem recordOf_instanceId {inst : ComponentInstance} (hmem : inst ∈ snapshot.instances) :
    snapshot.recordOf inst.instanceId = some inst := by
  have hfound : ∀ l : List ComponentInstance, (l.map (·.instanceId)).Nodup → inst ∈ l →
      l.find? (fun other => other.instanceId = inst.instanceId) = some inst := by
    intro l
    induction l with
    | nil => exact fun _ hin => absurd hin not_mem_nil
    | cons other rest ih =>
      intro hnodup hin
      rw [map_cons, nodup_cons] at hnodup
      rcases mem_cons.mp hin with rfl | hrest
      · exact find?_cons_of_pos (decide_eq_true rfl)
      · have hne : other.instanceId ≠ inst.instanceId := fun heq =>
          hnodup.1 (mem_map.mpr ⟨inst, hrest, heq.symm⟩)
        rw [find?_cons_of_neg (by simpa using hne)]
        exact ih hnodup.2 hrest
  exact hfound _ h.keys hmem

end RecordedInstances

def Identified (snapshot : ReconcileSnapshot) (componentId : PortableId) (generation : Generation)
    (activation : Option Activation) : Prop :=
  jsonTexts (instanceParts snapshot.deployment.applicationId snapshot.deployment.pluginId componentId
    generation activation) ∈ identityTexts snapshot

variable {inst : ComponentInstance}

theorem identified_of_mem (hmem : inst ∈ snapshot.instances) :
    Identified snapshot inst.componentId inst.deploymentGeneration (identityActivation inst) :=
  mem_append_left _ (mem_map.mpr ⟨inst, hmem, rfl⟩)

variable {component : PluginComponent}

theorem identified_of_component (hmem : component ∈ snapshot.activeComponents) :
    Identified snapshot component.componentId snapshot.deployment.generation
      (some (snapshot.activationOf component)) :=
  mem_append_right _ (mem_map.mpr ⟨component, hmem, rfl⟩)

theorem Identified.inj (hsha : KeepsApart sha256 (identityTexts snapshot))
    {componentId componentId' : PortableId} {generation generation' : Generation}
    {activation activation' : Option Activation}
    (h : Identified snapshot componentId generation activation)
    (h' : Identified snapshot componentId' generation' activation')
    (heq : portableStableId sha256 (instanceParts snapshot.deployment.applicationId
        snapshot.deployment.pluginId componentId generation activation) =
      portableStableId sha256 (instanceParts snapshot.deployment.applicationId
        snapshot.deployment.pluginId componentId' generation' activation')) :
    componentId = componentId' ∧ generation = generation' ∧ activation = activation' :=
  (instanceIdentity_inj sha256 (hsha _ h _ h') heq).2.2

/-! ## Effects that may begin -/

/-- The state an effect begins in, if it changes the state before it runs. -/
def ReconcileEffectKind.enters : ReconcileEffectKind → Option ComponentLifecycleState
  | .start => some .starting
  | .drain => some .draining
  | .stop => some .stopping
  | .prepare => none

def MayBegin (kind : ReconcileEffectKind) (lifecycle : ComponentLifecycleState) : Prop :=
  ∀ next, kind.enters = some next → lifecycle = next ∨ next ∈ legalTransitions lifecycle

theorem mayBegin_failed (kind : ReconcileEffectKind) : MayBegin kind .failed := by
  intro next hnext
  cases kind <;> cases hnext <;> decide

theorem preEffectLifecycle_of_mayBegin {kind : ReconcileEffectKind}
    (h : MayBegin kind inst.lifecycle) (observedAt : JsString) :
    ∃ next, preEffectLifecycle kind inst observedAt = .ok next ∧
      (next = inst.lifecycle ∨ next ∈ legalTransitions inst.lifecycle) := by
  have henter : ∀ next, inst.lifecycle = next ∨ next ∈ legalTransitions inst.lifecycle →
      ∃ next', (if inst.lifecycle = next then .ok next
        else transitionComponentLifecycle
          { pluginId := inst.pluginId
            componentId := inst.componentId
            current := inst.lifecycle
            next := next
            observedAt := observedAt }) = Except.ok next' ∧
        (next' = inst.lifecycle ∨ next' ∈ legalTransitions inst.lifecycle) := by
    intro next hnext
    split
    · next heq => exact ⟨next, rfl, .inl heq.symm⟩
    next hne =>
    have hlegal := hnext.resolve_left hne
    refine ⟨next, ?_, .inr hlegal⟩
    exact if_pos (contains_iff_mem.mpr hlegal)
  cases kind with
  | start => exact henter .starting (h _ rfl)
  | drain => exact henter .draining (h _ rfl)
  | stop => exact henter .stopping (h _ rfl)
  | prepare => exact ⟨inst.lifecycle, rfl, .inl rfl⟩

/-! ## One step -/

variable {step : ReconcilePlanStep}

theorem oldInstanceStep_applies (h : RecordedInstances sha256 snapshot)
    (hmem : inst ∈ snapshot.instances)
    (hstep : oldInstanceStep sha256 snapshot.deployment inst snapshot.now = some step) :
    step.instanceId = inst.instanceId ∧ step.expectedRevision = some inst.revision ∧
      MayBegin step.effect.kind inst.lifecycle := by
  have hid : ∀ kind, (instanceStep sha256 (oldDeployment snapshot.deployment inst) inst kind
      ⟨inst.executor, inst.workerId⟩ inst.activation).instanceId = inst.instanceId := by
    intro kind
    rw [h.instanceId_eq hmem]
    exact identitiesFor_instanceId _ _ _ _ _
  have hemit : ∀ kind, some (instanceStep sha256 (oldDeployment snapshot.deployment inst) inst kind
      ⟨inst.executor, inst.workerId⟩ inst.activation) = some step → MayBegin kind inst.lifecycle →
        step.instanceId = inst.instanceId ∧ step.expectedRevision = some inst.revision ∧
          MayBegin step.effect.kind inst.lifecycle := by
    intro kind heq hbegin
    obtain rfl := Option.some.inj heq
    exact ⟨hid kind, rfl, hbegin⟩
  unfold oldInstanceStep at hstep
  cases hlife : inst.lifecycle with
  | failed =>
    rw [hlife] at hstep hemit
    cases hretry : inst.retryEffect with
    | none => rw [hretry] at hstep; cases hstep
    | some kind =>
      rw [hretry] at hstep
      dsimp only at hstep
      split at hstep
      · cases hstep
      · exact hemit kind hstep (mayBegin_failed kind)
  | draining =>
    rw [hlife] at hstep hemit
    dsimp only at hstep
    split at hstep
    · exact hemit .stop hstep (by rintro next ⟨⟩; decide)
    · exact hemit .drain hstep (by rintro next ⟨⟩; decide)
  | stopping =>
    rw [hlife] at hstep hemit
    exact hemit .stop hstep (by rintro next ⟨⟩; decide)
  | stopped => rw [hlife] at hstep; cases hstep
  | created | preparing | starting | ready | degraded =>
    rw [hlife] at hstep hemit
    exact hemit .drain hstep (by rintro next ⟨⟩; decide)

theorem mem_instances_of_current (h : inst ∈ snapshot.currentInstances component) :
    inst ∈ snapshot.instances ∧ inst.componentId = component.componentId ∧
      inst.deploymentGeneration = snapshot.deployment.generation := by
  obtain ⟨hsorted, hcurrent⟩ := mem_filter.mp h
  rw [sortedInstances, mem_sortBy] at hsorted
  exact ⟨(mem_filter.mp hsorted).1, of_decide_eq_true hcurrent⟩

theorem mem_currentInstances (h : RecordedInstances sha256 snapshot)
    (hmem : inst ∈ snapshot.instances)
    (hcomponent : inst.componentId = component.componentId)
    (hgeneration : inst.deploymentGeneration = snapshot.deployment.generation) :
    inst ∈ snapshot.currentInstances component := by
  refine mem_filter.mpr ⟨?_, decide_eq_true ⟨hcomponent, hgeneration⟩⟩
  rw [sortedInstances, mem_sortBy]
  exact mem_filter.mpr ⟨hmem, decide_eq_true (h.own inst hmem).1⟩

theorem selectedInstance_some (h : selectedInstance snapshot component = some inst) :
    inst ∈ snapshot.currentInstances component ∧
      inst.activation = snapshot.activationOf component := by
  have hfound := find?_some h
  exact ⟨mem_of_find?_eq_some h, of_decide_eq_true hfound⟩

def newIdentity (sha256 : Sha256) (snapshot : ReconcileSnapshot) (component : PluginComponent) :
    JsString :=
  portableStableId sha256 (instanceParts snapshot.deployment.applicationId
    snapshot.deployment.pluginId component.componentId snapshot.deployment.generation
    (some (snapshot.activationOf component)))

structure MakesNew (sha256 : Sha256) (snapshot : ReconcileSnapshot) (component : PluginComponent)
    (step : ReconcilePlanStep) : Prop where
  free : selectedInstance snapshot component = none ∨
    ∃ inst, selectedInstance snapshot component = some inst ∧ inst.lifecycle = .stopped ∧
      restoreHeld snapshot inst = false
  instanceId : step.instanceId = newIdentity sha256 snapshot component
  absent : step.expectedRevision = none
  prepares : step.effect.kind = .prepare

structure GoesOn (snapshot : ReconcileSnapshot) (component : PluginComponent)
    (step : ReconcilePlanStep) (inst : ComponentInstance) : Prop where
  selected : selectedInstance snapshot component = some inst
  live : inst.lifecycle ≠ .stopped
  instanceId : step.instanceId = inst.instanceId
  revision : step.expectedRevision = some inst.revision
  begins : MayBegin step.effect.kind inst.lifecycle

/-- **The step of a component**, where one is due: it makes a new instance, or goes on from
the selected one. -/
theorem componentStep_cases (h : RecordedInstances sha256 snapshot) (component : PluginComponent)
    (placement : ComponentPlacement) :
    (snapshot.componentStep sha256 component placement = none ∧ stepDue snapshot component = false) ∨
    ∃ step, snapshot.componentStep sha256 component placement = some step ∧
      stepDue snapshot component = true ∧
      (MakesNew sha256 snapshot component step ∨ ∃ inst, GoesOn snapshot component step inst) := by
  have hselect : snapshot.componentStep sha256 component placement =
      currentInstanceStep sha256 snapshot (selectedInstance snapshot component)
        component.componentId placement (snapshot.activationOf component) := rfl
  rw [hselect, stepDue]
  cases hselected : selectedInstance snapshot component with
  | none => exact .inr ⟨_, rfl, rfl, .inl ⟨.inl hselected, rfl, rfl, rfl⟩⟩
  | some inst =>
    obtain ⟨hcurrent, hactivation⟩ := selectedInstance_some hselected
    obtain ⟨hmem, hcomponent, hgeneration⟩ := mem_instances_of_current hcurrent
    unfold currentInstanceStep
    dsimp only
    by_cases hheld : inst.diagnosticCode = some (js "LIFECYCLE_RESTORE_FAILED") ∧
        retryPending inst snapshot.now
    · have hrestore : restoreHeld snapshot inst = true := by
        rw [restoreHeld, Bool.and_eq_true, beq_iff_eq]
        exact hheld
      rw [if_pos hheld, hrestore]
      exact .inl ⟨rfl, rfl⟩
    · have hrestore : restoreHeld snapshot inst = false := by
        rw [Bool.eq_false_iff, restoreHeld, ne_eq, Bool.and_eq_true, beq_iff_eq]
        exact hheld
      rw [if_neg hheld, hrestore]
      -- the step of the instance with this effect
      have hid : ∀ kind, (planStep sha256 snapshot.deployment component.componentId kind placement
          (some inst.revision) inst.lifecycle (snapshot.activationOf component)
          inst.legacyActivation inst.executionBinding).instanceId = inst.instanceId := by
        intro kind
        rw [h.instanceId_eq hmem, hcomponent, hgeneration, identityActivation, hactivation]
        exact identitiesFor_instanceId _ _ _ _ _
      have hgoes : ∀ kind, inst.lifecycle ≠ .stopped → MayBegin kind inst.lifecycle →
          GoesOn snapshot component (planStep sha256 snapshot.deployment component.componentId kind
            placement (some inst.revision) inst.lifecycle (snapshot.activationOf component)
            inst.legacyActivation inst.executionBinding) inst := fun kind hlive hbegins =>
        ⟨hselected, hlive, hid kind, rfl, hbegins⟩
      cases hlife : inst.lifecycle with
      | stopped =>
        exact .inr ⟨_, rfl, rfl, .inl ⟨.inr ⟨inst, hselected, hlife, hrestore⟩, rfl, rfl, rfl⟩⟩
      | created =>
        rw [hlife] at hgoes
        exact .inr ⟨_, rfl, rfl, .inr ⟨inst, hgoes .prepare (by decide) (by rintro next ⟨⟩)⟩⟩
      | preparing | starting =>
        rw [hlife] at hgoes
        exact .inr ⟨_, rfl, rfl, .inr ⟨inst, hgoes .start (by decide) (by rintro next ⟨⟩; decide)⟩⟩
      | draining | stopping =>
        rw [hlife] at hgoes
        exact .inr ⟨_, rfl, rfl, .inr ⟨inst, hgoes .stop (by decide) (by rintro next ⟨⟩; decide)⟩⟩
      | ready | degraded => exact .inl ⟨rfl, rfl⟩
      | failed =>
        rw [hlife] at hgoes
        cases hretry : inst.retryEffect with
        | none => exact .inl ⟨rfl, rfl⟩
        | some kind =>
          cases hpending : retryPending inst snapshot.now with
          | true => exact .inl ⟨rfl, rfl⟩
          | false =>
            exact .inr ⟨_, rfl, rfl, .inr ⟨inst, hgoes kind (by decide) (mayBegin_failed kind)⟩⟩

/-! ## All steps -/

def stepIdentity (sha256 : Sha256) (snapshot : ReconcileSnapshot) (component : PluginComponent) :
    JsString :=
  match selectedInstance snapshot component with
  | none => newIdentity sha256 snapshot component
  | some inst =>
    if inst.lifecycle = .stopped then newIdentity sha256 snapshot component else inst.instanceId

theorem MakesNew.stepIdentity_eq (h : MakesNew sha256 snapshot component step) :
    step.instanceId = stepIdentity sha256 snapshot component := by
  rw [h.instanceId, stepIdentity]
  rcases h.free with hnone | ⟨inst, hsome, hstopped, -⟩
  · rw [hnone]
  · rw [hsome]
    exact (if_pos hstopped).symm

theorem GoesOn.stepIdentity_eq (h : GoesOn snapshot component step inst) :
    step.instanceId = stepIdentity sha256 snapshot component := by
  rw [h.instanceId, stepIdentity, h.selected]
  exact (if_neg h.live).symm

variable {components : List PluginComponent}

theorem componentLoop_cons (hplaced : (snapshot.placementOf domainToASCII component).ok = true)
    (rest : List PluginComponent) :
    ∃ placement, (snapshot.componentLoop sha256 domainToASCII (component :: rest)).1 =
      (snapshot.componentStep sha256 component placement).toList ++
        (snapshot.componentLoop sha256 domainToASCII rest).1 := by
  obtain ⟨placement, hplacement⟩ | ⟨d, hfailed⟩ :=
    placementOf_cases domainToASCII snapshot component
  · exact ⟨placement, by simp only [componentLoop, hplacement]⟩
  · rw [hfailed] at hplaced
    cases hplaced

theorem componentLoop_identities (h : RecordedInstances sha256 snapshot)
    (hplaced : ∀ component ∈ components, (snapshot.placementOf domainToASCII component).ok = true) :
    (snapshot.componentLoop sha256 domainToASCII components).1.map (·.instanceId) =
        (components.filter (stepDue snapshot)).map (stepIdentity sha256 snapshot) ∧
      ∀ step ∈ (snapshot.componentLoop sha256 domainToASCII components).1,
        ∃ component ∈ components,
          MakesNew sha256 snapshot component step ∨ ∃ inst, GoesOn snapshot component step inst := by
  induction components with
  | nil => exact ⟨rfl, fun _ hstep => absurd hstep not_mem_nil⟩
  | cons component rest ih =>
    obtain ⟨hidentities, hsteps⟩ := ih fun c hc => hplaced c (mem_cons_of_mem _ hc)
    obtain ⟨placement, hloop⟩ := componentLoop_cons _ (hplaced component mem_cons_self) rest
    rw [hloop]
    obtain ⟨hnone, hdue⟩ | ⟨step, hsome, hdue, hcases⟩ := componentStep_cases h component placement
    · rw [hnone, filter_cons_of_neg (by rw [hdue]; decide)]
      refine ⟨hidentities, fun step hstep => ?_⟩
      obtain ⟨c, hc, hcase⟩ := hsteps step hstep
      exact ⟨c, mem_cons_of_mem _ hc, hcase⟩
    · have hid : step.instanceId = stepIdentity sha256 snapshot component := by
        rcases hcases with hnew | ⟨inst, hgoes⟩
        · exact hnew.stepIdentity_eq
        · exact hgoes.stepIdentity_eq
      rw [hsome, filter_cons_of_pos hdue, map_cons, ← hidentities, ← hid]
      refine ⟨rfl, fun other hother => ?_⟩
      rcases mem_append.mp hother with hhead | htail
      · obtain rfl := mem_singleton.mp hhead
        exact ⟨component, mem_cons_self, hcases⟩
      · obtain ⟨c, hc, hcase⟩ := hsteps other htail
        exact ⟨c, mem_cons_of_mem _ hc, hcase⟩

/-- A new instance is made under an identity that is not recorded, unless it is made in
place. -/
theorem recordOf_newIdentity (h : RecordedInstances sha256 snapshot)
    (hsha : KeepsApart sha256 (identityTexts snapshot))
    (hmem : component ∈ snapshot.activeComponents)
    (hnew : MakesNew sha256 snapshot component step) :
    snapshot.recordOf step.instanceId = none ↔ ¬ RestartsInPlace snapshot component := by
  -- what is recorded under the identity of a new instance is of this component and activation
  have hother : ∀ other ∈ snapshot.instances, other.instanceId = step.instanceId ↔
      other ∈ snapshot.currentInstances component ∧
        other.activation = snapshot.activationOf component ∧ other.legacyActivation = false := by
    intro other hother
    rw [hnew.instanceId, h.instanceId_eq hother, newIdentity]
    refine ⟨fun heq => ?_, fun ⟨hcurrent, hactivation, hlegacy⟩ => ?_⟩
    · obtain ⟨hcomponent, hgeneration, hidentity⟩ := (identified_of_mem hother).inj hsha
        (identified_of_component hmem) heq
      refine ⟨mem_currentInstances h hother hcomponent hgeneration, ?_⟩
      unfold identityActivation at hidentity
      split at hidentity
      · cases hidentity
      · next hlegacy => exact ⟨Option.some.inj hidentity, Bool.eq_false_iff.mpr hlegacy⟩
    · obtain ⟨-, hcomponent, hgeneration⟩ := mem_instances_of_current hcurrent
      rw [hcomponent, hgeneration, identityActivation, hlegacy, hactivation]
      rfl
  unfold recordOf
  rw [find?_eq_none]
  refine ⟨fun hnone hrestarts => ?_, fun hnot other hmemOther hid => ?_⟩
  · obtain ⟨-, -, -, -, other, hcurrent, hactivation, hlegacy⟩ := hrestarts
    obtain ⟨hmemOther, -⟩ := mem_instances_of_current hcurrent
    exact hnone other hmemOther (decide_eq_true
      ((hother other hmemOther).mpr ⟨hcurrent, hactivation, hlegacy⟩))
  · obtain ⟨hcurrent, hactivation, hlegacy⟩ := (hother other hmemOther).mp (of_decide_eq_true hid)
    rcases hnew.free with hnone | ⟨inst, hsome, hstopped, hheld⟩
    · have hmiss := find?_eq_none.mp hnone other hcurrent
      exact hmiss (decide_eq_true hactivation)
    · exact hnot ⟨inst, hsome, hstopped, hheld, other, hcurrent, hactivation, hlegacy⟩

theorem stepIdentity_eq (h : RecordedInstances sha256 snapshot)
    (hmem : component ∈ snapshot.activeComponents) :
    ∃ activation, Identified snapshot component.componentId snapshot.deployment.generation activation ∧
      stepIdentity sha256 snapshot component = portableStableId sha256
        (instanceParts snapshot.deployment.applicationId snapshot.deployment.pluginId
          component.componentId snapshot.deployment.generation activation) := by
  rw [stepIdentity]
  cases hselected : selectedInstance snapshot component with
  | none => exact ⟨_, identified_of_component hmem, rfl⟩
  | some inst =>
    dsimp only
    split
    · exact ⟨_, identified_of_component hmem, rfl⟩
    obtain ⟨hcurrent, -⟩ := selectedInstance_some hselected
    obtain ⟨hinst, hcomponent, hgeneration⟩ := mem_instances_of_current hcurrent
    refine ⟨identityActivation inst, ?_, ?_⟩
    · have hidentified := identified_of_mem hinst
      rwa [hcomponent, hgeneration] at hidentified
    · rw [h.instanceId_eq hinst, hcomponent, hgeneration]

theorem stepIdentity_congr {other : PluginComponent}
    (h : component.componentId = other.componentId) :
    stepIdentity sha256 snapshot component = stepIdentity sha256 snapshot other := by
  have hcurrent : snapshot.currentInstances component = snapshot.currentInstances other := by
    unfold currentInstances
    rw [h]
  have hactivation : snapshot.activationOf component = snapshot.activationOf other := by
    unfold activationOf
    rw [h, hcurrent]
  unfold stepIdentity selectedInstance newIdentity
  rw [hcurrent, hactivation, h]

section

variable (h : RecordedInstances sha256 snapshot)
include h

theorem componentLoop_due
    (hplaced : ∀ component ∈ components, (snapshot.placementOf domainToASCII component).ok = true)
    (hmem : component ∈ components)
    (hdue : stepDue snapshot component = true) :
    ∃ step ∈ (snapshot.componentLoop sha256 domainToASCII components).1,
      MakesNew sha256 snapshot component step ∨ ∃ inst, GoesOn snapshot component step inst := by
  induction components with
  | nil => exact absurd hmem not_mem_nil
  | cons first rest ih =>
    obtain ⟨placement, hloop⟩ := componentLoop_cons _ (hplaced first mem_cons_self) rest
    rw [hloop]
    rcases mem_cons.mp hmem with rfl | hrest
    · obtain ⟨-, hnot⟩ | ⟨step, hsome, -, hcases⟩ := componentStep_cases h component placement
      · rw [hdue] at hnot
        cases hnot
      · rw [hsome]
        exact ⟨step, mem_cons_self, hcases⟩
    · obtain ⟨step, hstep, hcases⟩ := ih (fun c hc => hplaced c (mem_cons_of_mem _ hc)) hrest
      exact ⟨step, mem_append_right _ hstep, hcases⟩

theorem componentLoop_restarts
    (hplaced : ∀ component ∈ components, (snapshot.placementOf domainToASCII component).ok = true)
    (hmem : component ∈ components)
    (hselected : selectedInstance snapshot component = some inst)
    (hstopped : inst.lifecycle = .stopped) (hheld : restoreHeld snapshot inst = false) :
    ∃ step ∈ (snapshot.componentLoop sha256 domainToASCII components).1,
      MakesNew sha256 snapshot component step := by
  have hdue : stepDue snapshot component = true := by
    rw [stepDue, hselected]
    dsimp only
    rw [hheld, hstopped]
    rfl
  obtain ⟨step, hstep, hnew | ⟨other, hgoes⟩⟩ := componentLoop_due _ h hplaced hmem hdue
  · exact ⟨step, hstep, hnew⟩
  · obtain rfl := Option.some.inj (hselected.symm.trans hgoes.selected)
    exact absurd hstopped hgoes.live

theorem obsoleteSteps_identities :
    ((snapshot.obsoleteSteps sha256).map (·.instanceId)).Nodup ∧
      ∀ step ∈ snapshot.obsoleteSteps sha256, ∃ inst ∈ snapshot.instances,
        snapshot.obsolete inst.deploymentGeneration = true ∧
          step.instanceId = inst.instanceId ∧ step.expectedRevision = some inst.revision ∧
          MayBegin step.effect.kind inst.lifecycle := by
  have happlies : ∀ inst ∈ snapshot.sortedInstances, ∀ step,
      oldInstanceStep sha256 snapshot.deployment inst snapshot.now = some step →
        inst ∈ snapshot.instances ∧ step.instanceId = inst.instanceId ∧
          step.expectedRevision = some inst.revision ∧
          MayBegin step.effect.kind inst.lifecycle := by
    intro inst hsorted step hstep
    rw [sortedInstances, mem_sortBy] at hsorted
    have hmem := (mem_filter.mp hsorted).1
    exact ⟨hmem, oldInstanceStep_applies h hmem hstep⟩
  constructor
  · -- in the order of the instances, some of them left out
    have hsublist : ∀ l : List ComponentInstance, (∀ inst ∈ l, inst ∈ snapshot.sortedInstances) →
        ((l.filterMap fun inst => oldInstanceStep sha256 snapshot.deployment inst
          snapshot.now).map (·.instanceId)).Sublist (l.map (·.instanceId)) := by
      intro l
      induction l with
      | nil => exact fun _ => List.Sublist.refl _
      | cons inst rest ih =>
        intro hin
        have htail := ih fun i hi => hin i (mem_cons_of_mem _ hi)
        rw [map_cons]
        cases hstep : oldInstanceStep sha256 snapshot.deployment inst snapshot.now with
        | none =>
          rw [@List.filterMap_cons_none _ _ _ inst rest hstep]
          exact htail.cons _
        | some step =>
          obtain ⟨-, hid, -⟩ := happlies inst (hin inst mem_cons_self) step hstep
          rw [@List.filterMap_cons_some _ _ _ inst rest step hstep, map_cons, hid]
          exact htail.cons_cons _
    have hsorted : (snapshot.sortedInstances.map (·.instanceId)).Nodup := by
      rw [sortedInstances]
      refine ((sortBy_perm _ _).map _).nodup_iff.mpr ?_
      exact h.keys.sublist (filter_sublist.map _)
    refine (hsorted.sublist (filter_sublist.map _)).sublist
      (hsublist (snapshot.sortedInstances.filter fun inst =>
        snapshot.obsolete inst.deploymentGeneration) fun inst hin => ?_)
    exact (mem_filter.mp hin).1
  · intro step hstep
    obtain ⟨inst, hin, hold⟩ := mem_filterMap.mp hstep
    obtain ⟨hsorted, hobsolete⟩ := mem_filter.mp hin
    obtain ⟨hmem, happlies⟩ := happlies inst hsorted step hold
    exact ⟨inst, hmem, hobsolete, happlies⟩

theorem loops_disjoint (hsha : KeepsApart sha256 (identityTexts snapshot))
    (hstep : step ∈ snapshot.obsoleteSteps sha256)
    (hmem : component ∈ snapshot.activeComponents) :
    step.instanceId ≠ stepIdentity sha256 snapshot component := by
  intro heq
  obtain ⟨inst, hinst, hobsolete, hid, -⟩ := (obsoleteSteps_identities h).2 step hstep
  obtain ⟨activation, hidentified, hidentity⟩ := stepIdentity_eq h hmem
  rw [hid, h.instanceId_eq hinst, hidentity] at heq
  -- the first loop takes other generations, unless the second has no components
  obtain ⟨-, hgeneration, -⟩ := (identified_of_mem hinst).inj hsha hidentified heq
  rw [hgeneration] at hobsolete
  rw [activeComponents_eq_nil hobsolete] at hmem
  exact absurd hmem not_mem_nil

theorem stepIdentities_nodup_iff (hsha : KeepsApart sha256 (identityTexts snapshot))
    (hmem : ∀ component ∈ components, component ∈ snapshot.activeComponents) :
    (components.map (stepIdentity sha256 snapshot)).Nodup ↔
      (components.map (·.componentId)).Nodup := by
  have hiff : ∀ component ∈ components, ∀ other ∈ components,
      stepIdentity sha256 snapshot component = stepIdentity sha256 snapshot other ↔
        component.componentId = other.componentId := by
    refine fun component hc other ho => ⟨fun heq => ?_, stepIdentity_congr⟩
    obtain ⟨activation, hidentified, hid⟩ := stepIdentity_eq h (hmem component hc)
    obtain ⟨activation', hidentified', hid'⟩ := stepIdentity_eq h (hmem other ho)
    rw [hid, hid'] at heq
    exact (hidentified.inj hsha hidentified' heq).1
  clear hmem
  induction components with
  | nil => exact iff_of_true nodup_nil nodup_nil
  | cons component rest ih =>
    rw [map_cons, map_cons, nodup_cons, nodup_cons, mem_map, mem_map]
    refine and_congr (not_congr ⟨?_, ?_⟩) (ih fun c hc other ho =>
      hiff c (mem_cons_of_mem _ hc) other (mem_cons_of_mem _ ho))
    · rintro ⟨other, ho, heq⟩
      exact ⟨other, ho, (hiff other (mem_cons_of_mem _ ho) component mem_cons_self).mp heq⟩
    · rintro ⟨other, ho, heq⟩
      exact ⟨other, ho, (hiff other (mem_cons_of_mem _ ho) component mem_cons_self).mpr heq⟩

end

/-! ## The plan -/

/-- **When a plan applies to its snapshot**: exactly if it is blocked, or plans nothing anew
in place and no two steps for one component. -/
theorem planApplicable_iff (h : RecordedInstances sha256 snapshot)
    (hsha : KeepsApart sha256 (identityTexts snapshot)) :
    PlanApplicable sha256 domainToASCII snapshot ↔ PlansDistinctly domainToASCII snapshot := by
  by_cases hblocked : PlanningBlocked domainToASCII snapshot
  · have hsteps := planReconcile_steps_of_blocked sha256 domainToASCII hblocked
    refine ⟨fun _ => .inl hblocked, fun _ => ⟨?_, ?_, ?_⟩⟩
    · rw [hsteps]
      exact fun _ hstep => absurd hstep not_mem_nil
    · rw [hsteps]
      exact nodup_nil
    · rw [hsteps]
      exact fun _ hstep => absurd hstep not_mem_nil
  have hsteps := planReconcile_steps sha256 domainToASCII hblocked
  have hplaced : ∀ component ∈ snapshot.activeComponents,
      (snapshot.placementOf domainToASCII component).ok = true := fun component hmem =>
    (Bool.eq_false_or_eq_true _).resolve_right fun hfailed =>
      hblocked (.inr (.inr (.inr ⟨component, hmem, hfailed⟩)))
  obtain ⟨hdistinct, hold⟩ := obsoleteSteps_identities h
  obtain ⟨hidentities, hcurrent⟩ := componentLoop_identities domainToASCII h hplaced
  have hdue : ∀ component ∈ snapshot.activeComponents.filter (stepDue snapshot),
      component ∈ snapshot.activeComponents := fun _ hmem => (mem_filter.mp hmem).1
  -- the identities of all steps are distinct exactly if the names of the due components are
  have hnodup : ((planReconcile sha256 domainToASCII snapshot).steps.map (·.instanceId)).Nodup ↔
      ((snapshot.activeComponents.filter (stepDue snapshot)).map (·.componentId)).Nodup := by
    rw [hsteps, map_append, hidentities, nodup_append,
      stepIdentities_nodup_iff h hsha hdue]
    refine ⟨fun hall => hall.2.1, fun hnames => ⟨hdistinct, hnames, ?_⟩⟩
    intro id hid id' hid' heq
    obtain ⟨step, hstep, rfl⟩ := mem_map.mp hid
    obtain ⟨component, hmem, rfl⟩ := mem_map.mp hid'
    exact loops_disjoint h hsha hstep (hdue component hmem) heq
  constructor
  · intro happlies
    refine .inr ⟨fun component hmem hrestarts => ?_, hnodup.mp happlies.distinct⟩
    obtain ⟨inst, hselected, hstopped, hheld, hother⟩ := hrestarts
    -- its step is in the plan, and expects no record
    obtain ⟨step, hstep, hnew⟩ := componentLoop_restarts domainToASCII h hplaced hmem hselected hstopped hheld
    have hrevision := happlies.revision step (by
      rw [hsteps]
      exact mem_append_right _ hstep)
    rw [hnew.absent, eq_comm, Option.map_eq_none_iff, recordOf_newIdentity h hsha hmem hnew]
      at hrevision
    exact hrevision ⟨inst, hselected, hstopped, hheld, hother⟩
  · rintro (hb | ⟨hnew, hnames⟩)
    · exact absurd hb hblocked
    -- every step is for an instance that is recorded, or makes one that is not
    have hcases : ∀ step ∈ (planReconcile sha256 domainToASCII snapshot).steps,
        (snapshot.recordOf step.instanceId = none ∧ step.expectedRevision = none) ∨
          ∃ inst, snapshot.recordOf step.instanceId = some inst ∧
            step.expectedRevision = some inst.revision ∧
            MayBegin step.effect.kind inst.lifecycle := by
      intro step hstep
      rw [hsteps] at hstep
      rcases mem_append.mp hstep with hfirst | hsecond
      · obtain ⟨inst, hmem, -, hid, hrevision, hbegins⟩ := hold step hfirst
        rw [hid]
        exact .inr ⟨inst, h.recordOf_instanceId hmem, hrevision, hbegins⟩
      · obtain ⟨component, hmem, hmakes | ⟨inst, hgoes⟩⟩ := hcurrent step hsecond
        · exact .inl ⟨(recordOf_newIdentity h hsha hmem hmakes).mpr (hnew component hmem),
            hmakes.absent⟩
        · have hinst := (mem_instances_of_current (selectedInstance_some hgoes.selected).1).1
          rw [hgoes.instanceId]
          exact .inr ⟨inst, h.recordOf_instanceId hinst, hgoes.revision, hgoes.begins⟩
    refine ⟨fun step hstep => ?_, hnodup.mpr hnames, fun step hstep inst hrecord observedAt => ?_⟩
    · obtain ⟨hnone, habsent⟩ | ⟨inst, hsome, hrevision, -⟩ := hcases step hstep
      · rw [hnone, habsent]
        rfl
      · rw [hsome, hrevision]
        rfl
    · obtain ⟨hnone, -⟩ | ⟨other, hsome, -, hbegins⟩ := hcases step hstep
      · rw [hnone] at hrecord
        cases hrecord
      · obtain rfl := Option.some.inj (hsome.symm.trans hrecord)
        exact preEffectLifecycle_of_mayBegin hbegins observedAt

end Planner

/-! ## A stopped component of an active deployment -/

def stoppedInstance : ComponentInstance :=
  { failedInstance with lifecycle := .stopped, hasStarted := some true, retryEffect := none }

/-- Its deployment is active, and no activation is asked for. -/
def restartSnapshot : ReconcileSnapshot :=
  { disabledSnapshot with
    deployment := ⟨appId, pluginId, js "sha256:00", 1, .active⟩
    gate := { disabledSnapshot.gate with
      permissionDecision :=
        ⟨true, [], some [.executor [.process]], some [.executor [.process]]⟩ }
    instances := [stoppedInstance] }

/-- **The component is planned anew under the identity of the stopped instance.** -/
theorem restartSnapshot_not_applicable :
    ¬ PlanApplicable (fun _ => Vector.replicate 64 0) id restartSnapshot := by
  intro h
  obtain ⟨step, hmem, hrevision, hid⟩ :
      ∃ step ∈ (planReconcile (fun _ => Vector.replicate 64 0) id restartSnapshot).steps,
        step.expectedRevision = none ∧ step.instanceId = js "app.plugin.main.g1.a1" := by
    refine ⟨_, mem_singleton_self _, ?_, ?_⟩ <;> rfl
  have hexpected := h.revision step hmem
  rw [hrevision, hid] at hexpected
  exact absurd hexpected (by decide)

/-- The next activation is asked for. -/
def activationSnapshot : ReconcileSnapshot := { restartSnapshot with activations := [(mainId, 2)] }

/-- The digests of its two identities. -/
def activationDigests : Sha256 := fun text =>
  if text = js "[\"app\",\"plugin\",\"main\",\"g1\",\"a1\"]" then stopDigests text
  else
    #v[11, 2, 12, 14, 2, 7, 2, 8, 13, 11, 8, 14, 6, 4, 2, 10,
      14, 11, 6, 4, 14, 2, 9, 1, 2, 7, 6, 1, 6, 13, 12, 13,
      15, 14, 11, 11, 1, 4, 14, 2, 13, 5, 15, 15, 8, 1, 3, 8,
      0, 15, 6, 15, 9, 11, 7, 13, 4, 9, 12, 5, 4, 13, 15, 3]

theorem activationSnapshot_applicable :
    PlanApplicable activationDigests id activationSnapshot ↔
      PlansDistinctly id activationSnapshot :=
  planApplicable_iff id ⟨by decide, by decide, by decide⟩ (by unfold KeepsApart; decide)

end TegoNext
