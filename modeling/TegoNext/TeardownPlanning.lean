/-
What the planner does with instances the deployment no longer wants.

Such an instance should only be torn down. Of its lifecycle states, one is
planned otherwise: a failed instance repeats the effect that failed, and that may
be a prepare or a start.
-/
import TegoNext.ReconcilePlan

set_option autoImplicit false

namespace TegoNext

open Text ReconcileSnapshot List Option

section Planner

variable (sha256 : Sha256) (domainToASCII : JsString → JsString)

/-! ## One instance -/

variable {step : ReconcilePlanStep}

/-- The step of an unwanted instance drains or stops, or repeats a failed effect. -/
theorem oldInstanceStep_cases {deployment : PluginDeployment} {inst : ComponentInstance}
    {now : JsString}
    (h : oldInstanceStep sha256 deployment inst now = some step) :
    step.effect.deploymentGeneration = inst.deploymentGeneration ∧
      (step.effect.kind = .drain ∨ step.effect.kind = .stop ∨
        (inst.lifecycle = .failed ∧ inst.retryEffect = some step.effect.kind ∧
          retryPending inst now = false)) := by
  unfold oldInstanceStep at h
  cases hlife : inst.lifecycle <;> simp only [hlife] at h
  case failed =>
      cases hretry : inst.retryEffect with
      | none => simp [hretry] at h
      | some kind =>
        simp only [hretry, ite_none_left_eq_some, Bool.not_eq_true] at h
        obtain ⟨hdue, h⟩ := h
        obtain rfl := some.inj h
        exact ⟨rfl, .inr (.inr ⟨rfl, rfl, hdue⟩)⟩
  case draining =>
      split at h <;> obtain rfl := some.inj h
      · exact ⟨rfl, .inr (.inl rfl)⟩
      · exact ⟨rfl, .inl rfl⟩
  case stopping =>
      obtain rfl := some.inj h
      exact ⟨rfl, .inr (.inl rfl)⟩
  case stopped => cases h
  all_goals
    obtain rfl := some.inj h
    exact ⟨rfl, .inl rfl⟩

theorem oldInstanceStep_of_failed {deployment : PluginDeployment} {inst : ComponentInstance}
    {now : JsString} {kind : ReconcileEffectKind} (hlife : inst.lifecycle = .failed)
    (hretry : inst.retryEffect = some kind) (hdue : retryPending inst now = false) :
    ∃ step, oldInstanceStep sha256 deployment inst now = some step ∧ step.effect.kind = kind ∧
      step.effect.deploymentGeneration = inst.deploymentGeneration := by
  refine ⟨instanceStep sha256 (oldDeployment deployment inst) inst kind
    ⟨inst.executor, inst.workerId⟩ inst.activation, ?_, rfl, rfl⟩
  simp [oldInstanceStep, hlife, hretry, hdue]

variable {snapshot : ReconcileSnapshot}

theorem currentInstanceStep_generation
    {current : Option ComponentInstance} {componentId : PortableId}
    {placement : ComponentPlacement} {activation : Activation}
    (h : currentInstanceStep sha256 snapshot current componentId placement activation = some step) :
    step.effect.deploymentGeneration = snapshot.deployment.generation := by
  unfold currentInstanceStep at h
  split at h
  · obtain rfl := some.inj h
    rfl
  next inst =>
  split at h
  · cases h
  cases hlife : inst.lifecycle <;> simp only [hlife] at h
  case failed =>
      cases hretry : inst.retryEffect with
      | none => simp [hretry] at h
      | some kind =>
        simp only [hretry, ite_none_left_eq_some] at h
        obtain rfl := some.inj h.2
        rfl
  case ready => cases h
  case degraded => cases h
  all_goals
    obtain rfl := some.inj h
    rfl

/-! ## The loops -/

theorem mem_obsoleteSteps :
    step ∈ snapshot.obsoleteSteps sha256 ↔
      ∃ inst ∈ snapshot.instances, inst.applicationId = snapshot.deployment.applicationId ∧
        snapshot.obsolete inst.deploymentGeneration = true ∧
        oldInstanceStep sha256 snapshot.deployment inst snapshot.now = some step := by
  simp only [obsoleteSteps, sortedInstances, mem_filterMap, mem_filter, mem_sortBy,
    decide_eq_true_eq]
  exact ⟨fun ⟨inst, ⟨⟨hmem, happ⟩, hobs⟩, hstep⟩ => ⟨inst, hmem, happ, hobs, hstep⟩,
    fun ⟨inst, hmem, happ, hobs, hstep⟩ => ⟨inst, ⟨⟨hmem, happ⟩, hobs⟩, hstep⟩⟩

theorem placementOf_cases (snapshot : ReconcileSnapshot) (component : PluginComponent) :
    (∃ placement, snapshot.placementOf domainToASCII component =
        { ok := true, diagnostics := [], placement := some placement }) ∨
      ∃ d, snapshot.placementOf domainToASCII component =
        { ok := false, diagnostics := [d], placement := none } :=
  planPlacement_cases domainToASCII _

theorem componentLoop_diagnostics
    {components : List PluginComponent} :
    (snapshot.componentLoop sha256 domainToASCII components).2 = [] ↔
      ∀ component ∈ components, (snapshot.placementOf domainToASCII component).ok = true := by
  induction components with
  | nil => simp [componentLoop]
  | cons component components ih =>
    rw [forall_mem_cons, ← ih]
    rcases placementOf_cases domainToASCII snapshot component with
      ⟨placement, hplaced⟩ | ⟨d, hfailed⟩
    · simp [componentLoop, hplaced]
    · simp [componentLoop, hfailed]

theorem componentLoop_generation
    {components : List PluginComponent}
    (h : step ∈ (snapshot.componentLoop sha256 domainToASCII components).1) :
    step.effect.deploymentGeneration = snapshot.deployment.generation := by
  induction components with
  | nil => cases h
  | cons component components ih =>
    simp only [componentLoop] at h
    split at h
    · rcases mem_append.mp h with h | h
      · exact currentInstanceStep_generation sha256 (mem_toList.mp h)
      · exact ih h
    · exact ih h

/-- The second loop runs over nothing unless the deployment's own generation is
wanted. -/
theorem activeComponents_eq_nil (h : snapshot.obsolete snapshot.deployment.generation = true) :
    snapshot.activeComponents = [] := by
  unfold activeComponents
  rw [if_neg]
  rintro ⟨hactive, hrunning⟩
  simp [obsolete, hactive, hrunning] at h

/-! ## The plan -/

/-- The planner emits nothing: a gate is closed, a component has several live
instances, or a component cannot be placed. -/
def PlanningBlocked (snapshot : ReconcileSnapshot) : Prop :=
  snapshot.gate.capabilityResolution.ok = false ∨
    snapshot.gate.permissionDecision.allowed = false ∨
    (∃ component ∈ snapshot.gate.components, 1 < (snapshot.liveInstances component).length) ∨
    ∃ component ∈ snapshot.activeComponents,
      (snapshot.placementOf domainToASCII component).ok = false

def RelaunchDue (inst : ComponentInstance) (now : JsString) : Prop :=
  inst.lifecycle = .failed ∧ retryPending inst now = false ∧
    (inst.retryEffect = some .prepare ∨ inst.retryEffect = some .start)

/-- Every planned step for an unwanted instance drains or stops it. -/
def TeardownOnly (snapshot : ReconcileSnapshot) : Prop :=
  ∀ step ∈ (planReconcile sha256 domainToASCII snapshot).steps,
    snapshot.obsolete step.effect.deploymentGeneration = true →
      step.effect.kind = .drain ∨ step.effect.kind = .stop

theorem planReconcile_steps_of_blocked (h : PlanningBlocked domainToASCII snapshot) :
    (planReconcile sha256 domainToASCII snapshot).steps = [] := by
  unfold planReconcile
  dsimp only
  split
  · rfl
  next hgate =>
  split
  · rfl
  next hconsistent =>
  rw [if_neg]
  rw [List.isEmpty_iff, componentLoop_diagnostics]
  intro hplaced
  rcases h with h | h | ⟨component, hmem, hlive⟩ | ⟨component, hmem, hfailed⟩
  · simp [h] at hgate
  · simp [h] at hgate
  · refine hconsistent fun hnil => ?_
    rw [inconsistent, map_eq_nil_iff, filter_eq_nil_iff] at hnil
    exact hnil component hmem (decide_eq_true hlive)
  · exact Bool.false_ne_true (hfailed.symm.trans (hplaced component hmem))

theorem planReconcile_steps (h : ¬ PlanningBlocked domainToASCII snapshot) :
    (planReconcile sha256 domainToASCII snapshot).steps =
      snapshot.obsoleteSteps sha256 ++
        (snapshot.componentLoop sha256 domainToASCII snapshot.activeComponents).1 := by
  simp only [PlanningBlocked, not_or, Bool.not_eq_false, not_exists, not_and] at h
  obtain ⟨hcapability, hpermission, hlive, hplaced⟩ := h
  have hconsistent : snapshot.inconsistent = [] := by
    rw [inconsistent, map_eq_nil_iff, filter_eq_nil_iff]
    intro component hmem hmany
    exact hlive component hmem (of_decide_eq_true hmany)
  have hdiagnostics :
      (snapshot.componentLoop sha256 domainToASCII snapshot.activeComponents).2 = [] :=
    (componentLoop_diagnostics sha256 domainToASCII).mpr hplaced
  simp [planReconcile, hcapability, hpermission, hconsistent, hdiagnostics]

/-- **Unwanted instances are only torn down, exactly while none of them waits to
repeat a prepare or a start.** A blocked plan has no steps at all. -/
theorem teardownOnly_iff (snapshot : ReconcileSnapshot) :
    TeardownOnly sha256 domainToASCII snapshot ↔
      PlanningBlocked domainToASCII snapshot ∨
        ∀ inst ∈ snapshot.instances, inst.applicationId = snapshot.deployment.applicationId →
          snapshot.obsolete inst.deploymentGeneration = true → ¬ RelaunchDue inst snapshot.now := by
  by_cases hblocked : PlanningBlocked domainToASCII snapshot
  · refine ⟨fun _ => .inl hblocked, fun _ step hstep => ?_⟩
    rw [planReconcile_steps_of_blocked sha256 domainToASCII hblocked] at hstep
    cases hstep
  have hsteps := planReconcile_steps sha256 domainToASCII hblocked
  constructor
  · -- a due relaunch of an unwanted instance is itself a step of the plan
    refine fun honly => .inr fun inst hmem happ hobs hdue => ?_
    obtain ⟨hlife, hretryAt, hretry⟩ := hdue
    obtain ⟨kind, hkind, hlaunch⟩ :
        ∃ kind, inst.retryEffect = some kind ∧ (kind = .prepare ∨ kind = .start) :=
      hretry.elim (fun h => ⟨_, h, .inl rfl⟩) fun h => ⟨_, h, .inr rfl⟩
    obtain ⟨step, hstep, heffect, hgeneration⟩ :
        ∃ step, oldInstanceStep sha256 snapshot.deployment inst snapshot.now = some step ∧
          step.effect.kind = kind ∧
          step.effect.deploymentGeneration = inst.deploymentGeneration :=
      oldInstanceStep_of_failed sha256 hlife hkind hretryAt
    have hplanned : step ∈ (planReconcile sha256 domainToASCII snapshot).steps := by
      rw [hsteps]
      exact mem_append_left _
        ((mem_obsoleteSteps sha256).mpr ⟨inst, hmem, happ, hobs, hstep⟩)
    have htear := honly step hplanned (hgeneration ▸ hobs)
    rw [heffect] at htear
    rcases hlaunch with rfl | rfl <;> simp at htear
  · rintro (h | hnone) step hstep hobs
    · exact absurd h hblocked
    · rw [hsteps] at hstep
      rcases mem_append.mp hstep with hstep | hstep
      · obtain ⟨inst, hmem, happ, hobs', hold⟩ := (mem_obsoleteSteps sha256).mp hstep
        obtain ⟨-, hdrain | hstop | ⟨hlife, hretry, hdue⟩⟩ := oldInstanceStep_cases sha256 hold
        · exact .inl hdrain
        · exact .inr hstop
        · have hnot := hnone inst hmem happ hobs'
          cases hkind : step.effect.kind with
          | drain => exact .inl rfl
          | stop => exact .inr rfl
          | prepare => exact absurd ⟨hlife, hdue, .inl (hkind ▸ hretry)⟩ hnot
          | start => exact absurd ⟨hlife, hdue, .inr (hkind ▸ hretry)⟩ hnot
      · -- the second loop runs only for a wanted generation
        rw [componentLoop_generation sha256 domainToASCII hstep] at hobs
        rw [activeComponents_eq_nil hobs] at hstep
        cases hstep

end Planner

/-! ## A relaunch of a disabled deployment -/

def appId : PortableId := ⟨js "app", rfl⟩

def pluginId : PortableId := ⟨js "plugin", rfl⟩

def mainId : PortableId := ⟨js "main", rfl⟩

/-- An instance that failed while it was prepared, ready to try again. -/
def failedInstance : ComponentInstance where
  instanceId := js "app.plugin.main.g1.a1"
  activation := 1
  legacyActivation := false
  hasStarted := some false
  applicationId := appId
  pluginId := pluginId
  componentId := mainId
  deploymentGeneration := 1
  observedGeneration := 1
  lifecycle := .failed
  executor := .process
  workerId := none
  artifactDigest := none
  executionBinding := none
  attempt := some 1
  retryAt := none
  retryEffect := some .prepare
  diagnosticCode := none
  completedOperationId := none
  completedOperationIds := none
  revision := 4

/-- The deployment of that instance has since been disabled. -/
def disabledSnapshot : ReconcileSnapshot where
  deployment := ⟨appId, pluginId, js "sha256:00", 1, .disabled⟩
  gate :=
    { components := [⟨mainId, [.process]⟩]
      capabilityResolution := ⟨true, [], [], some [], some []⟩
      permissionDecision := ⟨true, [], some [], some []⟩ }
  instances := [failedInstance]
  now := js "2026-01-01T00:00:00.000Z"
  supportedExecutors := [.process]
  workers := none
  suspended := false
  activations := []

/-- **A disabled deployment has its failed instance prepared again.** -/
theorem disabledSnapshot_relaunches :
    ¬ TeardownOnly (fun _ => Vector.replicate 64 0) id disabledSnapshot := by
  intro h
  obtain ⟨step, hmem, hobs, hkind⟩ :
      ∃ step ∈ (planReconcile (fun _ => Vector.replicate 64 0) id disabledSnapshot).steps,
        disabledSnapshot.obsolete step.effect.deploymentGeneration = true ∧
          step.effect.kind = .prepare := by
    refine ⟨_, mem_singleton_self _, ?_, ?_⟩ <;> rfl
  rcases h step hmem hobs with hdrain | hstop
  · exact absurd (hkind.symm.trans hdrain) (by decide)
  · exact absurd (hkind.symm.trans hstop) (by decide)

end TegoNext
