/-
The plan does not depend on the order of the snapshot's lists, and a component is planned under
one activation.

The planner sorts the instances and the components before it looks at them. Of the workers it
takes the first eligible one in the order of their names. Under the generation of an active
deployment a component has at most one step, under the activation that is asked for, or else the
highest one that is recorded.
-/
import TegoNext.CapabilityRearrangement
import TegoNext.PlanApplicability

set_option autoImplicit false

namespace TegoNext

open Text ReconcileSnapshot List Option

def ReconcileSnapshot.rearranged (snapshot : ReconcileSnapshot) (instances : List ComponentInstance)
    (components : List PluginComponent) (workers : Option (List PlacementWorker)) :
    ReconcileSnapshot :=
  { snapshot with
    instances := instances
    gate := { snapshot.gate with components := components }
    workers := workers }

/-! ## The workers -/

theorem find?_sorted {α : Type} {le : α → α → Prop} [Std.Refl le] {l : List α}
    (hsorted : l.Pairwise le) {p : α → Bool} {a : α} (hfind : l.find? p = some a) :
    ∀ b ∈ l, p b = true → le a b := by
  induction l with
  | nil => cases hfind
  | cons c l ih =>
    rw [pairwise_cons] at hsorted
    intro b hb hpb
    by_cases hc : p c = true
    · rw [find?_cons_of_pos hc] at hfind
      obtain rfl := some.inj hfind
      rcases mem_cons.mp hb with rfl | hb
      · exact Std.Refl.refl b
      · exact hsorted.1 b hb
    · rw [find?_cons_of_neg hc] at hfind
      rcases mem_cons.mp hb with rfl | hb
      · exact absurd hpb hc
      · exact ih hsorted.2 hfind b hb hpb

section Workers

variable (domainToASCII : JsString → JsString)

theorem map_find?_of_perm {α : Type} {key : α → JsString} (p : α → Bool) {l l' : List α}
    (hl : l.Pairwise fun a b => compareText (key a) (key b) ≠ .gt)
    (hl' : l'.Pairwise fun a b => compareText (key a) (key b) ≠ .gt) (hperm : l.Perm l') :
    (l.find? p).map key = (l'.find? p).map key := by
  have : Std.Refl fun a b : α => compareText (key a) (key b) ≠ .gt := ⟨fun a => by
    rw [compareText_self]
    decide⟩
  cases hfind : l.find? p with
  | none =>
    have hnone : l'.find? p = none := by
      rw [find?_eq_none] at hfind ⊢
      intro a ha
      exact hfind a (hperm.mem_iff.mpr ha)
    rw [hnone]
  | some a =>
    have ha := hperm.mem_iff.mp (mem_of_find?_eq_some hfind)
    cases hfind' : l'.find? p with
    | none => exact absurd (find?_some hfind) (find?_eq_none.mp hfind' a ha)
    | some b =>
      have hb := hperm.mem_iff.mpr (mem_of_find?_eq_some hfind')
      have hab := find?_sorted hl hfind b hb (find?_some hfind')
      have hba := find?_sorted hl' hfind' a ha (find?_some hfind)
      have heq := Std.OrientedCmp.isLE_antisymm (Ordering.ne_gt_iff_isLE.mp hab)
        (Ordering.ne_gt_iff_isLE.mp hba)
      rw [map_some, map_some, eq_of_compareText heq]

theorem findWorker_workerId {input : PlacementInput} {workers : Option (List PlacementWorker)}
    (h : (input.workers.getD []).Perm (workers.getD [])) :
    (findWorker domainToASCII input).map (·.workerId) =
      (findWorker domainToASCII { input with workers := workers }).map (·.workerId) := by
  have := transCmp_comap compareText fun worker : PlacementWorker => worker.workerId
  exact map_find?_of_perm _ (pairwise_insertionSort _ _) (pairwise_insertionSort _ _)
    ((sortBy_perm _ _).trans (h.trans (sortBy_perm _ _).symm))

theorem placementLoop_congr {input input' : PlacementInput}
    (hcomponent : input'.component = input.component)
    (hgranted : input'.grantedPermissions = input.grantedPermissions)
    (hexecutors : input'.supportedExecutors = input.supportedExecutors)
    (hworker : (findWorker domainToASCII input).map (·.workerId) =
      (findWorker domainToASCII input').map (·.workerId)) (executors : List ExecutorKind)
    (denied : Bool) :
    placementLoop domainToASCII input executors denied =
      placementLoop domainToASCII input' executors denied := by
  induction executors generalizing denied with
  | nil => rw [placementLoop, placementLoop, hcomponent]
  | cons executor rest ih =>
    have hallowed : executorAllowed domainToASCII input' executor =
        executorAllowed domainToASCII input executor := by
      rw [executorAllowed, executorAllowed, hgranted]
    rw [placementLoop, placementLoop, hcomponent, hexecutors, hallowed, ih, ih]
    cases hfind : findWorker domainToASCII input with
    | none =>
      rw [hfind, map_none, eq_comm, map_eq_none_iff] at hworker
      rw [hworker]
    | some worker =>
      rw [hfind, map_some, eq_comm, map_eq_some_iff] at hworker
      obtain ⟨worker', hfind', hid⟩ := hworker
      simp only [hfind', hid]

theorem planPlacement_perm {input : PlacementInput} {workers : Option (List PlacementWorker)}
    (h : (input.workers.getD []).Perm (workers.getD [])) :
    planPlacement domainToASCII input =
      planPlacement domainToASCII { input with workers := workers } :=
  @placementLoop_congr domainToASCII input { input with workers := workers } rfl rfl rfl
    (findWorker_workerId domainToASCII h) executorPreference false

end Workers

/-! ## The snapshot -/

section Snapshot

variable {snapshot : ReconcileSnapshot} {instances : List ComponentInstance}
  {components : List PluginComponent} {workers : Option (List PlacementWorker)}

def ReconcileSnapshot.InstancesDistinct (snapshot : ReconcileSnapshot) : Prop :=
  (snapshot.instances.map (·.instanceId)).Nodup

def ReconcileSnapshot.ComponentsDistinct (snapshot : ReconcileSnapshot) : Prop :=
  (snapshot.gate.components.map (·.componentId)).Nodup

theorem sortedInstances_rearranged (hdistinct : snapshot.InstancesDistinct)
    (h : snapshot.instances.Perm instances) :
    (snapshot.rearranged instances components workers).sortedInstances =
      snapshot.sortedInstances := by
  have := transCmp_comap compareText fun inst : ComponentInstance => inst.instanceId
  refine (sortBy_eq_of_perm (h.filter _) fun a ha b hb heq => ?_).symm
  exact inj_on_of_nodup_map hdistinct (mem_of_mem_filter ha) (mem_of_mem_filter hb)
    (eq_of_compareText heq)

theorem currentInstances_rearranged (hdistinct : snapshot.InstancesDistinct)
    (h : snapshot.instances.Perm instances) (component : PluginComponent) :
    (snapshot.rearranged instances components workers).currentInstances component =
      snapshot.currentInstances component := by
  rw [currentInstances, sortedInstances_rearranged hdistinct h]
  rfl

theorem activeComponents_rearranged (hdistinct : snapshot.ComponentsDistinct)
    (h : snapshot.gate.components.Perm components) :
    (snapshot.rearranged instances components workers).activeComponents =
      snapshot.activeComponents := by
  have := transCmp_comap compareText fun component : PluginComponent => component.componentId.text
  have hsorted : sortBy (fun left right : PluginComponent =>
      compareText left.componentId.text right.componentId.text) snapshot.gate.components =
      sortBy (fun left right : PluginComponent =>
        compareText left.componentId.text right.componentId.text) components :=
    sortBy_eq_of_perm h fun a ha b hb heq =>
      inj_on_of_nodup_map hdistinct ha hb (PortableId.ext (eq_of_compareText heq))
  unfold activeComponents
  rw [hsorted]
  rfl

section Planner

variable (sha256 : Sha256) (domainToASCII : JsString → JsString)

theorem placementOf_rearranged (h : (snapshot.workers.getD []).Perm (workers.getD []))
    (component : PluginComponent) :
    (snapshot.rearranged instances components workers).placementOf domainToASCII component =
      snapshot.placementOf domainToASCII component := by
  have hperm := @planPlacement_perm domainToASCII
    { artifactDigest := snapshot.deployment.artifactDigest
      component := component
      grantedPermissions := snapshot.gate.permissionDecision.granted.getD []
      supportedExecutors := snapshot.supportedExecutors
      workers := snapshot.workers } workers h
  exact hperm.symm

theorem componentStep_rearranged (hdistinct : snapshot.InstancesDistinct)
    (h : snapshot.instances.Perm instances) (component : PluginComponent)
    (placement : ComponentPlacement) :
    (snapshot.rearranged instances components workers).componentStep sha256 component placement =
      snapshot.componentStep sha256 component placement := by
  have hcurrent := @currentInstances_rearranged _ _ components workers hdistinct h component
  have hactivation : (snapshot.rearranged instances components workers).activationOf component =
      snapshot.activationOf component := by
    rw [activationOf, hcurrent]
    rfl
  unfold componentStep
  rw [hcurrent, hactivation]
  rfl

theorem componentLoop_rearranged (hdistinct : snapshot.InstancesDistinct)
    (hinstances : snapshot.instances.Perm instances)
    (hworkers : (snapshot.workers.getD []).Perm (workers.getD [])) (l : List PluginComponent) :
    (snapshot.rearranged instances components workers).componentLoop sha256 domainToASCII l =
      snapshot.componentLoop sha256 domainToASCII l := by
  induction l with
  | nil => rfl
  | cons component l ih =>
    rw [componentLoop, componentLoop, ih, placementOf_rearranged domainToASCII hworkers]
    simp only [componentStep_rearranged sha256 hdistinct hinstances]

theorem inconsistent_rearranged (hdistinct : snapshot.InstancesDistinct)
    (hinstances : snapshot.instances.Perm instances)
    (hcomponents : snapshot.gate.components.Perm components) :
    (snapshot.rearranged instances components workers).inconsistent = [] ↔
      snapshot.inconsistent = [] := by
  unfold inconsistent liveInstances
  simp only [currentInstances_rearranged hdistinct hinstances, map_eq_nil_iff]
  rw [← length_eq_zero_iff, ← length_eq_zero_iff]
  exact Eq.congr_left (hcomponents.filter _).length_eq.symm

/-- **The plan has the same steps for every order** of the instances, of the components and of
the workers. -/
theorem planReconcile_rearranged (hinstancesDistinct : snapshot.InstancesDistinct)
    (hcomponentsDistinct : snapshot.ComponentsDistinct)
    (hinstances : snapshot.instances.Perm instances)
    (hcomponents : snapshot.gate.components.Perm components)
    (hworkers : (snapshot.workers.getD []).Perm (workers.getD [])) :
    (planReconcile sha256 domainToASCII (snapshot.rearranged instances components workers)).steps =
      (planReconcile sha256 domainToASCII snapshot).steps := by
  have hobsolete : (snapshot.rearranged instances components workers).obsoleteSteps sha256 =
      snapshot.obsoleteSteps sha256 := by
    unfold obsoleteSteps
    rw [sortedInstances_rearranged hinstancesDistinct hinstances]
    rfl
  have hloop := @componentLoop_rearranged _ _ components _ sha256 domainToASCII
    hinstancesDistinct hinstances hworkers snapshot.activeComponents
  have hactive := @activeComponents_rearranged _ instances _ workers hcomponentsDistinct hcomponents
  have hconsistent := @inconsistent_rearranged _ _ _ workers hinstancesDistinct hinstances hcomponents
  unfold planReconcile
  rw [hobsolete, hactive, hloop]
  by_cases hgate : (!snapshot.gate.capabilityResolution.ok ||
      !snapshot.gate.permissionDecision.allowed) = true
  · rw [if_pos hgate, if_pos (by exact hgate)]
  rw [if_neg hgate, if_neg (by exact hgate)]
  by_cases hone : snapshot.inconsistent = []
  · rw [if_neg (not_not.mpr hone), if_neg (not_not.mpr (hconsistent.mpr hone))]
  · rw [if_pos hone, if_pos (mt hconsistent.mp hone)]

end Planner

end Snapshot

/-! ## The activation of a component -/

structure IsCurrent (snapshot : ReconcileSnapshot) (component : PluginComponent)
    (inst : ComponentInstance) : Prop where
  mem : inst ∈ snapshot.instances
  application : inst.applicationId = snapshot.deployment.applicationId
  component : inst.componentId = component.componentId
  generation : inst.deploymentGeneration = snapshot.deployment.generation

/-- The activation that is asked for; or else the highest one recorded; or else the first. -/
def Chosen (snapshot : ReconcileSnapshot) (component : PluginComponent) (activation : Activation) :
    Prop :=
  match snapshot.activations.lookup component.componentId with
  | some asked => activation = asked
  | none =>
    (∃ inst, IsCurrent snapshot component inst ∧ inst.activation = activation ∧
      ∀ other, IsCurrent snapshot component other → other.activation ≤ activation) ∨
    ((∀ inst, ¬IsCurrent snapshot component inst) ∧ activation = 1)

section Activation

variable {snapshot : ReconcileSnapshot} {component : PluginComponent} {inst : ComponentInstance}

theorem mem_currentInstances_iff :
    inst ∈ snapshot.currentInstances component ↔ IsCurrent snapshot component inst := by
  rw [currentInstances, mem_filter, decide_eq_true_eq, sortedInstances, mem_sortBy,
    mem_filter, decide_eq_true_eq]
  constructor
  · rintro ⟨⟨hmem, happlication⟩, hcomponent, hgeneration⟩
    exact ⟨hmem, happlication, hcomponent, hgeneration⟩
  · intro h
    exact ⟨⟨h.mem, h.application⟩, h.component, h.generation⟩

/-- The step of the fold that looks for the highest activation. -/
def higher (highest : Option Activation) (inst : ComponentInstance) : Option Activation :=
  match highest with
  | none => some inst.activation
  | some highest => if highest < inst.activation then some inst.activation else some highest

theorem foldl_higher (l : List ComponentInstance) (start : Activation) :
    ∃ highest, l.foldl higher (some start) = some highest ∧ start ≤ highest ∧
      (∀ inst ∈ l, inst.activation ≤ highest) ∧
      (highest = start ∨ ∃ inst ∈ l, inst.activation = highest) := by
  induction l generalizing start with
  | nil => exact ⟨start, rfl, UInt64.le_refl _, by simp, .inl rfl⟩
  | cons first l ih =>
    by_cases hlt : start < first.activation
    · obtain ⟨highest, hfold, hle, hall, hfrom⟩ := ih first.activation
      refine ⟨highest, ?_, UInt64.le_trans (UInt64.le_of_lt hlt) hle, ?_, .inr ?_⟩
      · rw [foldl_cons, higher, if_pos hlt, hfold]
      · intro inst hinst
        rcases mem_cons.mp hinst with rfl | hinst
        · exact hle
        · exact hall inst hinst
      · rcases hfrom with heq | ⟨inst, hinst, heq⟩
        · exact ⟨first, mem_cons_self, heq.symm⟩
        · exact ⟨inst, mem_cons_of_mem _ hinst, heq⟩
    · obtain ⟨highest, hfold, hle, hall, hfrom⟩ := ih start
      refine ⟨highest, ?_, hle, ?_, ?_⟩
      · rw [foldl_cons, higher, if_neg hlt, hfold]
      · intro inst hinst
        rcases mem_cons.mp hinst with rfl | hinst
        · exact UInt64.le_trans (UInt64.not_lt.mp hlt) hle
        · exact hall inst hinst
      · exact hfrom.imp id fun ⟨inst, hinst, heq⟩ => ⟨inst, mem_cons_of_mem _ hinst, heq⟩

/-- **A component is planned under the chosen activation.** -/
theorem chosen_activationOf (snapshot : ReconcileSnapshot) (component : PluginComponent) :
    Chosen snapshot component (snapshot.activationOf component) := by
  have hfold : snapshot.activationOf component =
      (snapshot.activations.lookup component.componentId).getD
        (((snapshot.currentInstances component).foldl higher none).getD 1) := rfl
  unfold Chosen
  rw [hfold]
  cases hasked : snapshot.activations.lookup component.componentId with
  | some asked => rfl
  | none =>
    rw [getD_none]
    cases hcurrent : snapshot.currentInstances component with
    | nil =>
      refine .inr ⟨fun inst hinst => ?_, rfl⟩
      rw [← mem_currentInstances_iff, hcurrent] at hinst
      cases hinst
    | cons first rest =>
      obtain ⟨highest, hhighest, hle, hall, hfrom⟩ := foldl_higher rest first.activation
      have hmem : ∀ inst, IsCurrent snapshot component inst ↔ inst ∈ first :: rest := by
        intro inst
        rw [← hcurrent, mem_currentInstances_iff]
      rw [foldl_cons, higher, hhighest, getD_some]
      refine .inl ?_
      have hmax : ∀ other, IsCurrent snapshot component other → other.activation ≤ highest := by
        intro other hother
        rcases mem_cons.mp ((hmem other).mp hother) with rfl | hother
        · exact hle
        · exact hall other hother
      rcases hfrom with heq | ⟨inst, hinst, heq⟩
      · exact ⟨first, (hmem first).mpr mem_cons_self, heq.symm, hmax⟩
      · exact ⟨inst, (hmem inst).mpr (mem_cons_of_mem _ hinst), heq, hmax⟩

end Activation

/-! ## The steps of a component -/

/-- The step makes the component's instance with this activation, anew if it was stopped. -/
structure Makes (snapshot : ReconcileSnapshot) (component : PluginComponent)
    (activation : Activation) (step : ReconcilePlanStep) : Prop where
  prepares : step.effect.kind = .prepare
  absent : step.expectedRevision = none
  free : (∀ inst, IsCurrent snapshot component inst → inst.activation ≠ activation) ∨
    ∃ inst, IsCurrent snapshot component inst ∧ inst.activation = activation ∧
      inst.lifecycle = .stopped

structure IsAbout (step : ReconcilePlanStep) (inst : ComponentInstance) : Prop where
  component : step.effect.componentId = inst.componentId
  generation : step.effect.deploymentGeneration = inst.deploymentGeneration
  activation : step.effect.activation = inst.activation
  revision : step.expectedRevision = some inst.revision
  lifecycle : step.currentLifecycle = inst.lifecycle

/-- A plan for an active deployment acts on one instance of the component. -/
structure ActsOnOne (snapshot : ReconcileSnapshot) (steps : List ReconcilePlanStep)
    (component : PluginComponent) : Prop where
  /-- Under the current generation all is about the chosen activation. -/
  chosen : ∃ activation, Chosen snapshot component activation ∧ ∀ step ∈ steps,
    step.effect.componentId = component.componentId →
    step.effect.deploymentGeneration = snapshot.deployment.generation →
    step.effect.activation = activation ∧ (Makes snapshot component activation step ∨
      ∃ inst, IsCurrent snapshot component inst ∧ IsAbout step inst)
  one : (steps.filter fun step => step.effect.componentId = component.componentId ∧
    step.effect.deploymentGeneration = snapshot.deployment.generation).length ≤ 1
  /-- The other steps are about instances of other generations, and tear them down unless they
  have failed. -/
  others : ∀ step ∈ steps, step.effect.componentId = component.componentId →
    step.effect.deploymentGeneration ≠ snapshot.deployment.generation →
    ∃ inst ∈ snapshot.instances, inst.applicationId = snapshot.deployment.applicationId ∧
      IsAbout step inst ∧
      (inst.lifecycle ≠ .failed → step.effect.kind = .drain ∨ step.effect.kind = .stop)

section Steps

variable (sha256 : Sha256) (domainToASCII : JsString → JsString) {snapshot : ReconcileSnapshot}

variable {step : ReconcilePlanStep}

theorem isAbout_oldInstanceStep {deployment : PluginDeployment} {inst : ComponentInstance}
    {now : JsString}
    (h : oldInstanceStep sha256 deployment inst now = some step) : IsAbout step inst := by
  have habout : ∀ kind, IsAbout (instanceStep sha256 (oldDeployment deployment inst) inst kind
      ⟨inst.executor, inst.workerId⟩ inst.activation) inst := fun _ => ⟨rfl, rfl, rfl, rfl, rfl⟩
  unfold oldInstanceStep at h
  cases hlife : inst.lifecycle <;> simp only [hlife] at h
  case failed =>
      cases hretry : inst.retryEffect with
      | none => simp [hretry] at h
      | some kind =>
        simp only [hretry, ite_none_left_eq_some] at h
        obtain rfl := some.inj h.2
        exact habout kind
  case draining =>
      split at h <;> obtain rfl := some.inj h
      · exact habout .stop
      · exact habout .drain
  case stopped => cases h
  all_goals
    obtain rfl := some.inj h
    exact habout _

theorem componentStep_some {component : PluginComponent} {placement : ComponentPlacement}
    (h : snapshot.componentStep sha256 component placement = some step) :
    step.effect.componentId = component.componentId ∧
      step.effect.activation = snapshot.activationOf component ∧
      (Makes snapshot component (snapshot.activationOf component) step ∨
        ∃ inst, IsCurrent snapshot component inst ∧ IsAbout step inst) := by
  have hselect : snapshot.componentStep sha256 component placement =
      currentInstanceStep sha256 snapshot (selectedInstance snapshot component)
        component.componentId placement (snapshot.activationOf component) := rfl
  rw [hselect] at h
  cases hselected : selectedInstance snapshot component with
  | none =>
    rw [hselected] at h
    obtain rfl := some.inj h
    refine ⟨rfl, rfl, .inl ⟨rfl, rfl, .inl fun inst hinst hactivation => ?_⟩⟩
    have hnone := find?_eq_none.mp hselected inst (mem_currentInstances_iff.mpr hinst)
    exact hnone (decide_eq_true hactivation)
  | some inst =>
    obtain ⟨hmem, hactivation⟩ := selectedInstance_some hselected
    have hcurrent := mem_currentInstances_iff.mp hmem
    -- the step of the instance with this effect
    have habout : ∀ kind, IsAbout (planStep sha256 snapshot.deployment component.componentId kind
        placement (some inst.revision) inst.lifecycle (snapshot.activationOf component)
        inst.legacyActivation inst.executionBinding) inst := fun kind =>
      ⟨hcurrent.component.symm, hcurrent.generation.symm, hactivation.symm, rfl, rfl⟩
    have hgoes : ∀ kind, some (planStep sha256 snapshot.deployment component.componentId kind
        placement (some inst.revision) inst.lifecycle (snapshot.activationOf component)
        inst.legacyActivation inst.executionBinding) = some step →
        step.effect.componentId = component.componentId ∧
        step.effect.activation = snapshot.activationOf component ∧
        (Makes snapshot component (snapshot.activationOf component) step ∨
          ∃ inst, IsCurrent snapshot component inst ∧ IsAbout step inst) := by
      intro kind heq
      obtain rfl := some.inj heq
      exact ⟨rfl, rfl, .inr ⟨inst, hcurrent, habout kind⟩⟩
    rw [hselected] at h
    unfold currentInstanceStep at h
    rw [ite_none_left_eq_some] at h
    obtain ⟨-, h⟩ := h
    cases hlife : inst.lifecycle <;> simp only [hlife] at h hgoes
    case stopped =>
        obtain rfl := some.inj h
        exact ⟨rfl, rfl, .inl ⟨rfl, rfl, .inr ⟨inst, hcurrent, hactivation, hlife⟩⟩⟩
    case failed =>
        cases hretry : inst.retryEffect with
        | none => simp [hretry] at h
        | some kind =>
          simp only [hretry, ite_none_left_eq_some] at h
          exact hgoes kind h.2
    case ready => cases h
    case degraded => cases h
    all_goals exact hgoes _ h

theorem length_filter_le_one {α β : Type} {key : α → β} {l : List α} (h : (l.map key).Nodup)
    {p : α → Bool} {b : β} (hp : ∀ a, p a = true → key a = b) : (l.filter p).length ≤ 1 := by
  have hsame : (l.filter p).map key = List.replicate ((l.filter p).map key).length b := by
    apply eq_replicate_of_mem
    intro c hc
    obtain ⟨a, ha, rfl⟩ := List.mem_map.mp hc
    exact hp a (mem_filter.mp ha).2
  have hnodup : ((l.filter p).map key).Nodup := h.sublist (filter_sublist.map _)
  rwa [hsame, nodup_replicate, length_map] at hnodup

theorem componentLoop_sublist (snapshot : ReconcileSnapshot) (components : List PluginComponent) :
    ((snapshot.componentLoop sha256 domainToASCII components).1.map (·.effect.componentId)).Sublist
      (components.map (·.componentId)) := by
  induction components with
  | nil => exact .slnil
  | cons component components ih =>
    rw [map_cons]
    simp only [componentLoop]
    split
    · next placement hok hplaced =>
      cases hstep : snapshot.componentStep sha256 component placement with
      | none => exact ih.cons _
      | some step =>
        rw [toList_some, singleton_append, map_cons, (componentStep_some sha256 hstep).1]
        exact ih.cons_cons _
    · exact ih.cons _

theorem mem_componentLoop {components : List PluginComponent}
    (h : step ∈ (snapshot.componentLoop sha256 domainToASCII components).1) :
    ∃ component ∈ components, ∃ placement,
      snapshot.componentStep sha256 component placement = some step := by
  induction components with
  | nil => cases h
  | cons component components ih =>
    simp only [componentLoop] at h
    split at h
    · next placement hok hplaced =>
      rcases mem_append.mp h with h | h
      · exact ⟨component, mem_cons_self, placement, mem_toList.mp h⟩
      · obtain ⟨other, hother, hstep⟩ := ih h
        exact ⟨other, mem_cons_of_mem _ hother, hstep⟩
    · obtain ⟨other, hother, hstep⟩ := ih h
      exact ⟨other, mem_cons_of_mem _ hother, hstep⟩

/-- **The plan of an active deployment acts on one instance of each component.** -/
theorem actsOnOne (hdistinct : snapshot.ComponentsDistinct)
    (hactive : snapshot.deployment.state = .active) (hrunning : snapshot.suspended = false)
    {component : PluginComponent} (hcomponent : component ∈ snapshot.gate.components) :
    ActsOnOne snapshot (planReconcile sha256 domainToASCII snapshot).steps component := by
  by_cases hblocked : PlanningBlocked domainToASCII snapshot
  · rw [planReconcile_steps_of_blocked sha256 domainToASCII hblocked]
    refine ⟨⟨_, chosen_activationOf snapshot component, fun step hstep => ?_⟩, by simp,
      fun step hstep => ?_⟩
    · cases hstep
    · cases hstep
  rw [planReconcile_steps sha256 domainToASCII hblocked]
  -- the first loop is about other generations, the second about the current one
  have hold : ∀ step ∈ snapshot.obsoleteSteps sha256,
      step.effect.deploymentGeneration ≠ snapshot.deployment.generation := by
    intro step hstep
    obtain ⟨inst, -, -, hobsolete, hold⟩ := (mem_obsoleteSteps sha256).mp hstep
    rw [(oldInstanceStep_cases sha256 hold).1]
    simpa [obsolete, hactive, hrunning] using hobsolete
  have hnew : ∀ step ∈ (snapshot.componentLoop sha256 domainToASCII snapshot.activeComponents).1,
      step.effect.deploymentGeneration = snapshot.deployment.generation := fun step hstep =>
    componentLoop_generation sha256 domainToASCII hstep
  have hcomponents : ∀ other ∈ snapshot.activeComponents, other ∈ snapshot.gate.components := by
    intro other hother
    unfold activeComponents at hother
    split at hother
    · exact mem_sortBy.mp hother
    · cases hother
  refine ⟨⟨_, chosen_activationOf snapshot component, fun step hstep hid hgeneration => ?_⟩, ?_,
    fun step hstep hid hgeneration => ?_⟩
  · have hloop := (mem_append.mp hstep).resolve_left fun h => hold step h hgeneration
    obtain ⟨other, hother, placement, hsome⟩ := mem_componentLoop sha256 domainToASCII hloop
    obtain ⟨hotherId, hrest⟩ := componentStep_some sha256 hsome
    obtain rfl : other = component := inj_on_of_nodup_map hdistinct (hcomponents other hother)
      hcomponent (hotherId.symm.trans hid)
    exact hrest
  · rw [filter_append, filter_eq_nil_iff.mpr fun step hstep hmatch =>
      hold step hstep (of_decide_eq_true hmatch).2, nil_append]
    have hnodup : (snapshot.activeComponents.map (·.componentId)).Nodup := by
      unfold activeComponents
      split
      · exact ((sortBy_perm _ _).map _).nodup_iff.mpr hdistinct
      · exact nodup_nil
    exact length_filter_le_one (hnodup.sublist (componentLoop_sublist sha256 domainToASCII snapshot _))
      fun step hmatch => (of_decide_eq_true hmatch).1
  · have hobsolete := (mem_append.mp hstep).resolve_right fun h => hgeneration (hnew step h)
    obtain ⟨inst, hmem, happlication, -, hsome⟩ := (mem_obsoleteSteps sha256).mp hobsolete
    refine ⟨inst, hmem, happlication, isAbout_oldInstanceStep sha256 hsome, fun hlife => ?_⟩
    rcases (oldInstanceStep_cases sha256 hsome).2 with hdrain | hstop | ⟨hfailed, -⟩
    · exact .inl hdrain
    · exact .inr hstop
    · exact absurd hfailed hlife

end Steps

/-- **One plan for every order, and one instance of each component**, that of the chosen
activation. -/
theorem plan_unique (sha256 : Sha256) (domainToASCII : JsString → JsString)
    (snapshot : ReconcileSnapshot) (hinstances : snapshot.InstancesDistinct)
    (hcomponents : snapshot.ComponentsDistinct) :
    (∀ instances components workers, snapshot.instances.Perm instances →
      snapshot.gate.components.Perm components →
      (snapshot.workers.getD []).Perm (workers.getD []) →
      (planReconcile sha256 domainToASCII
          (snapshot.rearranged instances components workers)).steps =
        (planReconcile sha256 domainToASCII snapshot).steps) ∧
    (snapshot.deployment.state = .active → snapshot.suspended = false →
      ∀ component ∈ snapshot.gate.components,
        ActsOnOne snapshot (planReconcile sha256 domainToASCII snapshot).steps component) := by
  refine ⟨fun instances components workers hinst hcomp hworkers => ?_,
    fun hactive hrunning component hcomponent => ?_⟩
  · exact planReconcile_rearranged sha256 domainToASCII hinstances hcomponents hinst hcomp hworkers
  · exact actsOnOne sha256 domainToASCII hcomponents hactive hrunning hcomponent

/-! ## A component with two instances -/

def secondInstance : ComponentInstance :=
  { failedInstance with
    instanceId := js "app.plugin.main.g1.a2"
    activation := 2
    retryEffect := some .start }

/-- Two instances have failed; no activation is asked for. -/
def failedSnapshot : ReconcileSnapshot :=
  { restartSnapshot with instances := [failedInstance, secondInstance] }

theorem plan_unique_failedSnapshot :
    (planReconcile (fun _ => Vector.replicate 64 0) id
        (failedSnapshot.rearranged [secondInstance, failedInstance] [⟨mainId, [.process]⟩]
          none)).steps =
      (planReconcile (fun _ => Vector.replicate 64 0) id failedSnapshot).steps ∧
    ActsOnOne failedSnapshot
      (planReconcile (fun _ => Vector.replicate 64 0) id failedSnapshot).steps
      ⟨mainId, [.process]⟩ := by
  have hunique := plan_unique (fun _ => Vector.replicate 64 0) id failedSnapshot
    (show (failedSnapshot.instances.map (·.instanceId)).Nodup by decide)
    (show (failedSnapshot.gate.components.map (·.componentId)).Nodup by decide)
  refine ⟨hunique.1 _ _ _ (.swap _ _ _) (.refl _) (.refl _), hunique.2 rfl rfl _ ?_⟩
  exact mem_singleton_self _

def askedSnapshot : ReconcileSnapshot := { failedSnapshot with activations := [(mainId, 1)] }

/-- Two instances of an earlier generation, recorded under one identity. -/
def readyTwin : ComponentInstance :=
  { failedInstance with deploymentGeneration := 0, lifecycle := .ready }

def stoppingTwin : ComponentInstance :=
  { failedInstance with deploymentGeneration := 0, lifecycle := .stopping }

def twinSnapshot (instances : List ComponentInstance) : ReconcileSnapshot :=
  { disabledSnapshot with instances := instances }

/-- The instance that is asked for is acted on, although a higher activation is recorded. And two
instances of one identity are planned in the order in which they come. -/
theorem askedSnapshot_acts :
    ((planReconcile (fun _ => Vector.replicate 64 0) id askedSnapshot).steps.map
        (·.effect.activation) = [1] ∧
      secondInstance ∈ askedSnapshot.instances ∧ (1 : Activation) < secondInstance.activation) ∧
    (planReconcile (fun _ => Vector.replicate 64 0) id
        (twinSnapshot [readyTwin, stoppingTwin])).steps ≠
      (planReconcile (fun _ => Vector.replicate 64 0) id
        (twinSnapshot [stoppingTwin, readyTwin])).steps := by
  refine ⟨⟨rfl, mem_cons_of_mem _ (mem_singleton_self _), by decide⟩, fun heq => ?_⟩
  have hkinds := congrArg (fun steps => steps.map fun step : ReconcilePlanStep => step.effect.kind) heq
  have hready : ((planReconcile (fun _ => Vector.replicate 64 0) id
      (twinSnapshot [readyTwin, stoppingTwin])).steps.map fun step => step.effect.kind) =
      [.drain, .stop] := rfl
  have hstopping : ((planReconcile (fun _ => Vector.replicate 64 0) id
      (twinSnapshot [stoppingTwin, readyTwin])).steps.map fun step => step.effect.kind) =
      [.stop, .drain] := rfl
  rw [hready, hstopping] at hkinds
  cases hkinds

end TegoNext
