/-
The authority gate of a runtime.

Only between the end of `#activateAuthority` and the beginning of `#deactivateAuthority` can there
be a leadership or a lease. `Gates` says so, `Phases` says where `#start` and `#stop` are
while that goes on and which lifecycle belongs to it. A reconciler whose background work fails
while it is being activated breaks the gate: its failure closes what is not open yet, and the
activation goes on.
-/
import TegoNext.RuntimeAuthority

set_option autoImplicit false

namespace TegoNext

open Option

/-! ## The property -/

/-- A path of allowed changes. -/
def Follows : RuntimeLifecycleState → List (RuntimeLifecycleState × RuntimeLifecycleState) →
    RuntimeLifecycleState → Prop
  | a, [], b => a = b
  | a, change :: rest, b =>
    change.1 = a ∧ change.2 ∈ runtimeTransitions a ∧ Follows change.2 rest b

theorem Follows.append {a b c : RuntimeLifecycleState}
    {changes : List (RuntimeLifecycleState × RuntimeLifecycleState)} (h : Follows a changes b)
    (hc : c ∈ runtimeTransitions b) : Follows a (changes ++ [(b, c)]) c := by
  induction changes generalizing a with
  | nil =>
    obtain rfl : a = b := h
    exact ⟨rfl, hc, rfl⟩
  | cons change rest ih => exact ⟨h.1, h.2.1, ih h.2.2⟩

def LoopPhase.activates : LoopPhase → Bool
  | .startingReconciler _ _ | .settingTasks _ => true
  | _ => false

/-- Is this a phase of `#activateAuthority` that there is with services only? -/
def LoopPhase.serves : LoopPhase → Bool
  | .settingWorkers _ | .startingReconciler _ _ | .settingTasks _ => true
  | _ => false

/-- Has `#start` come to its end, or is there none? -/
def StartPhase.ends : StartPhase → Bool
  | .idle | .settled _ => true
  | _ => false

/-- Is there no leadership controller yet? -/
def StartPhase.early : StartPhase → Bool
  | .idle | .openingDrivers | .recoveringState | .recoveringTasks | .checkingHealth => true
  | _ => false

/-- Has the `catch` of `#start` waited for the leadership controller? -/
def StartPhase.closes : StartPhase → Bool
  | .stoppingReconciler _ | .observingStatus | .closingTasks | .closingWorkers | .closingDrivers =>
    true
  | _ => false

/-- Has `#stop` not begun to close the runtime? -/
def StopPhase.early : StopPhase → Bool
  | .idle | .stoppingController | .awaitingStart _ => true
  | _ => false

def StopPhase.waited : StopPhase → Bool
  | .idle | .stoppingController => false
  | _ => true

def StopPhase.Allows : StopPhase → RuntimeLifecycleState → Prop
  | .idle, lifecycle | .stoppingController, lifecycle | .awaitingStart _, lifecycle =>
    lifecycle ∉ [.draining, .stopping, .stopped]
  | .settled result, lifecycle =>
    result ≠ .illegalTransition ∧ (lifecycle = .stopped ∨ lifecycle = .failed)
  | _, lifecycle => lifecycle = .stopping

namespace TegoRuntime

variable {setup : RuntimeSetup} {s s' : TegoRuntime}

/-- The current reconciler is the one that was created for this authority, and is at work. -/
structure Alive (s : TegoRuntime) (authority : RuntimeAuthority) (i : Nat) : Prop where
  reconciler : s.reconciler = some i
  created : s.reconcilers[i]? = some ⟨authority, false, false⟩

structure GateLaw (s : TegoRuntime) : Prop where
  mutations : s.acceptingMutations = true → s.lifecycle = .running ∧ s.leadership.isSome = true
  admitted : ∀ authority, s.admission = some authority → ∃ i, s.Alive authority i
  changes : Follows .created s.changes s.lifecycle
  legal : s.stopping ≠ .settled .illegalTransition
  settled : ∀ result, s.stopping = .settled result →
    (s.lifecycle = .stopped ∨ s.lifecycle = .failed) ∧ s.acceptingMutations = false ∧
      s.admission = none

/-- The reconciler whose authority is being activated. -/
def activating (s : TegoRuntime) : Option Nat :=
  match s.loop with
  | .startingReconciler _ i => some i
  | .settingTasks _ => s.reconciler
  | _ => none

/-- A reconciler fails in the background before its authority is active. -/
def interrupts (s : TegoRuntime) : RuntimeLabel → Bool
  | .backgroundFailure i => s.activating = some i
  | _ => false

/-! ## Gates -/

def heldAuthority (s : TegoRuntime) : Option RuntimeAuthority :=
  match s.loop with
  | .activated authority | .leading authority => some authority
  | _ => none

def Current (s : TegoRuntime) : Prop :=
  ∀ i, s.reconciler = some i →
    ∃ r, s.reconcilers[i]? = some r ∧ s.reconcilerAuthority = some r.authority

/-- Nothing is open. -/
structure Shut (s : TegoRuntime) : Prop where
  mutations : s.acceptingMutations = false
  leadership : s.leadership = none
  admission : s.admission = none

structure Gates (setup : RuntimeSetup) (s : TegoRuntime) : Prop where
  mutations : s.acceptingMutations = true → s.lifecycle = .running ∧ s.leadership.isSome = true
  leader : ∀ authority, s.leadership = some authority → s.heldAuthority = some authority
  lease : ∀ authority, s.admission = some authority → s.heldAuthority = some authority
  admitted : ∀ authority, s.admission = some authority → ∃ i, s.Alive authority i
  activating : ∀ authority i, s.loop = .startingReconciler authority i → s.Alive authority i
  setting : ∀ authority, s.loop = .settingTasks authority → ∃ i, s.Alive authority i
  current : s.Current
  services : setup.managed = false → s.admission = none ∧ s.loop.serves = false

theorem Gates.shut (h : Gates setup s) (hheld : s.heldAuthority = none) : s.Shut := by
  have hleadership : s.leadership = none := by
    cases hl : s.leadership with
    | none => rfl
    | some authority => rw [← h.leader authority hl, hheld]
  have hadmission : s.admission = none := by
    cases hl : s.admission with
    | none => rfl
    | some authority => rw [← h.lease authority hl, hheld]
  refine ⟨Bool.eq_false_iff.mpr fun hmutations => ?_, hleadership, hadmission⟩
  have hsome := (h.mutations hmutations).2
  rw [hleadership] at hsome
  cases hsome

theorem Shut.gates (h : s.Shut)
    (hactivating : ∀ authority i, s.loop = .startingReconciler authority i → s.Alive authority i)
    (hsetting : ∀ authority, s.loop = .settingTasks authority → ∃ i, s.Alive authority i)
    (hcurrent : s.Current) (hserves : setup.managed = false → s.loop.serves = false) :
    Gates setup s where
  mutations hmutations := by
    rw [h.mutations] at hmutations
    cases hmutations
  leader authority hleader := by
    rw [h.leadership] at hleader
    cases hleader
  lease authority hlease := by
    rw [h.admission] at hlease
    cases hlease
  admitted authority hlease := by
    rw [h.admission] at hlease
    cases hlease
  activating := hactivating
  setting := hsetting
  current := hcurrent
  services hunmanaged := ⟨h.admission, hserves hunmanaged⟩

theorem Shut.idle (h : s.Shut) (hidle : s.loop.activates = false) (hcurrent : s.Current)
    (hserves : setup.managed = false → s.loop.serves = false) : Gates setup s := by
  refine h.gates (fun authority i hloop => ?_) (fun authority hloop => ?_) hcurrent hserves
  · rw [hloop] at hidle
    cases hidle
  · rw [hloop] at hidle
    cases hidle

def gateFields (s : TegoRuntime) :=
  (s.leadership, s.admission, s.reconciler, s.reconcilerAuthority, s.reconcilers, s.loop)

theorem Gates.of_fields (h : Gates setup s) (heq : s'.gateFields = s.gateFields)
    (hmutations : s'.acceptingMutations = true →
      s'.lifecycle = .running ∧ s'.leadership.isSome = true) : Gates setup s' := by
  simp only [gateFields, Prod.mk.injEq] at heq
  obtain ⟨hleadership, hadmission, hreconciler, hauthority, hreconcilers, hloop⟩ := heq
  have halive : ∀ authority i, s.Alive authority i → s'.Alive authority i := fun authority i ha =>
    ⟨hreconciler.trans ha.reconciler, hreconcilers ▸ ha.created⟩
  have hheld : s'.heldAuthority = s.heldAuthority := by rw [heldAuthority, hloop, heldAuthority]
  refine ⟨hmutations, ?_, ?_, fun authority hlease => ?_, fun authority i hl => ?_,
    fun authority hl => ?_, fun i hi => ?_, fun hunmanaged => ?_⟩
  · rw [hleadership, hheld]
    exact h.leader
  · rw [hadmission, hheld]
    exact h.lease
  · obtain ⟨i, hi⟩ := h.admitted authority (hadmission ▸ hlease)
    exact ⟨i, halive authority i hi⟩
  · exact halive authority i (h.activating authority i (hloop ▸ hl))
  · obtain ⟨i, hi⟩ := h.setting authority (hloop ▸ hl)
    exact ⟨i, halive authority i hi⟩
  · rw [hreconcilers, hauthority]
    exact h.current i (hreconciler ▸ hi)
  · rw [hadmission, hloop]
    exact h.services hunmanaged

theorem Gates.of_eq (h : Gates setup s) (heq : s'.gateFields = s.gateFields)
    (hmutations : s'.acceptingMutations = s.acceptingMutations)
    (hlifecycle : s'.lifecycle = s.lifecycle) : Gates setup s' := by
  have hleadership : s'.leadership = s.leadership := congrArg Prod.fst heq
  refine h.of_fields heq fun haccepts => ?_
  rw [hlifecycle, hleadership]
  exact h.mutations (hmutations.symm.trans haccepts)

theorem Gates.of_closed (h : Gates setup s) (heq : s'.gateFields = s.gateFields)
    (hclosed : s'.acceptingMutations = false) : Gates setup s' := by
  refine h.of_fields heq fun haccepts => ?_
  rw [hclosed] at haccepts
  cases haccepts

theorem Current.modify (h : s.Current) (i : Nat) {f : CreatedReconciler → CreatedReconciler}
    (hf : ∀ r, (f r).authority = r.authority) (hreconciler : s'.reconciler = s.reconciler)
    (hauthority : s'.reconcilerAuthority = s.reconcilerAuthority)
    (hreconcilers : s'.reconcilers = s.reconcilers.modify i f) : s'.Current := by
  intro j hj
  obtain ⟨r, hr, heq⟩ := h j (hreconciler ▸ hj)
  rw [hreconcilers, hauthority, List.getElem?_modify, hr]
  by_cases hij : i = j
  · exact ⟨f r, congrArg some (if_pos hij), heq.trans (congrArg some (hf r).symm)⟩
  · exact ⟨r, congrArg some (if_neg hij), heq⟩

theorem Current.callReconcilerStop (h : s.Current) (i : Nat) : (s.callReconcilerStop i).Current :=
  h.modify (f := fun r => { r with stopped := true }) i (fun _ => rfl) rfl rfl rfl

theorem Current.failReconciler (h : s.Current) (i : Nat) : (s.failReconciler i).Current :=
  h.modify (f := fun r => { r with failed := true }) i (fun _ => rfl) rfl rfl rfl

theorem Current.reconcilerStopped (h : s.Current) (i : Nat) (outcome : CallOutcome) :
    (s.reconcilerStopped i outcome).Current := by
  intro j hj
  unfold TegoRuntime.reconcilerStopped at hj ⊢
  dsimp only at hj ⊢
  split at hj
  · cases hj
  next hkept =>
  rw [if_neg hkept]
  exact h j hj

theorem Gates.shut_of_eq (h : Gates setup s) (hheld : s.heldAuthority = none)
    (hmutations : s'.acceptingMutations = s.acceptingMutations)
    (hleadership : s'.leadership = s.leadership) (hadmission : s'.admission = s.admission) :
    s'.Shut :=
  have hshut := h.shut hheld
  ⟨hmutations.trans hshut.mutations, hleadership.trans hshut.leadership,
    hadmission.trans hshut.admission⟩

theorem Gates.idle (h : Gates setup s) (hheld : s.heldAuthority = none)
    (hmutations : s'.acceptingMutations = s.acceptingMutations)
    (hleadership : s'.leadership = s.leadership) (hadmission : s'.admission = s.admission)
    (hcurrent : s'.Current) (hidle : s'.loop.activates = false)
    (hserves : setup.managed = false → s'.loop.serves = false) : Gates setup s' :=
  (h.shut_of_eq hheld hmutations hleadership hadmission).idle hidle hcurrent hserves

/-! ## The loop and the gates -/

/-- `#activateAuthority` ends. -/
theorem gates_becomeLeader (authority : RuntimeAuthority)
    (hmutations : s.acceptingMutations = true → s.lifecycle = .running) (hcurrent : s.Current)
    (hadmitted : ∀ other, s.admission = some other → other = authority ∧ ∃ i, s.Alive other i)
    (hunmanaged : setup.managed = false → s.admission = none) :
    Gates setup (s.becomeLeader authority) := by
  have hgates : ∀ accepting : Bool, (accepting = true → s.lifecycle = .running) →
      Gates setup { s with
        leadership := some authority
        loop := .activated authority
        acceptingMutations := accepting } := by
    intro accepting haccepting
    refine ⟨fun hmutations => ⟨haccepting hmutations, rfl⟩, fun other hother => hother,
      fun other hother => ?_, fun other hother => ?_, fun other i hl => (by cases hl),
      fun other hl => (by cases hl), hcurrent, fun hservices => ⟨hunmanaged hservices, rfl⟩⟩
    · rw [(hadmitted other hother).1]
      rfl
    · obtain ⟨i, hi⟩ := (hadmitted other hother).2
      exact ⟨i, hi.reconciler, hi.created⟩
  unfold TegoRuntime.becomeLeader
  dsimp only
  split
  · next hrunning =>
    rw [Bool.and_eq_true, decide_eq_true_eq] at hrunning
    exact hgates true fun _ => hrunning.1
  · exact hgates s.acceptingMutations hmutations

theorem Gates.activateAuthority (h : Gates setup s) (hheld : s.heldAuthority = none)
    (authority : RuntimeAuthority) : Gates setup (s.activateAuthority setup authority) := by
  have hshut := h.shut hheld
  unfold TegoRuntime.activateAuthority
  split
  · exact h.idle hheld rfl rfl rfl h.current rfl fun _ => rfl
  split
  · next hmanaged =>
    refine h.idle hheld rfl rfl rfl h.current rfl fun hunmanaged => ?_
    rw [hmanaged] at hunmanaged
    cases hunmanaged
  · refine gates_becomeLeader authority (fun hmutations => (h.mutations hmutations).1) h.current
      (fun other hother => ?_) fun _ => hshut.admission
    rw [hshut.admission] at hother
    cases hother

theorem Gates.createReconciler (h : Gates setup s) (hheld : s.heldAuthority = none)
    (hserves : s.loop.serves = true) (authority : RuntimeAuthority) :
    Gates setup (s.createReconciler authority) := by
  have hcreated : (s.reconcilers ++ [(⟨authority, false, false⟩ : CreatedReconciler)])[
      s.reconcilers.length]? = some ⟨authority, false, false⟩ := List.getElem?_concat_length
  have hshut : (s.createReconciler authority).Shut := h.shut_of_eq hheld rfl rfl rfl
  refine hshut.gates (fun other i hl => ?_) (fun other hl => ?_) (fun i hi => ?_)
    fun hunmanaged => ?_
  · cases hl
    exact ⟨rfl, hcreated⟩
  · cases hl
  · cases hi
    exact ⟨_, hcreated, rfl⟩
  · have hnot := (h.services hunmanaged).2
    rw [hserves] at hnot
    cases hnot

/-- `#deactivateAuthority` begins, in the end of a leadership or after an activation that failed. -/
theorem Gates.deactivateAuthority (h : Gates setup s) (authority : RuntimeAuthority)
    (reason : DeactivationReason)
    (hheld : ∀ other, s.heldAuthority = some other → other = authority) :
    Gates setup (s.deactivateAuthority setup authority reason) := by
  have hleader : ¬s.leadership.any (· ≠ authority) = true := by
    cases hl : s.leadership with
    | none => exact Bool.false_ne_true
    | some other =>
      rw [hheld other (h.leader other hl)]
      simp
  have hlease : ∀ other, s.admission = some other → other = authority := fun other hother =>
    hheld other (h.lease other hother)
  unfold TegoRuntime.deactivateAuthority
  rw [if_neg hleader]
  split
  · refine Shut.idle ⟨rfl, rfl, ?_⟩ rfl h.current fun _ => rfl
    change (if s.admission = some authority then none else s.admission) = none
    split
    · rfl
    next hne =>
    cases hadmission : s.admission with
    | none => rfl
    | some other => exact absurd (hlease other hadmission ▸ hadmission) hne
  · next hunmanaged =>
    exact Shut.idle ⟨rfl, rfl, (h.services (Bool.eq_false_iff.mpr hunmanaged)).1⟩ rfl h.current
      fun _ => rfl

variable {authority : RuntimeAuthority}

theorem Gates.lead (h : Gates setup s) (hloop : s.loop = .activated authority) :
    Gates setup { s with loop := .leading authority } where
  mutations := h.mutations
  leader other hother := by
    have hheld := h.leader other hother
    rwa [heldAuthority, hloop] at hheld
  lease other hother := by
    have hheld := h.lease other hother
    rwa [heldAuthority, hloop] at hheld
  admitted other hother := by
    obtain ⟨i, hi⟩ := h.admitted other hother
    exact ⟨i, hi.reconciler, hi.created⟩
  activating other i hl := by cases hl
  setting other hl := by cases hl
  current := h.current
  services hunmanaged := ⟨(h.services hunmanaged).1, rfl⟩

theorem Gates.deactivateWorkers (h : Gates setup s) (hheld : s.heldAuthority = none)
    (reason : DeactivationReason) (errors : Bool) :
    Gates setup (s.deactivateWorkers reason errors) := by
  unfold TegoRuntime.deactivateWorkers
  split
  · exact h.idle hheld rfl rfl rfl h.current rfl fun _ => rfl
  · exact h.idle hheld rfl rfl rfl h.current rfl fun _ => rfl

theorem Gates.nextCampaign (h : Gates setup s) (hheld : s.heldAuthority = none) :
    Gates setup s.nextCampaign := by
  unfold TegoRuntime.nextCampaign
  split
  · exact h.idle hheld rfl rfl rfl h.current rfl fun _ => rfl
  · exact h.idle hheld rfl rfl rfl h.current rfl fun _ => rfl

theorem Gates.beginBackoff (h : Gates setup s) (hheld : s.heldAuthority = none) :
    Gates setup s.beginBackoff := by
  unfold TegoRuntime.beginBackoff
  split
  · exact h.idle hheld rfl rfl rfl h.current rfl fun _ => rfl
  · exact h.idle hheld rfl rfl rfl h.current rfl fun _ => rfl

/-- The reconciler has started: `setTasksAuthority` is called. -/
theorem Gates.setTasks (h : Gates setup s) {i : Nat}
    (hloop : s.loop = .startingReconciler authority i) :
    Gates setup { s with loop := .settingTasks authority } := by
  have hheld : s.heldAuthority = none := by rw [heldAuthority, hloop]
  have halive := h.activating authority i hloop
  have hshut : Shut { s with loop := .settingTasks authority } := h.shut_of_eq hheld rfl rfl rfl
  refine hshut.gates (fun other j hl => ?_) (fun other hl => ?_) h.current fun hunmanaged => ?_
  · cases hl
  · cases hl
    exact ⟨i, halive.reconciler, halive.created⟩
  · have hnot := (h.services hunmanaged).2
    rw [hloop] at hnot
    cases hnot

/-- The admission opens at the end of `#activateAuthority`. -/
theorem Gates.admit (h : Gates setup s) (hloop : s.loop = .settingTasks authority) :
    Gates setup ((s.openAdmission authority).becomeLeader authority) := by
  obtain ⟨i, halive⟩ := h.setting authority hloop
  refine gates_becomeLeader authority (fun hmutations => (h.mutations hmutations).1) h.current
    (fun other hother => ?_) fun hunmanaged => ?_
  · cases hother
    exact ⟨rfl, i, halive.reconciler, halive.created⟩
  · have hnot := (h.services hunmanaged).2
    rw [hloop] at hnot
    cases hnot

variable {event : LeadershipEvent}

theorem Gates.stepLoop (h : Gates setup s)
    (hstep : s.stepLoop setup event = some s') : Gates setup s' := by
  have hnone : ∀ {phase}, s.loop = phase → (heldAuthority { s with loop := phase }) = none →
      s.heldAuthority = none := by
    intro phase hphase hheld
    subst hphase
    exact hheld
  unfold TegoRuntime.stepLoop at hstep
  split at hstep
  · next authority hloop =>
    cases hstep
    exact h.activateAuthority (hnone hloop rfl) authority
  · next hloop =>
    cases hstep
    exact h.idle (hnone hloop rfl) rfl rfl rfl h.current rfl fun _ => rfl
  · next hloop =>
    cases hstep
    exact h.beginBackoff (hnone hloop rfl)
  · next hloop =>
    split at hstep
    · cases hstep
    · cases hstep
      exact h.idle (hnone hloop rfl) rfl rfl rfl h.current rfl fun _ => rfl
  · next outcome hloop =>
    split at hstep
    · cases hstep
      exact h.idle (hnone hloop rfl) rfl rfl rfl h.current rfl fun _ => rfl
    · cases hstep
      exact h.nextCampaign (hnone hloop rfl)
  · next outcome hloop =>
    cases hstep
    exact h.idle (hnone hloop rfl) rfl rfl rfl h.current rfl fun _ => rfl
  · next authority outcome hloop =>
    split at hstep
    · cases hstep
      exact h.idle (hnone hloop rfl) rfl rfl rfl h.current rfl fun _ => rfl
    cases hstep
    refine h.createReconciler (hnone hloop rfl) ?_ authority
    rw [hloop]
    rfl
  · next authority hloop =>
    cases hstep
    exact h.idle (hnone hloop rfl) rfl rfl rfl h.current rfl fun _ => rfl
  · next authority i outcome hloop =>
    split at hstep
    · cases hstep
      exact h.idle (hnone hloop rfl) rfl rfl rfl (h.current.failReconciler i) rfl fun _ => rfl
    · cases hstep
      exact h.setTasks hloop
  · next authority outcome hloop =>
    split at hstep
    · cases hstep
      exact h.idle (hnone hloop rfl) rfl rfl rfl h.current rfl fun _ => rfl
    · cases hstep
      exact h.admit hloop
  · next authority outcome hloop =>
    cases hstep
    refine h.deactivateAuthority authority _ fun other hother => ?_
    rw [hnone hloop rfl] at hother
    cases hother
  · next authority outcome hloop =>
    have hheld : ∀ other, s.heldAuthority = some other → other = authority := by
      intro other hother
      rw [heldAuthority, hloop] at hother
      exact (some.inj hother).symm
    have hsettled : Gates setup { s with firstAuthority := s.firstAuthority.settle .resolved } :=
      h.of_eq rfl rfl rfl
    dsimp only at hstep
    split at hstep
    · cases hstep
      exact hsettled.lead hloop
    · cases hstep
      exact hsettled.deactivateAuthority authority _ hheld
  · next authority hloop =>
    cases hstep
    refine h.deactivateAuthority authority _ fun other hother => ?_
    rw [heldAuthority, hloop] at hother
    exact (some.inj hother).symm
  · next authority hloop =>
    split at hstep
    · cases hstep
    cases hstep
    refine h.deactivateAuthority authority _ fun other hother => ?_
    rw [heldAuthority, hloop] at hother
    exact (some.inj hother).symm
  · next reason outcome hloop =>
    split at hstep
    · cases hstep
      exact h.deactivateWorkers (hnone hloop rfl) reason _
    next i hi =>
    cases hstep
    exact h.idle (hnone hloop rfl) rfl rfl rfl (h.current.callReconcilerStop i) rfl fun _ => rfl
  · next i reason errors outcome hloop =>
    cases hstep
    have hheld := hnone hloop rfl
    have hstopped : Gates setup (s.reconcilerStopped i outcome) := by
      refine h.idle hheld rfl rfl rfl (h.current.reconcilerStopped i outcome) ?_ fun _ => ?_
      · exact congrArg LoopPhase.activates hloop
      · exact congrArg LoopPhase.serves hloop
    exact hstopped.deactivateWorkers hheld reason _
  · next reason errors outcome hloop =>
    cases hstep
    exact h.idle (hnone hloop rfl) rfl rfl rfl h.current rfl fun _ => rfl
  · next errors outcome hloop =>
    split at hstep
    · cases hstep
      exact h.idle (hnone hloop rfl) rfl rfl rfl h.current rfl fun _ => rfl
    · cases hstep
      exact h.nextCampaign (hnone hloop rfl)
  · next reason errors outcome hlost hloop =>
    cases hstep
    exact h.idle (hnone hloop rfl) rfl rfl rfl h.current rfl fun _ => rfl
  · next reason errors outcome hloop =>
    split at hstep
    · cases hstep
      exact h.idle (hnone hloop rfl) rfl rfl rfl h.current rfl fun _ => rfl
    split at hstep
    · cases hstep
      exact h.beginBackoff (hnone hloop rfl)
    · cases hstep
      exact h.idle (hnone hloop rfl) rfl rfl rfl h.current rfl fun _ => rfl
  · cases hstep

/-! ## What the loop leaves alone -/

structure LoopFrame (s s' : TegoRuntime) : Prop where
  starting : s'.starting = s.starting
  stopping : s'.stopping = s.stopping
  requested : s'.stopRequested = s.stopRequested
  lifecycle : s'.lifecycle = s.lifecycle
  changes : s'.changes = s.changes

theorem LoopFrame.trans {s'' : TegoRuntime} (h : s.LoopFrame s') (h' : s'.LoopFrame s'') :
    s.LoopFrame s'' :=
  ⟨h'.starting.trans h.starting, h'.stopping.trans h.stopping, h'.requested.trans h.requested,
    h'.lifecycle.trans h.lifecycle, h'.changes.trans h.changes⟩

theorem becomeLeader_frame (s : TegoRuntime) (authority : RuntimeAuthority) :
    s.LoopFrame (s.becomeLeader authority) := by
  unfold becomeLeader
  dsimp only
  split
  · exact ⟨rfl, rfl, rfl, rfl, rfl⟩
  · exact ⟨rfl, rfl, rfl, rfl, rfl⟩

theorem activateAuthority_frame (s : TegoRuntime) (authority : RuntimeAuthority) :
    s.LoopFrame (s.activateAuthority setup authority) := by
  unfold activateAuthority
  split
  · exact ⟨rfl, rfl, rfl, rfl, rfl⟩
  split
  · exact ⟨rfl, rfl, rfl, rfl, rfl⟩
  · exact s.becomeLeader_frame authority

theorem deactivateAuthority_frame (s : TegoRuntime) (authority : RuntimeAuthority)
    (reason : DeactivationReason) : s.LoopFrame (s.deactivateAuthority setup authority reason) := by
  unfold deactivateAuthority
  split
  · exact ⟨rfl, rfl, rfl, rfl, rfl⟩
  split
  · exact ⟨rfl, rfl, rfl, rfl, rfl⟩
  · exact ⟨rfl, rfl, rfl, rfl, rfl⟩

theorem deactivateWorkers_frame (s : TegoRuntime) (reason : DeactivationReason) (errors : Bool) :
    s.LoopFrame (s.deactivateWorkers reason errors) := by
  unfold deactivateWorkers
  split
  · exact ⟨rfl, rfl, rfl, rfl, rfl⟩
  · exact ⟨rfl, rfl, rfl, rfl, rfl⟩

theorem stepLoop_frame (h : s.stepLoop setup event = some s') : s.LoopFrame s' := by
  unfold stepLoop at h
  split at h
  case h_1 authority hloop =>
    cases h
    exact s.activateAuthority_frame authority
  case h_10 authority outcome hloop =>
    split at h
    · cases h
      exact ⟨rfl, rfl, rfl, rfl, rfl⟩
    cases h
    have hopened : s.LoopFrame (s.openAdmission authority) := ⟨rfl, rfl, rfl, rfl, rfl⟩
    exact hopened.trans (becomeLeader_frame _ authority)
  case h_11 authority outcome hloop =>
    cases h
    exact s.deactivateAuthority_frame authority _
  case h_12 authority outcome hloop =>
    dsimp only at h
    split at h
    · cases h
      exact ⟨rfl, rfl, rfl, rfl, rfl⟩
    cases h
    have hsettled : s.LoopFrame
        { s with firstAuthority := s.firstAuthority.settle .resolved } :=
      ⟨rfl, rfl, rfl, rfl, rfl⟩
    exact hsettled.trans (deactivateAuthority_frame _ authority _)
  case h_13 authority hloop =>
    cases h
    exact s.deactivateAuthority_frame authority _
  case h_14 authority hloop =>
    split at h
    · cases h
    · cases h
      exact s.deactivateAuthority_frame authority _
  case h_15 reason outcome hloop =>
    split at h
    · cases h
      exact s.deactivateWorkers_frame reason _
    · cases h
      exact ⟨rfl, rfl, rfl, rfl, rfl⟩
  case h_16 i reason errors outcome hloop =>
    cases h
    have hstopped : s.LoopFrame (s.reconcilerStopped i outcome) := ⟨rfl, rfl, rfl, rfl, rfl⟩
    exact hstopped.trans (deactivateWorkers_frame _ reason _)
  -- the other steps write what belongs to the loop
  all_goals
    repeat' split at h
    all_goals cases h
    all_goals exact ⟨rfl, rfl, rfl, rfl, rfl⟩

/-! ## Changes of lifecycle -/

variable {next : RuntimeLifecycleState}

theorem transitionRuntimeState_some {current lifecycle : RuntimeLifecycleState}
    (h : transitionRuntimeState current next = some lifecycle) :
    lifecycle = next ∧ next ∈ runtimeTransitions current := by
  unfold transitionRuntimeState at h
  split at h
  · next hmem => exact ⟨(some.inj h).symm, hmem⟩
  · cases h

theorem setLifecycle_some (h : s.setLifecycle next = some s') :
    next ∈ runtimeTransitions s.lifecycle ∧
      s' = { s with
        lifecycle := next
        changes := s.changes ++ [(s.lifecycle, next)] } := by
  obtain ⟨lifecycle, hlifecycle, rfl⟩ := map_eq_some_iff.mp h
  obtain ⟨rfl, hmem⟩ := transitionRuntimeState_some hlifecycle
  exact ⟨hmem, rfl⟩

theorem setLifecycle_eq (h : next ∈ runtimeTransitions s.lifecycle) :
    s.setLifecycle next = some { s with
      lifecycle := next
      changes := s.changes ++ [(s.lifecycle, next)] } := by
  rw [setLifecycle, transitionRuntimeState, if_pos h]
  rfl

def Recorded (s : TegoRuntime) : Prop := Follows .created s.changes s.lifecycle

theorem Recorded.setLifecycle (h : s.Recorded)
    (hstep : s.setLifecycle next = some s') : s'.Recorded := by
  obtain ⟨hmem, rfl⟩ := setLifecycle_some hstep
  exact Follows.append h hmem

/-! ## Where `#start` and `#stop` are -/

structure Phases (s : TegoRuntime) : Prop where
  requested : s.stopping ≠ .idle → s.stopRequested = true
  fresh : s.starting.early = true → s.loop = .absent
  startOver : s.starting.closes = true → s.loopOver = true
  stopOver : s.stopping.waited = true → s.loopOver = true
  started : s.stopping.early = false → s.starting.ends = true
  lifecycle : s.stopping.Allows s.lifecycle

structure RuntimeInv (setup : RuntimeSetup) (s : TegoRuntime) : Prop where
  gates : Gates setup s
  recorded : s.Recorded
  phases : s.Phases

theorem loopOver_held (h : s.loopOver = true) : s.heldAuthority = none := by
  rw [loopOver, Bool.or_eq_true, decide_eq_true_eq, decide_eq_true_eq] at h
  rw [heldAuthority]
  rcases h with hloop | hloop
  · rw [hloop]
  · rw [hloop]

theorem stepLoop_running (h : s.stepLoop setup event = some s') : s.loopOver = false := by
  cases hloop : s.loop with
  | absent | ended =>
    simp only [TegoRuntime.stepLoop, hloop, reduceCtorEq] at h
  | _ =>
    rw [loopOver, hloop]
    rfl

theorem RuntimeInv.stepLoop (h : RuntimeInv setup s)
    (hstep : s.stepLoop setup event = some s') : RuntimeInv setup s' := by
  have hframe := stepLoop_frame hstep
  have hrunning := stepLoop_running hstep
  refine ⟨h.gates.stepLoop hstep, ?_, ?_⟩
  · rw [Recorded, hframe.changes, hframe.lifecycle]
    exact h.recorded
  · refine ⟨?_, fun hearly => ?_, fun hcloses => ?_, fun hwaited => ?_, ?_, ?_⟩
    · rw [hframe.stopping, hframe.requested]
      exact h.phases.requested
    · rw [hframe.starting] at hearly
      rw [loopOver, h.phases.fresh hearly] at hrunning
      cases hrunning
    · rw [hframe.starting] at hcloses
      rw [h.phases.startOver hcloses] at hrunning
      cases hrunning
    · rw [hframe.stopping] at hwaited
      rw [h.phases.stopOver hwaited] at hrunning
      cases hrunning
    · rw [hframe.stopping, hframe.starting]
      exact h.phases.started
    · rw [hframe.stopping, hframe.lifecycle]
      exact h.phases.lifecycle

/-! ## `#start` -/

/-- `#start` goes on, without a change of lifecycle. -/
theorem Phases.moveStart (h : s.Phases) (hstopping : s'.stopping = s.stopping)
    (hrequested : s'.stopRequested = s.stopRequested) (hloop : s'.loop = s.loop)
    (hlifecycle : s'.lifecycle = s.lifecycle) (hfresh : s'.starting.early = true → s.loop = .absent)
    (hcloses : s'.starting.closes = true → s.loopOver = true)
    (hends : s.stopping.early = false → s'.starting.ends = true) : s'.Phases := by
  have hover : s'.loopOver = s.loopOver := by rw [loopOver, hloop, loopOver]
  refine ⟨?_, fun hearly => ?_, fun hc => ?_, ?_, ?_, ?_⟩
  · rw [hstopping, hrequested]
    exact h.requested
  · exact hloop.trans (hfresh hearly)
  · exact hover.trans (hcloses hc)
  · rw [hstopping, hover]
    exact h.stopOver
  · rw [hstopping]
    exact hends
  · rw [hstopping, hlifecycle]
    exact h.lifecycle

/-- Before `#stop` begins to close the runtime, the lifecycle is none of its own. -/
theorem Phases.allows_early (h : s.Phases) (hearly : s.stopping.early = true) :
    s.lifecycle ∉ [.draining, .stopping, .stopped] := by
  have hallows := h.lifecycle
  cases hstopping : s.stopping with
  | idle | stoppingController | awaitingStart errors =>
    rw [hstopping] at hallows
    exact hallows
  | _ =>
    rw [hstopping] at hearly
    cases hearly

variable {phase : StopPhase}

theorem StopPhase.allows_of_early (hearly : phase.early = true)
    {lifecycle : RuntimeLifecycleState}
    (h : lifecycle ∉ [.draining, .stopping, .stopped]) : phase.Allows lifecycle := by
  cases phase with
  | idle | stoppingController | awaitingStart errors => exact h
  | _ => cases hearly

theorem RuntimeInv.setLifecycle (h : RuntimeInv setup s)
    (hclosed : s.acceptingMutations = false) (hallows : s.stopping.Allows next)
    (hstep : s.setLifecycle next = some s') : RuntimeInv setup s' := by
  have hrecorded := h.recorded.setLifecycle hstep
  obtain ⟨-, rfl⟩ := setLifecycle_some hstep
  exact ⟨h.gates.of_closed rfl hclosed, hrecorded, h.phases.requested, h.phases.fresh,
    h.phases.startOver, h.phases.stopOver, h.phases.started, hallows⟩

theorem RuntimeInv.failStart (h : RuntimeInv setup s) (hearly : s.stopping.early = true) :
    RuntimeInv setup s.failStart := by
  refine ⟨h.gates.of_closed rfl rfl, h.recorded, ?_⟩
  refine h.phases.moveStart rfl rfl rfl rfl (fun he => by cases he) (fun hc => by cases hc) ?_
  intro hlate
  rw [hearly] at hlate
  cases hlate

/-- A change of lifecycle in `#start`, and what follows. -/
theorem RuntimeInv.advance (h : RuntimeInv setup s) (hearly : s.stopping.early = true)
    (hnext : next ∉ [.draining, .stopping, .stopped, .failed])
    {rest : TegoRuntime → TegoRuntime}
    (hrest : ∀ s₁, RuntimeInv setup s₁ → s.setLifecycle next = some s₁ →
      RuntimeInv setup (rest s₁)) : RuntimeInv setup (s.advance next rest) := by
  unfold TegoRuntime.advance
  split
  · exact h.failStart hearly
  next s₁ hs₁ =>
  have hallows : s.stopping.Allows next :=
    StopPhase.allows_of_early hearly fun hmem => hnext (List.mem_of_mem_dropLast hmem)
  refine hrest s₁ (h.setLifecycle (Bool.eq_false_iff.mpr fun hmutations => ?_) hallows hs₁) hs₁
  have hmem := (setLifecycle_some hs₁).1
  rw [(h.gates.mutations hmutations).1] at hmem
  have hrunning : ∀ other ∈ runtimeTransitions .running,
      other ∈ [.draining, .stopping, .stopped, .failed] := by decide
  exact hnext (hrunning next hmem)

theorem RuntimeInv.moveStart (h : RuntimeInv setup s) {phase : StartPhase}
    (hfresh : phase.early = true → s.loop = .absent)
    (hcloses : phase.closes = true → s.loopOver = true)
    (hends : s.stopping.early = false → phase.ends = true) :
    RuntimeInv setup { s with starting := phase } :=
  ⟨h.gates.of_eq rfl rfl rfl, h.recorded, h.phases.moveStart rfl rfl rfl rfl hfresh hcloses hends⟩

theorem RuntimeInv.settleStart (h : RuntimeInv setup s) (ok : Bool) :
    RuntimeInv setup { s with starting := .settled ok } :=
  h.moveStart (fun he => by cases he) (fun hc => by cases hc) fun _ => rfl

theorem RuntimeInv.start (h : RuntimeInv setup s) : RuntimeInv setup (s.start setup) := by
  unfold TegoRuntime.start
  split
  · exact h
  next hgo =>
  simp only [Bool.or_eq_true, decide_eq_true_eq, not_or, Bool.not_eq_true, ne_eq,
    Decidable.not_not] at hgo
  obtain ⟨⟨⟨-, -⟩, hrequested⟩, hidle⟩ := hgo
  have hstopping : s.stopping = .idle := by
    by_contra hne
    rw [h.phases.requested hne] at hrequested
    cases hrequested
  have hearly : s.stopping.early = true := by
    rw [hstopping]
    rfl
  split
  · exact h.failStart hearly
  refine h.advance hearly (by decide) fun s₁ h₁ hs₁ => h₁.moveStart (fun _ => ?_)
    (fun hc => by cases hc) fun hlate => ?_
  · obtain ⟨-, rfl⟩ := setLifecycle_some hs₁
    exact h.phases.fresh (by rw [hidle]; rfl)
  · obtain ⟨-, rfl⟩ := setLifecycle_some hs₁
    rw [hearly] at hlate
    cases hlate

theorem Gates.openMutations (h : Gates setup s) (hrunning : s.lifecycle = .running)
    (hleader : s.leadership.isSome = true) : Gates setup s.openMutations :=
  h.of_fields rfl fun _ => ⟨hrunning, hleader⟩

section

variable (h : RuntimeInv setup s)
include h

theorem RuntimeInv.finishStart (hearly : s.stopping.early = true) :
    RuntimeInv setup s.finishStart := by
  unfold TegoRuntime.finishStart
  split
  · exact h.settleStart true
  refine h.advance hearly (by decide) fun s₁ h₁ hs₁ => ?_
  obtain ⟨-, rfl⟩ := setLifecycle_some hs₁
  have hsettled := h₁.settleStart true
  dsimp only
  split
  · next hleader =>
    exact ⟨hsettled.gates.openMutations rfl hleader, hsettled.recorded,
      hsettled.phases.moveStart rfl rfl rfl rfl (fun he => by cases he) (fun hc => by cases hc)
        fun _ => rfl⟩
  · exact hsettled

/-- The `catch` of `#start` goes on, once the leadership controller has stopped. -/
theorem RuntimeInv.closeStart (hover : s.loopOver = true)
    (hearly : s.stopping.early = true) (driversOpened terminalObserved servicesClosed : Bool)
    {phase : StartPhase} (hphase : phase.early = false) :
    RuntimeInv setup { s with
      driversOpened := driversOpened
      terminalObserved := terminalObserved
      servicesClosed := servicesClosed
      starting := phase } := by
  refine ⟨h.gates.of_eq rfl rfl rfl, h.recorded,
    h.phases.moveStart rfl rfl rfl rfl (fun he => ?_) (fun _ => hover) fun hlate => ?_⟩
  · rw [hphase] at he
    cases he
  · rw [hearly] at hlate
    cases hlate

theorem RuntimeInv.startServices (hover : s.loopOver = true)
    (hearly : s.stopping.early = true) (terminalObserved : Bool) :
    RuntimeInv setup ({ s with terminalObserved := terminalObserved }.startServices setup) := by
  unfold TegoRuntime.startServices
  split
  · exact h.closeStart hover hearly s.driversOpened terminalObserved true rfl
  · exact h.closeStart hover hearly s.driversOpened terminalObserved s.servicesClosed rfl

theorem RuntimeInv.startObserving (hover : s.loopOver = true)
    (hearly : s.stopping.early = true) : RuntimeInv setup (s.startObserving setup) := by
  unfold TegoRuntime.startObserving
  split
  · exact h.closeStart hover hearly s.driversOpened s.terminalObserved s.servicesClosed rfl
  · exact h.startServices hover hearly true

theorem RuntimeInv.shut (hover : s.loopOver = true) : s.Shut := h.gates.shut (loopOver_held hover)

theorem RuntimeInv.startFailed (hover : s.loopOver = true)
    (hearly : s.stopping.early = true) : RuntimeInv setup s.startFailed := by
  have hsettled : RuntimeInv setup { s with
      driversOpened := false
      starting := .settled false } :=
    h.closeStart hover hearly false s.terminalObserved s.servicesClosed rfl
  unfold TegoRuntime.startFailed
  dsimp only
  split
  · exact hsettled
  match hs' : TegoRuntime.setLifecycle { s with driversOpened := false, starting := .settled false }
      .failed with
  | none => exact hsettled
  | some s' =>
    exact hsettled.setLifecycle (h.shut hover).mutations
      (StopPhase.allows_of_early hearly (by decide)) hs'

theorem RuntimeInv.ofCurrent (hover : s.loopOver = true)
    (hcurrent : s'.Current) (hmutations : s'.acceptingMutations = s.acceptingMutations)
    (hleadership : s'.leadership = s.leadership) (hadmission : s'.admission = s.admission)
    (hloop : s'.loop = s.loop) (hframe : s.LoopFrame s') : RuntimeInv setup s' := by
  have hidle : s.loop.activates = false ∧ s.loop.serves = false := by
    rw [loopOver, Bool.or_eq_true, decide_eq_true_eq, decide_eq_true_eq] at hover
    rcases hover with hl | hl
    · rw [hl]
      exact ⟨rfl, rfl⟩
    · rw [hl]
      exact ⟨rfl, rfl⟩
  refine ⟨h.gates.idle (loopOver_held hover) hmutations hleadership hadmission hcurrent ?_
    fun _ => ?_, ?_, ?_⟩
  · rw [hloop]
    exact hidle.1
  · rw [hloop]
    exact hidle.2
  · rw [Recorded, hframe.changes, hframe.lifecycle]
    exact h.recorded
  · refine h.phases.moveStart hframe.stopping hframe.requested hloop hframe.lifecycle ?_ ?_ ?_
    · rw [hframe.starting]
      exact h.phases.fresh
    · rw [hframe.starting]
      exact h.phases.startOver
    · rw [hframe.starting]
      exact h.phases.started

theorem RuntimeInv.callReconcilerStop (hover : s.loopOver = true)
    (i : Nat) : RuntimeInv setup (s.callReconcilerStop i) :=
  h.ofCurrent hover (h.gates.current.callReconcilerStop i) rfl rfl rfl rfl ⟨rfl, rfl, rfl, rfl, rfl⟩

theorem RuntimeInv.reconcilerStopped (hover : s.loopOver = true)
    (i : Nat) (outcome : CallOutcome) : RuntimeInv setup (s.reconcilerStopped i outcome) :=
  h.ofCurrent hover (h.gates.current.reconcilerStopped i outcome) rfl rfl rfl rfl
    ⟨rfl, rfl, rfl, rfl, rfl⟩

theorem RuntimeInv.stepStart {outcome : CallOutcome}
    (hstep : s.stepStart setup outcome = some s') : RuntimeInv setup s' := by
  have hearly : s.starting.ends = false → s.stopping.early = true := by
    intro hgoing
    by_contra hlate
    rw [h.phases.started (Bool.eq_false_iff.mpr hlate)] at hgoing
    cases hgoing
  have hends : ∀ {phase : StartPhase}, s.starting.ends = false →
      s.stopping.early = false → phase.ends = true := by
    intro phase hgoing hlate
    rw [hearly hgoing] at hlate
    cases hlate
  unfold TegoRuntime.stepStart at hstep
  cases hstarting : s.starting with
  | idle | settled ok =>
    simp only [hstarting, reduceCtorEq] at hstep
  | openingDrivers =>
    rw [hstarting] at hearly hends
    have hfresh := h.phases.fresh (by rw [hstarting]; rfl)
    have hopened : RuntimeInv setup { s with
        driversOpened := true
        starting := .openingDrivers } :=
      ⟨h.gates.of_eq rfl rfl rfl, h.recorded, h.phases.requested, fun _ => hfresh,
        fun hc => (by cases hc), h.phases.stopOver, hends rfl, h.phases.lifecycle⟩
    simp only [hstarting] at hstep
    split at hstep
    · cases hstep
      exact h.failStart (hearly rfl)
    split at hstep
    · cases hstep
      exact hopened.settleStart true
    cases hstep
    refine hopened.advance (hearly rfl) ?_ fun s₁ h₁ hs₁ => ?_
    · decide
    obtain ⟨-, rfl⟩ := setLifecycle_some hs₁
    exact h₁.moveStart (fun _ => hfresh) (fun hc => by cases hc) (hends rfl)
  | recoveringState =>
    rw [hstarting] at hearly hends
    simp only [hstarting] at hstep
    split at hstep
    · cases hstep
      exact h.failStart (hearly rfl)
    cases hstep
    exact h.moveStart (fun _ => h.phases.fresh (by rw [hstarting]; rfl))
      (fun hc => by cases hc) (hends rfl)
  | recoveringTasks =>
    rw [hstarting] at hearly hends
    simp only [hstarting] at hstep
    split at hstep
    · cases hstep
      exact h.failStart (hearly rfl)
    split at hstep
    · cases hstep
      exact h.settleStart true
    cases hstep
    exact h.moveStart (fun _ => h.phases.fresh (by rw [hstarting]; rfl))
      (fun hc => by cases hc) (hends rfl)
  | checkingHealth =>
    rw [hstarting] at hearly hends
    have hfresh := h.phases.fresh (by rw [hstarting]; rfl)
    have hheld : s.heldAuthority = none := by rw [heldAuthority, hfresh]
    have havailable : RuntimeInv setup { s with
        available := true
        starting := .checkingHealth } :=
      ⟨h.gates.of_eq rfl rfl rfl, h.recorded, h.phases.requested, fun _ => hfresh,
        fun hc => (by cases hc), h.phases.stopOver, hends rfl, h.phases.lifecycle⟩
    simp only [hstarting] at hstep
    split at hstep
    · cases hstep
      exact h.settleStart true
    next hrequested =>
    cases hstep
    refine havailable.advance (hearly rfl) ?_ fun s₁ h₁ hs₁ => ?_
    · decide
    obtain ⟨-, rfl⟩ := setLifecycle_some hs₁
    have hstopping : s.stopping = .idle := by
      by_contra hne
      exact hrequested (h.phases.requested hne)
    refine ⟨h₁.gates.idle hheld rfl rfl rfl h₁.gates.current rfl fun _ => rfl, h₁.recorded,
      h₁.phases.requested, fun he => (by cases he), fun hc => (by cases hc), fun hwaited => ?_,
      hends rfl, h₁.phases.lifecycle⟩
    change s.stopping.waited = true at hwaited
    rw [hstopping] at hwaited
    cases hwaited
  | startingController =>
    rw [hstarting] at hearly hends
    simp only [hstarting] at hstep
    split at hstep
    · cases hstep
      exact h.moveStart (fun he => by cases he) (fun hc => by cases hc) (hends rfl)
    · cases hstep
      exact h.finishStart (hearly rfl)
  | waitingForAuthority =>
    rw [hstarting] at hearly
    simp only [hstarting] at hstep
    split at hstep
    · cases hstep
    · cases hstep
      exact h.finishStart (hearly rfl)
    · cases hstep
      exact h.failStart (hearly rfl)
  | stoppingController =>
    rw [hstarting] at hearly hends
    simp only [hstarting] at hstep
    split at hstep
    · next hover =>
      split at hstep
      · cases hstep
        exact h.startObserving hover (hearly rfl)
      next i hi =>
      cases hstep
      exact (h.callReconcilerStop hover i).moveStart (fun he => by cases he) (fun _ => hover)
        (hends rfl)
    · cases hstep
  | stoppingReconciler i =>
    rw [hstarting] at hearly
    have hover := h.phases.startOver (by rw [hstarting]; rfl)
    simp only [hstarting] at hstep
    cases hstep
    exact (h.reconcilerStopped hover i outcome).startObserving hover (hearly rfl)
  | observingStatus =>
    rw [hstarting] at hearly
    simp only [hstarting] at hstep
    cases hstep
    exact h.startServices (h.phases.startOver (by rw [hstarting]; rfl)) (hearly rfl) true
  | closingTasks =>
    rw [hstarting] at hends
    simp only [hstarting] at hstep
    cases hstep
    exact h.moveStart (fun he => by cases he)
      (fun _ => h.phases.startOver (by rw [hstarting]; rfl)) (hends rfl)
  | closingWorkers =>
    rw [hstarting] at hends
    simp only [hstarting] at hstep
    cases hstep
    exact h.moveStart (fun he => by cases he)
      (fun _ => h.phases.startOver (by rw [hstarting]; rfl)) (hends rfl)
  | closingDrivers =>
    rw [hstarting] at hearly
    simp only [hstarting] at hstep
    cases hstep
    exact h.startFailed (h.phases.startOver (by rw [hstarting]; rfl)) (hearly rfl)

end

/-! ## `#stop` -/

theorem RuntimeInv.moveStop (h : RuntimeInv setup s)
    (hrequested : s.stopRequested = true) (hover : phase.waited = true → s.loopOver = true)
    (hstarted : phase.early = false → s.starting.ends = true) (hallows : phase.Allows s.lifecycle) :
    RuntimeInv setup { s with stopping := phase } :=
  ⟨h.gates.of_eq rfl rfl rfl, h.recorded, fun _ => hrequested, h.phases.fresh, h.phases.startOver,
    hover, hstarted, hallows⟩

theorem RuntimeInv.stop (h : RuntimeInv setup s) : RuntimeInv setup s.stop := by
  unfold TegoRuntime.stop
  split
  · next hidle =>
    have hallows : s.stopping.Allows s.lifecycle := h.phases.lifecycle
    rw [hidle] at hallows
    exact ⟨h.gates.of_eq rfl rfl rfl, h.recorded, fun _ => rfl, h.phases.fresh, h.phases.startOver,
      fun hwaited => (by cases hwaited), fun hlate => (by cases hlate), hallows⟩
  · exact h

structure Closing (s : TegoRuntime) : Prop where
  requested : s.stopRequested = true
  ended : s.loopOver = true
  started : s.starting.ends = true
  lifecycle : s.lifecycle = .stopping

/-- Fields of `#stop` only. -/
theorem RuntimeInv.closeStop (h : RuntimeInv setup s) (hc : s.Closing) (driversOpened : Bool)
    (terminalObserved servicesClosed workerAuthorityActive : Bool)
    (hallows : phase.Allows .stopping) :
    RuntimeInv setup { s with
      driversOpened := driversOpened
      terminalObserved := terminalObserved
      servicesClosed := servicesClosed
      workerAuthorityActive := workerAuthorityActive
      stopping := phase } := by
  refine ⟨h.gates.of_eq rfl rfl rfl, h.recorded, fun _ => hc.requested, h.phases.fresh,
    h.phases.startOver, fun _ => hc.ended, fun _ => hc.started, ?_⟩
  change phase.Allows s.lifecycle
  rw [hc.lifecycle]
  exact hallows

theorem RuntimeInv.stopServices (h : RuntimeInv setup s) (hc : s.Closing)
    (terminalObserved workerAuthorityActive errors : Bool) :
    RuntimeInv setup ({ s with
      terminalObserved := terminalObserved
      workerAuthorityActive := workerAuthorityActive }.stopServices setup errors) := by
  unfold TegoRuntime.stopServices
  split
  · exact h.closeStop hc s.driversOpened terminalObserved true workerAuthorityActive rfl
  · exact h.closeStop hc s.driversOpened terminalObserved s.servicesClosed workerAuthorityActive rfl

theorem RuntimeInv.stopObserving (h : RuntimeInv setup s) (hc : s.Closing)
    (workerAuthorityActive errors : Bool) :
    RuntimeInv setup
      ({ s with workerAuthorityActive := workerAuthorityActive }.stopObserving setup errors) := by
  unfold TegoRuntime.stopObserving
  split
  · exact h.stopServices hc s.terminalObserved workerAuthorityActive errors
  · exact h.closeStop hc s.driversOpened s.terminalObserved s.servicesClosed workerAuthorityActive rfl

theorem RuntimeInv.stopWorkers (h : RuntimeInv setup s) (hc : s.Closing) (errors : Bool) :
    RuntimeInv setup (s.stopWorkers setup errors) := by
  unfold TegoRuntime.stopWorkers
  split
  · exact h.closeStop hc s.driversOpened s.terminalObserved s.servicesClosed s.workerAuthorityActive
      rfl
  · exact h.stopObserving hc s.workerAuthorityActive errors

/-- Every lifecycle there can be has its way to `stopping`. -/
theorem beginStopping_of_early (hrecorded : s.Recorded)
    (hearly : s.lifecycle ∉ [.draining, .stopping, .stopped]) :
    ∃ changes, s.beginStopping = some { s with
        lifecycle := .stopping
        changes := changes } ∧ Follows .created changes .stopping := by
  by_cases hrunning : s.lifecycle = .running
  · refine ⟨s.changes ++ [(.running, .draining)] ++ [(.draining, .stopping)], ?_, ?_⟩
    · rw [beginStopping, if_pos hrunning, setLifecycle_eq (by rw [hrunning]; decide), hrunning]
      rfl
    · have hdraining : Follows .created (s.changes ++ [(.running, .draining)]) .draining :=
        Follows.append (hrunning ▸ hrecorded) (by decide)
      exact hdraining.append (by decide)
  · have hmem : .stopping ∈ runtimeTransitions s.lifecycle := by
      revert hearly hrunning
      cases s.lifecycle <;> decide
    have hnot : s.lifecycle ≠ .stopping := by
      intro heq
      rw [heq] at hearly
      exact hearly (by decide)
    refine ⟨s.changes ++ [(s.lifecycle, .stopping)], ?_, Follows.append hrecorded hmem⟩
    rw [beginStopping, if_neg hrunning]
    change (if s.lifecycle = .stopping then some s else s.setLifecycle .stopping) = _
    rw [if_neg hnot, setLifecycle_eq hmem]

theorem RuntimeInv.closing (h : RuntimeInv setup s) (hlate : s.stopping.early = false)
    (hgoing : ∀ result, s.stopping ≠ .settled result) : s.Closing := by
  have hallows := h.phases.lifecycle
  have hwaited : s.stopping.waited = true := by
    cases hstopping : s.stopping with
    | idle | stoppingController | awaitingStart errors =>
      rw [hstopping] at hlate
      cases hlate
    | _ => rfl
  refine ⟨h.phases.requested fun hidle => ?_, h.phases.stopOver hwaited, h.phases.started hlate, ?_⟩
  · rw [hidle] at hlate
    cases hlate
  · cases hstopping : s.stopping with
    | idle | stoppingController | awaitingStart errors =>
      rw [hstopping] at hlate
      cases hlate
    | settled result => exact absurd hstopping (hgoing result)
    | _ =>
      rw [hstopping] at hallows
      exact hallows

theorem RuntimeInv.beginClosing (h : RuntimeInv setup s) (hrequested : s.stopRequested = true)
    (hover : s.loopOver = true) (hends : s.starting.ends = true)
    {changes : List (RuntimeLifecycleState × RuntimeLifecycleState)}
    (hchanges : Follows .created changes .stopping) (errors : Bool) :
    RuntimeInv setup { s.closeOperations with
      lifecycle := .stopping
      changes := changes
      stopping := .revokingWorkers errors } :=
  ⟨h.gates.of_closed rfl rfl, hchanges, fun _ => hrequested, h.phases.fresh, h.phases.startOver,
    fun _ => hover, fun _ => hends, rfl⟩

theorem RuntimeInv.stopStarted (h : RuntimeInv setup s) (hearly : s.stopping.early = true)
    (hrequested : s.stopRequested = true) (hover : s.loopOver = true)
    (hends : s.starting.ends = true) (errors : Bool) :
    RuntimeInv setup (s.stopStarted setup errors) := by
  have hlifecycle := h.phases.allows_early hearly
  obtain ⟨changes, hbegun, hchanges⟩ :=
    beginStopping_of_early (s := s.closeOperations) h.recorded hlifecycle
  have hinv := h.beginClosing hrequested hover hends hchanges errors
  have hc : Closing { s.closeOperations with
      lifecycle := .stopping
      changes := changes
      stopping := .revokingWorkers errors } := ⟨hrequested, hover, hends, rfl⟩
  unfold TegoRuntime.stopStarted
  split
  · next hstopped =>
    rw [hstopped] at hlifecycle
    exact absurd (by decide) hlifecycle
  rw [hbegun]
  dsimp only
  split
  · exact hinv.stopWorkers hc errors
  next i hi =>
  have hallows : (StopPhase.stoppingReconciler i errors).Allows .stopping := rfl
  exact (hinv.callReconcilerStop hover i).closeStop ⟨hrequested, hover, hends, rfl⟩ _ _ _ _ hallows

theorem RuntimeInv.settleStop (h : RuntimeInv setup s) (hc : s.Closing) (errors : Bool) :
    ∃ s₁, TegoRuntime.setLifecycle { s with driversOpened := false }
        (if errors then .failed else .stopped) = some s₁ ∧
      RuntimeInv setup { s₁ with stopping := .settled (if errors then .failed else .ok) } := by
  have hmem : (if errors then .failed else .stopped) ∈ runtimeTransitions s.lifecycle := by
    rw [hc.lifecycle]
    cases errors <;> decide
  refine ⟨_, setLifecycle_eq hmem, ?_⟩
  refine ⟨h.gates.of_closed rfl (h.shut hc.ended).mutations, Follows.append h.recorded hmem,
    fun _ => hc.requested, h.phases.fresh, h.phases.startOver, fun _ => hc.ended,
    fun _ => hc.started, ?_⟩
  cases errors
  · exact ⟨by simp, .inl rfl⟩
  · exact ⟨by simp, .inr rfl⟩

theorem RuntimeInv.stepStop (h : RuntimeInv setup s) {outcome : CallOutcome}
    (hstep : s.stepStop setup outcome = some s') : RuntimeInv setup s' := by
  have hclosing : ∀ {phase : StopPhase}, s.stopping = phase → phase.early = false →
      (∀ result, phase ≠ .settled result) → s.Closing := by
    rintro phase rfl hlate hgoing
    exact h.closing hlate hgoing
  have hrequested : ∀ {phase : StopPhase}, s.stopping = phase → phase ≠ .idle →
      s.stopRequested = true := by
    rintro phase rfl hne
    exact h.phases.requested hne
  unfold TegoRuntime.stepStop at hstep
  split at hstep
  · cases hstep
  · cases hstep
  · next hstopping =>
    split at hstep
    · next hover =>
      cases hstep
      refine h.moveStop (hrequested hstopping (by simp)) (fun _ => hover) (fun hl => by cases hl) ?_
      exact h.phases.allows_early (by rw [hstopping]; rfl)
    · cases hstep
  · next errors hstopping =>
    have hover := h.phases.stopOver (by rw [hstopping]; rfl)
    have hreq := hrequested hstopping (by simp)
    split at hstep
    · next hidle =>
      cases hstep
      exact h.stopStarted (by rw [hstopping]; rfl) hreq hover (by rw [hidle]; rfl) errors
    · next ok hsettled =>
      cases hstep
      exact h.stopStarted (by rw [hstopping]; rfl) hreq hover (by rw [hsettled]; rfl) errors
    · cases hstep
  · next i errors hstopping =>
    have hc := hclosing hstopping rfl (by simp)
    have hstopped := h.reconcilerStopped hc.ended i outcome
    have hc' : (s.reconcilerStopped i outcome).Closing := ⟨hc.1, hc.2, hc.3, hc.4⟩
    split at hstep
    · cases hstep
      exact hstopped.stopObserving hc' _ true
    · cases hstep
      exact hstopped.stopWorkers hc' errors
  · next errors hstopping =>
    cases hstep
    exact h.stopObserving (hclosing hstopping rfl (by simp)) _ _
  · next errors hstopping =>
    cases hstep
    exact h.stopServices (hclosing hstopping rfl (by simp)) true _ _
  · next errors hstopping =>
    have hc := hclosing hstopping rfl (by simp)
    cases hstep
    exact h.closeStop hc _ _ _ _ rfl
  · next errors hstopping =>
    have hc := hclosing hstopping rfl (by simp)
    cases hstep
    exact h.closeStop hc _ _ _ _ rfl
  · next errors hstopping =>
    have hc := hclosing hstopping rfl (by simp)
    obtain ⟨s₁, hs₁, hinv⟩ := h.settleStop hc (errors || outcome.failed)
    dsimp only at hstep
    rw [hs₁] at hstep
    cases hstep
    exact hinv

/-! ## Background failures -/

theorem Gates.failReconciler (h : Gates setup s) {i : Nat} (hother : s.reconciler ≠ some i) :
    Gates setup (s.failReconciler i) := by
  have halive : ∀ authority j, s.Alive authority j → (s.failReconciler i).Alive authority j := by
    intro authority j ha
    refine ⟨ha.reconciler, ?_⟩
    have hne : i ≠ j := fun heq => hother (heq ▸ ha.reconciler)
    exact (List.getElem?_modify_ne _ _ hne).trans ha.created
  refine ⟨h.mutations, h.leader, h.lease, fun authority hlease => ?_, fun authority j hl => ?_,
    fun authority hl => ?_, h.current.failReconciler i, h.services⟩
  · obtain ⟨j, hj⟩ := h.admitted authority hlease
    exact ⟨j, halive authority j hj⟩
  · exact halive authority j (h.activating authority j hl)
  · obtain ⟨j, hj⟩ := h.setting authority hl
    exact ⟨j, halive authority j hj⟩

theorem Gates.failCurrent (h : Gates setup s) {i : Nat} {r : CreatedReconciler}
    (hr : s.reconcilers[i]? = some r) (hcurrent : s.reconciler = some i)
    (hcalm : s.activating ≠ some i) :
    Gates setup ({ s.failReconciler i with
      acceptingMutations := false
      leadership := none }.closeAdmission r.authority) := by
  have hidle : s.loop.activates = false := by
    cases hloop : s.loop with
    | startingReconciler authority j =>
      refine absurd ?_ hcalm
      rw [TegoRuntime.activating, hloop, ← hcurrent]
      exact (h.activating authority j hloop).reconciler.symm
    | settingTasks authority =>
      refine absurd ?_ hcalm
      rw [TegoRuntime.activating, hloop]
      exact hcurrent
    | _ => rfl
  have hclosed : (if s.admission = some r.authority then none else s.admission) = none := by
    split
    · rfl
    next hne =>
    cases hadmission : s.admission with
    | none => rfl
    | some authority =>
      obtain ⟨j, halive⟩ := h.admitted authority hadmission
      cases hcurrent.symm.trans halive.reconciler
      cases hr.symm.trans halive.created
      exact absurd hadmission hne
  exact Shut.idle ⟨rfl, rfl, hclosed⟩ hidle (h.current.failReconciler i)
    fun hunmanaged => (h.services hunmanaged).2

theorem RuntimeInv.backgroundFailure (h : RuntimeInv setup s) {i : Nat}
    (hcalm : s.interrupts (.backgroundFailure i) = false)
    (hstep : s.backgroundFailure i = some s') : RuntimeInv setup s' := by
  obtain ⟨r, hr, rfl⟩ := map_eq_some_iff.mp hstep
  dsimp only
  split
  · next hstale =>
    have hother : s.reconciler ≠ some i := by
      intro hcurrent
      obtain ⟨r', hr', hauthority⟩ := h.gates.current i hcurrent
      cases hr.symm.trans hr'
      simp only [Bool.or_eq_true, decide_eq_true_eq] at hstale
      rcases hstale with hne | hne
      · exact hne hcurrent
      · exact hne hauthority
    exact ⟨h.gates.failReconciler hother, h.recorded, h.phases.requested, h.phases.fresh,
      h.phases.startOver, h.phases.stopOver, h.phases.started, h.phases.lifecycle⟩
  · next hcurrent =>
    simp only [Bool.or_eq_true, decide_eq_true_eq, not_or, ne_eq, Decidable.not_not] at hcurrent
    have hclosed : RuntimeInv setup ({ s.failReconciler i with
        acceptingMutations := false
        leadership := none }.closeAdmission r.authority) :=
      ⟨h.gates.failCurrent hr hcurrent.1 (of_decide_eq_false hcalm), h.recorded,
        h.phases.requested, h.phases.fresh, h.phases.startOver, h.phases.stopOver,
        h.phases.started, h.phases.lifecycle⟩
    split
    · exact hclosed.stop
    next hlifecycle =>
    split
    · exact hclosed
    next s₁ hs₁ =>
    have hearly : s.stopping.early = true := by
      by_contra hlate
      have hallows := h.phases.lifecycle
      refine hlifecycle ?_
      change (s.lifecycle = .failed || s.lifecycle = .stopped || s.lifecycle = .stopping) = true
      cases hstopping : s.stopping with
      | idle | stoppingController | awaitingStart errors =>
        rw [hstopping] at hlate
        exact absurd rfl hlate
      | settled result =>
        rw [hstopping] at hallows
        rcases hallows.2 with heq | heq
        · rw [heq]
          rfl
        · rw [heq]
          rfl
      | _ =>
        rw [hstopping] at hallows
        have heq : s.lifecycle = .stopping := hallows
        rw [heq]
        rfl
    exact (hclosed.setLifecycle rfl (StopPhase.allows_of_early hearly (by decide)) hs₁).stop

/-! ## The law -/

theorem new_inv (setup : RuntimeSetup) : RuntimeInv setup new := by
  refine ⟨Shut.idle ⟨rfl, rfl, rfl⟩ rfl (fun i hi => by cases hi) fun _ => rfl, rfl, ?_⟩
  refine ⟨fun hne => absurd rfl hne, fun _ => rfl, fun hc => (by cases hc),
    fun hwaited => (by cases hwaited), fun hlate => (by cases hlate), ?_⟩
  change .created ∉ [RuntimeLifecycleState.draining, .stopping, .stopped]
  decide

theorem RuntimeInv.step (h : RuntimeInv setup s) {label : RuntimeLabel}
    (hcalm : s.interrupts label = false) (hstep : s.step setup label = some s') :
    RuntimeInv setup s' := by
  cases label with
  | start =>
    cases hstep
    exact h.start
  | stop =>
    cases hstep
    exact h.stop
  | starting outcome => exact h.stepStart hstep
  | stopping outcome => exact h.stepStop hstep
  | leadership event => exact h.stepLoop hstep
  | backgroundFailure i => exact h.backgroundFailure hcalm hstep

theorem RuntimeInv.gateLaw (h : RuntimeInv setup s) : s.GateLaw where
  mutations := h.gates.mutations
  admitted := h.gates.admitted
  changes := h.recorded
  legal hillegal := by
    have hallows := h.phases.lifecycle
    rw [hillegal] at hallows
    exact hallows.1 rfl
  settled result hresult := by
    have hallows := h.phases.lifecycle
    have hshut := h.shut (h.phases.stopOver (by rw [hresult]; rfl))
    rw [hresult] at hallows
    exact ⟨hallows.2, hshut.mutations, hshut.admission⟩

/-- In every run in which no reconciler fails in the background while it is being activated, the
gate is kept. -/
theorem gateLaw_of_run (setup : RuntimeSetup) (s : TegoRuntime)
    (hr : (machine setup).ReachableVia (fun s label _ => s.interrupts label = false) s) :
    s.GateLaw :=
  (hr.invariant (I := RuntimeInv setup)
    (fun s h0 => by
      obtain rfl : s = new := h0
      exact new_inv setup)
    fun _ _ _ _ ih hs hcalm => ih.step hcalm hs).gateLaw

/-! ## Runs -/

def sampleSetup : RuntimeSetup where
  singleMain := true
  scopesMatch := true
  managed := true

def sampleAuthority : RuntimeAuthority := ⟨[114], 1⟩

/-- A runtime starts, up to the activation of its first authority. -/
def electing : List RuntimeLabel :=
  .start :: List.replicate 5 (.starting .ok) ++
    [.leadership (.acquired sampleAuthority), .leadership (.settled .ok),
      .leadership (.settled .ok)]

/-- The authority becomes active and the runtime runs; then the reconciler fails in the background,
and the runtime stops. -/
def failing : List RuntimeLabel :=
  electing ++ [.leadership (.settled .ok), .leadership (.settled .ok), .starting .ok,
    .backgroundFailure 0, .leadership .stopped] ++
    List.replicate 5 (.leadership (.settled .ok)) ++ List.replicate 6 (.stopping .ok)

theorem gateLaw_of_run_failing :
    ∃ s : TegoRuntime,
      (machine sampleSetup).runIf (fun s label => !s.interrupts label) new failing = some s ∧
      s.stopping = .settled .ok ∧ s.GateLaw := by
  have hrun : ((machine sampleSetup).runIf (fun s label => !s.interrupts label) new failing).map
      (·.stopping) = some (.settled .ok) := by
    decide +kernel
  obtain ⟨s, hs, hsettled⟩ := map_eq_some_iff.mp hrun
  have hr := Machine.ReachableVia.of_runIf (.init rfl) hs
  exact ⟨s, hs, hsettled,
    gateLaw_of_run sampleSetup s (hr.mono fun _ _ _ hcalm => (Bool.not_eq_true' _).mp hcalm)⟩

/-- The reconciler fails while the tasks take their authority: the admission opens for it. -/
theorem failed_is_admitted :
    ¬ ∀ (setup : RuntimeSetup) (s : TegoRuntime), (machine setup).Reachable s → s.GateLaw := by
  intro hlaw
  have hrun : ((machine sampleSetup).run new
      (electing ++ [.backgroundFailure 0, .leadership (.settled .ok)])).map
        (fun s => (s.admission, s.reconcilers)) =
      some (some sampleAuthority, [⟨sampleAuthority, true, false⟩]) := by
    decide +kernel
  obtain ⟨s, hs, hend⟩ := map_eq_some_iff.mp hrun
  obtain ⟨hadmission, hreconcilers⟩ := Prod.mk.inj hend
  obtain ⟨i, halive⟩ := (hlaw sampleSetup s (.of_init_run rfl hs)).admitted _ hadmission
  have hcreated := halive.created
  rw [hreconcilers] at hcreated
  cases i with
  | zero | succ i => cases hcreated

end TegoRuntime

end TegoNext
