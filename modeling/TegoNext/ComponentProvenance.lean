/-
What the table of components keeps to, in any order of activations, drains, stops, restorations
and inventories.

Each of these asks the worker in the middle. A drain or a stop recorded in between should win. The
two writes that come after an answer do not look at the table again: the activation once the worker
has answered, and a component that only the inventory knows.
-/
import TegoNext.RemoteExecutor

set_option autoImplicit false

namespace TegoNext

open List Option Function

namespace RemoteExecutor

/-- An entry was asked for after the last stop of its target, if active also its last drain. -/
def Kept (e : RemoteExecutor) : Prop :=
  ∀ target entry, e.componentActivations.get target = some entry →
    e.lastStop target ≤ entry.since ∧ (entry.state = .active → e.lastDrain target ≤ entry.since)

/-- An accepted activation was asked for after the last stop and drain of its target, and an
accepted inventory reports nothing as draining that the table does not have and that was stopped
after the inventory was asked for. -/
def InOrder (options : RemoteExecutorOptions) (e : RemoteExecutor) : RemoteLabel → Prop
  | .lifecycleAnswered i answer =>
    ∀ call, e.lifecycleCalls[i]? = some call → call.kind = .activate →
      e.lifecycleOutcome call answer = .ok () →
        e.lastStop call.activation.target ≤ call.since ∧
          e.lastDrain call.activation.target ≤ call.since
  | .reconcileAnswered (some inventory) =>
    ∀ reconciliation candidates, e.reconciliation = some reconciliation →
      e.session = some reconciliation.session →
      e.teardownCandidates options reconciliation.since [] inventory = .ok candidates →
        ∀ activation, (activation, .draining) ∈ inventory →
          e.componentActivations.get activation.target = none →
            e.lastStop activation.target ≤ reconciliation.since
  | _ => True

def Counted (e : RemoteExecutor) : Prop := ∀ target, e.lastStop target ≤ e.recorded

variable {options : RemoteExecutorOptions} {e e' : RemoteExecutor}

/-! ## The writes -/

/-- A write that leaves the table and its counts alone. -/
structure SameComponents (e e' : RemoteExecutor) : Prop where
  componentActivations : e'.componentActivations = e.componentActivations
  recorded : e'.recorded = e.recorded
  lastDrain : e'.lastDrain = e.lastDrain
  lastStop : e'.lastStop = e.lastStop

theorem SameComponents.refl (e : RemoteExecutor) : SameComponents e e := ⟨rfl, rfl, rfl, rfl⟩

theorem SameComponents.kept_iff (h : SameComponents e e') : Kept e' ↔ Kept e := by
  unfold Kept
  rw [h.componentActivations, h.lastDrain, h.lastStop]

theorem SameComponents.counted (h : SameComponents e e') (hcount : Counted e) : Counted e' := by
  unfold Counted
  rw [h.lastStop, h.recorded]
  exact hcount

theorem SameComponents.recordDraining (h : SameComponents e e') (target : TaskExecutionTarget)
    (entry : ComponentEntry) :
    SameComponents (e.recordDraining target entry) (e'.recordDraining target entry) where
  componentActivations := by
    show e'.componentActivations.set target _ = _
    rw [h.componentActivations]
    rfl
  recorded := congrArg (· + 1) h.recorded
  lastDrain := by
    show Function.update e'.lastDrain target (e'.recorded + 1) = _
    rw [h.lastDrain, h.recorded]
    rfl
  lastStop := h.lastStop

theorem Kept.recordDraining (h : Kept e) {target : TaskExecutionTarget} {entry : ComponentEntry}
    (hsince : e.lastStop target ≤ entry.since) : Kept (e.recordDraining target entry) := by
  intro other found hfound
  replace hfound : (e.componentActivations.set target { entry with state := .draining }).get other =
    some found := hfound
  rw [JsMap.get_set] at hfound
  split at hfound
  · next hsame =>
    cases some.inj hfound
    exact ⟨hsame ▸ hsince, fun hactive => by cases hactive⟩
  next hother =>
  refine ⟨(h other found hfound).1, fun hactive => ?_⟩
  show Function.update e.lastDrain target (e.recorded + 1) other ≤ found.since
  rw [update_of_ne hother]
  exact (h other found hfound).2 hactive

theorem Counted.recordDraining (h : Counted e) (target : TaskExecutionTarget)
    (entry : ComponentEntry) : Counted (e.recordDraining target entry) :=
  fun other => Nat.le_succ_of_le (h other)

theorem Kept.completeStop (h : Kept e) (target : TaskExecutionTarget) :
    Kept (e.completeStop target) := by
  intro other found hfound
  replace hfound : (e.componentActivations.delete target).get other = some found := hfound
  rw [JsMap.get_delete] at hfound
  split at hfound
  · cases hfound
  next hother =>
  show Function.update e.lastStop target (e.recorded + 1) other ≤ found.since ∧ _
  rw [update_of_ne hother]
  exact h other found hfound

theorem Counted.completeStop (h : Counted e) (target : TaskExecutionTarget) :
    Counted (e.completeStop target) := by
  intro other
  show Function.update e.lastStop target (e.recorded + 1) other ≤ e.recorded + 1
  by_cases hsame : other = target
  · rw [hsame, update_self]
  · rw [update_of_ne hsame]
    exact Nat.le_succ_of_le (h other)

theorem Kept.activate_iff (h : Kept e) (activation : RemoteComponentActivation)
    (provenance : ComponentProvenance) (since : Nat) :
    Kept { e with
        componentActivations :=
          e.componentActivations.set activation.target ⟨activation, provenance, .active, since⟩ } ↔
      e.lastStop activation.target ≤ since ∧ e.lastDrain activation.target ≤ since := by
  constructor
  · intro hkept
    have hentry := hkept activation.target ⟨activation, provenance, .active, since⟩
      (JsMap.get_set.trans (if_pos rfl))
    exact ⟨hentry.1, hentry.2 rfl⟩
  · intro hsince other found hfound
    replace hfound : (e.componentActivations.set activation.target
      ⟨activation, provenance, .active, since⟩).get other = some found := hfound
    rw [JsMap.get_set] at hfound
    split at hfound
    · next hsame =>
      cases some.inj hfound
      subst hsame
      exact ⟨hsince.1, fun _ => hsince.2⟩
    · exact h other found hfound

/-! ## The inventory -/

def recordAll (e : RemoteExecutor) (candidates : List (TaskExecutionTarget × ComponentEntry)) :
    RemoteExecutor :=
  candidates.foldl (fun e candidate => e.recordDraining candidate.1 candidate.2) e

theorem recordAll_cons (candidate : TaskExecutionTarget × ComponentEntry)
    (candidates : List (TaskExecutionTarget × ComponentEntry)) :
    e.recordAll (candidate :: candidates) =
      (e.recordDraining candidate.1 candidate.2).recordAll candidates := rfl

theorem SameComponents.recordAll (h : SameComponents e e')
    (candidates : List (TaskExecutionTarget × ComponentEntry)) :
    SameComponents (e.recordAll candidates) (e'.recordAll candidates) := by
  induction candidates generalizing e e' with
  | nil => exact h
  | cons candidate candidates ih => exact ih (h.recordDraining candidate.1 candidate.2)

theorem lastStop_recordAll (candidates : List (TaskExecutionTarget × ComponentEntry)) :
    (e.recordAll candidates).lastStop = e.lastStop := by
  induction candidates generalizing e with
  | nil => rfl
  | cons candidate candidates ih => exact ih

variable {candidates : List (TaskExecutionTarget × ComponentEntry)}

theorem get_recordAll
    {target : TaskExecutionTarget} (h : target ∉ candidates.map Prod.fst) :
    (e.recordAll candidates).componentActivations.get target =
      e.componentActivations.get target := by
  induction candidates generalizing e with
  | nil => rfl
  | cons candidate candidates ih =>
    rw [map_cons, mem_cons, not_or] at h
    rw [recordAll_cons, ih h.2]
    exact JsMap.get_set.trans (if_neg h.1)

theorem Counted.recordAll (h : Counted e)
    (candidates : List (TaskExecutionTarget × ComponentEntry)) :
    Counted (e.recordAll candidates) := by
  induction candidates generalizing e with
  | nil => exact h
  | cons candidate candidates ih => exact ih (h.recordDraining candidate.1 candidate.2)

theorem Kept.recordAll_iff (h : Kept e) (hnodup : (candidates.map Prod.fst).Nodup) :
    Kept (e.recordAll candidates) ↔
      ∀ candidate ∈ candidates, e.lastStop candidate.1 ≤ candidate.2.since := by
  induction candidates generalizing e with
  | nil => exact ⟨fun _ _ hmem => absurd hmem not_mem_nil, fun _ => h⟩
  | cons candidate candidates ih =>
    rw [map_cons, nodup_cons] at hnodup
    rw [forall_mem_cons, recordAll_cons]
    by_cases hsince : e.lastStop candidate.1 ≤ candidate.2.since
    · rw [ih (h.recordDraining hsince) hnodup.2]
      exact ⟨fun hrest => ⟨hsince, hrest⟩, fun hall => hall.2⟩
    refine ⟨fun hkept => absurd ?_ hsince, fun hall => absurd hall.1 hsince⟩
    -- The later candidates leave the entry as it is.
    have hentry := (hkept candidate.1 { candidate.2 with state := .draining }
      ((get_recordAll hnodup.1).trans (JsMap.get_set.trans (if_pos rfl)))).1
    rw [lastStop_recordAll] at hentry
    exact hentry

theorem Kept.filter (h : Kept e) (p : TaskExecutionTarget → ComponentEntry → Bool) :
    Kept { e with componentActivations := e.componentActivations.filter p } := by
  intro other found hfound
  replace hfound : (e.componentActivations.filter p).get other = some found := hfound
  rw [JsMap.get_filter] at hfound
  exact h other found (filter_eq_some_iff.mp hfound).1

variable {since : Nat}

/-- The candidate of an item of the inventory was not stopped since, exactly if the table has it or
it was not stopped since the inventory was asked for. -/
theorem Kept.teardownCandidate_iff (h : Kept e)
    {activation : RemoteComponentActivation} {state : RemoteComponentState}
    {candidate : Option ComponentEntry}
    (hcandidate : e.teardownCandidate since activation state = .ok candidate) :
    (∀ entry, candidate = some entry → e.lastStop activation.target ≤ entry.since) ↔
      (state = .draining → e.componentActivations.get activation.target = none →
        e.lastStop activation.target ≤ since) := by
  unfold teardownCandidate at hcandidate
  split at hcandidate
  · next existing hexisting =>
    refine iff_of_true ?_ fun _ hnone => absurd (hexisting.symm.trans hnone) (some_ne_none _)
    intro entry hentry
    subst hentry
    have hold := (h activation.target existing hexisting).1
    split at hcandidate
    · cases hcandidate
    split at hcandidate
    · cases hcandidate
    split at hcandidate
    · split at hcandidate
      · cases hcandidate
      · cases hcandidate
        exact hold
    · cases hcandidate
  · next hnone =>
    cases hcandidate
    by_cases hstate : state = .draining
    · rw [if_pos hstate]
      refine ⟨fun hall _ _ => hall _ rfl, fun hsince entry hentry => ?_⟩
      cases some.inj hentry
      exact hsince hstate hnone
    · rw [if_neg hstate]
      exact iff_of_true (fun _ hentry => by cases hentry) fun hdraining => absurd hdraining hstate

variable {retained : List TaskExecutionTarget}
  {inventory : List (RemoteComponentActivation × RemoteComponentState)}

theorem teardownCandidates_cons
    {activation : RemoteComponentActivation} {state : RemoteComponentState}
    (h : e.teardownCandidates options since retained ((activation, state) :: inventory) =
      .ok candidates) :
    activation.target ∉ retained ∧ ∃ candidate rest,
      e.teardownCandidate since activation state = .ok candidate ∧
      e.teardownCandidates options since (activation.target :: retained) inventory = .ok rest ∧
      candidates = (candidate.map fun entry => (activation.target, entry)).toList ++ rest := by
  rw [teardownCandidates] at h
  split at h
  · cases h
  next hguard =>
  simp only [Bool.or_eq_true, not_or, contains_eq_mem, decide_eq_true_eq] at hguard
  refine ⟨hguard.2, ?_⟩
  cases hcandidate : e.teardownCandidate since activation state with
  | error _ =>
    rw [hcandidate] at h
    cases h
  | ok candidate =>
    cases hrest : e.teardownCandidates options since (activation.target :: retained) inventory with
    | error _ =>
      rw [hcandidate, hrest] at h
      cases h
    | ok rest =>
      rw [hcandidate, hrest] at h
      cases h
      exact ⟨candidate, rest, rfl, rfl, rfl⟩

theorem nodup_teardownCandidates
    (h : e.teardownCandidates options since retained inventory = .ok candidates) :
    (candidates.map Prod.fst).Nodup ∧ ∀ target ∈ candidates.map Prod.fst, target ∉ retained := by
  induction inventory generalizing retained candidates with
  | nil =>
    cases h
    exact ⟨nodup_nil, fun _ hmem => absurd hmem not_mem_nil⟩
  | cons item inventory ih =>
    obtain ⟨hnew, candidate, rest, _, hrest, rfl⟩ := teardownCandidates_cons h
    obtain ⟨hnodup, hout⟩ := ih hrest
    have hout' : ∀ target ∈ rest.map Prod.fst, target ∉ retained := fun target hmem hin =>
      hout target hmem (mem_cons_of_mem _ hin)
    cases candidate with
    | none => exact ⟨hnodup, hout'⟩
    | some entry =>
      refine ⟨nodup_cons.mpr ⟨fun hmem => hout _ hmem mem_cons_self, hnodup⟩, ?_⟩
      intro target hmem
      rcases mem_cons.mp hmem with rfl | hmem
      · exact hnew
      · exact hout' target hmem

theorem Kept.teardownCandidates_iff (h : Kept e)
    (hcandidates : e.teardownCandidates options since retained inventory = .ok candidates) :
    (∀ candidate ∈ candidates, e.lastStop candidate.1 ≤ candidate.2.since) ↔
      ∀ activation, (activation, .draining) ∈ inventory →
        e.componentActivations.get activation.target = none →
          e.lastStop activation.target ≤ since := by
  induction inventory generalizing retained candidates with
  | nil =>
    cases hcandidates
    exact iff_of_true (fun _ hmem => absurd hmem not_mem_nil) fun _ hmem => absurd hmem not_mem_nil
  | cons item inventory ih =>
    obtain ⟨activation, state⟩ := item
    obtain ⟨_, candidate, rest, hcandidate, hrest, rfl⟩ := teardownCandidates_cons hcandidates
    have hone := h.teardownCandidate_iff hcandidate
    have hothers := ih hrest
    constructor
    · intro hall other hmem hnone
      rcases mem_cons.mp hmem with heq | hmem
      · cases heq
        refine hone.mp (fun entry hentry => ?_) rfl hnone
        subst hentry
        exact hall (activation.target, entry) (mem_append_left _ (mem_singleton_self _))
      · exact hothers.mp (fun c hc => hall c (mem_append_right _ hc)) other hmem hnone
    · intro hall c hc
      rcases mem_append.mp hc with hc | hc
      · obtain ⟨entry, rfl, rfl⟩ : ∃ entry, candidate = some entry ∧
            c = (activation.target, entry) := by
          cases candidate with
          | none => exact absurd hc not_mem_nil
          | some entry => exact ⟨entry, rfl, mem_singleton.mp hc⟩
        refine hone.mpr (fun hdraining hnone => ?_) entry rfl
        exact hall activation (hdraining ▸ mem_cons_self) hnone
      · exact hothers.mpr (fun other hmem => hall other (mem_cons_of_mem _ hmem)) c hc

/-! ## The steps -/

theorem SameComponents.trans {e₁ e₂ e₃ : RemoteExecutor} (h : SameComponents e₁ e₂)
    (h' : SameComponents e₂ e₃) : SameComponents e₁ e₃ where
  componentActivations := h'.componentActivations.trans h.componentActivations
  recorded := h'.recorded.trans h.recorded
  lastDrain := h'.lastDrain.trans h.lastDrain
  lastStop := h'.lastStop.trans h.lastStop

theorem componentLifecycleRequest_same (kind : LifecycleKind)
    (activation : RemoteComponentActivation) (provenance : ComponentProvenance) :
    SameComponents e (e.componentLifecycleRequest kind activation provenance).1 := by
  unfold componentLifecycleRequest
  split
  · exact .refl e
  · exact ⟨rfl, rfl, rfl, rfl⟩

theorem activateComponent_same (activation : RemoteComponentActivation) :
    SameComponents e (e.activateComponent options activation).1 := by
  unfold activateComponent
  split
  · exact .refl e
  dsimp only
  split
  · exact ⟨rfl, rfl, rfl, rfl⟩
  · have hflag : SameComponents e { e with lifecycleManaged := true } := ⟨rfl, rfl, rfl, rfl⟩
    exact hflag.trans (componentLifecycleRequest_same ..)

theorem restoreComponentForTermination_cases (activation : RemoteComponentActivation) :
    SameComponents e (e.restoreComponentForTermination options activation).1 ∨
      ∃ entry : ComponentEntry, entry.since = e.recorded ∧
        SameComponents (e.recordDraining activation.target entry)
          (e.restoreComponentForTermination options activation).1 := by
  unfold restoreComponentForTermination
  split
  · exact .inl (.refl e)
  dsimp only
  split
  · exact .inr ⟨⟨activation, .mainTeardown, .draining, e.recorded⟩, rfl, rfl, rfl, rfl, rfl⟩
  split
  · exact .inl ⟨rfl, rfl, rfl, rfl⟩
  · exact .inr ⟨⟨activation, .mainTeardown, .draining, e.recorded⟩, rfl, rfl, rfl, rfl, rfl⟩

theorem drainComponent_cases (target : TaskExecutionTarget) (fingerprint : Option JsString) :
    SameComponents e (e.drainComponent options target fingerprint).1 ∨
      ∃ entry, e.componentActivations.get target = some entry ∧
        SameComponents (e.recordDraining target entry)
          (e.drainComponent options target fingerprint).1 := by
  unfold drainComponent
  split
  · exact .inl (.refl e)
  · exact .inl (.refl e)
  · next entry _ hentry =>
    split
    · exact .inl (.refl e)
    split
    · exact .inl (.refl e)
    · exact .inr ⟨entry, hentry, componentLifecycleRequest_same ..⟩

theorem stopComponent_cases (target : TaskExecutionTarget) (fingerprint : Option JsString) :
    SameComponents e (e.stopComponent options target fingerprint).1 ∨
      ∃ entry, e.componentActivations.get target = some entry ∧
        SameComponents (e.recordDraining target entry)
          (e.stopComponent options target fingerprint).1 := by
  unfold stopComponent
  dsimp only
  split
  · exact .inl (.refl e)
  · exact .inl (.refl e)
  · next entry _ hentry =>
    generalize fingerprint.or _ = requested
    split
    · exact .inl (.refl e)
    split
    · exact .inl (.refl e)
    · exact .inr ⟨entry, hentry, componentLifecycleRequest_same ..⟩

theorem lifecycleCompleted_cases (call : LifecycleCall) (outcome : Except RemoteError Unit) :
    (call.kind = .activate ∧ outcome = .ok () ∧
      e.lifecycleCompleted call outcome =
        { e with
          componentActivations := e.componentActivations.set call.activation.target
            ⟨call.activation, .main, .active, call.since⟩ }) ∨
    (¬(call.kind = .activate ∧ outcome = .ok ()) ∧
      (e.lifecycleCompleted call outcome = e ∨
        e.lifecycleCompleted call outcome = e.completeStop call.activation.target)) := by
  cases hkind : call.kind with
  | activate =>
    cases outcome with
    | ok _ => exact .inl ⟨rfl, rfl, by simp [lifecycleCompleted, hkind]⟩
    | error thrown =>
      refine .inr ⟨fun h => (nomatch h.2), .inl ?_⟩
      simp [lifecycleCompleted, hkind]
  | drain =>
    refine .inr ⟨fun h => (nomatch h.1), .inl ?_⟩
    simp [lifecycleCompleted, hkind]
  | stop =>
    refine .inr ⟨fun h => (nomatch h.1), ?_⟩
    cases outcome with
    | ok _ => exact .inr (by simp [lifecycleCompleted, hkind])
    | error thrown =>
      simp only [lifecycleCompleted, hkind]
      split
      · exact .inr rfl
      · exact .inl rfl

theorem invokeCapability_same (request : RemoteCapabilityInvocation) :
    SameComponents e (e.invokeCapability options request).1 := by
  unfold invokeCapability admitInvocation sendInvocation
  dsimp only
  repeat' split
  all_goals exact ⟨rfl, rfl, rfl, rfl⟩

theorem capabilityAnswered_same {n : Nat} {answer : Option CapabilityAnswer}
    (h : e.capabilityAnswered n answer = some e') : SameComponents e e' := by
  unfold capabilityAnswered at h
  split at h
  · split at h
    · cases h
      exact ⟨rfl, rfl, rfl, rfl⟩
    · cases h
  · cases h

theorem capabilityHandled_same {n : Nat} (h : e.capabilityHandled n = some e') :
    SameComponents e e' := by
  unfold capabilityHandled at h
  split at h
  · split at h
    · dsimp only at h
      split at h <;> cases h <;> exact ⟨rfl, rfl, rfl, rfl⟩
    · cases h
  · cases h

theorem attach_same {session : Nat} (h : e.attach session = some e') : SameComponents e e' := by
  unfold attach at h
  split at h
  · cases h
  · cases h
    exact ⟨rfl, rfl, rfl, rfl⟩

theorem hydrated_same (h : e.hydrated options = some e') : SameComponents e e' := by
  obtain ⟨session, _, rfl⟩ := map_eq_some_iff.mp h
  dsimp only
  repeat' split
  all_goals exact ⟨rfl, rfl, rfl, rfl⟩

/-- The answer to the request for the inventory: it leaves the table alone, or it is accepted. -/
theorem reconcileAnswered_cases
    {answer : Option (List (RemoteComponentActivation × RemoteComponentState))}
    (h : e.reconcileAnswered options answer = some e') :
    (SameComponents e e' ∧ ∀ inventory reconciliation candidates, answer = some inventory →
        e.reconciliation = some reconciliation → e.session = some reconciliation.session →
        e.teardownCandidates options reconciliation.since [] inventory ≠ .ok candidates) ∨
      ∃ inventory reconciliation candidates, answer = some inventory ∧
        e.reconciliation = some reconciliation ∧ e.session = some reconciliation.session ∧
        e.teardownCandidates options reconciliation.since [] inventory = .ok candidates ∧
        SameComponents
          (recordAll
            { e with
              componentActivations := e.componentActivations.filter fun _ entry =>
                entry.provenance ≠ .workerTeardown } candidates) e' := by
  unfold reconcileAnswered at h
  split at h
  · cases h
  next reconciliation hreconciliation =>
  split at h
  · next hsession =>
    cases h
    refine .inl ⟨⟨rfl, rfl, rfl, rfl⟩, fun _ other _ _ hother hsame => ?_⟩
    cases some.inj (hreconciliation.symm.trans hother)
    exact absurd hsame hsession
  · next hsession =>
    split at h
    · cases h
      exact .inl ⟨⟨rfl, rfl, rfl, rfl⟩, fun _ _ _ hanswer => nomatch hanswer⟩
    next inventory =>
    split at h
    · next hrejected =>
      cases h
      refine .inl ⟨⟨rfl, rfl, rfl, rfl⟩, fun other reconciliation' _ hanswer hother _ => ?_⟩
      cases some.inj hanswer
      cases some.inj (hreconciliation.symm.trans hother)
      rw [hrejected]
      exact fun heq => nomatch heq
    · next candidates hcandidates =>
      cases h
      refine .inr ⟨inventory, reconciliation, candidates, rfl, hreconciliation,
        not_not.mp hsession, hcandidates, ?_⟩
      -- Neither the awaited answer nor the flag is read by the records.
      have hstart : SameComponents
          { e with
            componentActivations := e.componentActivations.filter fun _ entry =>
              entry.provenance ≠ .workerTeardown }
          { e with
            reconciliation := none
            componentActivations := e.componentActivations.filter fun _ entry =>
              entry.provenance ≠ .workerTeardown } := ⟨rfl, rfl, rfl, rfl⟩
      obtain ⟨htable, hrecorded, hdrain, hstop⟩ := hstart.recordAll candidates
      exact ⟨htable, hrecorded, hdrain, hstop⟩

inductive TableStep (options : RemoteExecutorOptions) (e : RemoteExecutor) (l : RemoteLabel)
    (e' : RemoteExecutor) : Prop
  | same (h : SameComponents e e') (hin : InOrder options e l)
  | draining (target : TaskExecutionTarget) (entry : ComponentEntry)
      (hentry : entry.since = e.recorded ∨ e.componentActivations.get target = some entry)
      (h : SameComponents (e.recordDraining target entry) e') (hin : InOrder options e l)
  | stopped (target : TaskExecutionTarget) (h : SameComponents (e.completeStop target) e')
      (hin : InOrder options e l)
  | activated (call : LifecycleCall)
      (h : SameComponents
        { e with
          componentActivations := e.componentActivations.set call.activation.target
            ⟨call.activation, .main, .active, call.since⟩ } e')
      (hin : InOrder options e l ↔ e.lastStop call.activation.target ≤ call.since ∧
        e.lastDrain call.activation.target ≤ call.since)
  | reported (inventory : List (RemoteComponentActivation × RemoteComponentState)) (since : Nat)
      (candidates : List (TaskExecutionTarget × ComponentEntry))
      (hcandidates : e.teardownCandidates options since [] inventory = .ok candidates)
      (h : SameComponents
        (recordAll
          { e with
            componentActivations := e.componentActivations.filter fun _ entry =>
              entry.provenance ≠ .workerTeardown } candidates) e')
      (hin : InOrder options e l ↔ ∀ activation, (activation, .draining) ∈ inventory →
        e.componentActivations.get activation.target = none → e.lastStop activation.target ≤ since)

theorem tableStep_lifecycleAnswered {i : Nat} {answer : Option LifecycleAnswer}
    (h : e.lifecycleAnswered i answer = some e') :
    TableStep options e (.lifecycleAnswered i answer) e' := by
  obtain ⟨call, hcall, rfl⟩ := map_eq_some_iff.mp h
  have hcases := @lifecycleCompleted_cases
    { e with lifecycleCalls := e.lifecycleCalls.eraseIdx i } call (e.lifecycleOutcome call answer)
  rcases hcases with ⟨hkind, hok, heq⟩ | ⟨hother, heq⟩
  · rw [heq]
    refine .activated call ⟨rfl, rfl, rfl, rfl⟩ ⟨fun hin => hin call hcall hkind hok, ?_⟩
    intro hin other hsame _ _
    cases some.inj (hcall.symm.trans hsame)
    exact hin
  · have hin : InOrder options e (.lifecycleAnswered i answer) := by
      intro other hsame hkind hok
      cases some.inj (hcall.symm.trans hsame)
      exact absurd ⟨hkind, hok⟩ hother
    rcases heq with heq | heq
    · rw [heq]
      exact .same ⟨rfl, rfl, rfl, rfl⟩ hin
    · rw [heq]
      exact .stopped call.activation.target ⟨rfl, rfl, rfl, rfl⟩ hin

theorem tableStep_reconcileAnswered
    {answer : Option (List (RemoteComponentActivation × RemoteComponentState))}
    (h : e.reconcileAnswered options answer = some e') :
    TableStep options e (.reconcileAnswered answer) e' := by
  rcases reconcileAnswered_cases h with ⟨hsame, hrejected⟩ |
    ⟨inventory, reconciliation, candidates, rfl, hawaited, hsession, hcandidates, hsame⟩
  · refine .same hsame ?_
    cases answer with
    | none => trivial
    | some inventory =>
      intro reconciliation candidates hawaited hsession hcandidates
      exact absurd hcandidates (hrejected inventory reconciliation candidates rfl hawaited hsession)
  · refine .reported inventory reconciliation.since candidates hcandidates hsame
      ⟨fun hin => hin reconciliation candidates hawaited hsession hcandidates, ?_⟩
    intro hall other _ hother _ _
    cases some.inj (hawaited.symm.trans hother)
    exact hall

variable {l : RemoteLabel}

theorem tableStep (h : step options e l = some e') : TableStep options e l e' := by
  cases l with
  | activateComponent activation =>
    cases some.inj h
    exact .same (activateComponent_same activation) trivial
  | restoreComponentForTermination activation =>
    cases some.inj h
    rcases restoreComponentForTermination_cases activation with hsame | ⟨entry, hsince, hsame⟩
    · exact .same hsame trivial
    · exact .draining activation.target entry (.inl hsince) hsame trivial
  | drainComponent target fingerprint =>
    cases some.inj h
    rcases drainComponent_cases target fingerprint with hsame | ⟨entry, hentry, hsame⟩
    · exact .same hsame trivial
    · exact .draining target entry (.inr hentry) hsame trivial
  | stopComponent target fingerprint =>
    cases some.inj h
    rcases stopComponent_cases target fingerprint with hsame | ⟨entry, hentry, hsame⟩
    · exact .same hsame trivial
    · exact .draining target entry (.inr hentry) hsame trivial
  | lifecycleAnswered i answer => exact tableStep_lifecycleAnswered h
  | attach session => exact .same (attach_same h) trivial
  | hydrated => exact .same (hydrated_same h) trivial
  | reconcileAnswered answer => exact tableStep_reconcileAnswered h
  | invokeCapability request =>
    cases some.inj h
    exact .same (invokeCapability_same request) trivial
  | capabilityAnswered n answer => exact .same (capabilityAnswered_same h) trivial
  | capabilityHandled n => exact .same (capabilityHandled_same h) trivial
  | attachFailed | reconcileFailed | sessionChanged | revokeAuthority | close =>
    cases some.inj h
    exact .same ⟨rfl, rfl, rfl, rfl⟩ trivial

/-! ## The law -/

theorem counted_step (hcount : Counted e) (h : step options e l = some e') : Counted e' := by
  cases tableStep h with
  | same h _ => exact h.counted hcount
  | draining target entry _ h _ => exact h.counted (hcount.recordDraining target entry)
  | stopped target h _ => exact h.counted (hcount.completeStop target)
  | activated call h _ => exact h.counted hcount
  | reported inventory since candidates _ h _ =>
    refine h.counted (Counted.recordAll ?_ candidates)
    exact hcount

/-- **What one step does to the law**: it keeps it exactly if it is in order. -/
theorem kept_step (hcount : Counted e) (hkept : Kept e)
    (h : step options e l = some e') : Kept e' ↔ InOrder options e l := by
  cases tableStep h with
  | same h hin => exact iff_of_true (h.kept_iff.mpr hkept) hin
  | draining target entry hentry h hin =>
    refine iff_of_true (h.kept_iff.mpr (hkept.recordDraining ?_)) hin
    rcases hentry with hsince | hentry
    · exact hsince ▸ hcount target
    · exact (hkept target entry hentry).1
  | stopped target h hin => exact iff_of_true (h.kept_iff.mpr (hkept.completeStop target)) hin
  | activated call h hin =>
    rw [h.kept_iff, hin]
    exact hkept.activate_iff call.activation .main call.since
  | reported inventory since candidates hcandidates h hin =>
    have hrecorded := (hkept.filter fun _ entry =>
      entry.provenance ≠ .workerTeardown).recordAll_iff (nodup_teardownCandidates hcandidates).1
    rw [h.kept_iff, hin, hrecorded]
    exact hkept.teardownCandidates_iff hcandidates

/-- **Drains and stops win exactly in the runs whose answers are in order.** -/
theorem kept_iff_inOrder (options : RemoteExecutorOptions) (ls : List RemoteLabel) :
    (machine options).Always Kept new ls ↔ (machine options).EveryStep (InOrder options) new ls := by
  have hnew : Counted new := fun _ => Nat.le_refl 0
  refine Machine.always_iff_everyStep ?_ ?_ hnew ?_ ls
  · exact fun _ _ _ hcount hstep => counted_step hcount hstep
  · exact fun _ _ _ hcount hkept hstep => kept_step hcount hkept hstep
  · exact fun _ _ hentry => nomatch hentry

/-! ## A drain that does not win -/

/-- A component is activated; its activation is asked for again, and it is drained before the
worker has answered. -/
def lateActivation : List RemoteLabel :=
  attachment ++
    [.activateComponent sampleActivation, .lifecycleAnswered 0 (some activatedAnswer),
      .activateComponent sampleActivation, .drainComponent sampleActivation.target none,
      .lifecycleAnswered 0 (some activatedAnswer)]

/-- The drained component is active again. -/
theorem lateActivation_not_kept : ¬(machine sampleOptions).Always Kept new lateActivation := by
  intro hall
  have hrun : ((machine sampleOptions).run new lateActivation).map (fun e =>
      ((e.componentActivations.get sampleActivation.target).map fun entry =>
        (entry.state, entry.since), e.lastDrain sampleActivation.target)) =
      some (some (.active, 0), 1) := by decide +kernel
  obtain ⟨e, he, hpair⟩ := map_eq_some_iff.mp hrun
  obtain ⟨hentry, hdrain⟩ := Prod.mk.inj hpair
  obtain ⟨entry, hget, hentry⟩ := map_eq_some_iff.mp hentry
  obtain ⟨hstate, hsince⟩ := Prod.mk.inj hentry
  have hkept := (hall lateActivation.length e he _ entry hget).2 hstate
  rw [hdrain, hsince] at hkept
  exact absurd hkept (by decide)

end RemoteExecutor

end TegoNext
