/-
The tombstones of capability invocations, in any order of sending, answers, lost sessions, stops
and evictions.

An invocation whose outcome is not known leaves a tombstone, which only the stop of its component
takes away; while there is one it is not sent again. The stop clears the pending entries of its
component. A request that was on its way then may leave a tombstone for which nobody has made room,
and take the entry of its identity with it.
-/
import TegoNext.RemoteExecutor

set_option autoImplicit false

namespace TegoNext

open Text List Option

def SentInvocation.Determinate (sent : SentInvocation) : Prop :=
  ∃ result, sent.result = some result ∧ RemoteExecutor.indeterminateError result = none

/-- The outcome is there, and it is that nobody knows. -/
def SentInvocation.Indeterminate (sent : SentInvocation) : Prop :=
  ∃ result error, sent.result = some result ∧ RemoteExecutor.indeterminateError result = some error

/-- Its outcome has not been handled, and its component has not been stopped. -/
def SentInvocation.awaited (sent : SentInvocation) : Bool := !sent.handled && !sent.stopped

theorem SentInvocation.awaited_iff {sent : SentInvocation} :
    sent.awaited = true ↔ sent.handled = false ∧ sent.stopped = false := by
  simp [SentInvocation.awaited]

namespace RemoteExecutor

/-- There are never more tombstones than their limit, and a step that sends an invocation finds
every earlier one of its identity stopped with its component or handled. -/
structure TombstonesHold (options : RemoteExecutorOptions) (e : RemoteExecutor) : Prop where
  bounded : e.indeterminateCapabilityInvocations.size ≤
    options.maxIndeterminateCapabilityInvocations
  notResent : ∀ l e' sent, step options e l = some e' →
    e'.invocations[e.invocations.length]? = some sent →
      ∀ (n : Nat) (earlier : SentInvocation), e.invocations[n]? = some earlier →
        earlier.request.invocationId = sent.request.invocationId →
          earlier.stopped = true ∨ earlier.handled = true ∧ earlier.Determinate

/-- The condition on a step: an outcome that is not known comes in before the component of its
invocation is stopped. -/
def InTime (e : RemoteExecutor) : RemoteLabel → Prop
  | .capabilityHandled n => ∀ sent : SentInvocation, e.invocations[n]? = some sent →
      sent.Indeterminate → sent.stopped = false
  | _ => True

/-- What the two tables say of the invocations that were sent. -/
structure Ledger (options : RemoteExecutorOptions) (e : RemoteExecutor) : Prop where
  size_le : e.indeterminateCapabilityInvocations.size +
    e.invocations.countP SentInvocation.awaited ≤ options.maxIndeterminateCapabilityInvocations
  pending : e.closed = false → ∀ (n : Nat) (sent : SentInvocation), e.invocations[n]? = some sent →
    sent.awaited = true → ∃ entry,
      e.capabilityInvocations.get sent.request.invocationId = some entry ∧
        entry.invocation = n ∧ entry.target = sent.request.target ∧ entry.settled = false
  tombstone : e.closed = false → ∀ (n : Nat) (sent : SentInvocation),
    e.invocations[n]? = some sent → sent.handled = true → sent.stopped = false →
      sent.Indeterminate → ∃ entry,
        e.indeterminateCapabilityInvocations.get sent.request.invocationId = some entry ∧
          entry.target = sent.request.target
  earlier : ∀ (m n : Nat) (first sent : SentInvocation), m < n → e.invocations[m]? = some first →
    e.invocations[n]? = some sent → first.request.invocationId = sent.request.invocationId →
      first.stopped = true ∨ first.handled = true ∧ first.Determinate
  answered : ∀ (n : Nat) (sent : SentInvocation), e.invocations[n]? = some sent →
    sent.handled = true → sent.result.isSome = true

variable {options : RemoteExecutorOptions} {e e' : RemoteExecutor}

/-! ## The table of pending invocations -/

/-- The entries that are not settled are still there. -/
def KeepsPending (entries entries' : JsMap JsString RemoteInvocationEntry) : Prop :=
  ∀ key entry, entries.get key = some entry → entry.settled = false → entries'.get key = some entry

theorem KeepsPending.refl (entries : JsMap JsString RemoteInvocationEntry) :
    KeepsPending entries entries := fun _ _ h _ => h

theorem KeepsPending.trans {entries₁ entries₂ entries₃ : JsMap JsString RemoteInvocationEntry}
    (h : KeepsPending entries₁ entries₂) (h' : KeepsPending entries₂ entries₃) :
    KeepsPending entries₁ entries₃ :=
  fun key entry hentry hpending => h' key entry (h key entry hentry hpending) hpending

theorem getCapabilityEntry_spec (entries : JsMap JsString RemoteInvocationEntry) (key : JsString) :
    (getCapabilityEntry entries key).1 = entries.get key ∧
      ∀ other, (getCapabilityEntry entries key).2.get other = entries.get other := by
  unfold getCapabilityEntry
  split
  · next entry hentry =>
    refine ⟨hentry.symm, fun other => ?_⟩
    split
    · rw [JsMap.get_set, JsMap.get_delete]
      split
      · next hsame => rw [hsame, hentry]
      · rfl
    · rfl
  · next hnone => exact ⟨hnone.symm, fun _ => rfl⟩

theorem reserveCapabilityEntry_keepsPending (maximum turns : Nat)
    (entries : JsMap JsString RemoteInvocationEntry) :
    KeepsPending entries (reserveCapabilityEntry maximum turns entries).2 := by
  induction turns generalizing entries with
  | zero => exact .refl entries
  | succ turns ih =>
    unfold reserveCapabilityEntry
    split
    · exact .refl entries
    split
    · exact .refl entries
    next oldest holdest =>
    refine KeepsPending.trans (fun key entry hentry hpending => ?_) (ih _)
    rw [JsMap.get_delete, if_neg]
    · exact hentry
    · intro hsame
      have hmem : (key, oldest.2) ∈ entries.entries := hsame ▸ mem_of_find?_eq_some holdest
      have hvalue := some.inj (hentry.symm.trans (JsMap.get_eq_some_iff.mpr hmem))
      have hsettled : oldest.2.settled = true := (find?_some holdest :)
      rw [← hvalue, hpending] at hsettled
      cases hsettled

theorem countPending_eq (entries : JsMap JsString RemoteInvocationEntry) :
    countPendingCapabilityEntries entries =
      ((entries.entries.filter fun entry => !entry.2.settled).map fun entry =>
        entry.2.invocation).length := by
  unfold countPendingCapabilityEntries JsMap.total
  rw [length_map]
  induction entries.entries with
  | nil => rfl
  | cons entry entries ih =>
    rw [map_cons, sum_cons, filter_cons, ih]
    cases hsettled : entry.2.settled with
    | true => simp [hsettled]
    | false => simp [hsettled, Nat.add_comm]

variable {entries : JsMap JsString RemoteInvocationEntry}

theorem countP_awaited_le {invocations : List SentInvocation}
    (h : ∀ (n : Nat) (sent : SentInvocation), invocations[n]? = some sent → sent.awaited = true →
      ∃ key entry, entries.get key = some entry ∧ entry.invocation = n ∧ entry.settled = false) :
    invocations.countP SentInvocation.awaited ≤ countPendingCapabilityEntries entries := by
  have hindices : invocations.countP SentInvocation.awaited =
      ((invocations.zipIdx.filter fun item => item.1.awaited).map Prod.snd).length := by
    rw [length_map, ← countP_eq_length_filter]
    conv_lhs => rw [← zipIdx_map_fst 0 invocations, countP_map]
    rfl
  have hnodup : ((invocations.zipIdx.filter fun item => item.1.awaited).map Prod.snd).Nodup := by
    refine List.Nodup.sublist (filter_sublist.map _) ?_
    rw [zipIdx_map_snd]
    exact nodup_range'
  rw [hindices, countPending_eq]
  refine (subperm_of_subset hnodup fun n hn => ?_).length_le
  obtain ⟨⟨sent, m⟩, hitem, rfl⟩ := List.mem_map.mp hn
  obtain ⟨hitem, hawaited⟩ := mem_filter.mp hitem
  obtain ⟨key, entry, hentry, hinvocation, hpending⟩ :=
    h m sent (mem_zipIdx_iff_getElem?.mp hitem) hawaited
  refine List.mem_map.mpr ⟨(key, entry), mem_filter.mpr ⟨?_, ?_⟩, hinvocation⟩
  · exact JsMap.get_eq_some_iff.mp hentry
  · exact congrArg (!·) hpending

/-! ## What a step does to the invocations -/

/-- The tables of the invocations are left alone. -/
structure SameInvocations (e e' : RemoteExecutor) : Prop where
  closed : e'.closed = e.closed
  capabilityInvocations : e'.capabilityInvocations = e.capabilityInvocations
  indeterminateCapabilityInvocations :
    e'.indeterminateCapabilityInvocations = e.indeterminateCapabilityInvocations
  invocations : e'.invocations = e.invocations

inductive InvocationStep (options : RemoteExecutorOptions) (e : RemoteExecutor) (l : RemoteLabel)
    (e' : RemoteExecutor) : Prop
  | same (h : SameInvocations e e')
  | stopped (target : TaskExecutionTarget) (h : SameInvocations (e.completeStop target) e')
  /-- An invocation is known already, or it is refused. -/
  | looked (entries : JsMap JsString RemoteInvocationEntry)
      (hkeeps : KeepsPending e.capabilityInvocations entries)
      (h : e' = { e with capabilityInvocations := entries })
  | sent (request : RemoteCapabilityInvocation) (fingerprint : JsString) (session : Nat)
      (entries : JsMap JsString RemoteInvocationEntry) (hopen : e.closed = false)
      (hunknown : e.capabilityInvocations.get request.invocationId = none)
      (hdeterminate : e.indeterminateCapabilityInvocations.get request.invocationId = none)
      (hkeeps : KeepsPending e.capabilityInvocations entries)
      (hroom : e.indeterminateCapabilityInvocations.size + countPendingCapabilityEntries entries <
        options.maxIndeterminateCapabilityInvocations)
      (h : e' = { e with capabilityInvocations := entries }.sendInvocation request fingerprint
        session)
  | answered (n : Nat) (sent : SentInvocation) (result : Except RemoteError Unit)
      (hsent : e.invocations[n]? = some sent) (hnone : sent.result = none)
      (h : e' = { e with invocations := e.invocations.set n { sent with result := some result } })
  | unknown (n : Nat) (sent : SentInvocation) (error : RemoteError) (hl : l = .capabilityHandled n)
      (hsent : e.invocations[n]? = some sent) (hindeterminate : sent.Indeterminate)
      (hwaiting : sent.handled = false)
      (h : e' =
        { e with
          invocations := e.invocations.set n { sent with handled := true }
          capabilityInvocations := e.capabilityInvocations.delete sent.request.invocationId
          indeterminateCapabilityInvocations :=
            e.indeterminateCapabilityInvocations.set sent.request.invocationId
              ⟨sent.fingerprint, error, sent.request.target⟩ })
  | settled (n : Nat) (sent : SentInvocation) (hsent : e.invocations[n]? = some sent)
      (hdeterminate : sent.Determinate) (hwaiting : sent.handled = false)
      (h : e' =
        { e with
          invocations := e.invocations.set n { sent with handled := true }
          capabilityInvocations :=
            settleEntry e.capabilityInvocations sent.request.invocationId n })
  | closed (h : e' = e.close)

theorem activateComponent_invocations (activation : RemoteComponentActivation) :
    SameInvocations e (e.activateComponent options activation).1 := by
  unfold activateComponent componentLifecycleRequest
  dsimp only
  repeat' split
  all_goals exact ⟨rfl, rfl, rfl, rfl⟩

theorem restoreComponentForTermination_invocations (activation : RemoteComponentActivation) :
    SameInvocations e (e.restoreComponentForTermination options activation).1 := by
  unfold restoreComponentForTermination
  dsimp only
  repeat' split
  all_goals exact ⟨rfl, rfl, rfl, rfl⟩

theorem drainComponent_invocations (target : TaskExecutionTarget) (fingerprint : Option JsString) :
    SameInvocations e (e.drainComponent options target fingerprint).1 := by
  unfold drainComponent componentLifecycleRequest
  repeat' split
  all_goals exact ⟨rfl, rfl, rfl, rfl⟩

theorem stopComponent_invocations (target : TaskExecutionTarget) (fingerprint : Option JsString) :
    SameInvocations e (e.stopComponent options target fingerprint).1 := by
  unfold stopComponent componentLifecycleRequest
  dsimp only
  generalize fingerprint.or _ = requested
  repeat' split
  all_goals exact ⟨rfl, rfl, rfl, rfl⟩

variable {l : RemoteLabel}

theorem invocationStep_lifecycleAnswered {i : Nat} {answer : Option LifecycleAnswer}
    (h : e.lifecycleAnswered i answer = some e') :
    InvocationStep options e l e' := by
  obtain ⟨call, _, rfl⟩ := map_eq_some_iff.mp h
  unfold lifecycleCompleted
  split
  · exact .same ⟨rfl, rfl, rfl, rfl⟩
  · exact .stopped call.activation.target ⟨rfl, rfl, rfl, rfl⟩
  · split
    · exact .stopped call.activation.target ⟨rfl, rfl, rfl, rfl⟩
    · exact .same ⟨rfl, rfl, rfl, rfl⟩
  · exact .same ⟨rfl, rfl, rfl, rfl⟩

theorem recordCandidates_invocations (candidates : List (TaskExecutionTarget × ComponentEntry)) :
    SameInvocations e (e.recordCandidates candidates) := by
  suffices h : ∀ (list : List (TaskExecutionTarget × ComponentEntry)) (e : RemoteExecutor),
      SameInvocations e
        (list.foldl (fun e candidate => e.recordDraining candidate.1 candidate.2) e) by
    obtain ⟨hclosed, hentries, htombstones, hsent⟩ := h candidates
      { e with
        componentActivations := e.componentActivations.filter fun _ entry =>
          entry.provenance ≠ .workerTeardown }
    exact ⟨hclosed, hentries, htombstones, hsent⟩
  intro list
  induction list with
  | nil => exact fun e => ⟨rfl, rfl, rfl, rfl⟩
  | cons candidate list ih =>
    intro e
    obtain ⟨hclosed, hentries, htombstones, hsent⟩ := ih (e.recordDraining candidate.1 candidate.2)
    exact ⟨hclosed, hentries, htombstones, hsent⟩

theorem reconcileAnswered_invocations
    {answer : Option (List (RemoteComponentActivation × RemoteComponentState))}
    (h : e.reconcileAnswered options answer = some e') : SameInvocations e e' := by
  unfold reconcileAnswered at h
  split at h
  · cases h
  split at h
  · cases h
    exact ⟨rfl, rfl, rfl, rfl⟩
  split at h
  · cases h
    exact ⟨rfl, rfl, rfl, rfl⟩
  split at h
  · cases h
    exact ⟨rfl, rfl, rfl, rfl⟩
  next candidates _ =>
  cases h
  obtain ⟨hclosed, hentries, htombstones, hsent⟩ :=
    @recordCandidates_invocations { e with reconciliation := none } candidates
  exact ⟨hclosed, hentries, htombstones, hsent⟩

variable {session : Nat}

theorem closed_of_usableSession (h : e.usableSession = some session) : e.closed = false := by
  have husable := (filter_eq_some_iff.mp h).2
  simp only [Bool.and_eq_true, Bool.not_eq_true'] at husable
  exact husable.1.1.2

theorem invocationStep_invokeCapability (request : RemoteCapabilityInvocation) :
    InvocationStep options e l (e.invokeCapability options request).1 := by
  unfold invokeCapability
  split
  · exact .same ⟨rfl, rfl, rfl, rfl⟩
  split
  · exact .same ⟨rfl, rfl, rfl, rfl⟩
  split
  · exact .same ⟨rfl, rfl, rfl, rfl⟩
  obtain ⟨hexisting, hget⟩ := getCapabilityEntry_spec e.capabilityInvocations request.invocationId
  generalize getCapabilityEntry e.capabilityInvocations request.invocationId = found
    at hexisting hget
  obtain ⟨existing, entries⟩ := found
  have hfound : KeepsPending e.capabilityInvocations entries :=
    fun key entry hentry _ => (hget key).trans hentry
  dsimp only at hexisting ⊢
  split
  · exact .looked entries hfound rfl
  split
  · exact .looked entries hfound rfl
  next hunknown _ hdeterminate =>
    unfold admitInvocation
    have hreserve := reserveCapabilityEntry_keepsPending options.maxCapabilityInvocations
      entries.size entries
    generalize reserveCapabilityEntry options.maxCapabilityInvocations entries.size entries = room
      at hreserve ⊢
    obtain ⟨reserved, left⟩ := room
    have hleft := hfound.trans hreserve
    dsimp only
    split
    · exact .looked left hleft rfl
    split
    · exact .looked left hleft rfl
    next hroom =>
      split
      · exact .looked left hleft rfl
      next session hsession =>
      have hopen := closed_of_usableSession hsession
      exact .sent request (options.invocationFingerprint request) session left hopen
        hexisting.symm hdeterminate hleft (Nat.lt_of_not_le hroom) rfl

variable {n : Nat}

theorem invocationStep_capabilityAnswered {answer : Option CapabilityAnswer}
    (h : e.capabilityAnswered n answer = some e') :
    InvocationStep options e l e' := by
  unfold capabilityAnswered at h
  split at h
  · next sent hsent =>
    split at h
    · next hnone => exact .answered n sent _ hsent hnone (some.inj h).symm
    · cases h
  · cases h

theorem invocationStep_capabilityHandled (h : e.capabilityHandled n = some e') :
    InvocationStep options e (.capabilityHandled n) e' := by
  unfold capabilityHandled at h
  split at h
  · next sent hsent =>
    split at h
    · next result hresult hwaiting =>
      split at h
      · next error herror =>
        exact .unknown n sent error rfl hsent ⟨result, error, hresult, herror⟩ hwaiting
          (some.inj h).symm
      · next hknown =>
        exact .settled n sent hsent ⟨result, hresult, hknown⟩ hwaiting (some.inj h).symm
    · cases h
  · cases h

theorem invocationStep (h : step options e l = some e') : InvocationStep options e l e' := by
  cases l with
  | activateComponent activation =>
    exact .same (some.inj h ▸ activateComponent_invocations activation)
  | restoreComponentForTermination activation =>
    exact .same (some.inj h ▸ restoreComponentForTermination_invocations activation)
  | drainComponent target fingerprint =>
    exact .same (some.inj h ▸ drainComponent_invocations target fingerprint)
  | stopComponent target fingerprint =>
    exact .same (some.inj h ▸ stopComponent_invocations target fingerprint)
  | lifecycleAnswered i answer => exact invocationStep_lifecycleAnswered h
  | attach session =>
    refine .same ?_
    replace h : e.attach session = some e' := h
    unfold attach at h
    split at h <;> cases h
    exact ⟨rfl, rfl, rfl, rfl⟩
  | hydrated =>
    refine .same ?_
    replace h : e.hydrated options = some e' := h
    obtain ⟨session, _, rfl⟩ := map_eq_some_iff.mp h
    dsimp only
    repeat' split
    all_goals exact ⟨rfl, rfl, rfl, rfl⟩
  | reconcileAnswered answer => exact .same (reconcileAnswered_invocations h)
  | invokeCapability request =>
    exact some.inj h ▸ invocationStep_invokeCapability request
  | capabilityAnswered n answer => exact invocationStep_capabilityAnswered h
  | capabilityHandled n => exact invocationStep_capabilityHandled h
  | close => exact .closed (some.inj h).symm
  | attachFailed | reconcileFailed | sessionChanged | revokeAuthority =>
    cases some.inj h
    exact .same ⟨rfl, rfl, rfl, rfl⟩

/-! ## The ledger -/

theorem ledger_new : Ledger options new where
  size_le := Nat.zero_le _
  pending _ _ _ h := nomatch h
  tombstone _ _ _ h := nomatch h
  earlier _ _ _ _ _ h := nomatch h
  answered _ _ h := nomatch h

theorem Ledger.free (h : Ledger options e) (hopen : e.closed = false) {id : JsString}
    (hunknown : e.capabilityInvocations.get id = none)
    (hdeterminate : e.indeterminateCapabilityInvocations.get id = none)
    {earlier : SentInvocation} (hearlier : e.invocations[n]? = some earlier)
    (hid : earlier.request.invocationId = id) :
    earlier.stopped = true ∨ earlier.handled = true ∧ earlier.Determinate := by
  cases hstopped : earlier.stopped with
  | true => exact .inl rfl
  | false =>
    cases hhandled : earlier.handled with
    | false =>
      obtain ⟨entry, hentry, _⟩ := h.pending hopen n earlier hearlier
        (SentInvocation.awaited_iff.mpr ⟨hhandled, hstopped⟩)
      rw [hid, hunknown] at hentry
      cases hentry
    | true =>
      obtain ⟨result, hresult⟩ := isSome_iff_exists.mp (h.answered n earlier hearlier hhandled)
      cases herror : indeterminateError result with
      | none => exact .inr ⟨rfl, result, hresult, herror⟩
      | some error =>
        obtain ⟨entry, hentry, _⟩ := h.tombstone hopen n earlier hearlier hhandled hstopped
          ⟨result, error, hresult, herror⟩
        rw [hid, hdeterminate] at hentry
        cases hentry

theorem Ledger.of_same (h : Ledger options e) (hsame : SameInvocations e e') :
    Ledger options e' where
  size_le := by
    rw [hsame.indeterminateCapabilityInvocations, hsame.invocations]
    exact h.size_le
  pending := by
    rw [hsame.closed, hsame.invocations, hsame.capabilityInvocations]
    exact h.pending
  tombstone := by
    rw [hsame.closed, hsame.invocations, hsame.indeterminateCapabilityInvocations]
    exact h.tombstone
  earlier := by
    rw [hsame.invocations]
    exact h.earlier
  answered := by
    rw [hsame.invocations]
    exact h.answered

variable {sent : SentInvocation}

theorem getElem?_completeStop {target : TaskExecutionTarget}
    (h : (e.completeStop target).invocations[n]? = some sent) :
    ∃ old, e.invocations[n]? = some old ∧
      (old.request.target = target ∧ sent = { old with stopped := true } ∨
        old.request.target ≠ target ∧ sent = old) := by
  replace h : (e.invocations.map fun sent =>
    if sent.request.target = target then { sent with stopped := true } else sent)[n]? =
      some sent := h
  rw [getElem?_map] at h
  obtain ⟨old, hold, rfl⟩ := map_eq_some_iff.mp h
  refine ⟨old, hold, ?_⟩
  by_cases htarget : old.request.target = target
  · exact .inl ⟨htarget, if_pos htarget⟩
  · exact .inr ⟨htarget, if_neg htarget⟩

/-- The stop takes the invocations of the component out of the account, and with them what the
tables hold of the component. -/
theorem Ledger.completeStop (h : Ledger options e) (target : TaskExecutionTarget) :
    Ledger options (e.completeStop target) where
  size_le := by
    refine Nat.le_trans (Nat.add_le_add (JsMap.size_filter_le _) ?_) h.size_le
    show (e.invocations.map _).countP _ ≤ _
    rw [countP_map]
    refine countP_mono_left fun sent _ hawaited => ?_
    dsimp only [Function.comp_apply] at hawaited
    split at hawaited
    · exact absurd (SentInvocation.awaited_iff.mp hawaited).2 (by simp)
    · exact hawaited
  pending := by
    intro hopen n sent hsent hawaited
    obtain ⟨old, hold, ⟨_, rfl⟩ | ⟨hother, rfl⟩⟩ := getElem?_completeStop hsent
    · exact absurd (SentInvocation.awaited_iff.mp hawaited).2 (by simp)
    · obtain ⟨entry, hentry, hrest⟩ := h.pending hopen n sent hold hawaited
      refine ⟨entry, ?_, hrest⟩
      show (e.capabilityInvocations.filter _).get _ = _
      rw [JsMap.get_filter, hentry]
      refine filter_some_pos ?_
      rw [hrest.2.1, Bool.not_eq_true', ← Bool.not_eq_true, sameTarget_iff]
      exact hother
  tombstone := by
    intro hopen n sent hsent hhandled hstopped hindeterminate
    obtain ⟨old, hold, ⟨_, rfl⟩ | ⟨hother, rfl⟩⟩ := getElem?_completeStop hsent
    · cases hstopped
    · obtain ⟨entry, hentry, htarget⟩ :=
        h.tombstone hopen n sent hold hhandled hstopped hindeterminate
      refine ⟨entry, ?_, htarget⟩
      show (e.indeterminateCapabilityInvocations.filter _).get _ = _
      rw [JsMap.get_filter, hentry]
      refine filter_some_pos ?_
      rw [htarget, Bool.not_eq_true', ← Bool.not_eq_true, sameTarget_iff]
      exact hother
  earlier := by
    intro m n first sent hlt hfirst hsent hid
    obtain ⟨old, hold, hcase⟩ := getElem?_completeStop hfirst
    obtain ⟨old', hold', hcase'⟩ := getElem?_completeStop hsent
    have hid' : old.request.invocationId = old'.request.invocationId := by
      rcases hcase with ⟨_, rfl⟩ | ⟨_, rfl⟩ <;> rcases hcase' with ⟨_, rfl⟩ | ⟨_, rfl⟩ <;> exact hid
    have hbefore := h.earlier m n old old' hlt hold hold' hid'
    rcases hcase with ⟨_, rfl⟩ | ⟨_, rfl⟩
    · exact .inl rfl
    · exact hbefore
  answered := by
    intro n sent hsent hhandled
    obtain ⟨old, hold, ⟨_, rfl⟩ | ⟨_, rfl⟩⟩ := getElem?_completeStop hsent
    · exact h.answered n old hold hhandled
    · exact h.answered n sent hold hhandled

theorem Ledger.looked (h : Ledger options e)
    (hkeeps : KeepsPending e.capabilityInvocations entries) :
    Ledger options { e with capabilityInvocations := entries } where
  size_le := h.size_le
  pending := by
    intro hopen n sent hsent hawaited
    obtain ⟨entry, hentry, hinvocation, htarget, hpending⟩ := h.pending hopen n sent hsent hawaited
    exact ⟨entry, hkeeps _ entry hentry hpending, hinvocation, htarget, hpending⟩
  tombstone := h.tombstone
  earlier := h.earlier
  answered := h.answered

theorem getElem?_sendInvocation {request : RemoteCapabilityInvocation} {fingerprint : JsString}

    (h : (e.sendInvocation request fingerprint session).invocations[n]? = some sent) :
    e.invocations[n]? = some sent ∨
      n = e.invocations.length ∧ sent = ⟨request, fingerprint, session, none, false, false⟩ := by
  exact getElem?_concat_cases h

theorem Ledger.sendInvocation (h : Ledger options e) {request : RemoteCapabilityInvocation}
    {fingerprint : JsString} (hopen : e.closed = false)
    (hfree : ∀ (n : Nat) (earlier : SentInvocation), e.invocations[n]? = some earlier →
      earlier.request.invocationId = request.invocationId →
        earlier.stopped = true ∨ earlier.handled = true ∧ earlier.Determinate)
    (hroom : e.indeterminateCapabilityInvocations.size +
      countPendingCapabilityEntries e.capabilityInvocations <
        options.maxIndeterminateCapabilityInvocations) :
    Ledger options (e.sendInvocation request fingerprint session) where
  size_le := by
    have hawaited : e.invocations.countP SentInvocation.awaited ≤
        countPendingCapabilityEntries e.capabilityInvocations :=
      countP_awaited_le fun n sent hsent hawaited => by
        obtain ⟨entry, hentry, hinvocation, _, hpending⟩ := h.pending hopen n sent hsent hawaited
        exact ⟨_, entry, hentry, hinvocation, hpending⟩
    have hone : [(⟨request, fingerprint, session, none, false, false⟩ : SentInvocation)].countP
        SentInvocation.awaited = 1 := rfl
    show e.indeterminateCapabilityInvocations.size + (e.invocations ++ [_]).countP _ ≤ _
    rw [countP_append, hone]
    omega
  pending := by
    intro _ n sent hsent hawaited
    show ∃ entry, (e.capabilityInvocations.set _ _).get _ = some entry ∧ _
    rcases getElem?_sendInvocation hsent with hold | ⟨rfl, rfl⟩
    · obtain ⟨entry, hentry, hrest⟩ := h.pending hopen n sent hold hawaited
      refine ⟨entry, ?_, hrest⟩
      rw [JsMap.get_set, if_neg]
      · exact hentry
      · intro hid
        obtain ⟨hwaiting, hrunning⟩ := SentInvocation.awaited_iff.mp hawaited
        rcases hfree n sent hold hid with hstopped | ⟨hhandled, _⟩
        · rw [hrunning] at hstopped
          cases hstopped
        · rw [hwaiting] at hhandled
          cases hhandled
    · exact ⟨_, JsMap.get_set.trans (if_pos rfl), rfl, rfl, rfl⟩
  tombstone := by
    intro _ n sent hsent hhandled
    rcases getElem?_sendInvocation hsent with hold | ⟨_, rfl⟩
    · exact h.tombstone hopen n sent hold hhandled
    · cases hhandled
  earlier := by
    intro m n first sent hlt hfirst hsent hid
    rcases getElem?_sendInvocation hfirst with hfirst | ⟨rfl, rfl⟩
    · rcases getElem?_sendInvocation hsent with hsent | ⟨_, rfl⟩
      · exact h.earlier m n first sent hlt hfirst hsent hid
      · exact hfree m first hfirst hid
    · rcases getElem?_sendInvocation hsent with hsent | ⟨rfl, _⟩
      · exact absurd (List.getElem?_eq_some_iff.mp hsent).1 (Nat.lt_asymm hlt)
      · exact absurd hlt (Nat.lt_irrefl _)
  answered := by
    intro n sent hsent hhandled
    rcases getElem?_sendInvocation hsent with hold | ⟨_, rfl⟩
    · exact h.answered n sent hold hhandled
    · cases hhandled

theorem Ledger.answer (h : Ledger options e)
    (hsent : e.invocations[n]? = some sent) (hnone : sent.result = none)
    (result : Except RemoteError Unit) :
    Ledger options
      { e with invocations := e.invocations.set n { sent with result := some result } } := by
  have hwaiting : sent.handled = false := by
    cases hhandled : sent.handled with
    | false => rfl
    | true =>
      have hsome := h.answered n sent hsent hhandled
      rw [hnone] at hsome
      cases hsome
  have hopen : ¬(sent.handled = true) := by
    rw [hwaiting]
    exact Bool.false_ne_true
  -- The one that changes is not handled, so of it only the entry matters.
  constructor
  · obtain ⟨hlt, hget⟩ := List.getElem?_eq_some_iff.mp hsent
    refine Nat.le_trans (Nat.add_le_add_left ?_ _) h.size_le
    rw [countP_set hlt, hget]
    have hsame : SentInvocation.awaited { sent with result := some result } = sent.awaited := rfl
    rw [hsame]
    have hpos : sent.awaited = true → 0 < e.invocations.countP SentInvocation.awaited :=
      fun hawaited => countP_pos_iff.mpr ⟨sent, mem_of_getElem? hsent, hawaited⟩
    split
    · next hawaited => exact Nat.le_of_eq (Nat.sub_add_cancel (hpos hawaited))
    · exact Nat.le_refl _
  · intro hclosed m other hother hawaited
    rcases getElem?_set_cases hother with ⟨rfl, rfl⟩ | ⟨_, hold⟩
    · exact h.pending hclosed m sent hsent hawaited
    · exact h.pending hclosed m other hold hawaited
  · intro hclosed m other hother hhandled
    rcases getElem?_set_cases hother with ⟨rfl, rfl⟩ | ⟨_, hold⟩
    · exact absurd hhandled hopen
    · exact h.tombstone hclosed m other hold hhandled
  · intro k m first other hlt hfirst hother hid
    have hid' : ∀ x, (e.invocations.set n { sent with result := some result })[m]? = some x →
        ∃ y : SentInvocation, e.invocations[m]? = some y ∧ y.request = x.request := by
      intro x hx
      rcases getElem?_set_cases hx with ⟨rfl, rfl⟩ | ⟨_, hold⟩
      · exact ⟨sent, hsent, rfl⟩
      · exact ⟨x, hold, rfl⟩
    obtain ⟨old, hold, hrequest⟩ := hid' other hother
    rcases getElem?_set_cases hfirst with ⟨rfl, rfl⟩ | ⟨_, hfirst⟩
    · rcases h.earlier k m sent old hlt hsent hold (by rw [hrequest]; exact hid) with
        hstopped | ⟨hhandled, _⟩
      · exact .inl hstopped
      · exact absurd hhandled hopen
    · exact h.earlier k m first old hlt hfirst hold (by rw [hrequest]; exact hid)
  · intro m other hother hhandled
    rcases getElem?_set_cases hother with ⟨rfl, rfl⟩ | ⟨_, hold⟩
    · rfl
    · exact h.answered m other hold hhandled

/-- The invocation whose outcome is handled: what this leaves of the account and of the order. -/
theorem countP_awaited_handled {invocations : List SentInvocation}
    (hsent : invocations[n]? = some sent) :
    (invocations.set n { sent with handled := true }).countP SentInvocation.awaited +
      (if sent.awaited then 1 else 0) = invocations.countP SentInvocation.awaited := by
  obtain ⟨hlt, hget⟩ := List.getElem?_eq_some_iff.mp hsent
  have hnot : SentInvocation.awaited { sent with handled := true } = false := rfl
  rw [countP_set hlt, hget, hnot]
  split
  · next hawaited =>
    exact Nat.sub_add_cancel (countP_pos_iff.mpr ⟨sent, mem_of_getElem? hsent, hawaited⟩)
  · rfl

theorem Ledger.earlier_handled (h : Ledger options e)
    (hsent : e.invocations[n]? = some sent) (hwaiting : sent.handled = false) {k m : Nat}
    {first other : SentInvocation} (hlt : k < m)
    (hfirst : (e.invocations.set n { sent with handled := true })[k]? = some first)
    (hother : (e.invocations.set n { sent with handled := true })[m]? = some other)
    (hid : first.request.invocationId = other.request.invocationId) :
    first.stopped = true ∨ first.handled = true ∧ first.Determinate := by
  obtain ⟨old, hold, hrequest⟩ : ∃ old : SentInvocation, e.invocations[m]? = some old ∧
      old.request = other.request := by
    rcases getElem?_set_cases hother with ⟨rfl, rfl⟩ | ⟨_, hold⟩
    · exact ⟨sent, hsent, rfl⟩
    · exact ⟨other, hold, rfl⟩
  rw [← hrequest] at hid
  rcases getElem?_set_cases hfirst with ⟨rfl, rfl⟩ | ⟨_, hfirst⟩
  · rcases h.earlier k m sent old hlt hsent hold hid with hstopped | ⟨hhandled, _⟩
    · exact .inl hstopped
    · rw [hwaiting] at hhandled
      cases hhandled
  · exact h.earlier k m first old hlt hfirst hold hid

theorem Ledger.other_identity (h : Ledger options e) {m : Nat} {other : SentInvocation}
    (hsent : e.invocations[n]? = some sent) (hwaiting : sent.handled = false)
    (hrunning : sent.stopped = false) (hother : e.invocations[m]? = some other) (hne : m ≠ n)
    (hopen : other.stopped = false) (hundecided : other.handled = true → ¬other.Determinate) :
    other.request.invocationId ≠ sent.request.invocationId := by
  intro hid
  rcases Nat.lt_or_gt_of_ne hne with hlt | hlt
  · rcases h.earlier m n other sent hlt hother hsent hid with hstopped | ⟨hhandled, hknown⟩
    · rw [hopen] at hstopped
      cases hstopped
    · exact hundecided hhandled hknown
  · rcases h.earlier n m sent other hlt hsent hother hid.symm with hstopped | ⟨hhandled, _⟩
    · rw [hrunning] at hstopped
      cases hstopped
    · rw [hwaiting] at hhandled
      cases hhandled

/-- An outcome that is not known, of a component that was not stopped: the place that was kept
for it is taken. -/
theorem Ledger.unknown (h : Ledger options e)
    (hsent : e.invocations[n]? = some sent) (hwaiting : sent.handled = false)
    (hindeterminate : sent.Indeterminate) (hrunning : sent.stopped = false)
    (error : RemoteError) :
    Ledger options
      { e with
        invocations := e.invocations.set n { sent with handled := true }
        capabilityInvocations := e.capabilityInvocations.delete sent.request.invocationId
        indeterminateCapabilityInvocations :=
          e.indeterminateCapabilityInvocations.set sent.request.invocationId
            ⟨sent.fingerprint, error, sent.request.target⟩ } where
  size_le := by
    have hcount := countP_awaited_handled hsent
    rw [if_pos (SentInvocation.awaited_iff.mpr ⟨hwaiting, hrunning⟩)] at hcount
    have hsize := JsMap.size_set_le e.indeterminateCapabilityInvocations sent.request.invocationId
      ⟨sent.fingerprint, error, sent.request.target⟩
    have hle := h.size_le
    dsimp only
    omega
  pending := by
    intro hopen m other hother hawaited
    rcases getElem?_set_cases hother with ⟨_, rfl⟩ | ⟨hne, hold⟩
    · cases (SentInvocation.awaited_iff.mp hawaited).1
    · obtain ⟨hunhandled, hothers⟩ := SentInvocation.awaited_iff.mp hawaited
      obtain ⟨entry, hentry, hrest⟩ := h.pending hopen m other hold hawaited
      refine ⟨entry, ?_, hrest⟩
      rw [JsMap.get_delete, if_neg]
      · exact hentry
      · refine h.other_identity hsent hwaiting hrunning hold hne hothers fun hhandled => ?_
        rw [hunhandled] at hhandled
        cases hhandled
  tombstone := by
    intro hopen m other hother hhandled hopen' hunknown
    rcases getElem?_set_cases hother with ⟨_, rfl⟩ | ⟨hne, hold⟩
    · exact ⟨_, JsMap.get_set.trans (if_pos rfl), rfl⟩
    · obtain ⟨entry, hentry, htarget⟩ := h.tombstone hopen m other hold hhandled hopen' hunknown
      refine ⟨entry, ?_, htarget⟩
      rw [JsMap.get_set, if_neg]
      · exact hentry
      · refine h.other_identity hsent hwaiting hrunning hold hne hopen' fun _ hknown => ?_
        obtain ⟨result, error', hresult, herror⟩ := hunknown
        obtain ⟨result', hresult', hnone⟩ := hknown
        cases some.inj (hresult.symm.trans hresult')
        rw [hnone] at herror
        cases herror
  earlier _ _ _ _ hlt hfirst hother hid :=
    h.earlier_handled hsent hwaiting hlt hfirst hother hid
  answered := by
    intro m other hother hhandled
    rcases getElem?_set_cases hother with ⟨_, rfl⟩ | ⟨_, hold⟩
    · obtain ⟨result, _, hresult, _⟩ := hindeterminate
      exact isSome_iff_exists.mpr ⟨result, hresult⟩
    · exact h.answered m other hold hhandled

theorem get_settleEntry {key other : JsString}
    {entry : RemoteInvocationEntry} (hentry : entries.get other = some entry)
    (hne : entry.invocation ≠ n) : (settleEntry entries key n).get other = some entry := by
  unfold settleEntry
  split
  · next found hfound =>
    split
    · next hsame =>
      rw [JsMap.get_set, if_neg]
      · exact hentry
      · rintro rfl
        cases some.inj (hentry.symm.trans hfound)
        exact hne hsame
    · exact hentry
  · exact hentry

theorem Ledger.settled (h : Ledger options e)
    (hsent : e.invocations[n]? = some sent) (hwaiting : sent.handled = false)
    (hdeterminate : sent.Determinate) :
    Ledger options
      { e with
        invocations := e.invocations.set n { sent with handled := true }
        capabilityInvocations :=
          settleEntry e.capabilityInvocations sent.request.invocationId n } where
  size_le := by
    have hcount := countP_awaited_handled hsent
    have hle := h.size_le
    dsimp only
    omega
  pending := by
    intro hopen m other hother hawaited
    rcases getElem?_set_cases hother with ⟨_, rfl⟩ | ⟨hne, hold⟩
    · cases (SentInvocation.awaited_iff.mp hawaited).1
    · obtain ⟨entry, hentry, hinvocation, hrest⟩ := h.pending hopen m other hold hawaited
      exact ⟨entry, get_settleEntry hentry (hinvocation ▸ hne), hinvocation, hrest⟩
  tombstone := by
    intro hopen m other hother hhandled hopen' hunknown
    rcases getElem?_set_cases hother with ⟨_, rfl⟩ | ⟨_, hold⟩
    · obtain ⟨result, error', hresult, herror⟩ := hunknown
      obtain ⟨result', hresult', hnone⟩ := hdeterminate
      cases some.inj (hresult.symm.trans hresult')
      rw [hnone] at herror
      cases herror
    · exact h.tombstone hopen m other hold hhandled hopen' hunknown
  earlier _ _ _ _ hlt hfirst hother hid :=
    h.earlier_handled hsent hwaiting hlt hfirst hother hid
  answered := by
    intro m other hother hhandled
    rcases getElem?_set_cases hother with ⟨_, rfl⟩ | ⟨_, hold⟩
    · obtain ⟨result, hresult, _⟩ := hdeterminate
      exact isSome_iff_exists.mpr ⟨result, hresult⟩
    · exact h.answered m other hold hhandled

theorem Ledger.close (h : Ledger options e) : Ledger options e.close where
  size_le := by
    show 0 + e.invocations.countP _ ≤ _
    have hle := h.size_le
    omega
  pending hopen := nomatch hopen
  tombstone hopen := nomatch hopen
  earlier := h.earlier
  answered := h.answered

/-! ## The law -/

theorem ledger_step (h : Ledger options e) (hstep : step options e l = some e')
    (hin : InTime e l) : Ledger options e' := by
  cases invocationStep hstep with
  | same hsame => exact h.of_same hsame
  | stopped target hsame => exact (h.completeStop target).of_same hsame
  | looked entries hkeeps heq => exact heq ▸ h.looked hkeeps
  | sent request fingerprint session entries hopen hunknown hdeterminate hkeeps hroom heq =>
    subst heq
    exact (h.looked hkeeps).sendInvocation hopen
      (fun n earlier hearlier hid => h.free hopen hunknown hdeterminate hearlier hid) hroom
  | answered n sent result hsent hnone heq => exact heq ▸ h.answer hsent hnone result
  | unknown n sent error hl hsent hindeterminate hwaiting heq =>
    subst hl heq
    exact h.unknown hsent hwaiting hindeterminate (hin sent hsent hindeterminate) error
  | settled n sent hsent hdeterminate hwaiting heq =>
    exact heq ▸ h.settled hsent hwaiting hdeterminate
  | closed heq => exact heq ▸ h.close

theorem Ledger.tombstonesHold (h : Ledger options e) : TombstonesHold options e where
  bounded := Nat.le_trans (Nat.le_add_right _ _) h.size_le
  notResent := by
    intro l e' sent hstep hnew n earlier hearlier hid
    have hold : ∀ invocations : List SentInvocation,
        invocations.length = e.invocations.length →
          invocations[e.invocations.length]? = some sent → False := by
      intro invocations hlength hsent
      rw [getElem?_eq_none (Nat.le_of_eq hlength)] at hsent
      cases hsent
    cases invocationStep hstep with
    | same hsame => exact (hold e'.invocations (by rw [hsame.invocations]) hnew).elim
    | stopped target hsame =>
      refine (hold e'.invocations ?_ hnew).elim
      rw [hsame.invocations]
      exact length_map _
    | looked entries hkeeps heq => exact (hold e'.invocations (by rw [heq]) hnew).elim
    | sent request fingerprint session entries hopen hunknown hdeterminate hkeeps hroom heq =>
      subst heq
      rcases getElem?_sendInvocation hnew with hsent | ⟨_, rfl⟩
      · exact (hold _ rfl hsent).elim
      · exact h.free hopen hunknown hdeterminate hearlier hid
    | answered n sent result hsent hnone heq
    | unknown n sent error hl hsent hindeterminate hwaiting heq
    | settled n sent hsent hdeterminate hwaiting heq =>
      exact (hold e'.invocations (by rw [heq, length_set]) hnew).elim
    | closed heq => exact (hold e'.invocations (by rw [heq]; rfl) hnew).elim

/-- **In every run in which each unknown outcome comes in before the component is stopped**, the
tombstones hold. -/
theorem tombstonesHold_of_inTime
    (h : (machine options).ReachableVia (fun e l _ => InTime e l) e) : TombstonesHold options e :=
  have hledger : Ledger options e := h.invariant (fun _ hinit => hinit ▸ ledger_new)
    fun _ _ _ _ hledger hstep hin => ledger_step hledger hstep hin
  hledger.tombstonesHold

/-! ## A run within the limit, and one beyond it -/

def sampleInvocationRequest (id : String) : RemoteCapabilityInvocation where
  invocationId := js id
  bindingFingerprint := sampleActivation.bindingFingerprint
  target := sampleActivation.target
  invocation := .null

def firstInvocation : List RemoteLabel :=
  attachment ++
    [.activateComponent sampleActivation, .lifecycleAnswered 0 (some activatedAnswer),
      .invokeCapability (sampleInvocationRequest "first")]

def lostInvocation : List RemoteLabel :=
  firstInvocation ++
    [.sessionChanged 0 ⟨.closed, false⟩, .capabilityAnswered 0 none, .capabilityHandled 0]

/-- No outcome that is handled is one of a stopped component. -/
def handledInTime (e : RemoteExecutor) : RemoteLabel → Bool
  | .capabilityHandled n => e.invocations[n]?.all fun sent => !sent.stopped
  | _ => true

theorem inTime_of_handledInTime (h : handledInTime e l = true) : InTime e l := by
  cases l with
  | capabilityHandled n =>
    intro sent hsent _
    have hall : e.invocations[n]?.all (fun sent => !sent.stopped) = true := h
    rw [hsent] at hall
    exact (Bool.not_eq_true' _).mp hall
  | _ => trivial

theorem tombstonesHold_of_inTime_lostInvocation :
    ∃ e : RemoteExecutor, e.indeterminateCapabilityInvocations.size = 1 ∧
      TombstonesHold sampleOptions e := by
  have hrun : ((machine sampleOptions).runIf handledInTime new lostInvocation).map (fun e =>
      e.indeterminateCapabilityInvocations.size) = some 1 := by decide +kernel
  obtain ⟨e, he, hsize⟩ := map_eq_some_iff.mp hrun
  refine ⟨e, hsize, tombstonesHold_of_inTime ?_⟩
  exact (Machine.ReachableVia.of_runIf (.init rfl) he).mono fun _ _ _ => inTime_of_handledInTime

/-- The component is stopped while the first invocation is awaited; it is activated again, and a
second invocation finds room. Then the session ends. -/
def overtakenInvocation : List RemoteLabel :=
  firstInvocation ++
    [.stopComponent sampleActivation.target none,
      .lifecycleAnswered 0 (some ⟨.componentStop, .ok sampleResponse⟩),
      .activateComponent sampleActivation, .lifecycleAnswered 0 (some activatedAnswer),
      .invokeCapability (sampleInvocationRequest "second"), .sessionChanged 0 ⟨.closed, false⟩,
      .capabilityAnswered 0 none, .capabilityHandled 0, .capabilityAnswered 1 none,
      .capabilityHandled 1]

/-- There are two tombstones then, where one is allowed. -/
theorem overtakenInvocation_not_tombstonesHold :
    ∃ e, (machine sampleOptions).Reachable e ∧ ¬TombstonesHold sampleOptions e := by
  have hrun : ((machine sampleOptions).run new overtakenInvocation).map (fun e =>
      e.indeterminateCapabilityInvocations.size) = some 2 := by decide +kernel
  obtain ⟨e, he, hsize⟩ := map_eq_some_iff.mp hrun
  refine ⟨e, .of_init_run rfl he, fun hold => ?_⟩
  have hbounded := hold.bounded
  rw [hsize] at hbounded
  exact absurd hbounded (by decide)

end RemoteExecutor

end TegoNext
