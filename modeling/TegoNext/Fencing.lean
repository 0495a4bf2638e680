/-
Fencing, over whole runs of the memory store.

An epoch is presented with a transaction, a claim or an acknowledgement, and checked where the
operation takes effect: in its job. The epoch recorded for a resource only grows, so what is
stale once is stale for good. A transaction whose key is in use may still be answered with a
result that is not its own work.
-/
import TegoNext.IdempotentTransactions

set_option autoImplicit false

namespace TegoNext

open MemoryStateStore Option

variable {V : Type}

namespace MemoryStateStore

variable {store store' : MemoryStateStore V}

/-! ## Stale epochs -/

/-- Is the presented epoch lower than the recorded one? -/
def Stale (store : MemoryStateStore V) (fencing : StateFencing) : Prop :=
  ∃ current, store.fences.lookup fencing.resource = some current ∧ fencing.epoch < current

/-- No recorded epoch decreases. -/
def FenceLe (store store' : MemoryStateStore V) : Prop :=
  ∀ resource epoch, store.fences.lookup resource = some epoch →
    ∃ epoch', store'.fences.lookup resource = some epoch' ∧ epoch ≤ epoch'

theorem FenceLe.of_eq (h : store'.fences = store.fences) : store.FenceLe store' :=
  fun _ epoch hepoch => ⟨epoch, h ▸ hepoch, le_rfl⟩

theorem FenceLe.trans {store'' : MemoryStateStore V} (h : store.FenceLe store')
    (h' : store'.FenceLe store'') : store.FenceLe store'' := by
  intro resource epoch hepoch
  obtain ⟨epoch', hepoch', hle⟩ := h resource epoch hepoch
  obtain ⟨epoch'', hepoch'', hle'⟩ := h' resource epoch' hepoch'
  exact ⟨epoch'', hepoch'', hle.trans hle'⟩

variable {fencing : StateFencing}

theorem Stale.mono (h : store.Stale fencing) (hle : store.FenceLe store') :
    store'.Stale fencing := by
  obtain ⟨current, hcurrent, hlt⟩ := h
  obtain ⟨current', hcurrent', hle'⟩ := hle _ _ hcurrent
  exact ⟨current', hcurrent', Nat.lt_of_lt_of_le hlt hle'⟩

theorem Stale.assertFence (h : store.Stale fencing) :
    ∃ e, store.assertFence (some fencing) = .error e := by
  obtain ⟨current, hcurrent, hlt⟩ := h
  simp only [MemoryStateStore.assertFence, hcurrent, if_pos hlt]
  exact ⟨_, rfl⟩

theorem fenceLe_advanceFence {fencing : Option StateFencing} {advances : Bool}
    (h : store.assertFence fencing = .ok advances) : store.FenceLe (store.advanceFence fencing) := by
  cases fencing with
  | none => exact .of_eq rfl
  | some fencing =>
    intro resource epoch hepoch
    by_cases hr : resource = fencing.resource
    · subst hr
      refine ⟨fencing.epoch, AList.lookup_insert _, ?_⟩
      rw [MemoryStateStore.assertFence, hepoch] at h
      dsimp only at h
      split at h
      · cases h
      · next hlt => exact Nat.le_of_not_lt hlt
    · exact ⟨epoch, (AList.lookup_insert_ne hr).trans hepoch, le_rfl⟩

/-! ## The three operations -/

theorem fenceLe_claimOutbox (store : MemoryStateStore V) (request : OutboxClaimRequest)
    (limit : Nat) (now : JsDate.Instant) :
    store.FenceLe (store.claimOutbox request limit now).2.1 := by
  unfold claimOutbox
  split
  · exact .of_eq rfl
  split
  · exact .of_eq rfl
  next advances hfence =>
  dsimp only
  split
  · exact .of_eq rfl
  split
  · have hadvance := fenceLe_advanceFence hfence
    cases hrequest : request.fencing with
    | none => exact .of_eq rfl
    | some fencing =>
      rw [hrequest] at hadvance
      exact hadvance
  · exact .of_eq rfl

theorem fenceLe_acknowledgeOutbox (store : MemoryStateStore V)
    (request : OutboxAcknowledgementRequest) (now : JsDate.Instant) :
    store.FenceLe (store.acknowledgeOutbox request now).2 := by
  unfold acknowledgeOutbox
  split
  · exact .of_eq rfl
  split
  · exact .of_eq rfl
  next advances hfence =>
  have hadvance : ∀ changed : MemoryStateStore V, changed.fences = store.fences →
      store.FenceLe (changed.advanceFence request.fencing) := by
    intro changed hchanged
    have hchecked : changed.assertFence request.fencing = .ok advances := by
      rw [← hfence]
      cases request.fencing with
      | none => rfl
      | some fencing => rw [assertFence, assertFence, hchanged]
    exact (FenceLe.of_eq hchanged).trans (fenceLe_advanceFence hchecked)
  split
  · exact .of_eq rfl
  split
  · split
    · exact .of_eq rfl
    · split
      · exact hadvance _ rfl
      · exact .of_eq rfl
  split
  · exact .of_eq rfl
  split
  · dsimp only
    split
    · exact hadvance _ rfl
    · exact .of_eq rfl
  · exact .of_eq rfl

theorem fenceLe_commit [WireValue V] {fencing : Option StateFencing}
    {identity : Option IdempotencyIdentity} {staged : StagedTransaction V} {result : V}
    (h : store.commit fencing identity staged result = .ok store') : store.FenceLe store' := by
  obtain ⟨-, next, applied, newOutbox, advances, -, -, hfence, rfl⟩ := commit_ok h
  have hadvance := fenceLe_advanceFence hfence
  intro resource epoch hepoch
  rw [remember_fences]
  split
  · change ∃ epoch', (if advances then (store.advanceFence fencing).fences
      else store.fences).lookup resource = some epoch' ∧ epoch ≤ epoch'
    split
    · exact hadvance resource epoch hepoch
    · exact ⟨epoch, hepoch, le_rfl⟩
  · exact ⟨epoch, hepoch, le_rfl⟩

theorem Stale.claimOutbox {request : OutboxClaimRequest}
    (h : store.Stale fencing) (hfencing : request.fencing = some fencing) (limit : Nat)
    (now : JsDate.Instant) :
    ∃ e, store.claimOutbox request limit now = (.error (.state e), store, []) := by
  obtain ⟨e, he⟩ := h.assertFence
  unfold MemoryStateStore.claimOutbox
  split
  · exact ⟨_, rfl⟩
  · rw [hfencing, he]
    exact ⟨_, rfl⟩

theorem Stale.acknowledgeOutbox {request : OutboxAcknowledgementRequest}
    (h : store.Stale fencing) (hfencing : request.fencing = some fencing) (now : JsDate.Instant) :
    ∃ e, store.acknowledgeOutbox request now = (.error e, store) := by
  obtain ⟨e, he⟩ := h.assertFence
  unfold MemoryStateStore.acknowledgeOutbox
  split
  · exact ⟨_, rfl⟩
  · rw [hfencing, he]
    exact ⟨_, rfl⟩

theorem Stale.commit [WireValue V] {fencing : StateFencing} (h : store.Stale fencing)
    (identity : Option IdempotencyIdentity) (staged : StagedTransaction V) (result : V) :
    ∃ e, store.commit (some fencing) identity staged result = .error e := by
  cases hcommit : store.commit (some fencing) identity staged result with
  | error e => exact ⟨e, rfl⟩
  | ok store' =>
    obtain ⟨-, _, _, _, _, -, -, hfence, -⟩ := commit_ok hcommit
    obtain ⟨e, he⟩ := h.assertFence
    rw [he] at hfence
    cases hfence

end MemoryStateStore

namespace StoreWorld

variable {w w' : StoreWorld V}

/-! ## The law -/

def jobFencing (w : StoreWorld V) : StoreJob V → Option StateFencing
  | .commit i _ _ _ => w.calls[i]?.bind (·.options.fencing)
  | .claim request _ => request.fencing
  | .acknowledge request => request.fencing

/-- The fencing of the operation that a step belongs to. -/
def presents (w : StoreWorld V) : StoreEvent V → Option StateFencing
  | .openStore | .close => none
  | .transact options => options.fencing
  | .put i _ _ _ | .delete i _ _ | .appendOperation i _ | .enqueueOutbox i _ | .resolve i _
  | .reject i | .deliver i => w.calls[i]?.bind (·.options.fencing)
  | .claimOutbox request => request.fencing
  | .acknowledgeOutbox request => request.fencing
  | .turn _ => w.jobs.head?.bind w.jobFencing

/-- The promise of the operation at the head of the queue is rejected. -/
def Refused (w w' : StoreWorld V) : StoreJob V → Prop
  | .commit i _ _ _ => ∃ call e, w'.calls[i]? = some call ∧ call.phase = .settled (.error e)
  | .claim request _ => ∃ e, w'.answers = w.answers ++ [.claimed request (.error e)] ∧
      w'.claims = w.claims
  | .acknowledge request => ∃ e, w'.answers = w.answers ++ [.acknowledged request (.error e)]

/-- The call is given the result of another one, or waits for it. -/
def Replays (w : StoreWorld V) (options : StateTransactionOptions) (phase : CallPhase V) : Prop :=
  ∃ id, idempotencyIdentity options = .ok (some id) ∧
    ((∃ result, w.store.idempotency.lookup id.key = some ⟨id.fingerprint, result⟩ ∧
      phase = .settled (.ok result)) ∨
    ∃ leader, w.store.inFlightIdempotency.lookup id.key = some ⟨id.fingerprint, leader⟩ ∧
      phase = .joined leader)

structure FencingLaw [WireValue V] (w : StoreWorld V) : Prop where
  monotone : ∀ w', w.Later w' → w.store.FenceLe w'.store
  unchanged : ∀ fencing e w', w.store.Stale fencing → w.presents e = some fencing →
    w.step e = some w' → w.store.SameState w'.store
  refused : ∀ fencing now job w', w.store.Stale fencing → w.jobs.head? = some job →
    w.jobFencing job = some fencing → w.step (.turn now) = some w' → w.Refused w' job
  begins : ∀ fencing options, w.store.Stale fencing → options.fencing = some fencing →
    ∃ call, (w.transact options).calls[w.calls.length]? = some call ∧ call.options = options ∧
      (call.phase = .running ∨ (∃ e, call.phase = .settled (.error e)) ∨
        w.Replays options call.phase)
  fails : ∀ fencing (i : Nat) call, w.store.Stale fencing → w.calls[i]? = some call →
    call.options.fencing = some fencing → call.phase.Pending →
      ∀ w' call' result, w.Later w' → w'.calls[i]? = some call' →
        call'.phase ≠ .settled (.ok result)
  replays : ∀ (i : Nat) call leader, w.calls[i]? = some call → call.phase = .joined leader →
    ∀ w' call' outcome, w.Later w' → w'.calls[i]? = some call' →
      call'.phase = .settled outcome → ∃ leading, w'.calls[leader]? = some leading ∧
        leading.phase = .settled outcome ∧ leading.identity = call.identity

/-! ## What one step does -/

section Turn

variable [WireValue V]

theorem fenceLe_step {e : StoreEvent V} (hs : w.step e = some w') : w.store.FenceLe w'.store := by
  by_cases hturn : ∃ now, e = .turn now
  · obtain ⟨now, rfl⟩ := hturn
    obtain ⟨job, jobs, -, hrun⟩ := turn_cases hs
    cases job with
    | claim request limit =>
      obtain rfl := some.inj hrun
      exact fenceLe_claimOutbox w.store request limit now
    | acknowledge request =>
      obtain rfl := some.inj hrun
      exact fenceLe_acknowledgeOutbox w.store request now
    | commit i issued staged result =>
      obtain ⟨call, phase, -, rfl | ⟨store, hstore, rfl⟩⟩ := commitJob_cases hrun
      · exact .of_eq rfl
      · exact fenceLe_commit hstore
  · exact .of_eq (rests_step hs fun now heq => hturn ⟨now, heq⟩).store.fences

theorem stale_turn {fencing : StateFencing} {now : JsDate.Instant} {job : StoreJob V}
    (hstale : w.store.Stale fencing) (hjob : w.jobs.head? = some job)
    (hfencing : w.jobFencing job = some fencing) (hs : w.turn now = some w') :
    w'.store = w.store ∧ w.Refused w' job := by
  obtain ⟨job', jobs, hjobs, hrun⟩ := turn_cases hs
  rw [hjobs] at hjob
  obtain rfl := some.inj hjob
  cases job' with
  | claim request limit =>
    obtain ⟨e, he⟩ := hstale.claimOutbox hfencing limit now
    obtain rfl := some.inj hrun
    refine ⟨congrArg (·.2.1) he, .state e, ?_, ?_⟩
    · exact congrArg (fun job => w.answers ++ [.claimed request job.1]) he
    · exact (congrArg (fun job => w.claims ++ job.2.2) he).trans (List.append_nil _)
  | acknowledge request =>
    obtain ⟨e, he⟩ := hstale.acknowledgeOutbox hfencing now
    obtain rfl := some.inj hrun
    exact ⟨congrArg Prod.snd he, e,
      congrArg (fun job => w.answers ++ [.acknowledged request job.1]) he⟩
  | commit i issued staged result =>
    obtain ⟨call, hcall, hfence⟩ := bind_eq_some_iff.mp hfencing
    obtain ⟨e, he⟩ := hstale.commit call.identity staged result
    rw [← hfence] at he
    have hw : w' = ({ w with jobs := jobs } : StoreWorld V).setCall i
        { call with phase := .settled (.error (.state e)) } := by
      have hcommitted := hrun
      simp only [runJob, commitJob, hcall, map_some, he] at hcommitted
      exact (some.inj hcommitted).symm
    obtain ⟨hi, -⟩ := List.getElem?_eq_some_iff.mp hcall
    subst hw
    exact ⟨rfl, _, .state e, List.getElem?_set_self hi, rfl⟩

/-! ## What a run does -/

theorem Later.reachable (hr : (machine V).Reachable w) (h : w.Later w') :
    (machine V).Reachable w' := hr.of_steps h

theorem fenceLe_later (h : w.Later w') : w.store.FenceLe w'.store := by
  induction h with
  | refl => exact .of_eq rfl
  | tail _ hstep ih =>
    obtain ⟨e, hs, -⟩ := hstep
    exact ih.trans (fenceLe_step hs)

theorem stale_later (hr : (machine V).Reachable w) {fencing : StateFencing} {i : Nat}
    {call : TransactCall V} (hstale : w.store.Stale fencing) (hcall : w.calls[i]? = some call)
    (hfencing : call.options.fencing = some fencing) (hpending : call.phase.Pending)
    (h : w.Later w') : ∃ call', w'.calls[i]? = some call' ∧ call'.options = call.options ∧
      (call'.phase.Pending ∨ ∃ e, call'.phase = .settled (.error e)) := by
  induction h with
  | refl => exact ⟨call, hcall, rfl, .inl hpending⟩
  | @tail w₁ w₂ hlater hstep ih =>
    obtain ⟨call₁, hcall₁, hoptions, hphase⟩ := ih
    obtain ⟨e, hs, -⟩ := hstep
    obtain ⟨call₂, hcall₂, hnext⟩ :=
      callsKept_step (callsInv_of_reachable (Later.reachable hr hlater)) hs i call₁ hcall₁
    refine ⟨call₂, hcall₂, hnext.options.trans hoptions, ?_⟩
    rcases hphase with hphase | ⟨e, hphase⟩
    · rcases hnext.pending hphase with hp | hfailed | ⟨staged, result, store, hcommit⟩
      · exact .inl hp
      · exact .inr hfailed
      · obtain ⟨e, he⟩ := (hstale.mono (fenceLe_later hlater)).commit call₁.identity staged result
        rw [hoptions, hfencing, he] at hcommit
        cases hcommit
    · exact .inr ⟨e, hnext.settled _ hphase⟩

theorem joined_later (hr : (machine V).Reachable w) {i leader : Nat} {call : TransactCall V}
    (hcall : w.calls[i]? = some call) (hjoined : call.phase = .joined leader) (h : w.Later w') :
    ∃ call' leading, w'.calls[i]? = some call' ∧ w'.calls[leader]? = some leading ∧
      leading.identity = call.identity ∧
      (call'.phase = .joined leader ∨
        ∃ outcome, call'.phase = .settled outcome ∧ leading.phase = .settled outcome) := by
  induction h with
  | refl =>
    have hstate := state_of_call hcall
    rw [TransactCall.state, hjoined] at hstate
    obtain ⟨id, phase, hid, hlead, -⟩ :=
      (callsInv_of_reachable hr).table.joined i call.identity leader hstate
    obtain ⟨leading, hleading, heq⟩ :=
      map_eq_some_iff.mp ((w.states_getElem? leader).symm.trans hlead)
    refine ⟨call, leading, hcall, hleading, ?_, .inl hjoined⟩
    exact (congrArg CallState.identity heq).trans hid.symm
  | @tail w₁ w₂ hlater hstep ih =>
    obtain ⟨call₁, leading₁, hcall₁, hleading₁, hidentity, hphase⟩ := ih
    obtain ⟨e, hs, -⟩ := hstep
    have hkept := callsKept_step (callsInv_of_reachable (Later.reachable hr hlater)) hs
    obtain ⟨call₂, hcall₂, hnext⟩ := hkept i call₁ hcall₁
    obtain ⟨leading₂, hleading₂, hnext'⟩ := hkept leader leading₁ hleading₁
    refine ⟨call₂, leading₂, hcall₂, hleading₂, hnext'.identity.trans hidentity, ?_⟩
    rcases hphase with hphase | ⟨outcome, hphase, hsettled⟩
    · rcases hnext.joined leader hphase with hp | ⟨leading, outcome, hl, hsettled, hp⟩
      · exact .inl hp
      · cases hleading₁.symm.trans hl
        exact .inr ⟨outcome, hp, hnext'.settled outcome hsettled⟩
    · exact .inr ⟨outcome, hnext.settled outcome hphase, hnext'.settled outcome hsettled⟩

omit [WireValue V] in
theorem transact_begins (w : StoreWorld V) (options : StateTransactionOptions) :
    ∃ call, (w.transact options).calls[w.calls.length]? = some call ∧ call.options = options ∧
      (call.phase = .running ∨ (∃ e, call.phase = .settled (.error e)) ∨
        w.Replays options call.phase) := by
  have hadd : ∀ {w₁ : StoreWorld V} {call : TransactCall V}, w₁.calls = w.calls →
      (w₁.addCall call).calls[w.calls.length]? = some call := by
    intro w₁ call hcalls
    rw [addCall, hcalls]
    exact List.getElem?_concat_length
  unfold transact
  split
  · exact ⟨_, hadd rfl, rfl, .inr (.inl ⟨_, rfl⟩)⟩
  split
  · exact ⟨_, hadd rfl, rfl, .inr (.inl ⟨_, rfl⟩)⟩
  · exact ⟨_, hadd rfl, rfl, .inl rfl⟩
  next identity hidentity =>
  split
  · next replay hreplay =>
    split
    · exact ⟨_, hadd rfl, rfl, .inr (.inl ⟨_, rfl⟩)⟩
    next hsame =>
    refine ⟨_, hadd rfl, rfl, .inr (.inr ⟨identity, hidentity, .inl ⟨replay.result, ?_, rfl⟩⟩)⟩
    rw [hreplay, fingerprint_of_assert hsame]
  · split
    · next inFlight hinFlight =>
      split
      · exact ⟨_, hadd rfl, rfl, .inr (.inl ⟨_, rfl⟩)⟩
      next hsame =>
      refine ⟨_, hadd rfl, rfl, .inr (.inr ⟨identity, hidentity, .inr ⟨inFlight.result, ?_, rfl⟩⟩)⟩
      rw [hinFlight, fingerprint_of_assert hsame]
    · exact ⟨_, hadd rfl, rfl, .inl rfl⟩

/-- **Fencing**, in every state a run can reach. -/
theorem fencingLaw (w : StoreWorld V) (hr : (machine V).Reachable w) : w.FencingLaw where
  monotone _ hlater := fenceLe_later hlater
  unchanged fencing e w' hstale hpresents hs := by
    by_cases hturn : ∃ now, e = .turn now
    · obtain ⟨now, rfl⟩ := hturn
      obtain ⟨job, hjob, hfencing⟩ := bind_eq_some_iff.mp hpresents
      rw [(stale_turn hstale hjob hfencing hs).1]
      exact .refl _
    · exact (rests_step hs fun now heq => hturn ⟨now, heq⟩).store
  refused _ _ _ _ hstale hjob hfencing hs := (stale_turn hstale hjob hfencing hs).2
  begins _ options _ _ := transact_begins w options
  fails fencing i call hstale hcall hfencing hpending w' call' result hlater hcall' hphase := by
    obtain ⟨call'', hcall'', -, hend⟩ := stale_later hr hstale hcall hfencing hpending hlater
    cases hcall'.symm.trans hcall''
    rw [hphase] at hend
    rcases hend with hp | ⟨e, he⟩
    · exact hp
    · cases he
  replays i call leader hcall hjoined w' call' outcome hlater hcall' hphase := by
    obtain ⟨call'', leading, hcall'', hleading, hidentity, hend⟩ :=
      joined_later hr hcall hjoined hlater
    cases hcall'.symm.trans hcall''
    refine ⟨leading, hleading, ?_, hidentity⟩
    rcases hend with hj | ⟨outcome', ho, hl⟩
    · rw [hphase] at hj
      cases hj
    · rw [hphase] at ho
      cases ho
      exact hl

end Turn

/-! ## A run -/

def fencedOptions (epoch : FencingEpoch) : StateTransactionOptions :=
  ⟨some ⟨Text.js "r", epoch⟩, none, none⟩

/-- The leader of epoch 1 is at work when the one of epoch 2 commits. -/
def leadersRun : List (StoreEvent Unit) :=
  [.openStore, .transact (fencedOptions 1), .transact (fencedOptions 2), .resolve 1 (),
    .turn JsDate.epochStart, .resolve 0 (), .turn JsDate.epochStart]

theorem fencingLaw_leadersRun :
    ∃ w : StoreWorld Unit, (machine Unit).run initial leadersRun = some w ∧ w.committed = [1] ∧
      w.FencingLaw := by
  have hrun : ((machine Unit).run initial leadersRun).map (·.committed) = some [1] := by
    decide +kernel
  obtain ⟨w, hw, hcommitted⟩ := map_eq_some_iff.mp hrun
  exact ⟨w, hw, hcommitted, fencingLaw w (.of_init_run rfl hw)⟩

end StoreWorld

end TegoNext
