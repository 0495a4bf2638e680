/-
The calls of the task service keep the contract: dispatching, recovery,
cancellation and `run`, and with them every run of the services.

The submission of a dispatch is the one turn that needs the token of its promise:
while the activity owns it, nobody else takes the promise out of the map or submits
under it (`Mine`).
-/
import TegoNext.TaskSafety

set_option autoImplicit false

namespace TegoNext

open Async List Option Function Except

namespace TaskService

variable {platform : TaskPlatform} {leadership : JsString} {uses : Set Nat} {me : Nat}
  {authority : RuntimeAuthority} {record : TaskRecord}

/-! ## Executors -/

variable {id : PortableId}

theorem selectExecutorBounded_spec {target : Option TaskExecutionTarget} :
    TaskSpec platform leadership (fun _ => True) (selectExecutorBounded me authority id target)
      fun _ _ => True := by
  refine Spec.bind (Q := fun _ _ => True) ((attempt_spec ask_spec).post fun _ _ _ => trivial)
    fun outcome => ?_
  dsimp only
  split
  · exact (assertAuthority_spec authority).bind fun _ => Spec.ret fun _ _ => trivial
  · split
    · exact Spec.throw
    · exact fail_spec (.const True)
  · exact fail_spec (.const True)
  · exact Spec.throw

theorem validateSelection_spec {selection : TaskExecutorSelection} :
    TaskSpec platform leadership (fun _ => True) (validateSelection selection id) fun _ _ => True :=
  check_spec (.const True) fun _ _ _ _ _ _ => trivial

theorem resolveExecutor_spec :
    TaskSpec platform leadership (fun _ => True) (resolveExecutor me record authority)
      fun _ _ => True := by
  unfold resolveExecutor
  split
  · exact fail_spec (.const True)
  · exact fail_spec (.const True)
  · refine Spec.bind (Q := fun _ _ => True) (query_spec (.const True) fun _ _ _ => trivial)
      fun retained => ?_
    split
    · exact Spec.ret fun _ _ => trivial
    refine selectExecutorBounded_spec.bind fun resolved => validateSelection_spec.bind fun _ => ?_
    split
    · exact fail_spec (.const True)
    split
    · exact fail_spec (.const True)
    · exact Spec.ret fun _ _ => trivial

theorem handleResult_spec :
    TaskSpec platform leadership (fun _ => True) handleResult fun _ _ => True :=
  ask_spec

theorem observeBounded_spec :
    TaskSpec platform leadership (fun _ => True) observeBounded fun _ _ => True :=
  ask_spec

theorem cancelAttempt_spec :
    TaskSpec platform leadership (fun _ => True) (cancelAttempt me authority) fun _ _ => True :=
  (assertAuthority_spec authority).bind fun _ => Spec.bind (Q := fun _ _ => True) ask_spec
    fun _ => assertAuthority_spec authority

theorem andThen {α β : Type} {m : TaskM α} {f : α → TaskM β} {R : TaskWorld → Prop}
    {S : β → TaskWorld → Prop} {Q : α → TaskWorld → Prop}
    (hm : TaskSpec platform leadership (fun _ => True) m Q)
    (hR : Stable (taskContract platform leadership) ∅ R)
    (hf : ∀ a, TaskSpec platform leadership R (f a) S) :
    TaskSpec platform leadership R (m >>= f) S :=
  hm.seq hR (fun _ _ => trivial) fun a => (hf a).pre fun _ h => h.2

variable {registration : ExecutorRegistration}

theorem completion_spec (hauth : authority.resource = leadership) :
    TaskSpec platform leadership (Seen leadership · record)
      (completion platform me record authority registration) fun _ _ => True := by
  refine andThen (attempt_spec handleResult_spec) (stable_seen record) fun outcome => ?_
  cases outcome with
  | ok result => exact complete_spec hauth
  | error e => exact settleUncertain_spec hauth

/-! ## Dispatching -/

variable {executor : TaskExecutor} {error : TaskFailure}

theorem submissionObserved_spec
    {outcome : Except TaskFailure ObservationOutcome}
    (hauth : authority.resource = leadership) :
    TaskSpec platform leadership (Seen leadership · record)
      (submissionObserved platform me record executor authority registration error outcome)
      fun _ _ => True := by
  unfold submissionObserved
  split
  · exact complete_spec hauth
  split
  · exact settleUncertain_spec hauth
  · exact markUnknown_spec hauth

theorem submissionFailed_spec (hauth : authority.resource = leadership) :
    TaskSpec platform leadership (Seen leadership · record)
      (submissionFailed platform me record executor authority registration error)
      fun result s => result.taskId = record.taskId ∧ Seen leadership s result := by
  unfold submissionFailed
  split
  · refine (rejectAdmission_spec hauth).tryFinally (stable_seen record) (fun _ h => h)
      (fun r => (Stable.const _).and (stable_seen r)) ?_
    exact update_spec (stable_seen record) fun s hs _ => Quiet.unregister hs me _ _
  refine andThen (attempt_spec observeBounded_spec) (stable_seen record) fun outcome => ?_
  exact (submissionObserved_spec hauth).seq (stable_seen record) (fun _ h => h)
    fun _ => (statusOr_spec record).pre fun _ h => h.2

theorem submissionAccepted_spec {handle : TaskIdentity} (hauth : authority.resource = leadership) :
    TaskSpec platform leadership (Seen leadership · record)
      (submissionAccepted platform me record authority registration handle)
      fun result s => result.taskId = record.taskId ∧ Seen leadership s result := by
  unfold submissionAccepted
  split
  · refine andThen (check_spec (Q := fun _ _ => True) (.const True) fun _ _ _ _ _ _ => trivial)
      (stable_seen record) fun mismatch => ?_
    exact (settleUncertain_spec hauth).seq (stable_seen record) (fun _ h => h)
      fun _ => (statusOr_spec record).pre fun _ h => h.2
  · refine (attempt_spec (markRunning_spec hauth)).seq (P := fun _ => True) (stable_seen record)
      (fun _ _ => trivial) fun running => ?_
    cases running with
    | ok running =>
      have hstable : Stable (taskContract platform leadership) ∅ fun s =>
          running.taskId = record.taskId ∧ Seen leadership s running :=
        (Stable.const _).and (stable_seen running)
      refine Spec.assume (fun s => running.taskId = record.taskId ∧ Seen leadership s running)
        (fun s h => h.1 running rfl) ?_
      exact Spec.bind (Spec.detach fun s hs h => (completion_spec hauth).safe_run hs h.2)
        fun _ => Spec.ret fun _ h => h
    | error e =>
      refine Spec.assume (Seen leadership · record) (fun s h => h.2) ?_
      refine (settleUncertain_spec hauth).seq (stable_seen record) (fun _ h => h) fun _ => ?_
      refine Spec.seq (Q := fun result s => ∀ r, result = some r →
        r.taskId = record.taskId ∧ Seen leadership s r)
        (query_spec (.const True) fun s hs _ r hr => ?_)
        ((Stable.const True).and (stable_seen record)) (fun _ _ => trivial) fun uncertain => ?_
      · exact (hs.service me).ephemeral record.taskId r hr
      · cases uncertain with
        | some r => exact Spec.ret fun s h => h.1 r rfl
        | none =>
          refine Spec.assume (fun _ => True) (fun _ _ => trivial) ?_
          refine (status_spec record.taskId).bind fun persisted => ?_
          cases persisted with
          | some r => exact Spec.ret fun s h => h r rfl
          | none => exact Spec.throw

/-- The dispatch `p` of the task is under way and has not submitted yet. -/
structure Mine (me p : Nat) (id : PortableId) (s : TaskWorld) : Prop where
  entry : (s.services me).dispatches id = some p
  first : ∀ me' request', .submitted me' request' p ∉ s.events

theorem stable_mine (p : Nat) (id : PortableId) :
    Stable (taskContract platform leadership) {p} (Mine me p id) := by
  intro s t _ hframe h
  have hsame : SameDispatch p s t := hframe p rfl
  exact ⟨(hsame.entry me id).mp h.entry,
    fun me' request' hmem => h.first me' request' ((hsame.submitted me' request').mpr hmem)⟩

theorem dispatch_spec {p : Nat} (hauth : authority.resource = leadership) :
    Spec (taskContract platform leadership) {p}
      (fun s => Seen leadership s record ∧ Mine me p record.taskId s)
      (dispatch platform me record authority p)
      fun result _ => result.taskId = record.taskId := by
  have hstable : Stable (taskContract platform leadership) {p} fun s =>
      Seen leadership s record ∧ Mine me p record.taskId s :=
    (stable_seen record).and (stable_mine p record.taskId)
  refine (assertAuthority_spec authority).seq hstable (fun _ _ => trivial) fun _ => ?_
  refine resolveExecutor_spec.seq ((Stable.const True).and hstable) (fun _ _ => trivial)
    fun executor => ?_
  refine Spec.assume (fun s => Seen leadership s record ∧ Mine me p record.taskId s)
    (fun s h => h.2.2) ?_
  split
  · exact fail_spec hstable
  · exact fail_spec hstable
  · next target binding _ _ =>
    refine Spec.bind (Q := fun _ s => Seen leadership s record)
      (Spec.turn hstable fun s r hs hp _ _ => ?_) fun registration => ?_
    · dsimp only
      split
      · exact ⟨(Quiet.refl hs).turn hs, fun a ha => nomatch ha⟩
      -- the dispatch submits, and the registration is quiet
      have hsubmit := turn_submitted hs (show (s.services me).dispatches
        (executionRequest record target binding).taskId = some p from hp.2.entry) hp.2.first
      have hregister := Quiet.register hsubmit.inv me record.taskId executor authority
      exact ⟨turn_comp_quiet hsubmit hregister,
        fun a _ => hp.1.mono (hsubmit.law.grows.trans hregister.grows)⟩
    · refine (attempt_spec ask_spec).seq (P := fun _ => True) (stable_seen record)
        (fun _ _ => trivial) fun handle => ?_
      have hlift : ∀ {m : TaskM TaskRecord},
          TaskSpec platform leadership (Seen leadership · record) m
            (fun result s => result.taskId = record.taskId ∧ Seen leadership s result) →
          Spec (taskContract platform leadership) {p}
            (fun s => (∀ a, handle = .ok a → True) ∧ Seen leadership s record) m
            fun result _ => result.taskId = record.taskId := fun h =>
        ((h.keep (stable_seen record) fun _ h => h).conseq (fun _ h => h.2) fun _ _ h => h.1.1)
      cases handle with
      | ok handle => exact hlift (submissionAccepted_spec hauth)
      | error e => exact hlift (submissionFailed_spec hauth)

variable {s : TaskWorld}

theorem dispatchProcess_safe {p : Nat} (hauth : authority.resource = leadership)
    (hs : TaskInv platform leadership s) (hseen : Seen leadership s record)
    (hmine : Mine me p record.taskId s) (hpromise : PromiseFor s p record.taskId) :
    Safe (taskContract platform leadership) (dispatchProcess platform me record authority p) {p}
      s := by
  refine Spec.safe_run (Q := fun _ _ => True) (P := fun s =>
    (Seen leadership s record ∧ Mine me p record.taskId s) ∧ PromiseFor s p record.taskId) ?_ hs
    ⟨⟨hseen, hmine⟩, hpromise⟩
  refine Spec.bind ((attempt_spec (dispatch_spec hauth)).keep_rely fun _ _ hst h => h.mono hst)
    fun outcome => ?_
  refine Spec.turn ((Stable.all fun _ => .imp fun _ => .const _).and (stable_promiseFor p _))
    fun s r hs hp _ _ => ⟨turn_endDispatch hs fun r hr => ?_, fun _ _ => trivial⟩
  rw [hp.1 r hr]
  exact hp.2

theorem ensureDispatch_spec (hauth : authority.resource = leadership) :
    TaskSpec platform leadership (Seen leadership · record)
      (ensureDispatch platform me record authority)
      fun result _ => result.taskId = record.taskId := by
  refine Spec.bind (Q := fun p s => PromiseFor s p record.taskId) (Triple.spawn ?_)
    fun p => awaitPromise_spec p record.taskId
  intro s t r hseen hst _ ht _
  have hseen' : Seen leadership t record := hseen.mono hst
  cases hfree : (t.services me).dispatches record.taskId with
  | some p =>
    have hstart : t.startDispatch me record.taskId = ((p, none), t) := by
      unfold TaskWorld.startDispatch
      rw [hfree]
    rw [hstart]
    refine ⟨(Quiet.refl ht).turn ht, fun a b hab => ?_, fun a b hab => ?_, fun _ _ => trivial⟩
    · cases hab
      exact (ht.service me).dispatches _ p hfree
    · cases hab
  | none =>
    have hturn : Turn (taskContract platform leadership) ∅ t (t.startDispatch me record.taskId).2 :=
      turn_startDispatch ht hfree
    have hlabel : (t.startDispatch me record.taskId).1 =
        (t.promises.length, some t.promises.length) := by
      unfold TaskWorld.startDispatch
      rw [hfree]
    have hlength : (t.startDispatch me record.taskId).2.promises.length =
        t.promises.length + 1 := by
      rw [startDispatch_of_free hfree]
      exact length_append
    have hpromise : PromiseFor (t.startDispatch me record.taskId).2 t.promises.length
        record.taskId := by
      rw [startDispatch_of_free hfree]
      exact ⟨⟨record.taskId, none⟩, getElem?_concat_length, rfl⟩
    refine ⟨hturn, fun a b hab => ?_, fun a b hab => ?_, fun _ _ => trivial⟩
    · obtain ⟨rfl, -⟩ := Prod.mk.inj (hlabel.symm.trans (ok.inj hab))
      exact hpromise
    · obtain ⟨-, hb⟩ := Prod.mk.inj (hlabel.symm.trans (ok.inj hab))
      obtain rfl := some.inj hb
      refine Safe.weaken (dispatchProcess_safe hauth hturn.inv (hseen'.mono hturn.law.grows) ?_
        hpromise) fun i hi => ?_
      · refine ⟨?_, fun me' request' hmem => ?_⟩
        · rw [startDispatch_of_free hfree]
          simp [TaskWorld.log, TaskWorld.updateService, TaskWorld.allocate]
        · -- the promise is younger than every submission
          rw [startDispatch_of_free hfree] at hmem
          rcases mem_cons.mp hmem with h | h
          · cases h
          · obtain ⟨pr, hpr, -⟩ := ht.event _ h
            rw [getElem?_eq_none (Nat.le_refl _)] at hpr
            cases hpr
      · rw [Set.mem_singleton_iff] at hi
        subst hi
        exact ⟨Nat.lt_irrefl _, by
          show _ < _
          rw [hlength]
          exact Nat.lt_succ_self _⟩

/-! ## Recovery -/

theorem resumeRemoteCompletion_spec (hauth : authority.resource = leadership) :
    TaskSpec platform leadership (Seen leadership · record)
      (resumeRemoteCompletion platform me record executor authority registration)
      fun _ _ => True := by
  refine andThen (query_spec (Q := fun _ _ => True) (.const True) fun _ _ _ => trivial)
    (stable_seen record) fun pending => ?_
  split
  · exact Spec.ret fun _ _ => trivial
  refine andThen ask_spec (stable_seen record) fun handle => ?_
  cases handle with
  | none => exact Spec.ret fun _ _ => trivial
  | some handle =>
    dsimp only
    split
    · exact andThen (check_spec (Q := fun _ _ => True) (.const True) fun _ _ _ _ _ _ => trivial)
        (stable_seen record) fun mismatch => settleUncertain_spec hauth
    refine andThen (segment_spec (Q := fun _ _ => True) (.const True) fun s now hs _ => ?_)
      (stable_seen record) fun serial => ?_
    · have hupdate : Quiet leadership s (s.updateService me fun service =>
          { service with
            remoteCompletions :=
              Function.update service.remoteCompletions record.taskId (some s.serials) }) :=
        Quiet.updateService hs (fun hservice => { hservice with }) rfl
      exact ⟨hupdate.trans (Quiet.serials (hupdate.inv hs) _), fun _ _ => trivial⟩
    · refine (Spec.detach (R := (Seen leadership · record)) fun s hs h => ?_).post
        fun _ _ _ => trivial
      refine Spec.safe_run (Q := fun _ _ => True) (P := (Seen leadership · record)) ?_ hs h
      refine Spec.seq (attempt_spec (completion_spec hauth)) (stable_seen record)
        (fun _ h => h) fun _ => update_spec ((Stable.all fun _ => .imp fun _ =>
          .const True).and (stable_seen record)) fun s hs _ => ?_
      refine Quiet.updateService hs (fun hservice => ?_) ?_
      · split
        · exact { hservice with }
        · exact hservice
      · split <;> rfl

theorem recoverUnresolved_spec (hauth : authority.resource = leadership) :
    TaskSpec platform leadership (Seen leadership · record)
      (recoverUnresolved platform me record authority error) fun _ _ => True := by
  unfold recoverUnresolved
  split
  · exact settleUncertain_spec hauth
  split
  · exact markTargetUnavailable_spec hauth
  split
  · exact markUnknown_spec hauth
  · exact settleUncertain_spec hauth

theorem followUp_spec (hauth : authority.resource = leadership) :
    TaskSpec platform leadership (Seen leadership · record)
      (followUp platform me record executor authority registration) fun _ _ => True := by
  unfold followUp
  split
  · exact resumeRemoteCompletion_spec hauth
  · exact Spec.ret fun _ _ => trivial

theorem recoverObserved_spec
    {observed : Option AttemptStatus} (hauth : authority.resource = leadership) :
    TaskSpec platform leadership (Seen leadership · record)
      (recoverObserved platform me record executor authority registration observed)
      fun _ _ => True := by
  refine andThen (assertAuthority_spec authority) (stable_seen record) fun _ => ?_
  split
  · exact complete_spec hauth
  · split
    · exact andThen (markRunning_spec hauth) (stable_seen record) fun _ => followUp_spec hauth
    · exact followUp_spec hauth
  · exact followUp_spec hauth
  · split
    · exact markUnknown_spec hauth
    · split
      · exact (ensureDispatch_spec hauth).bind fun _ => Spec.ret fun _ _ => trivial
      · exact settleUncertain_spec hauth

theorem repeatCancellation_spec :
    TaskSpec platform leadership (fun _ => True) (repeatCancellation me record authority)
      fun _ _ => True := by
  unfold repeatCancellation
  split
  · exact cancelAttempt_spec
  · exact Spec.ret fun _ _ => trivial

theorem observeOrMark_spec (hauth : authority.resource = leadership) :
    TaskSpec platform leadership (fun _ => True) (observeOrMark platform me record authority)
      fun _ _ => True := by
  refine observeBounded_spec.bind fun outcome => ?_
  cases outcome with
  | timeout => exact (markUnknown_spec hauth).bind fun _ => Spec.ret fun _ _ => trivial
  | observed value => exact Spec.ret fun _ _ => trivial

theorem registerRetained_spec :
    TaskSpec platform leadership (fun _ => True)
      (TaskM.segment fun s now =>
        match s.assertAuthority me authority now with
        | .error e => (.error e, s)
        | .ok _ =>
          (.ok (s.register me record.taskId executor authority).1,
            (s.register me record.taskId executor authority).2)) fun _ _ => True := by
  refine segment_spec (.const True) fun s now hs _ => ?_
  split
  · exact ⟨Quiet.refl hs, fun _ _ => trivial⟩
  · exact ⟨Quiet.register hs me _ _ _, fun _ _ => trivial⟩

theorem recoverWith_spec (hauth : authority.resource = leadership) :
    TaskSpec platform leadership (Seen leadership · record)
      (recoverWith platform me record executor authority) fun _ _ => True := by
  refine andThen registerRetained_spec (stable_seen record) fun registration => ?_
  refine andThen repeatCancellation_spec (stable_seen record) fun _ => ?_
  refine andThen (attempt_spec (observeOrMark_spec hauth)) (stable_seen record) fun observed => ?_
  split
  · exact Spec.ret fun _ _ => trivial
  · exact recoverObserved_spec hauth
  · split
    · exact Spec.ret fun _ _ => trivial
    · exact settleUncertain_spec hauth

theorem recoverRecord_spec (hauth : authority.resource = leadership) :
    TaskSpec platform leadership (Seen leadership · record)
      (recoverRecord platform me record authority) fun _ _ => True := by
  unfold recoverRecord
  split
  · exact andThen (check_spec (Q := fun _ _ => True) (.const True) fun _ _ _ _ _ _ => trivial)
      (stable_seen record) fun missing => settleUncertain_spec hauth
  · exact settleUncertain_spec hauth
  · refine andThen (attempt_spec resolveExecutor_spec) (stable_seen record) fun resolved => ?_
    cases resolved with
    | ok executor => exact recoverWith_spec hauth
    | error e => exact recoverUnresolved_spec hauth

theorem recoverGuarded_spec (hauth : authority.resource = leadership) :
    TaskSpec platform leadership (Seen leadership · record)
      (recoverGuarded platform me record authority) fun _ _ => True := by
  refine (recoverRecord_spec hauth).tryCatch (stable_seen record) (fun _ h => h) fun e => ?_
  split
  · exact Spec.ret fun _ _ => trivial
  · exact settleUncertain_spec hauth

theorem recoverPending_spec {records : List TaskRecord} (hauth : authority.resource = leadership) :
    TaskSpec platform leadership (fun s => ∀ r ∈ records, Seen leadership s r)
      (recoverPending platform me authority records) fun _ _ => True := by
  induction records with
  | nil => exact Spec.ret fun _ _ => trivial
  | cons r records ih =>
    refine Spec.bind (Spec.detach fun s hs h => ?_) fun _ =>
      ih.pre fun s h r' hr' => h r' (mem_cons_of_mem _ hr')
    exact (recoverGuarded_spec hauth).safe_run hs (h r mem_cons_self)

theorem pendingRecords_seen (hs : TaskInv platform leadership s) :
    ∀ r ∈ pendingRecords (s.services me), Seen leadership s r := by
  intro r hr
  obtain ⟨entry, hentry, rfl⟩ := List.mem_map.mp (mem_of_mem_filter hr)
  exact (hs.service me).records entry hentry

theorem setAuthority_spec {current : Option RuntimeAuthority}
    (hauth : ∀ a, current = some a → a.resource = leadership) :
    TaskSpec platform leadership (fun _ => True) (setAuthority platform me current)
      fun _ _ => True := by
  refine Spec.bind (Q := fun _ _ => True) (segment_spec (.const True) fun s now hs _ => ?_)
    fun _ => ?_
  · split
    · exact ⟨Quiet.refl hs, fun _ _ => trivial⟩
    · have hupdate : Quiet leadership s (s.updateService me fun service =>
          { service with authority := current }) :=
        Quiet.updateService hs (fun hservice => { hservice with authority := hauth }) rfl
      exact ⟨hupdate, fun _ _ => trivial⟩
  · cases current with
    | none => exact Spec.ret fun _ _ => trivial
    | some authority =>
      refine recover_spec.bind fun _ => Spec.bind
        (Q := fun pending s => ∀ r ∈ pending, Seen leadership s r)
        (check_spec (.const True) fun s now pending hs _ h => ?_)
        fun pending => recoverPending_spec (hauth _ rfl)
      cases hassert : s.assertAuthority me authority now with
      | error e =>
        rw [hassert] at h
        cases h
      | ok _ =>
        rw [hassert] at h
        obtain rfl := ok.inj h
        exact pendingRecords_seen hs

theorem requireAuthority_resource (hs : TaskInv platform leadership s)
    {now : JsDate.Instant} {a : RuntimeAuthority} (h : s.requireAuthority me now = .ok a) :
    a.resource = leadership := by
  unfold TaskWorld.requireAuthority at h
  split at h
  · cases h
  next current hcurrent =>
  obtain rfl := ok.inj h
  exact (hs.service me).authority _ hcurrent

theorem recoverRemoteWorker_spec (workerId : PortableId) :
    TaskSpec platform leadership (fun _ => True) (recoverRemoteWorker platform me workerId)
      fun _ _ => True := by
  refine Spec.bind (Q := fun (result : RuntimeAuthority × List TaskRecord) s =>
    result.1.resource = leadership ∧ ∀ r ∈ result.2, Seen leadership s r)
    (check_spec (.const True) fun s now result hs _ h => ?_) fun result => ?_
  · split at h
    · cases h
    · cases hrequire : s.requireAuthority me now with
      | error e =>
        rw [hrequire] at h
        cases h
      | ok a =>
        rw [hrequire] at h
        obtain rfl := ok.inj h
        exact ⟨requireAuthority_resource hs hrequire, fun r hr =>
          pendingRecords_seen hs r (mem_of_mem_filter hr)⟩
  · obtain ⟨authority, pending⟩ := result
    exact Spec.of_pure (fun hauth => (recoverPending_spec hauth).pre fun s h => h.2) fun s h => h.1

/-! ## Cancelling -/

theorem waitBounded_spec (id : PortableId) :
    TaskSpec platform leadership (fun _ => True) (waitBounded platform me id)
      fun result _ => ∀ record, result = some record → record.taskId = id := by
  refine Spec.bind (Q := fun p s => PromiseFor s p id)
    (segment_spec (.const True) fun s now hs _ => ⟨Quiet.allocate hs id, fun a ha => ?_⟩)
    fun p => ?_
  · obtain rfl := ok.inj ha
    exact ⟨⟨id, none⟩, getElem?_concat_length, rfl⟩
  · refine Spec.bind (Spec.detach (R := (PromiseFor · p id)) fun s hs hp => ?_) fun _ => ?_
    · refine Spec.safe_run (Q := fun _ _ => True) (P := (PromiseFor · p id)) ?_ hs hp
      refine (attempt_spec (wait_spec id)).seq (stable_promiseFor p id) (fun _ _ => trivial)
        fun outcome => update_spec ((Stable.all fun _ => .imp fun _ => .const _).and
          (stable_promiseFor p id)) fun s hs h => Quiet.settle hs p fun r hr => ?_
      rw [h.1 r hr]
      exact h.2
    · refine Spec.look taskContract_stutters (stable_promiseFor p id) (fun s r => ?_)
        fun s r result hs hp h record hrecord => ?_
      · split <;> rfl
      · subst hrecord
        obtain ⟨pr, hpr, rfl⟩ := hp
        split at h
        · cases h
        · cases h
        · cases ho : pr.outcome with
          | none =>
            simp only [hpr, bind_some, ho] at h
            cases h
          | some outcome =>
            simp only [hpr, bind_some, ho, getD_some] at h
            cases outcome with
            | error e => cases h
            | ok r' =>
              obtain rfl := some.inj (ok.inj h)
              exact hs.outcome p pr _ hpr ho

theorem intendCancellation_spec (hauth : authority.resource = leadership) :
    TaskSpec platform leadership (Seen leadership · record)
      (intendCancellation platform me record authority)
      fun result s => result.taskId = record.taskId ∧ Seen leadership s result := by
  unfold intendCancellation
  split
  · refine update_transition_spec hauth ?_ ?_ ?_ ?_
    · exact fun _ _ => ⟨rfl, rfl, rfl, rfl, rfl, rfl⟩
    · exact fun _ _ _ => Nat.le_refl _
    · exact fun _ _ _ => rfl
    · exact fun _ _ => .inl rfl
  · exact Spec.ret fun s h => ⟨rfl, h⟩

theorem awaitDispatch_spec (id : PortableId) :
    TaskSpec platform leadership (fun _ => True) (awaitDispatch me id) fun _ _ => True := by
  refine Spec.bind (Q := fun waiting s => ∀ p, waiting = some p → PromiseFor s p id)
    (query_spec (.const True) fun s hs _ p hp => ?_) fun waiting => ?_
  · split at hp
    · cases hp
    · exact (hs.service me).dispatches id p hp
  · cases waiting with
    | none => exact Spec.ret fun _ _ => trivial
    | some p =>
      exact ((attempt_spec (awaitPromise_spec p id)).bind fun _ =>
        Spec.ret fun _ _ => trivial).pre fun s h => h p rfl

theorem cancelAndObserve_spec {registration : Option ExecutorRegistration} :
    TaskSpec platform leadership (fun _ => True) (cancelAndObserve me authority registration)
      fun _ _ => True := by
  cases registration with
  | none => exact Spec.ret fun _ _ => trivial
  | some _ => exact cancelAttempt_spec.bind fun _ => observeBounded_spec

theorem completeObserved_spec {registration : Option ExecutorRegistration}
    {observed : ObservationOutcome} (hauth : authority.resource = leadership) :
    TaskSpec platform leadership (Seen leadership · record)
      (completeObserved platform me record authority registration observed)
      fun _ _ => True := by
  unfold completeObserved
  split
  · exact complete_spec hauth
  · exact Spec.ret fun _ _ => trivial

theorem concludeCancellation_spec (hauth : authority.resource = leadership) :
    TaskSpec platform leadership (Seen leadership · record)
      (concludeCancellation platform me record authority)
      fun result _ => result.taskId = record.taskId := by
  refine (waitBounded_spec record.taskId).seq (stable_seen record) (fun _ _ => trivial)
    fun completed => ?_
  cases completed with
  | some completed => exact Spec.ret fun s h => h.1 completed rfl
  | none =>
    refine Spec.assume (Seen leadership · record) (fun s h => h.2) ?_
    refine (status_spec record.taskId).seq (stable_seen record) (fun _ _ => trivial) fun after => ?_
    split
    · next r hr =>
      refine Spec.ret fun s h => (h.1 r ?_).1
      exact (filter_eq_some_iff.mp hr).1
    refine Spec.assume (Seen leadership · record) (fun s h => h.2) ?_
    exact (settleUncertain_spec hauth).seq (stable_seen record) (fun _ h => h)
      fun _ => (statusOr_spec record).conseq (fun _ h => h.2) fun _ _ h => h.1

theorem cancelTask_spec (id : PortableId) :
    TaskSpec platform leadership (fun _ => True) (cancelTask platform me id)
      fun result _ => result.taskId = id := by
  refine Spec.bind (Q := fun authority _ => authority.resource = leadership)
    (check_spec (.const True) fun s now a hs _ h => requireAuthority_resource hs h)
    fun authority => ?_
  refine Spec.of_pure (fun hauth => ?_) fun s h => h
  refine Spec.assume (fun _ => True) (fun _ _ => trivial) ?_
  refine (status_spec id).bind fun current => ?_
  cases current with
  | none => exact fail_spec (.all fun _ => .imp fun h => nomatch h)
  | some current =>
    dsimp only
    split
    · exact Spec.ret fun s h => (h current rfl).1
    refine Spec.of_pure (p := current.taskId = id) (fun hid => ?_) fun s h => (h current rfl).1
    subst hid
    refine Spec.assume (Seen leadership · current) (fun s h => (h current rfl).2) ?_
    refine (intendCancellation_spec hauth).bind fun intended => ?_
    refine Spec.of_pure (p := intended.taskId = current.taskId) (fun hid => ?_) fun s h => h.1
    rw [← hid]
    refine Spec.assume (Seen leadership · intended) (fun s h => h.2) ?_
    refine andThen (assertAuthority_spec authority) (stable_seen intended) fun _ => ?_
    refine andThen (awaitDispatch_spec _) (stable_seen intended) fun _ => ?_
    refine andThen (query_spec (Q := fun _ _ => True) (.const True) fun _ _ _ => trivial)
      (stable_seen intended) fun registration => ?_
    refine andThen cancelAndObserve_spec (stable_seen intended) fun observed => ?_
    refine andThen (assertAuthority_spec authority) (stable_seen intended) fun _ => ?_
    exact (completeObserved_spec hauth).seq (stable_seen intended) (fun _ h => h)
      fun _ => (concludeCancellation_spec hauth).pre fun _ h => h.2

theorem cancel_spec (id : PortableId) :
    TaskSpec platform leadership (fun _ => True) (cancel platform me id) fun _ _ => True := by
  refine Spec.bind (Q := fun p s => PromiseFor s p id) (Triple.spawn ?_)
    fun p => (awaitPromise_spec p id).post fun _ _ _ => trivial
  intro s t r _ hst _ ht _
  have hstay : Turn (taskContract platform leadership) ∅ t t := (Quiet.refl ht).turn ht
  split
  · refine ⟨hstay, fun a b h => ?_, fun a b h => ?_, fun _ _ => trivial⟩ <;> cases h
  · refine ⟨hstay, fun a b h => ?_, fun a b h => ?_, fun _ _ => trivial⟩ <;> cases h
  · cases hcancel : (t.services me).cancellations id with
    | some p =>
      have hstart : startCancellation me t id = ((p, none), t) := by
        unfold startCancellation
        rw [hcancel]
      rw [hstart]
      refine ⟨hstay, fun a b h => ?_, fun a b h => ?_, fun _ _ => trivial⟩
      · cases h
        exact (ht.service me).cancellations id p hcancel
      · cases h
    | none =>
      have hstart : startCancellation me t id =
          ((t.promises.length, some t.promises.length),
            (t.allocate id).updateService me fun service =>
              { service with
                cancellations :=
                  Function.update service.cancellations id (some t.promises.length) }) := by
        unfold startCancellation
        rw [hcancel]
      have halloc := Quiet.allocate ht id
      have hnew : PromiseFor (t.allocate id) t.promises.length id :=
        ⟨⟨id, none⟩, getElem?_concat_length, rfl⟩
      have hquiet : Quiet leadership t ((t.allocate id).updateService me fun service =>
          { service with
            cancellations :=
              Function.update service.cancellations id (some t.promises.length) }) := by
        refine halloc.trans (Quiet.updateService (halloc.inv ht)
          (fun hservice => { hservice with cancellations := fun id' p hp => ?_ }) rfl)
        by_cases hid : id' = id
        · subst hid
          simp only [update_self, some.injEq] at hp
          exact hp ▸ hnew
        · simp only [update_of_ne hid] at hp
          exact hservice.cancellations id' p hp
      rw [hstart]
      refine ⟨hquiet.turn ht, fun a b h => ?_, fun a b h => ?_, fun _ _ => trivial⟩
      · cases h
        exact hnew
      · cases h
        suffices h : TaskSpec platform leadership (PromiseFor · t.promises.length id) _
            fun _ _ => True from
          Safe.weaken (h.safe_run (hquiet.inv ht) hnew) (Set.empty_subset _)
        refine (attempt_spec (cancelTask_spec id)).seq (stable_promiseFor _ id)
          (fun _ _ => trivial) fun outcome => update_spec ((Stable.all fun _ => .imp fun _ =>
            .const _).and (stable_promiseFor _ id)) fun s hs h => ?_
        have hsettle := Quiet.settle hs t.promises.length fun r hr => by
          rw [h.1 r hr]
          exact h.2
        unfold endCancellation
        split
        · exact hsettle
        refine hsettle.trans (Quiet.updateService (hsettle.inv hs) (fun hservice => ?_) ?_)
        · split
          · refine { hservice with cancellations := fun id' p hp => ?_ }
            by_cases hid : id' = id
            · subst hid
              simp at hp
            · simp only [update_of_ne hid] at hp
              exact hservice.cancellations id' p hp
          · exact hservice
        · split <;> rfl

theorem close_spec : TaskSpec platform leadership (fun _ => True) (close me) fun _ _ => True := by
  refine segment_spec (.const True) fun s now hs _ => ?_
  split
  · exact ⟨Quiet.refl hs, fun _ _ => trivial⟩
  · exact ⟨Quiet.close hs me now, fun _ _ => trivial⟩

/-! ## Running a task -/

/-- The identity that is returned is the one the operation is bound to, and its task
is stored. -/
theorem boundIdentity_spec (op : Option PortableId) (fingerprint : JsString) :
    TaskSpec platform leadership (fun _ => True) (boundIdentity op fingerprint) fun result s =>
      ∀ i, result = some i → i.fingerprint = fingerprint ∧
        ∀ o, op = some o → Bound s o fingerprint i.taskId := by
  cases op with
  | none => exact Spec.ret fun s _ i hi => nomatch hi
  | some o =>
    refine (read_operation_spec o).bind fun stored => ?_
    split
    · exact Spec.ret fun s _ i hi => nomatch hi
    · next i revision =>
      have hstable : Stable (taskContract platform leadership) ∅ fun s =>
          Bound s o i.fingerprint i.taskId := stable_bound o _ _
      refine Spec.assume (fun s => Bound s o i.fingerprint i.taskId) (fun s h => ?_) ?_
      · obtain ⟨r, hbound, -⟩ := h _ i rfl rfl
        exact hbound
      · split
        · exact fail_spec hstable
        · next hf =>
          rw [ne_eq, not_not] at hf
          refine Spec.ret fun s h i' hi' => ?_
          obtain rfl := some.inj hi'
          refine ⟨hf, fun o' ho' => ?_⟩
          obtain rfl := some.inj ho'
          exact hf ▸ h
    · refine Spec.assume (fun _ => True) (fun _ _ => trivial) ?_
      exact fail_spec (.const True)

variable {request : RunTaskRequest} {fingerprint : JsString}

/-- The task belongs to the request's operation, if it names one. -/
def Answers (op : Option PortableId) (fingerprint : JsString) (id : PortableId) (s : TaskWorld) :
    Prop :=
  ∀ o, op = some o → Bound s o fingerprint id

theorem stable_answers (op : Option PortableId) (fingerprint : JsString) (id : PortableId) :
    Stable (taskContract platform leadership) uses (Answers op fingerprint id) :=
  .all fun o => .imp fun _ => stable_bound o fingerprint id

theorem findReplay_spec :
    TaskSpec platform leadership (fun _ => True) (findReplay platform me request fingerprint)
      fun result s => ∀ r, result = some r →
        Answers request.operationId fingerprint r.taskId s ∧ Seen leadership s r := by
  refine (boundIdentity_spec request.operationId fingerprint).bind fun bound => ?_
  cases bound with
  | none => exact Spec.ret fun s _ r hr => nomatch hr
  | some i =>
    have hstable : Stable (taskContract platform leadership) ∅
        (Answers request.operationId fingerprint i.taskId) := stable_answers _ _ _
    refine Spec.assume (Answers request.operationId fingerprint i.taskId)
      (fun s h => (h i rfl).2) ?_
    refine (load_spec i.taskId).seq hstable (fun _ _ => trivial) fun task => ?_
    cases task with
    | none => exact fail_spec ((Stable.all fun _ => .imp fun h => nomatch h).and hstable)
    | some task =>
      refine Spec.ret fun s h r hr => ?_
      obtain rfl := some.inj hr
      rw [(h.1 task rfl).taskId]
      exact ⟨h.2, (h.1 task rfl).seen⟩

theorem bound_of_seen (hs : TaskInv platform leadership s) {r : TaskRecord}
    (h : Seen leadership s r) {o : PortableId} (ho : r.request.operationId = some o) :
    Bound s o (fingerprintOf platform.numberText r.request) r.taskId := by
  obtain ⟨⟨r', hr', hsame⟩, -⟩ := h
  rw [hsame.request] at ho ⊢
  obtain ⟨i, hi, hid⟩ := hs.bound _ r' o hr' ho
  obtain ⟨revision, hrecord⟩ := operationIdentity_eq_some.mp hi
  obtain ⟨i', hvalue, r'', hr'', -, hf⟩ := hs.operation o _ hrecord
  cases hvalue
  rw [hid] at hr''
  obtain rfl := some.inj (hr'.symm.trans hr'')
  exact ⟨i, hi, hf.symm, hid⟩

theorem admissionBody_spec {candidate : TaskRecord}
    (hf : fingerprint = fingerprintOf platform.numberText candidate.request) :
    TaskSpec platform leadership (fun _ => True) (admissionBody platform candidate fingerprint)
      fun result s => ∀ r, result = some r → Seen leadership s r ∧
        Answers candidate.request.operationId fingerprint r.taskId s := by
  refine (boundIdentity_spec candidate.request.operationId fingerprint).bind fun bound => ?_
  cases bound with
  | some i =>
    have hstable : Stable (taskContract platform leadership) ∅
        (Answers candidate.request.operationId fingerprint i.taskId) := stable_answers _ _ _
    refine Spec.assume (Answers candidate.request.operationId fingerprint i.taskId)
      (fun s h => (h i rfl).2) ?_
    refine (read_task_spec i.taskId).seq hstable (fun _ _ => trivial) fun existing => ?_
    cases existing with
    | none => exact fail_spec ((Stable.all fun _ => .imp fun h => nomatch h).and hstable)
    | some v =>
      refine (Spec.keep_rely (R := Answers candidate.request.operationId fingerprint i.taskId)
        (parseLoaded_spec i.taskId v) fun _ _ hst h o ho => (h o ho).mono hst).bind
          fun record => Spec.ret fun s h r hr => ?_
      obtain rfl := some.inj hr
      exact ⟨h.1.seen, h.1.taskId ▸ h.2⟩
  | none =>
    refine Spec.assume (fun _ => True) (fun _ _ => trivial) ?_
    refine (read_task_spec candidate.taskId).bind fun existing => ?_
    cases existing with
    | none => exact Spec.ret fun s _ r hr => nomatch hr
    | some v =>
      refine (parseLoaded_spec _ v).bind fun record => ?_
      split
      · exact fail_spec (stable_loaded _ _)
      next hsame =>
      rw [ne_eq, not_not] at hsame
      refine Spec.ret_of_inv fun s hs h r hr => ?_
      obtain rfl := some.inj hr
      have hseen := h.seen
      refine ⟨hseen, fun o ho => ?_⟩
      rw [← hsame]
      refine bound_of_seen hs hseen ?_
      rw [RunTaskRequest.operationId_of_fingerprint (hsame.trans hf), ho]

theorem transactAdmission_spec {candidate : TaskRecord}
    (hauthority : candidate.authority = some authority)
    (hauth : authority.resource = leadership)
    (hf : fingerprint = fingerprintOf platform.numberText candidate.request) :
    TaskSpec platform leadership (fun _ => True)
      (transactAdmission platform candidate fingerprint authority)
      fun r s => Answers candidate.request.operationId fingerprint r.taskId s := by
  refine Spec.bind (Q := fun replay s => ∀ r, replay = some r →
    Answers candidate.request.operationId fingerprint r.taskId s)
    (commit_spec (.const True) fun s now replay t hs _ h => ?_) fun replay => ?_
  · cases hreplay : s.replayReceipt candidate.request.operationId fingerprint now with
    | error e =>
      rw [hreplay] at h
      cases h
    | ok result =>
      rw [hreplay] at h
      obtain ⟨rfl, rfl⟩ := Prod.mk.inj (ok.inj h)
      refine ⟨(Quiet.refl hs).turn hs, fun r hr => ?_⟩
      subst hr
      exact (of_replayReceipt hs hreplay).2
  · cases replay with
    | some r => exact Spec.ret fun s h => h r rfl
    | none =>
      refine Spec.assume (fun _ => True) (fun _ _ => trivial) ?_
      refine (admissionBody_spec hf).bind fun existing => ?_
      have hstable : Stable (taskContract platform leadership) ∅ fun s => ∀ r,
          existing = some r → Seen leadership s r ∧
            Answers candidate.request.operationId fingerprint r.taskId s :=
        .all fun r => .imp fun _ => (stable_seen r).and (stable_answers _ _ _)
      refine commit_spec hstable fun s now result t hs hexisting h => ?_
      obtain ⟨hturn, -, hbound⟩ := turn_commitAdmission hs hauthority hauth hexisting hf h
      exact ⟨hturn, hbound⟩

theorem admitTask_spec {proposed : TaskIdentity} {selection : TaskExecutorSelection}
    (hauth : authority.resource = leadership)
    (hf : fingerprint = fingerprintOf platform.numberText request) :
    TaskSpec platform leadership (fun _ => True)
      (admitTask platform me request fingerprint proposed selection authority)
      fun r s => Seen leadership s r ∧ Answers request.operationId fingerprint r.taskId s := by
  refine Spec.bind (Q := fun candidate _ => ∃ now,
    candidate = candidateRecord request proposed selection authority now)
    (check_spec (.const True) fun s now candidate _ _ h => ?_) fun candidate => ?_
  · split at h
    · cases h
    · exact ⟨now, parseTaskRecord_ok h⟩
  · refine Spec.of_pure ?_ fun s h => h
    rintro ⟨now, rfl⟩
    refine Spec.assume (fun _ => True) (fun _ _ => trivial) ?_
    refine (transactAdmission_spec rfl hauth hf).bind fun admitted => ?_
    have hstable : Stable (taskContract platform leadership) ∅
        (Answers request.operationId fingerprint admitted.taskId) := stable_answers _ _ _
    refine Spec.assume (Answers request.operationId fingerprint admitted.taskId) (fun s h => h) ?_
    refine andThen (assertAuthority_spec authority) hstable fun _ => ?_
    refine (load_spec admitted.taskId).seq hstable (fun _ _ => trivial) fun loaded => ?_
    cases loaded with
    | none => exact fail_spec ((Stable.all fun _ => .imp fun h => nomatch h).and hstable)
    | some loaded =>
      refine Spec.ret fun s h => ?_
      have hloaded := h.1 loaded rfl
      exact ⟨hloaded.seen, hloaded.taskId ▸ h.2⟩

theorem noteContinued_spec :
    TaskSpec platform leadership (Answers request.operationId fingerprint id)
      (noteContinued request fingerprint id) fun _ _ => True := by
  unfold noteContinued
  split
  · exact Spec.ret fun _ _ => trivial
  next o ho =>
  refine Spec.turn (stable_answers _ _ _) fun s r hs h _ _ => ⟨?_, fun _ _ => trivial⟩
  have hbound : Bound s o fingerprint id := h o ho
  exact turn_log hs (hbound.mono (.of_store_eq rfl fun _ pr h => ⟨pr, h, rfl⟩))
    (fun _ h => nomatch h) rfl

theorem runReplay_spec :
    TaskSpec platform leadership (Seen leadership · record) (runReplay platform me record)
      fun r _ => r.taskId = record.taskId := by
  unfold runReplay
  split
  · exact Spec.ret fun _ _ => rfl
  refine Spec.seq (Q := fun active s => ∀ p, active = some p → PromiseFor s p record.taskId)
    (query_spec (.const True) fun s hs _ p hp => (hs.service me).dispatches _ p hp)
    (stable_seen record) (fun _ _ => trivial) fun active => ?_
  cases active with
  | some p => exact (awaitPromise_spec p record.taskId).pre fun s h => h.1 p rfl
  | none =>
    refine Spec.assume (Seen leadership · record) (fun s h => h.2) ?_
    refine Spec.seq (Q := fun current _ => current.resource = leadership)
      (check_spec (.const True) fun s now a hs _ h => requireAuthority_resource hs h)
      (stable_seen record) (fun _ _ => trivial) fun current => ?_
    refine Spec.of_pure (fun hauth => ?_) fun s h => h.1
    refine Spec.assume (Seen leadership · record) (fun s h => h.2) ?_
    exact (recoverRecord_spec hauth).seq (stable_seen record) (fun _ h => h)
      fun _ => (statusOr_spec record).conseq (fun _ h => h.2) fun _ _ h => h.1

theorem runAdmitted_spec {selected : TaskExecutorSelection}
    (hauth : authority.resource = leadership) :
    TaskSpec platform leadership (Seen leadership · record)
      (runAdmitted platform me record selected authority)
      fun r _ => r.taskId = record.taskId := by
  refine Spec.seq (Q := fun active s => ∀ p, active = some p → PromiseFor s p record.taskId)
    (segment_spec (.const True) fun s now hs _ => ?_) (stable_seen record) (fun _ _ => trivial)
    fun active => ?_
  · dsimp only
    split
    · have hregister := Quiet.register hs me record.taskId selected.executor authority
      refine ⟨hregister, fun a ha p hp => ?_⟩
      obtain rfl := ok.inj ha
      exact ((hregister.inv hs).service me).dispatches _ p hp
    · refine ⟨Quiet.refl hs, fun a ha p hp => ?_⟩
      obtain rfl := ok.inj ha
      exact (hs.service me).dispatches _ p hp
  · cases active with
    | some p => exact (awaitPromise_spec p record.taskId).pre fun s h => h.1 p rfl
    | none =>
      refine Spec.assume (Seen leadership · record) (fun s h => h.2) ?_
      dsimp only
      split
      · exact ensureDispatch_spec hauth
      · exact Spec.ret fun _ _ => rfl

/-- A call of `run` that succeeds answers with the task of its operation. -/
theorem run_spec :
    TaskSpec platform leadership (fun _ => True) (run platform me request) fun r s =>
      Answers request.operationId (fingerprintOf platform.numberText request) r.taskId s := by
  refine Spec.bind (Q := fun authority _ => authority.resource = leadership)
    (check_spec (.const True) fun s now a hs _ h => ?_) fun authority => ?_
  · split at h
    · cases h
    · exact requireAuthority_resource hs h
  · refine Spec.of_pure (fun hauth => ?_) fun s h => h
    refine Spec.assume (fun _ => True) (fun _ _ => trivial) ?_
    -- the task is fixed by now; the rest of the call returns that one
    have hrest : ∀ {r : TaskRecord} {m : TaskM TaskRecord},
        TaskSpec platform leadership (Seen leadership · r) m (fun r' _ => r'.taskId = r.taskId) →
        TaskSpec platform leadership
          (fun s => Answers request.operationId (fingerprintOf platform.numberText request)
            r.taskId s ∧ Seen leadership s r)
          (do
            noteContinued request (fingerprintOf platform.numberText request) r.taskId
            m) fun r' s => Answers request.operationId
              (fingerprintOf platform.numberText request) r'.taskId s := by
      intro r m hm
      have hstable : Stable (taskContract platform leadership) ∅ fun s =>
          Answers request.operationId (fingerprintOf platform.numberText request) r.taskId s ∧
            Seen leadership s r := (stable_answers _ _ _).and (stable_seen r)
      refine noteContinued_spec.seq hstable (fun _ h => h.1) fun _ => ?_
      refine ((hm.keep hstable fun _ h => h.2).conseq (fun _ h => h.2) fun r' s h => ?_)
      rw [h.1]
      exact h.2.1
    refine findReplay_spec.bind fun replay => ?_
    cases replay with
    | some replay => exact (hrest runReplay_spec).pre fun s h => h replay rfl
    | none =>
      refine Spec.assume (fun _ => True) (fun _ _ => trivial) ?_
      refine ask_spec.bind fun proposed => selectExecutorBounded_spec.bind fun selected =>
        validateSelection_spec.bind fun _ => (assertAuthority_spec authority).bind fun _ => ?_
      exact (admitTask_spec hauth rfl).bind fun admitted =>
        (hrest (runAdmitted_spec hauth)).pre fun s h => ⟨h.2, h.1⟩

/-! ## A refused call -/

section Refused

variable {K : Contract TaskWorld Nat} {o : PortableId} {i : TaskOperationIdentity}

theorem refused_of_requireAuthority {s : TaskWorld} {now : JsDate.Instant} {e : TaskFailure}
    (h : (match s.assertOpen me now with
      | .error e => Except.error e
      | .ok _ => s.requireAuthority me now) = Except.error e) : Refused o e := by
  cases hopen : s.assertOpen me now with
  | error e' =>
    rw [hopen] at h
    cases h
    unfold TaskWorld.assertOpen at hopen
    split at hopen
    · cases hopen
      exact .stopped now
    · cases hopen
  | ok _ =>
    rw [hopen] at h
    change s.requireAuthority me now = .error e at h
    unfold TaskWorld.requireAuthority at h
    split at h
    · cases h
      exact .notLeader now
    · cases h

/-- **A call that names an operation bound to another fingerprint is refused**, and takes no turn
but ones that look, under every contract that allows these and keeps identities. -/
theorem run_refused (hK : Stutters K)
    (hstay : ∀ s t, K.rely s t → s.operationIdentity o = some i → t.operationIdentity o = some i)
    (ho : request.operationId = some o)
    (hf : i.fingerprint ≠ fingerprintOf platform.numberText request) :
    Triple K ∅ (fun s => s.operationIdentity o = some i) (run platform me request)
      (fun _ _ => False) fun e _ => Refused o e := by
  have hstable : Stable K ∅ fun s => s.operationIdentity o = some i := .of_rely hstay
  refine Triple.bind (Q := fun _ s => s.operationIdentity o = some i)
    (Triple.look hK hstable (fun _ _ => rfl) (fun _ _ _ _ h _ => h) fun s r e _ _ he => ?_)
    fun authority => ?_
  · exact refused_of_requireAuthority he
  · refine Triple.bind (Q := fun _ _ => False) ?_ fun _ => Triple.of_false fun _ h => h
    refine Triple.bind (Q := fun _ _ => False) ?_ fun _ => Triple.of_false fun _ h => h
    rw [ho]
    refine Triple.bind (Q := fun stored _ => ∃ revision, stored = some ⟨.operation i, revision⟩)
      (Triple.look hK hstable (fun s r => ?_) (fun s r a _ h ha => ?_) fun s r e _ _ he => ?_)
      fun stored => ?_
    · split <;> rfl
    · obtain ⟨revision, hrecord⟩ := operationIdentity_eq_some.mp h
      split at ha
      · cases ha
      · rw [← ok.inj ha]
        exact ⟨revision, hrecord⟩
    · split at he
      · cases he
        exact .storeFailed _
      · cases he
    · split
      · exact Triple.of_false fun s h => by
          obtain ⟨revision, h⟩ := h
          cases h
      · next identity revision =>
        split
        · refine Triple.look hK (.const _) (fun _ _ => rfl) (fun s r a _ _ ha => ?_)
            fun s r e _ _ he => ?_
          · cases ha
          · cases he
            exact .conflict _
        · next hsame =>
          refine Triple.of_false fun s h => ?_
          obtain ⟨revision, h⟩ := h
          obtain rfl : identity = i := by
            cases h
            rfl
          exact hsame hf
      · next v hv =>
        refine Triple.of_false fun s h => ?_
        obtain ⟨revision, h⟩ := h
        exact hv i revision (some.inj h)

end Refused

/-! ## Every run -/

theorem runNoted_spec :
    TaskSpec platform leadership (fun _ => True) (runNoted platform me request)
      fun _ _ => True := by
  unfold runNoted
  split
  · exact run_spec.bind fun _ => Spec.ret fun _ _ => trivial
  next o ho =>
  refine Spec.bind (Q := fun bound s => ∀ f, bound = some f →
    ∃ i, s.operationIdentity o = some i ∧ i.fingerprint = f)
    (query_spec (.const True) fun s _ _ f hf => ?_) fun bound => ?_
  · obtain ⟨i, hi, rfl⟩ := map_eq_some_iff.mp hf
    exact ⟨i, hi, rfl⟩
  · -- how the call ends depends on what the operation was bound to
    refine Spec.bind (Q := fun outcome s =>
      EventInv platform s
        (.returned o (fingerprintOf platform.numberText request) bound outcome)) ?_
      fun outcome => ?_
    · by_cases hconflict : ∃ f, bound = some f ∧ f ≠ fingerprintOf platform.numberText request
      · obtain ⟨f, rfl, hf⟩ := hconflict
        intro extra s k ke hextra hp
        obtain ⟨i, hi, rfl⟩ := hp f rfl
        refine Triple.conseq (attempt_triple (run_refused taskContract_stutters
          (fun _ _ hst h => hst.operation o i h) ho hf)) (fun _ _ h => h) (fun outcome t _ h => ?_)
          (fun _ _ _ h => h) extra s k ke hextra hi
        refine ⟨fun r hr => absurd (h.1 r hr) id, fun f' _ _ => ?_⟩
        cases outcome with
        | ok r => exact absurd (h.1 r rfl) id
        | error e => exact ⟨e, rfl, h.2 e rfl⟩
      · refine Spec.assume (fun _ => True) (fun _ _ => trivial) ?_
        refine (attempt_spec run_spec).post fun outcome s h => ⟨fun r hr => h r hr o ho, ?_⟩
        exact fun f hbound hf => absurd ⟨f, hbound, hf⟩ hconflict
    · refine Spec.turn (.of_rely fun _ _ hst h => EventInv.mono h hst)
        fun s r hs h _ _ => ⟨turn_log hs ?_ (fun _ h => nomatch h) rfl, fun _ _ => trivial⟩
      exact EventInv.mono h (.of_store_eq rfl fun _ pr h => ⟨pr, h, rfl⟩)

theorem call_safe (me : Nat) (c : TaskCall) (hs : TaskInv platform leadership s) :
    Safe (taskContract platform leadership) (call platform leadership me c) ∅ s := by
  cases c with
  | recover => exact recover_spec.safe_run hs trivial
  | setAuthority epoch =>
    refine (setAuthority_spec fun a ha => ?_).safe_run hs trivial
    obtain ⟨e, -, rfl⟩ := map_eq_some_iff.mp ha
    rfl
  | recoverRemoteWorker workerId => exact (recoverRemoteWorker_spec workerId).safe_run hs trivial
  | run request => exact runNoted_spec.safe_run hs trivial
  | status id => exact (status_spec id).safe_run hs trivial
  | wait id => exact (wait_spec id).safe_run hs trivial
  | cancel id => exact (cancel_spec id).safe_run hs trivial
  | close => exact close_spec.safe_run hs trivial

theorem inv_initial : TaskInv platform leadership .initial where
  wellFormed := CasStore.wellFormed_empty
  task _ _ h := nomatch h
  operation _ _ h := nomatch h
  bound _ _ _ h := nomatch h
  receipt _ _ h := nomatch h
  service _ :=
    { authority := fun _ h => nomatch h
      records := fun _ h => nomatch h
      ephemeral := fun _ _ h => nomatch h
      dispatches := fun _ _ h => nomatch h
      cancellations := fun _ _ h => nomatch h
      waiters := fun _ _ h => nomatch h }
  outcome _ _ _ h := nomatch h
  event _ h := nomatch h
  createdOnce := List.Pairwise.nil

variable (platform leadership)

/-- **Every run of the services keeps the invariant.** -/
theorem inv_of_reachable {w : World TaskWorld TaskAnswer}
    (hr : (machine platform leadership).Reachable w) : TaskInv platform leadership w.mem := by
  have hr' : (machine platform leadership).ReachableVia
      (World.Via (taskContract platform leadership)) w := hr.mono fun _ _ _ _ => trivial
  refine (World.safe (fun s h => ?_) (fun c _ hs => call_safe c.1 c.2 hs) hr').1
  exact h ▸ inv_initial

/-- **Every step of every run obeys the law**, or changes nothing. -/
theorem law_of_step {w w' : World TaskWorld TaskAnswer} {l : Sched (Nat × TaskCall) TaskAnswer}
    (hr : (machine platform leadership).Reachable w)
    (hs : (machine platform leadership).step w l = some w') :
    w'.mem = w.mem ∨ TaskLaw w.mem w'.mem := by
  have hr' : (machine platform leadership).ReachableVia
      (World.Via (taskContract platform leadership)) w := hr.mono fun _ _ _ _ => trivial
  refine World.law_of_step (fun s h => ?_) (fun c _ hs => call_safe c.1 c.2 hs) hr' hs trivial
  exact h ▸ inv_initial

end TaskService

end TegoNext
