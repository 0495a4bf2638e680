/-
What the single turns of a task service do to the shared memory.

Each change a turn makes has one lemma here, which gives its `Turn` of the
contract: the invariant, the law and the frames. Turns that only touch the maps of
a service or the promises are `Quiet`, and quiet turns compose; the others are the
two transactions, the two ends of a dispatch, a submission, and a note.
-/
import TegoNext.TaskContract

set_option autoImplicit false

namespace TegoNext

open Async List Option Function Except

section Turns

variable {platform : TaskPlatform} {leadership : JsString} {s t u : TaskWorld} {uses : Set Nat}

/-! ## Looking at the store -/

variable {id : PortableId}

theorem taskRecord_eq_some {r : TaskRecord} :
    s.taskRecord id = some r ↔
      ∃ revision, s.store.record (.task id) = some ⟨.task r, revision⟩ := by
  unfold TaskWorld.taskRecord
  constructor
  · intro h
    split at h
    · next record revision hrecord =>
      cases h
      exact ⟨revision, hrecord⟩
    · cases h
  · rintro ⟨revision, h⟩
    rw [h]

theorem operationIdentity_eq_some {o : PortableId} {i : TaskOperationIdentity} :
    s.operationIdentity o = some i ↔
      ∃ revision, s.store.record (.operation o) = some ⟨.operation i, revision⟩ := by
  unfold TaskWorld.operationIdentity
  constructor
  · intro h
    split at h
    · next identity revision hrecord =>
      cases h
      exact ⟨revision, hrecord⟩
    · cases h
  · rintro ⟨revision, h⟩
    rw [h]

theorem taskRecord_congr (h : t.store.record (.task id) = s.store.record (.task id)) :
    t.taskRecord id = s.taskRecord id := by
  unfold TaskWorld.taskRecord
  rw [h]

theorem operationIdentity_congr {o : PortableId}
    (h : t.store.record (.operation o) = s.store.record (.operation o)) :
    t.operationIdentity o = s.operationIdentity o := by
  unfold TaskWorld.operationIdentity
  rw [h]

theorem record_congr (h : t.store = s.store) (k : TaskKey) :
    t.store.record k = s.store.record k := by
  rw [h]

theorem TaskInv.taskId_of_taskRecord (hs : TaskInv platform leadership s)
    {r : TaskRecord} (h : s.taskRecord id = some r) : r.taskId = id := by
  obtain ⟨revision, hrecord⟩ := taskRecord_eq_some.mp h
  obtain ⟨r', hvalue, hid, -⟩ := hs.task id _ hrecord
  cases hvalue
  exact hid

theorem TaskInv.seen_of_taskRecord (hs : TaskInv platform leadership s)
    {r : TaskRecord} (h : s.taskRecord id = some r) : Seen leadership s r := by
  have hid := hs.taskId_of_taskRecord h
  obtain ⟨revision, hrecord⟩ := taskRecord_eq_some.mp h
  obtain ⟨r', hvalue, -, hfenced⟩ := hs.task id _ hrecord
  cases hvalue
  exact ⟨⟨r, by rw [hid, h], .refl r⟩, hfenced⟩

theorem Grows.of_store_eq (hstore : t.store = s.store)
    (hpromise : ∀ (p : Nat) (pr : TaskPromise), s.promises[p]? = some pr →
      ∃ pr' : TaskPromise, t.promises[p]? = some pr' ∧ pr'.taskId = pr.taskId) : Grows s t where
  store := by rw [hstore]; exact .refl _
  task id r h := ⟨r, by rw [taskRecord_congr (record_congr hstore _), h], .refl r⟩
  operation o i h := by rw [operationIdentity_congr (record_congr hstore _), h]
  promise := hpromise

/-! ## Turns that leave the records alone -/

theorem TaskInv.of_record_eq (hs : TaskInv platform leadership s) (note : List TaskEvent)
    (hst : Grows s t)
    (hrecord : ∀ k, t.store.record k = s.store.record k) (hwf : t.store.WellFormed)
    (hreceipt : ∀ o receipt, t.receipts o = some receipt →
      Bound t o receipt.fingerprint receipt.result.taskId ∧ Seen leadership t receipt.result)
    (hevents : t.events = note ++ s.events)
    (hnote : ∀ e ∈ note, EventInv platform t e) (hplain : ∀ e ∈ note, ∀ r, e ≠ .admitted r)
    (hservice : ∀ me, ServiceInv leadership t (t.services me))
    (houtcome : ∀ (p : Nat) (pr : TaskPromise) r, t.promises[p]? = some pr →
      pr.outcome = some (.ok r) → r.taskId = pr.taskId) :
    TaskInv platform leadership t where
  wellFormed := hwf
  task id c h := by
    rw [hrecord] at h
    obtain ⟨r, hvalue, hid, hfenced⟩ := hs.task id c h
    exact ⟨r, hvalue, hid, hfenced.mono hst⟩
  operation o c h := by
    rw [hrecord] at h
    obtain ⟨i, hvalue, r, hr, hop, hf⟩ := hs.operation o c h
    exact ⟨i, hvalue, r, by rw [taskRecord_congr (hrecord _), hr], hop, hf⟩
  bound id r o h hop := by
    rw [taskRecord_congr (hrecord _)] at h
    obtain ⟨i, hi, hid⟩ := hs.bound id r o h hop
    exact ⟨i, by rw [operationIdentity_congr (hrecord _), hi], hid⟩
  receipt := hreceipt
  service := hservice
  outcome := houtcome
  event e he := by
    rw [hevents, mem_append] at he
    rcases he with he | he
    · exact hnote e he
    · exact (hs.event e he).mono hst
  createdOnce := by
    rw [hevents, pairwise_append]
    refine ⟨pairwise_of_forall_mem_list fun e he e' _ o hc => ?_, hs.createdOnce,
      fun e he e' _ o hc => ?_⟩
    all_goals
      obtain ⟨r, rfl, -⟩ := hc
      exact absurd rfl (hplain _ he r)

theorem TaskInv.of_store_eq (hs : TaskInv platform leadership s) (note : List TaskEvent)
    (hst : Grows s t) (hstore : t.store = s.store) (hreceipts : t.receipts = s.receipts)
    (hevents : t.events = note ++ s.events) (hnote : ∀ e ∈ note, EventInv platform t e)
    (hplain : ∀ e ∈ note, ∀ r, e ≠ .admitted r)
    (hservice : ∀ me, ServiceInv leadership t (t.services me))
    (houtcome : ∀ (p : Nat) (pr : TaskPromise) r, t.promises[p]? = some pr →
      pr.outcome = some (.ok r) → r.taskId = pr.taskId) :
    TaskInv platform leadership t := by
  refine hs.of_record_eq note hst (record_congr hstore) ?_ (fun o receipt h => ?_) hevents hnote hplain
    hservice houtcome
  · rw [hstore]
    exact hs.wellFormed
  · rw [hreceipts] at h
    exact ⟨(hs.receipt o receipt h).1.mono hst, (hs.receipt o receipt h).2.mono hst⟩

theorem taskStep_of_store_eq (hstore : t.store = s.store) (id : PortableId) (r : TaskRecord)
    (h : s.taskRecord id = some r) : ∃ r', t.taskRecord id = some r' ∧ RecordStep s t r r' :=
  ⟨r, by rw [taskRecord_congr (record_congr hstore _), h], .kept rfl⟩

/-! ## Quiet turns -/

/-- The turn leaves the store, the events and the dispatches alone; what it does to
the services and the promises is in order. -/
structure Quiet (leadership : JsString) (s t : TaskWorld) : Prop where
  store : t.store = s.store
  receipts : t.receipts = s.receipts
  events : t.events = s.events
  dispatches : ∀ me, (t.services me).dispatches = (s.services me).dispatches
  promise : ∀ (p : Nat) (pr : TaskPromise), s.promises[p]? = some pr →
    ∃ pr' : TaskPromise, t.promises[p]? = some pr' ∧ pr'.taskId = pr.taskId
  service : ∀ me, ServiceInv leadership t (t.services me)
  outcome : ∀ (p : Nat) (pr : TaskPromise) r, t.promises[p]? = some pr →
    pr.outcome = some (.ok r) → r.taskId = pr.taskId

namespace Quiet

theorem refl (hs : TaskInv platform leadership s) : Quiet leadership s s :=
  ⟨rfl, rfl, rfl, fun _ => rfl, fun _ pr h => ⟨pr, h, rfl⟩, hs.service, hs.outcome⟩

theorem grows (h : Quiet leadership s t) : Grows s t := .of_store_eq h.store h.promise

theorem trans (h : Quiet leadership s t) (h' : Quiet leadership t u) : Quiet leadership s u where
  store := h'.store.trans h.store
  receipts := h'.receipts.trans h.receipts
  events := h'.events.trans h.events
  dispatches me := (h'.dispatches me).trans (h.dispatches me)
  promise := (h.grows.trans h'.grows).promise
  service := h'.service
  outcome := h'.outcome

theorem inv (h : Quiet leadership s t) (hs : TaskInv platform leadership s) :
    TaskInv platform leadership t :=
  hs.of_store_eq [] h.grows h.store h.receipts (by rw [h.events]; rfl)
    (fun _ he => nomatch he) (fun _ he => nomatch he) h.service h.outcome

theorem turn (h : Quiet leadership s t) (hs : TaskInv platform leadership s) :
    Turn (taskContract platform leadership) uses s t where
  inv := h.inv hs
  law := ⟨h.grows, taskStep_of_store_eq h.store, .idle h.dispatches (by rw [h.events])⟩
  frame p _ _ :=
    { entry := fun me id => by rw [h.dispatches me]
      submitted := fun me request => by rw [h.events] }

theorem updateService (hs : TaskInv platform leadership s) {me : Nat}
    {f : TaskServiceState → TaskServiceState}
    (hf : ServiceInv leadership s (s.services me) → ServiceInv leadership s (f (s.services me)))
    (hd : (f (s.services me)).dispatches = (s.services me).dispatches) :
    Quiet leadership s (s.updateService me f) where
  store := rfl
  receipts := rfl
  events := rfl
  dispatches me' := by
    by_cases hme : me' = me
    · subst hme
      simpa [TaskWorld.updateService] using hd
    · simp [TaskWorld.updateService, update_of_ne hme]
  promise _ pr h := ⟨pr, h, rfl⟩
  service me' := by
    have hgrows : Grows s (s.updateService me f) := .of_store_eq rfl fun _ pr h => ⟨pr, h, rfl⟩
    by_cases hme : me' = me
    · subst hme
      simpa [TaskWorld.updateService] using (hf (hs.service me')).mono hgrows
    · simpa [TaskWorld.updateService, update_of_ne hme] using (hs.service me').mono hgrows
  outcome := hs.outcome

theorem promises (hs : TaskInv platform leadership s) {ps : List TaskPromise}
    (hpromise : ∀ (p : Nat) (pr : TaskPromise), s.promises[p]? = some pr →
      ∃ pr' : TaskPromise, ps[p]? = some pr' ∧ pr'.taskId = pr.taskId)
    (houtcome : ∀ (p : Nat) (pr : TaskPromise) r, ps[p]? = some pr →
      pr.outcome = some (.ok r) → r.taskId = pr.taskId) :
    Quiet leadership s { s with promises := ps } where
  store := rfl
  receipts := rfl
  events := rfl
  dispatches _ := rfl
  promise := hpromise
  service me := (hs.service me).mono (.of_store_eq rfl hpromise)
  outcome := houtcome

theorem serials (hs : TaskInv platform leadership s) (n : Nat) :
    Quiet leadership s { s with serials := n } :=
  ⟨rfl, rfl, rfl, fun _ => rfl, fun _ pr h => ⟨pr, h, rfl⟩,
    fun me => (hs.service me).mono (.of_store_eq rfl fun _ pr h => ⟨pr, h, rfl⟩), hs.outcome⟩

variable {id : PortableId}

section

variable (hs : TaskInv platform leadership s)
include hs

theorem setRecord (me : Nat)
    {loaded : LoadedTask} (h : Seen leadership s loaded.record) :
    Quiet leadership s (s.setRecord me id loaded) := by
  refine updateService hs (fun hservice => { hservice with records := ?_ }) rfl
  intro entry hentry
  rw [AList.entries_insert, mem_cons] at hentry
  rcases hentry with rfl | hentry
  · exact h
  · exact hservice.records entry ((kerase_sublist _ _).subset hentry)

theorem register (me : Nat) (id : PortableId)
    (executor : TaskExecutor) (authority : RuntimeAuthority) :
    Quiet leadership s (s.register me id executor authority).2 := by
  have h : Quiet leadership s (s.updateService me fun service =>
      { service with
        executors := Function.update service.executors id
          (some ⟨executor, authority, s.serials⟩) }) :=
    updateService hs (fun hservice => { hservice with }) rfl
  exact h.trans (serials (h.inv hs) _)

theorem unregister (me : Nat) (id : PortableId) (registration : Option ExecutorRegistration) :
    Quiet leadership s (s.unregister me id registration) := by
  unfold TaskWorld.unregister
  split
  · exact updateService hs (fun hservice => { hservice with }) rfl
  · exact refl hs

theorem setEphemeral (me : Nat)
    {record : Option TaskRecord}
    (h : ∀ r, record = some r → r.taskId = id ∧ Seen leadership s r) :
    Quiet leadership s (s.setEphemeral me id record) := by
  refine updateService hs (fun hservice => { hservice with ephemeral := ?_ }) rfl
  intro id' r hr
  by_cases hid : id' = id
  · subst hid
    simp only [update_self] at hr
    exact h r hr
  · simp only [update_of_ne hid] at hr
    exact hservice.ephemeral id' r hr

theorem setWaiters (me : Nat)
    {ps : List Nat} (h : ∀ p ∈ ps, PromiseFor s p id) :
    Quiet leadership s (s.setWaiters me id ps) := by
  refine updateService hs (fun hservice => { hservice with waiters := ?_ }) rfl
  intro id' p hp
  by_cases hid : id' = id
  · subst hid
    simp only [update_self] at hp
    exact h p hp
  · simp only [update_of_ne hid] at hp
    exact hservice.waiters id' p hp

theorem allocate (id : PortableId) : Quiet leadership s (s.allocate id) := by
  refine promises hs (fun p pr h => ⟨pr, ?_, rfl⟩) fun p pr r h hr => ?_
  · exact getElem?_append_of_some h
  · rcases getElem?_concat_cases h with h | ⟨-, rfl⟩
    · exact hs.outcome p pr r h hr
    · cases hr

theorem settle (p : Nat)
    {outcome : Except TaskFailure TaskRecord}
    (h : ∀ r, outcome = .ok r → PromiseFor s p r.taskId) :
    Quiet leadership s (s.settle p outcome) := by
  refine promises hs (fun q pr hq => ?_) fun q pr r hq hr => ?_
  · refine ⟨_, by rw [getElem?_modify, hq]; rfl, ?_⟩
    split
    · dsimp only
      split <;> rfl
    · rfl
  · rw [getElem?_modify, Option.map_eq_map, map_eq_some_iff] at hq
    obtain ⟨pr', hpr', rfl⟩ := hq
    split at hr
    · next hqp =>
      subst hqp
      rw [if_pos rfl]
      split at hr
      · next hpending =>
        obtain ⟨pr'', hpr'', htag⟩ := h r (some.inj hr)
        obtain rfl := some.inj (hpr''.symm.trans hpr')
        rw [if_pos hpending]
        exact htag.symm
      · next hpending =>
        rw [if_neg hpending]
        exact hs.outcome p pr' r hpr' hr
    · next hqp =>
      rw [if_neg hqp]
      exact hs.outcome q pr' r hpr' hr

theorem settleAll {ps : List Nat}
    {outcome : Except TaskFailure TaskRecord}
    (h : ∀ p ∈ ps, ∀ r, outcome = .ok r → PromiseFor s p r.taskId) :
    Quiet leadership s (s.settleAll ps outcome) := by
  induction ps generalizing s with
  | nil => exact refl hs
  | cons p ps ih =>
    have hp : Quiet leadership s (s.settle p outcome) := settle hs p (h p mem_cons_self)
    refine hp.trans (ih (hp.inv hs) fun q hq r hr => ?_)
    exact (h q (mem_cons_of_mem _ hq) r hr).mono hp.grows

theorem notify (me : Nat) (record : TaskRecord) : Quiet leadership s (s.notify me record) := by
  have h : Quiet leadership s
      (s.settleAll ((s.services me).waiters record.taskId) (.ok record)) := by
    refine settleAll hs fun p hp r hr => ?_
    obtain rfl := ok.inj hr
    exact (hs.service me).waiters _ p hp
  exact h.trans (setWaiters (h.inv hs) me fun _ hp => nomatch hp)

/-- `close` rejects the waiters of the service and takes its authority away. -/
theorem close (me : Nat) (now : JsDate.Instant) :
    Quiet leadership s
      { s with
        services := Function.update s.services me
          { s.services me with closed := true, authority := none, waiters := fun _ => [] }
        promises := s.promises.mapIdx fun p promise =>
          if promise.outcome.isNone ∧ p ∈ (s.services me).waiters promise.taskId then
            { promise with outcome := some (.error (stoppedError now)) }
          else promise } := by
  have h : Quiet leadership s (s.updateService me fun service =>
      { service with closed := true, authority := none, waiters := fun _ => [] }) := by
    refine updateService hs (fun hservice =>
      { hservice with authority := fun _ ha => ?_, waiters := fun _ _ hp => ?_ }) rfl
    · cases ha
    · cases hp
  refine h.trans (promises (h.inv hs) (fun p pr hp => ?_) fun p pr r hp hr => ?_)
  · refine ⟨_, by rw [getElem?_mapIdx, show s.promises[p]? = some pr from hp]; rfl, ?_⟩
    dsimp only
    split <;> rfl
  · rw [getElem?_mapIdx, map_eq_some_iff] at hp
    obtain ⟨pr', hpr', rfl⟩ := hp
    split at hr
    · cases hr
    next hkeep =>
    rw [if_neg hkeep]
    exact hs.outcome p pr' r hpr' hr

end

end Quiet

theorem RecordStep.congr {t' : TaskWorld} {r r' : TaskRecord} (h : RecordStep s t r r')
    (hevents : t'.events = t.events) : RecordStep s t' r r' := by
  cases h with
  | kept h => exact .kept h
  | rewritten hopen same rank note events how =>
    exact .rewritten hopen same rank note (hevents.trans events) how

theorem turn_comp_quiet (h : Turn (taskContract platform leadership) uses s t)
    (h' : Quiet leadership t u) : Turn (taskContract platform leadership) uses s u where
  inv := h'.inv h.inv
  law := by
    refine ⟨h.law.grows.trans h'.grows, fun id r hr => ?_, ?_⟩
    · obtain ⟨r', hr', hstep⟩ := h.law.task id r hr
      exact ⟨r', by rw [taskRecord_congr (record_congr h'.store _), hr'], hstep.congr h'.events⟩
    · cases h.law.dispatch with
      | idle dispatches events =>
        exact .idle (fun me => (h'.dispatches me).trans (dispatches me)) (by rw [h'.events, events])
      | started me id free dispatches events =>
        exact .started me id free (fun me' id' => by rw [h'.dispatches me', dispatches])
          (h'.events.trans events)
      | submitted me request p mine first dispatches events =>
        exact .submitted me request p mine first
          (fun me => (h'.dispatches me).trans (dispatches me)) (h'.events.trans events)
      | ended me id p dispatches events =>
        exact .ended me id p (fun me' id' => by rw [h'.dispatches me', dispatches])
          (h'.events.trans events)
  frame p hp halloc :=
    { entry := fun me id => by rw [h'.dispatches me]; exact (h.frame p hp halloc).entry me id
      submitted := fun me request => by
        rw [h'.events]
        exact (h.frame p hp halloc).submitted me request }

/-! ## Notes -/

theorem turn_log (hs : TaskInv platform leadership s) {e : TaskEvent}
    (he : EventInv platform (s.log e) e) (hplain : ∀ r, e ≠ .admitted r)
    (hdispatch : e.isDispatch = false) :
    Turn (taskContract platform leadership) uses s (s.log e) := by
  have hst : Grows s (s.log e) := .of_store_eq rfl fun _ pr h => ⟨pr, h, rfl⟩
  refine ⟨?_, ⟨hst, taskStep_of_store_eq rfl, .idle (fun _ => rfl) ?_⟩, fun p _ _ => ⟨?_, ?_⟩⟩
  · refine hs.of_store_eq [e] hst rfl rfl rfl ?_ ?_ (fun me => (hs.service me).mono hst) hs.outcome
    · intro e' he'
      rw [mem_singleton] at he'
      exact he' ▸ he
    · intro e' he'
      rw [mem_singleton] at he'
      exact he' ▸ hplain
  · exact filter_cons_of_neg (by rw [hdispatch]; exact Bool.false_ne_true)
  · exact fun _ _ => Iff.rfl
  · intro me request
    refine (mem_cons.trans (or_iff_right fun h => ?_)).symm
    rw [← h] at hdispatch
    cases hdispatch

/-! ## Dispatches -/

theorem turn_dispatch (hs : TaskInv platform leadership s) {e : TaskEvent}
    (hst : Grows s t) (hstore : t.store = s.store) (hreceipts : t.receipts = s.receipts)
    (hevents : t.events = e :: s.events) (he : EventInv platform t e)
    (hplain : ∀ r, e ≠ .admitted r)
    (hservice : ∀ me, ServiceInv leadership t (t.services me))
    (houtcome : ∀ (p : Nat) (pr : TaskPromise) r, t.promises[p]? = some pr →
      pr.outcome = some (.ok r) → r.taskId = pr.taskId)
    (hstep : DispatchStep s t)
    (hframe : ∀ p, p ∉ uses → p < s.promises.length → SameDispatch p s t) :
    Turn (taskContract platform leadership) uses s t where
  inv := by
    refine hs.of_store_eq [e] hst hstore hreceipts hevents ?_ ?_ hservice houtcome
    · intro e' he'
      rw [mem_singleton] at he'
      exact he' ▸ he
    · intro e' he'
      rw [mem_singleton] at he'
      exact he' ▸ hplain
  law := ⟨hst, taskStep_of_store_eq hstore, hstep⟩
  frame := hframe

variable {me : Nat}

theorem turn_submitted (hs : TaskInv platform leadership s) {p : Nat}
    {request : ExecutionRequest} (mine : (s.services me).dispatches request.taskId = some p)
    (first : ∀ me' request', .submitted me' request' p ∉ s.events) :
    Turn (taskContract platform leadership) {p} s (s.log (.submitted me request p)) := by
  have hst : Grows s (s.log (.submitted me request p)) :=
    .of_store_eq rfl fun _ pr h => ⟨pr, h, rfl⟩
  have hpromise : PromiseFor s p request.taskId := (hs.service me).dispatches _ p mine
  refine turn_dispatch hs hst rfl rfl rfl (hpromise.mono hst) (fun _ h => nomatch h)
    (fun me => (hs.service me).mono hst) hs.outcome
    (.submitted me request p mine first (fun _ => rfl) rfl) fun q hq _ => ⟨fun _ _ => Iff.rfl, ?_⟩
  intro me' request'
  refine (mem_cons.trans (or_iff_right fun h => ?_)).symm
  cases h
  exact hq rfl

theorem services_updateService (s : TaskWorld) (me me' : Nat)
    (f : TaskServiceState → TaskServiceState) :
    (s.updateService me f).services me' =
      if me' = me then f (s.services me) else s.services me' := by
  by_cases hme : me' = me
  · subst hme
    simp [TaskWorld.updateService]
  · simp [TaskWorld.updateService, hme]

theorem startDispatch_of_free (hfree : (s.services me).dispatches id = none) :
    (s.startDispatch me id).2 = ((s.allocate id).updateService me fun service =>
      { service with
        dispatches := Function.update service.dispatches id (some s.promises.length) }).log
          (.dispatchStarted me id s.promises.length) := by
  unfold TaskWorld.startDispatch
  rw [hfree]

theorem turn_startDispatch (hs : TaskInv platform leadership s)
    (hfree : (s.services me).dispatches id = none) :
    Turn (taskContract platform leadership) uses s (s.startDispatch me id).2 := by
  have halloc := Quiet.allocate hs id
  rw [startDispatch_of_free hfree]
  set t := ((s.allocate id).updateService me fun service =>
    { service with
      dispatches := Function.update service.dispatches id (some s.promises.length) }).log
        (.dispatchStarted me id s.promises.length) with ht
  have hst : Grows s t :=
    ⟨halloc.grows.store, halloc.grows.task, halloc.grows.operation, halloc.grows.promise⟩
  have hnew : PromiseFor t s.promises.length id := ⟨⟨id, none⟩, getElem?_concat_length, rfl⟩
  have hservices : ∀ me', t.services me' =
      if me' = me then
        { s.services me with
          dispatches := Function.update (s.services me).dispatches id (some s.promises.length) }
      else s.services me' :=
    fun me' => services_updateService (s.allocate id) me me' fun service =>
      { service with dispatches := Function.update service.dispatches id (some s.promises.length) }
  have hdispatches : ∀ me' id', (t.services me').dispatches id' =
      if me' = me ∧ id' = id then some s.promises.length
      else (s.services me').dispatches id' := by
    intro me' id'
    rw [hservices]
    by_cases hme : me' = me
    · subst hme
      by_cases hid : id' = id
      · subst hid
        simp
      · simp [hid]
    · simp [hme]
  refine turn_dispatch hs hst rfl rfl rfl trivial (fun _ h => nomatch h) (fun me' => ?_)
    halloc.outcome
    (.started me id hfree hdispatches rfl) fun p _ hp => ⟨fun me' id' => ?_, fun me' request => ?_⟩
  · have hother := (hs.service me').mono hst
    rw [hservices]
    split
    · next hme =>
      subst hme
      refine { hother with dispatches := fun id' p hp => ?_ }
      by_cases hid : id' = id
      · subst hid
        simp only [update_self, some.injEq] at hp
        exact hp ▸ hnew
      · simp only [update_of_ne hid] at hp
        exact hother.dispatches id' p hp
    · exact hother
  · -- the promise of the new dispatch is none of those there were
    rw [hdispatches]
    split
    · next heq =>
      obtain ⟨rfl, rfl⟩ := heq
      rw [hfree]
      have hne : p ≠ s.promises.length := Nat.ne_of_lt hp
      simp only [reduceCtorEq, some.injEq, false_iff]
      exact fun h => hne h.symm
    · exact Iff.rfl
  · refine (mem_cons.trans (or_iff_right fun h => ?_)).symm
    cases h

theorem turn_endDispatch (hs : TaskInv platform leadership s) {p : Nat}
    {outcome : Except TaskFailure TaskRecord}
    (h : ∀ r, outcome = .ok r → PromiseFor s p r.taskId) :
    Turn (taskContract platform leadership) {p} s (s.endDispatch me id p outcome) := by
  have hsettle := Quiet.settle hs p h
  have hst : Grows s (s.endDispatch me id p outcome) :=
    ⟨hsettle.grows.store, hsettle.grows.task, hsettle.grows.operation, hsettle.grows.promise⟩
  have hservices : ∀ me', (s.endDispatch me id p outcome).services me' =
      if me' = me then
        if (s.services me).dispatches id = some p then
          { s.services me with dispatches := Function.update (s.services me).dispatches id none }
        else s.services me
      else s.services me' :=
    fun me' => services_updateService _ me me' _
  have hdispatches : ∀ me' id', ((s.endDispatch me id p outcome).services me').dispatches id' =
      if me' = me ∧ id' = id ∧ (s.services me).dispatches id = some p then none
      else (s.services me').dispatches id' := by
    intro me' id'
    rw [hservices]
    by_cases hme : me' = me
    · subst hme
      by_cases hp : (s.services me').dispatches id = some p
      · by_cases hid : id' = id
        · subst hid
          simp [hp]
        · simp [hp, hid]
      · simp [hp]
    · simp [hme]
  refine turn_dispatch hs hst rfl rfl rfl trivial (fun _ h => nomatch h) (fun me' => ?_)
    hsettle.outcome
    (.ended me id p hdispatches rfl) fun q hq _ => ⟨fun me' id' => ?_, fun me' request => ?_⟩
  · have hother := (hs.service me').mono hst
    have hkept : ∀ id' p', ((s.endDispatch me id p outcome).services me').dispatches id' =
        some p' → PromiseFor (s.endDispatch me id p outcome) p' id' := by
      intro id' p' hp'
      rw [hdispatches] at hp'
      split at hp'
      · cases hp'
      · exact hother.dispatches id' p' hp'
    rw [hservices] at hkept ⊢
    split
    · next hme =>
      subst hme
      rw [if_pos rfl] at hkept
      split
      · next hp =>
        rw [if_pos hp] at hkept
        exact { hother with dispatches := hkept }
      · exact hother
    · exact hother
  · rw [hdispatches]
    split
    · next heq =>
      obtain ⟨rfl, rfl, hp⟩ := heq
      rw [hp]
      simp only [some.injEq, reduceCtorEq, iff_false]
      exact fun hpq => hq hpq.symm
    · exact Iff.rfl
  · refine (mem_cons.trans (or_iff_right fun h => ?_)).symm
    cases h

/-! ## Transactions -/

/-- What `r'`, written over `r` with this note, is: an update of `r`, or a settlement
from a copy. -/
inductive Replaces (leadership : JsString) (authority : RuntimeAuthority) (s : TaskWorld) :
    List TaskEvent → TaskRecord → TaskRecord → Prop
  | updated {r r' : TaskRecord} (same : SameTask r r') (rank : r.state.rank ≤ r'.state.rank)
      (cancellation : KeepsCancellation r r')
      (auth : r'.authority = r.authority ∨ r'.authority = some authority) :
      Replaces leadership authority s [] r r'
  | settled {r r' copy : TaskRecord} (same : SameTask r r')
      (rank : r.state.rank ≤ r'.state.rank) (hcopy : copy.taskId = r.taskId)
      (cancellation : r'.cancellation = copy.cancellation)
      (auth : r'.authority = copy.authority) (fenced : Fenced leadership s copy) :
      Replaces leadership authority s [.settled copy] r r'

namespace Replaces

variable {authority : RuntimeAuthority} {note : List TaskEvent} {r r' : TaskRecord}

section

variable (h : Replaces leadership authority s note r r')
include h

theorem same : SameTask r r' := by
  cases h with
  | updated same _ _ _ => exact same
  | settled same _ _ _ _ _ => exact same

theorem rank : r.state.rank ≤ r'.state.rank := by
  cases h with
  | updated _ rank _ _ => exact rank
  | settled _ rank _ _ _ _ => exact rank

theorem note_plain :
    ∀ e ∈ note, EventInv platform t e ∧ (∀ r, e ≠ .admitted r) ∧ e.isDispatch = false := by
  intro e he
  cases h with
  | updated _ _ _ _ => cases he
  | settled _ _ _ _ _ _ =>
    rw [mem_singleton] at he
    subst he
    refine ⟨trivial, fun r hr => ?_, rfl⟩
    cases hr

theorem fenced (hst : Grows s t) (hauth : authority.resource = leadership)
    (hfence : t.store.fence leadership = some authority.epoch) (hr : Fenced leadership s r) :
    Fenced leadership t r' := by
  cases h with
  | updated _ _ _ auth =>
    rcases auth with auth | auth
    · intro a ha
      exact hr.mono hst a (auth ▸ ha)
    · intro a ha
      obtain rfl := some.inj (auth.symm.trans ha)
      exact ⟨hauth, _, hfence, Nat.le_refl _⟩
  | settled _ _ _ _ auth fenced =>
    intro a ha
    exact fenced.mono hst a (auth ▸ ha)

theorem rewrites (hadm : ∀ epoch, s.store.fence leadership = some epoch → epoch ≤ authority.epoch)
    (hr : Fenced leadership s r) : Rewrites note r r' := by
  cases h with
  | updated _ _ cancellation auth =>
    refine .updated rfl cancellation fun a ha => ?_
    rcases auth with auth | auth
    · exact ⟨a, auth.trans ha, Nat.le_refl _⟩
    · obtain ⟨-, epoch, hepoch, hle⟩ := hr a ha
      exact ⟨authority, auth, Nat.le_trans hle (hadm epoch hepoch)⟩
  | settled _ _ hcopy cancellation auth _ => exact .settled _ rfl hcopy cancellation auth

end

end Replaces

/-- The memory after `r'` was written over `r`. -/
structure Replaced (leadership : JsString) (s t : TaskWorld) (note : List TaskEvent)
    (r r' : TaskRecord) : Prop where
  old : s.taskRecord r.taskId = some r
  new : t.taskRecord r.taskId = some r'
  record : ∀ k, k ≠ .task r.taskId → t.store.record k = s.store.record k
  wellFormed : t.store.WellFormed
  grows : Grows s t
  fenced : Fenced leadership t r'
  rest : t = { s with store := t.store, events := note ++ s.events }

namespace Replaced

variable {note : List TaskEvent} {r r' : TaskRecord}

theorem taskRecord (h : Replaced leadership s t note r r') {id : PortableId}
    (hid : id ≠ r.taskId) : t.taskRecord id = s.taskRecord id :=
  taskRecord_congr (h.record _ fun hk => hid (TaskKey.task.inj hk))

theorem operationIdentity (h : Replaced leadership s t note r r') (o : PortableId) :
    t.operationIdentity o = s.operationIdentity o := by
  refine operationIdentity_congr (h.record _ fun hk => ?_)
  cases hk

theorem inv (h : Replaced leadership s t note r r') (hs : TaskInv platform leadership s)
    (hsame : SameTask r r')
    (hnote : ∀ e ∈ note, EventInv platform t e ∧ (∀ r, e ≠ .admitted r) ∧ e.isDispatch = false) :
    TaskInv platform leadership t where
  wellFormed := h.wellFormed
  task id c hc := by
    by_cases hid : id = r.taskId
    · subst hid
      obtain ⟨revision, hrecord⟩ := taskRecord_eq_some.mp h.new
      obtain rfl := some.inj (hrecord.symm.trans hc)
      exact ⟨r', rfl, hsame.taskId, h.fenced⟩
    · rw [h.record _ fun hk => hid (TaskKey.task.inj hk)] at hc
      obtain ⟨r₁, hvalue, hid', hr₁⟩ := hs.task id c hc
      exact ⟨r₁, hvalue, hid', hr₁.mono h.grows⟩
  operation o c hc := by
    have hne : TaskKey.operation o ≠ .task r.taskId := fun hk => by cases hk
    rw [h.record _ hne] at hc
    obtain ⟨i, hvalue, r₁, hr₁, hop, hf⟩ := hs.operation o c hc
    by_cases hid : i.taskId = r.taskId
    · rw [hid] at hr₁
      obtain rfl := some.inj (h.old.symm.trans hr₁)
      refine ⟨i, hvalue, r', by rw [hid, h.new], ?_, ?_⟩
      · rw [hsame.request, hop]
      · rw [hsame.request, hf]
    · exact ⟨i, hvalue, r₁, by rw [h.taskRecord hid, hr₁], hop, hf⟩
  bound id r₁ o hr₁ hop := by
    rw [h.operationIdentity]
    by_cases hid : id = r.taskId
    · subst hid
      obtain rfl := some.inj (h.new.symm.trans hr₁)
      exact hs.bound _ r o h.old (hsame.request ▸ hop)
    · rw [h.taskRecord hid] at hr₁
      exact hs.bound id r₁ o hr₁ hop
  receipt o receipt hr := by
    rw [h.rest] at hr
    exact ⟨(hs.receipt o receipt hr).1.mono h.grows, (hs.receipt o receipt hr).2.mono h.grows⟩
  service me := by
    have hme := (hs.service me).mono h.grows
    rw [h.rest] at hme ⊢
    exact hme
  outcome := by
    rw [h.rest]
    exact hs.outcome
  event e he := by
    have he' : e ∈ note ++ s.events := by
      rw [h.rest] at he
      exact he
    rcases mem_append.mp he' with he | he
    · exact (hnote e he).1
    · exact (hs.event e he).mono h.grows
  createdOnce := by
    rw [h.rest]
    refine pairwise_append.mpr ⟨pairwise_of_forall_mem_list fun e he e' _ o hc => ?_,
      hs.createdOnce, fun e he e' _ o hc => ?_⟩
    all_goals
      obtain ⟨r₁, rfl, -⟩ := hc
      exact absurd rfl ((hnote _ he).2.1 r₁)

theorem turn (h : Replaced leadership s t note r r') (hs : TaskInv platform leadership s)
    (hopen : r.state ≠ .terminal) (hsame : SameTask r r') (hrank : r.state.rank ≤ r'.state.rank)
    (hhow : Rewrites note r r')
    (hnote : ∀ e ∈ note, EventInv platform t e ∧ (∀ r, e ≠ .admitted r) ∧ e.isDispatch = false) :
    Turn (taskContract platform leadership) uses s t := by
  have hevents : t.events = note ++ s.events := by rw [h.rest]
  refine ⟨h.inv hs hsame hnote, ⟨h.grows, fun id r₁ hr₁ => ?_, .idle (fun me => ?_) ?_⟩,
    fun p _ _ => ⟨fun me id => ?_, fun me request => ?_⟩⟩
  · by_cases hid : id = r.taskId
    · subst hid
      obtain rfl := some.inj (h.old.symm.trans hr₁)
      exact ⟨r', h.new, .rewritten hopen hsame hrank note hevents hhow⟩
    · exact ⟨r₁, by rw [h.taskRecord hid, hr₁], .kept rfl⟩
  · rw [h.rest]
  · rw [hevents, filter_append, filter_eq_nil_iff.mpr fun e he => ?_, nil_append]
    rw [(hnote e he).2.2]
    exact Bool.false_ne_true
  · rw [h.rest]
  · rw [hevents]
    refine (mem_append.trans (or_iff_right fun he => ?_)).symm
    have hdispatch := (hnote _ he).2.2
    cases hdispatch

end Replaced

theorem replaced_putTask (hs : TaskInv platform leadership s) {authority : RuntimeAuthority}
    {note : List TaskEvent} {current next : TaskRecord} {revision : Nat} {now : JsDate.Instant}
    (hcopy : s.store.IsCopy (.task current.taskId) ⟨.task current, revision⟩)
    (hnext : Replaces leadership authority s note current next)
    (hauth : authority.resource = leadership)
    (h : s.putTask current.taskId next revision authority note now = .ok ((), t)) :
    Replaced leadership s t note current next ∧ Rewrites note current next := by
  unfold TaskWorld.putTask at h
  split at h
  · cases h
  next store hcommit =>
  obtain rfl := (Prod.mk.inj (ok.inj h)).2
  obtain ⟨hold, hrecord⟩ := CasStore.commit_put_of_isCopy hcopy hcommit
  have hadm := (CasStore.commit_put hcommit).2.1
  rw [hauth] at hcommit hadm
  have hcurrent : s.taskRecord current.taskId = some current := taskRecord_eq_some.mpr ⟨_, hold⟩
  have hseen := hs.seen_of_taskRecord hcurrent
  set t : TaskWorld := { s with store := store, events := note ++ s.events } with ht
  have hother : ∀ k, k ≠ .task current.taskId → t.store.record k = s.store.record k := by
    intro k hk
    rw [show t.store.record = _ from hrecord, update_of_ne hk]
  have hnew : t.taskRecord current.taskId = some next := by
    refine taskRecord_eq_some.mpr ⟨s.store.revision + 1, ?_⟩
    rw [show t.store.record = _ from hrecord, update_self]
  have hst : Grows s t := by
    refine ⟨CasStore.evolves_commit hcommit, fun id r hr => ?_, fun o i hi => ?_,
      fun _ pr hpr => ⟨pr, hpr, rfl⟩⟩
    · by_cases hid : id = current.taskId
      · subst hid
        obtain rfl := some.inj (hcurrent.symm.trans hr)
        exact ⟨next, hnew, hnext.same⟩
      · refine ⟨r, ?_, .refl r⟩
        rw [taskRecord_congr (hother _ fun hk => hid (TaskKey.task.inj hk)), hr]
    · have hne : TaskKey.operation o ≠ .task current.taskId := fun hk => by cases hk
      rw [operationIdentity_congr (hother _ hne), hi]
  refine ⟨⟨hcurrent, hnew, hother, CasStore.wellFormed_commit hs.wellFormed hcommit, hst,
    hnext.fenced hst hauth (CasStore.fence_commit hcommit) hseen.2, rfl⟩, ?_⟩
  exact hnext.rewrites (fun epoch hepoch => CasStore.fence_le_of_admits hadm hepoch) hseen.2

/-- The transaction of `#transition`. -/
theorem turn_putTask (hs : TaskInv platform leadership s) {authority : RuntimeAuthority}
    {note : List TaskEvent} {current next : TaskRecord} {revision : Nat} {now : JsDate.Instant}
    (hcopy : s.store.IsCopy (.task current.taskId) ⟨.task current, revision⟩)
    (hopen : current.state ≠ .terminal)
    (hnext : Replaces leadership authority s note current next)
    (hauth : authority.resource = leadership)
    (h : s.putTask current.taskId next revision authority note now = .ok ((), t)) :
    Turn (taskContract platform leadership) uses s t := by
  obtain ⟨hreplaced, hhow⟩ := replaced_putTask hs hcopy hnext hauth h
  exact hreplaced.turn hs hopen hnext.same hnext.rank hhow hnext.note_plain

/-! ## Admissions -/

theorem of_replayReceipt (hs : TaskInv platform leadership s) {op : Option PortableId}
    {fingerprint : JsString} {now : JsDate.Instant} {result : TaskRecord}
    (h : s.replayReceipt op fingerprint now = .ok (some result)) :
    Seen leadership s result ∧ ∀ o, op = some o → Bound s o fingerprint result.taskId := by
  unfold TaskWorld.replayReceipt at h
  split at h
  · cases h
  next receipt hreceipt =>
  split at h
  · next hf =>
    obtain rfl := some.inj (ok.inj h)
    obtain ⟨o, rfl, ho⟩ := bind_eq_some_iff.mp hreceipt
    obtain ⟨hbound, hseen⟩ := hs.receipt o receipt ho
    refine ⟨hseen, fun o' ho' => ?_⟩
    obtain rfl := some.inj ho'
    exact hf ▸ hbound
  · cases h

section Admission

variable {candidate : TaskRecord} {fingerprint : JsString} {authority : RuntimeAuthority}
  {now : JsDate.Instant}

/-- What an admission writes to the store. -/
structure Admitted (s t : TaskWorld) (candidate : TaskRecord) (fingerprint : JsString) : Prop where
  fresh : s.store.record (.task candidate.taskId) = none
  freshOperation : ∀ o, candidate.request.operationId = some o →
    s.store.record (.operation o) = none
  task : t.taskRecord candidate.taskId = some candidate
  operation : ∀ o, candidate.request.operationId = some o →
    t.operationIdentity o = some ⟨candidate.taskId, candidate.attemptId, fingerprint⟩
  other : ∀ k, k ≠ .task candidate.taskId →
    (∀ o, candidate.request.operationId = some o → k ≠ .operation o) →
    t.store.record k = s.store.record k

theorem Admitted.of_commit {fencing : Option (JsString × Nat)}
    (h : s.store.commit (TaskWorld.admissionWrites candidate fingerprint) fencing false =
      .ok t.store) : Admitted s t candidate fingerprint := by
  obtain ⟨hexpected, -, ⟨-, happlies, -⟩ | hstore⟩ := CasStore.commit_ok_cases h
  · have := happlies _ mem_cons_self
    simp [CasStore.applies] at this
  · have hrecord : t.store.record =
        (TaskWorld.admissionWrites candidate fingerprint).foldl
          (CasStore.write (s.store.revision + 1)) s.store.record := by rw [hstore]
    have hfresh := hexpected _ mem_cons_self
    cases hop : candidate.request.operationId with
    | none =>
      simp only [TaskWorld.admissionWrites, hop, map_none, toList_none,
        foldl_cons, foldl_nil, CasStore.write, map_some] at hrecord
      refine ⟨by simpa [Expected.matches] using hfresh, fun o ho => by simp [hop] at ho, ?_,
        fun o ho => by simp [hop] at ho, fun k hk _ => ?_⟩
      · refine taskRecord_eq_some.mpr ⟨s.store.revision + 1, ?_⟩
        rw [hrecord, update_self]
      · rw [hrecord, update_of_ne hk]
    | some o =>
      have hfreshOperation := hexpected
        ⟨.operation o, some (.operation ⟨candidate.taskId, candidate.attemptId, fingerprint⟩),
          .absent⟩ (by simp [TaskWorld.admissionWrites, hop])
      have hne : TaskKey.task candidate.taskId ≠ .operation o := fun hk => by cases hk
      simp only [TaskWorld.admissionWrites, hop, map_some, toList_some,
        foldl_cons, foldl_nil, CasStore.write] at hrecord
      refine ⟨by simpa [Expected.matches] using hfresh, fun o' ho' => ?_, ?_, fun o' ho' => ?_,
        fun k hk hk' => ?_⟩
      · obtain rfl := some.inj (hop.symm.trans ho')
        simpa [Expected.matches] using hfreshOperation
      · refine taskRecord_eq_some.mpr ⟨s.store.revision + 1, ?_⟩
        rw [hrecord, update_of_ne hne, update_self]
      · obtain rfl := some.inj (hop.symm.trans ho')
        refine operationIdentity_eq_some.mpr ⟨s.store.revision + 1, ?_⟩
        rw [hrecord, update_self]
      · rw [hrecord, update_of_ne (hk' o hop), update_of_ne hk]

namespace Admitted

theorem grows (h : Admitted s t candidate fingerprint) (hstore : s.store.Evolves t.store)
    (hpromises : t.promises = s.promises) : Grows s t := by
  refine ⟨hstore, fun id r hr => ⟨r, ?_, .refl r⟩, fun o i hi => ?_, fun p pr hpr => ?_⟩
  · obtain ⟨revision, hrecord⟩ := taskRecord_eq_some.mp hr
    rw [taskRecord_congr (h.other _ (fun hk => ?_) fun o _ hk => ?_), hr]
    · rw [TaskKey.task.inj hk, h.fresh] at hrecord
      cases hrecord
    · cases hk
  · obtain ⟨revision, hrecord⟩ := operationIdentity_eq_some.mp hi
    rw [operationIdentity_congr (h.other _ (fun hk => ?_) fun o' ho' hk => ?_), hi]
    · cases hk
    · rw [TaskKey.operation.inj hk, h.freshOperation o' ho'] at hrecord
      cases hrecord
  · exact ⟨pr, by rw [hpromises, hpr], rfl⟩

theorem bound (h : Admitted s t candidate fingerprint) {o : PortableId}
    (ho : candidate.request.operationId = some o) : Bound t o fingerprint candidate.taskId :=
  ⟨_, h.operation o ho, rfl, rfl⟩

theorem inv (h : Admitted s t candidate fingerprint) (hs : TaskInv platform leadership s)
    (hst : Grows s t) (hwf : t.store.WellFormed) (hfenced : Fenced leadership t candidate)
    (hf : fingerprint = fingerprintOf platform.numberText candidate.request)
    (hrest : t = { s with
      store := t.store, receipts := t.receipts, events := .admitted candidate :: s.events })
    (hreceipts : ∀ o, t.receipts o = if candidate.request.operationId = some o then
      some ⟨fingerprint, candidate⟩ else s.receipts o) :
    TaskInv platform leadership t where
  wellFormed := hwf
  task id c hc := by
    by_cases hid : id = candidate.taskId
    · subst hid
      obtain ⟨revision, hrecord⟩ := taskRecord_eq_some.mp h.task
      obtain rfl := some.inj (hrecord.symm.trans hc)
      exact ⟨candidate, rfl, rfl, hfenced⟩
    · rw [h.other _ (fun hk => hid (TaskKey.task.inj hk)) fun o _ hk => by cases hk] at hc
      obtain ⟨r, hvalue, hid', hr⟩ := hs.task id c hc
      exact ⟨r, hvalue, hid', hr.mono hst⟩
  operation o c hc := by
    by_cases ho : candidate.request.operationId = some o
    · obtain ⟨revision, hrecord⟩ := operationIdentity_eq_some.mp (h.operation o ho)
      obtain rfl := some.inj (hrecord.symm.trans hc)
      exact ⟨_, rfl, candidate, h.task, ho, hf.symm⟩
    rw [h.other _ (fun hk => by cases hk) fun o' ho' hk => ho (by
      rw [ho', TaskKey.operation.inj hk])] at hc
    obtain ⟨i, hvalue, r, hr, hop, hfr⟩ := hs.operation o c hc
    obtain ⟨r', hr', hsame⟩ := hst.task _ r hr
    exact ⟨i, hvalue, r', hr', by rw [hsame.request, hop], by rw [hsame.request, hfr]⟩
  bound id r o hr hop := by
    by_cases hid : id = candidate.taskId
    · subst hid
      obtain rfl := some.inj (h.task.symm.trans hr)
      exact ⟨_, h.operation o hop, rfl⟩
    rw [taskRecord_congr (h.other _ (fun hk => hid (TaskKey.task.inj hk))
      fun o _ hk => by cases hk)] at hr
    obtain ⟨i, hi, hid'⟩ := hs.bound id r o hr hop
    exact ⟨i, hst.operation o i hi, hid'⟩
  receipt o receipt hr := by
    rw [hreceipts] at hr
    split at hr
    · next ho =>
      obtain rfl := some.inj hr
      exact ⟨h.bound ho, ⟨candidate, h.task, .refl _⟩, hfenced⟩
    · exact ⟨(hs.receipt o receipt hr).1.mono hst, (hs.receipt o receipt hr).2.mono hst⟩
  service me := by
    have hme := (hs.service me).mono hst
    rw [hrest] at hme ⊢
    exact hme
  outcome := by
    rw [hrest]
    exact hs.outcome
  event e he := by
    have he' : e ∈ TaskEvent.admitted candidate :: s.events := by
      rw [hrest] at he
      exact he
    rcases mem_cons.mp he' with rfl | he
    · intro o ho
      exact hf ▸ h.bound ho
    · exact (hs.event e he).mono hst
  createdOnce := by
    rw [hrest]
    refine pairwise_cons.mpr ⟨fun e he o hc hc' => ?_, hs.createdOnce⟩
    obtain ⟨r, hr, ho⟩ := hc
    cases hr
    obtain ⟨r', rfl, ho'⟩ := hc'
    -- an earlier creation has bound the operation, so it is not fresh
    obtain ⟨i, hi, -, -⟩ := hs.event _ he o ho'
    obtain ⟨revision, hrecord⟩ := operationIdentity_eq_some.mp hi
    rw [h.freshOperation o ho] at hrecord
    cases hrecord

theorem turn (h : Admitted s t candidate fingerprint)
    (hst : Grows s t) (hinv : TaskInv platform leadership t)
    (hrest : t = { s with
      store := t.store, receipts := t.receipts, events := .admitted candidate :: s.events }) :
    Turn (taskContract platform leadership) uses s t := by
  have hevents : t.events = .admitted candidate :: s.events := by rw [hrest]
  refine ⟨hinv, ⟨hst, fun id r hr => ⟨r, ?_, .kept rfl⟩, .idle (fun me => by rw [hrest]) ?_⟩,
    fun p _ _ => ⟨fun me id => by rw [hrest], fun me request => ?_⟩⟩
  · obtain ⟨revision, hrecord⟩ := taskRecord_eq_some.mp hr
    rw [taskRecord_congr (h.other _ (fun hk => ?_) fun o _ hk => ?_), hr]
    · rw [TaskKey.task.inj hk, h.fresh] at hrecord
      cases hrecord
    · cases hk
  · rw [hevents]
    exact filter_cons_of_neg Bool.false_ne_true
  · rw [hevents]
    refine (mem_cons.trans (or_iff_right fun he => ?_)).symm
    cases he

end Admitted

theorem turn_joined (hs : TaskInv platform leadership s) {existing : TaskRecord}
    (hexisting : Seen leadership s existing ∧ ∀ o, candidate.request.operationId = some o →
      Bound s o fingerprint existing.taskId)
    (hf : fingerprint = fingerprintOf platform.numberText candidate.request)
    {store : TaskStore} {fencing : Option (JsString × Nat)}
    (hcommit : s.store.commit [] fencing false = .ok store) {receipts : PortableId → Option TaskReceipt}
    (hreceipts : ∀ o, receipts o = if candidate.request.operationId = some o then
      some ⟨fingerprint, existing⟩ else s.receipts o) :
    Turn (taskContract platform leadership) uses s
      { s with store := store, receipts := receipts, events := .joined candidate :: s.events } := by
  have hrecord : ∀ k, store.record k = s.store.record k := by
    intro k
    obtain ⟨-, -, ⟨rfl, -, -⟩ | rfl⟩ := CasStore.commit_ok_cases hcommit
    · rfl
    · rfl
  set t : TaskWorld :=
    { s with store := store, receipts := receipts, events := .joined candidate :: s.events } with ht
  have hst : Grows s t :=
    ⟨CasStore.evolves_commit hcommit,
      fun id r hr => ⟨r, by rw [taskRecord_congr (hrecord _), hr], .refl r⟩,
      fun o i hi => by rw [operationIdentity_congr (hrecord _), hi],
      fun _ pr hpr => ⟨pr, hpr, rfl⟩⟩
  refine ⟨hs.of_record_eq [.joined candidate] hst hrecord (CasStore.wellFormed_commit hs.wellFormed hcommit)
      (fun o receipt hr => ?_) rfl (fun e he => ?_) (fun e he r => ?_)
      (fun me => (hs.service me).mono hst) hs.outcome,
    ⟨hst, fun id r hr => ⟨r, by rw [taskRecord_congr (hrecord _), hr], .kept rfl⟩,
      .idle (fun _ => rfl) (filter_cons_of_neg Bool.false_ne_true)⟩,
    fun p _ _ => ⟨fun _ _ => Iff.rfl, fun me request => ?_⟩⟩
  · rw [show t.receipts o = _ from hreceipts o] at hr
    split at hr
    · next ho =>
      obtain rfl := some.inj hr
      exact ⟨(hexisting.2 o ho).mono hst, hexisting.1.mono hst⟩
    · exact ⟨(hs.receipt o receipt hr).1.mono hst, (hs.receipt o receipt hr).2.mono hst⟩
  · rw [mem_singleton] at he
    subst he
    intro o ho
    exact ⟨existing.taskId, hf ▸ (hexisting.2 o ho).mono hst⟩
  · rw [mem_singleton] at he
    subst he
    intro h
    cases h
  · refine (mem_cons.trans (or_iff_right fun he => ?_)).symm
    cases he

theorem receipts_update (op : Option PortableId) (receipt : TaskReceipt) (o : PortableId) :
    (match op with
      | none => s.receipts
      | some operationId => Function.update s.receipts operationId (some receipt)) o =
      if op = some o then some receipt else s.receipts o := by
  cases op with
  | none => rfl
  | some o' => simp [update_apply, eq_comm]

/-- The last transaction of an admission: it answers with the task of the
operation. -/
theorem turn_commitAdmission (hs : TaskInv platform leadership s) {existing : Option TaskRecord}
    {result : TaskRecord} (hauthority : candidate.authority = some authority)
    (hresource : authority.resource = leadership)
    (hexisting : ∀ r, existing = some r → Seen leadership s r ∧
      ∀ o, candidate.request.operationId = some o → Bound s o fingerprint r.taskId)
    (hf : fingerprint = fingerprintOf platform.numberText candidate.request)
    (h : s.commitAdmission candidate fingerprint authority existing now = .ok (result, t)) :
    Turn (taskContract platform leadership) uses s t ∧ Seen leadership t result ∧
      ∀ o, candidate.request.operationId = some o → Bound t o fingerprint result.taskId := by
  unfold TaskWorld.commitAdmission at h
  split at h
  · cases h
  · next replayed hreplay =>
    obtain ⟨rfl, rfl⟩ := Prod.mk.inj (ok.inj h)
    obtain ⟨hseen, hbound⟩ := of_replayReceipt hs hreplay
    exact ⟨(Quiet.refl hs).turn hs, hseen, hbound⟩
  · cases existing with
    | some r =>
      simp only [isSome_some, if_true, getD_some] at h
      split at h
      · cases h
      next store hcommit =>
      obtain ⟨rfl, rfl⟩ := Prod.mk.inj (ok.inj h)
      obtain ⟨hseen, hbound⟩ := hexisting r rfl
      have hturn : Turn (taskContract platform leadership) uses s _ := turn_joined hs ⟨hseen, hbound⟩ hf hcommit
        (receipts_update candidate.request.operationId ⟨fingerprint, r⟩)
      exact ⟨hturn, hseen.mono hturn.law.grows, fun o ho => (hbound o ho).mono hturn.law.grows⟩
    | none =>
      simp only [isSome_none, Bool.false_eq_true, if_false, getD_none] at h
      split at h
      · cases h
      next store hcommit =>
      obtain ⟨rfl, ht⟩ := Prod.mk.inj (ok.inj h)
      have hstore : t.store = store := by rw [← ht]
      have hcommit' := hcommit
      rw [← hstore, hresource] at hcommit'
      have hadmitted := Admitted.of_commit hcommit'
      have hst := hadmitted.grows (CasStore.evolves_commit hcommit') (by rw [← ht])
      have hfenced : Fenced leadership t candidate := by
        intro a ha
        obtain rfl := some.inj (hauthority.symm.trans ha)
        exact ⟨hresource, _, CasStore.fence_commit hcommit', Nat.le_refl _⟩
      have hrest : t = { s with
          store := t.store, receipts := t.receipts,
          events := .admitted candidate :: s.events } := by rw [← ht]
      have hinv := hadmitted.inv hs hst (CasStore.wellFormed_commit hs.wellFormed hcommit')
        hfenced hf hrest fun o => by
          rw [← ht]
          exact receipts_update candidate.request.operationId ⟨fingerprint, candidate⟩ o
      exact ⟨hadmitted.turn hst hinv hrest, ⟨⟨candidate, hadmitted.task, .refl _⟩, hfenced⟩,
        fun o ho => hadmitted.bound ho⟩

end Admission

end Turns

end TegoNext
