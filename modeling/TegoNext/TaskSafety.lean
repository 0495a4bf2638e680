/-
Every function of the task service keeps the contract.

The specifications come in the order of the source. A proof follows its program
and names, call by call, what the call returns. Only a dispatch owns something, the
token of its promise; every other function is specified with no token and lifted
where it is called.
-/
import TegoNext.AsyncSpec
import TegoNext.TaskTurns

set_option autoImplicit false

namespace TegoNext

open Async Option Except

/-! ## The rules at the primitives -/

section Rules

variable {platform : TaskPlatform} {leadership : JsString} {uses : Set Nat} {α : Type}

theorem taskContract_stutters : Stutters (taskContract platform leadership) := by
  intro s hs
  have hturn : Turn (taskContract platform leadership) ∅ s s := (Quiet.refl hs).turn hs
  exact hturn.law

/-- A specification of a function that uses no token. -/
abbrev TaskSpec (platform : TaskPlatform) (leadership : JsString) (P : TaskWorld → Prop)
    (m : TaskM α) (Q : α → TaskWorld → Prop) : Prop :=
  Spec (taskContract platform leadership) ∅ P m Q

section Stability

theorem stable_seen (r : TaskRecord) :
    Stable (taskContract platform leadership) uses (Seen leadership · r) :=
  .of_rely fun _ _ hst h => h.mono hst

theorem stable_bound (o : PortableId) (fingerprint : JsString) (id : PortableId) :
    Stable (taskContract platform leadership) uses (Bound · o fingerprint id) :=
  .of_rely fun _ _ hst h => h.mono hst

theorem stable_promiseFor (p : Nat) (id : PortableId) :
    Stable (taskContract platform leadership) uses (PromiseFor · p id) :=
  .of_rely fun _ _ hst h => h.mono hst

end Stability

variable {P : TaskWorld → Prop} {Q : α → TaskWorld → Prop}

theorem check_spec {f : TaskWorld → JsDate.Instant → Except TaskFailure α}
    (hP : Stable (taskContract platform leadership) uses P)
    (h : ∀ s now a, TaskInv platform leadership s → P s → f s now = .ok a → Q a s) :
    Spec (taskContract platform leadership) uses P (TaskM.check f) Q :=
  Spec.look taskContract_stutters hP (fun _ _ => rfl) fun s r a => h s r.now a

theorem query_spec {f : TaskWorld → α} (hP : Stable (taskContract platform leadership) uses P)
    (h : ∀ s, TaskInv platform leadership s → P s → Q (f s) s) :
    Spec (taskContract platform leadership) uses P (TaskM.query f) Q :=
  Spec.look taskContract_stutters hP (fun _ _ => rfl) fun s _ _ hs hp ha => ok.inj ha ▸ h s hs hp

theorem fail_spec {e : JsDate.Instant → TaskFailure}
    (hP : Stable (taskContract platform leadership) uses P) :
    Spec (taskContract platform leadership) uses P (TaskM.fail e : TaskM α) Q :=
  check_spec hP fun _ _ _ _ _ ha => nomatch ha

theorem ask_spec {accept : TaskReply → Option (Except TaskFailure α)} :
    TaskSpec platform leadership (fun _ => True) (TaskM.ask accept) fun _ _ => True :=
  Spec.look taskContract_stutters (.const True) (fun _ _ => rfl) fun _ _ _ _ _ _ => trivial

theorem segment_spec {f : TaskWorld → JsDate.Instant → Except TaskFailure α × TaskWorld}
    (hP : Stable (taskContract platform leadership) uses P)
    (h : ∀ s now, TaskInv platform leadership s → P s → Quiet leadership s (f s now).2 ∧
      ∀ a, (f s now).1 = .ok a → Q a (f s now).2) :
    Spec (taskContract platform leadership) uses P (TaskM.segment f) Q := by
  refine Spec.turn hP fun s r hs hp _ _ => ?_
  obtain ⟨hquiet, hq⟩ := h s r.now hs hp
  exact ⟨hquiet.turn hs, hq⟩

theorem update_spec {f : TaskWorld → TaskWorld}
    (hP : Stable (taskContract platform leadership) uses P)
    (h : ∀ s, TaskInv platform leadership s → P s → Quiet leadership s (f s)) :
    Spec (taskContract platform leadership) uses P (TaskM.update f) fun _ _ => True :=
  segment_spec hP fun s _ hs hp => ⟨h s hs hp, fun _ _ => trivial⟩

theorem attempt_triple {K : Contract TaskWorld Nat} {E : TaskFailure → TaskWorld → Prop}
    {m : TaskM α} (hm : Triple K uses P m Q E) :
    Triple K uses P (TaskM.attempt m)
      (fun outcome s =>
        (∀ a, outcome = .ok a → Q a s) ∧ ∀ e, outcome = .error e → E e s) fun _ _ => True := by
  refine Triple.tryCatch (Triple.bind hm fun a => Triple.pure fun s _ h => ⟨fun a' ha => ?_,
    fun e he => ?_⟩) fun e => Triple.pure fun s _ h => ⟨fun a ha => ?_, fun e' he => ?_⟩
  · exact ok.inj ha ▸ h
  · cases he
  · cases ha
  · exact error.inj he ▸ h

theorem attempt_spec {m : TaskM α} (hm : Spec (taskContract platform leadership) uses P m Q) :
    Spec (taskContract platform leadership) uses P (TaskM.attempt m) fun outcome s =>
      ∀ a, outcome = .ok a → Q a s :=
  Spec.post (attempt_triple hm) fun _ _ h => h.1

end Rules

namespace TaskService

variable {platform : TaskPlatform} {leadership : JsString} {uses : Set Nat} {me : Nat}

/-! ## Reading -/

structure Loaded (leadership : JsString) (s : TaskWorld) (id : PortableId) (loaded : LoadedTask) :
    Prop where
  taskId : loaded.record.taskId = id
  seen : Seen leadership s loaded.record
  copy : s.store.IsCopy (.task id) ⟨.task loaded.record, loaded.revision⟩

section

variable (id : PortableId)

theorem stable_loaded (loaded : LoadedTask) :
    Stable (taskContract platform leadership) uses (Loaded leadership · id loaded) :=
  .of_rely fun _ _ hst h => ⟨h.taskId, h.seen.mono hst, h.copy.mono hst.store⟩

theorem assertAuthority_spec (authority : RuntimeAuthority) :
    TaskSpec platform leadership (fun _ => True) (assertAuthority me authority) fun _ _ => True :=
  check_spec (.const True) fun _ _ _ _ _ _ => trivial

theorem assertOpen_spec :
    TaskSpec platform leadership (fun _ => True) (assertOpen me) fun _ _ => True :=
  check_spec (.const True) fun _ _ _ _ _ _ => trivial

theorem parseStored_spec (entry : TaskEntry) :
    TaskSpec platform leadership (fun _ => True) (parseStored platform entry) fun record _ =>
      entry = .task record := by
  refine check_spec (.const True) fun s now record _ _ h => ?_
  cases entry with
  | task stored => rw [parseTaskRecord_ok h]
  | operation _ => cases h

/-- What `state.read` of a task's key returns. -/
theorem read_task_spec :
    TaskSpec platform leadership (fun _ => True) (TaskM.read (.task id)) fun stored s =>
      ∀ v, stored = some v → ∀ record, v.value = .task record →
        Loaded leadership s id ⟨record, v.revision⟩ := by
  refine Spec.look taskContract_stutters (.const True) (fun s r => ?_) fun s r a hs _ ha => ?_
  · split <;> rfl
  · rintro v rfl record hvalue
    have hrecord : s.store.record (.task id) = some v := by
      split at ha
      · cases ha
      · exact ok.inj ha
    obtain ⟨value, revision⟩ := v
    obtain rfl : value = .task record := hvalue
    obtain ⟨r', hvalue', hid, hfenced⟩ := hs.task id _ hrecord
    obtain rfl : record = r' := TaskEntry.task.inj hvalue'
    exact ⟨hid, hs.seen_of_taskRecord (taskRecord_eq_some.mpr ⟨_, hrecord⟩),
      CasStore.IsCopy.of_record hs.wellFormed hrecord⟩

/-- What `state.read` of an operation's key returns. -/
theorem read_operation_spec (o : PortableId) :
    TaskSpec platform leadership (fun _ => True) (TaskM.read (.operation o)) fun stored s =>
      ∀ v i, stored = some v → v.value = .operation i →
        ∃ r, Bound s o i.fingerprint i.taskId ∧ s.taskRecord i.taskId = some r ∧
          fingerprintOf platform.numberText r.request = i.fingerprint := by
  refine Spec.look taskContract_stutters (.const True) (fun s r => ?_) fun s r a hs _ ha => ?_
  · split <;> rfl
  · rintro v i rfl hvalue
    have hrecord : s.store.record (.operation o) = some v := by
      split at ha
      · cases ha
      · exact ok.inj ha
    obtain ⟨value, revision⟩ := v
    obtain rfl : value = .operation i := hvalue
    obtain ⟨i', hvalue', r', hr', -, hf⟩ := hs.operation o _ hrecord
    obtain rfl : i = i' := TaskEntry.operation.inj hvalue'
    exact ⟨r', ⟨i, operationIdentity_eq_some.mpr ⟨_, hrecord⟩, rfl, rfl⟩, hr', hf⟩

/-- What was read, if it is well formed, is what a load returns. -/
theorem parseLoaded_spec (v : Versioned TaskEntry) :
    TaskSpec platform leadership
      (fun s => ∀ w, some v = some w → ∀ record, w.value = .task record →
        Loaded leadership s id ⟨record, w.revision⟩)
      (parseStored platform v.value) fun record s =>
        Loaded leadership s id ⟨record, v.revision⟩ := by
  refine Spec.assume
    (fun s => ∀ record, v.value = .task record → Loaded leadership s id ⟨record, v.revision⟩)
    (fun s h => h v rfl) ?_
  exact ((parseStored_spec v.value).keep (.all fun _ => .imp fun _ => stable_loaded id _)
    fun _ _ => trivial).post fun record s h => h.2 record h.1

theorem load_spec :
    TaskSpec platform leadership (fun _ => True) (load platform me id) fun result s =>
      ∀ loaded, result = some loaded → Loaded leadership s id loaded := by
  refine (read_task_spec id).bind fun stored => ?_
  cases stored with
  | none => exact Spec.ret fun s _ loaded h => nomatch h
  | some v =>
    refine (parseLoaded_spec id v).bind fun record => ?_
    refine Spec.seq (update_spec (stable_loaded id _) fun s hs h => Quiet.setRecord hs me h.seen)
      (stable_loaded id _) (fun _ h => h) fun _ => Spec.ret ?_
    rintro s ⟨-, h⟩ loaded hloaded
    exact some.inj hloaded ▸ h

theorem status_spec :
    TaskSpec platform leadership (fun _ => True) (status platform me id) fun result s =>
      ∀ record, result = some record → record.taskId = id ∧ Seen leadership s record := by
  refine assertOpen_spec.bind fun _ => (load_spec id).bind fun loaded => ?_
  cases loaded with
  | none =>
    refine query_spec (.all fun _ => .imp fun h => nomatch h) fun s hs _ record hrecord => ?_
    exact (hs.service me).ephemeral id record hrecord
  | some loaded =>
    refine Spec.assume (Loaded leadership · id loaded) (fun s h => h loaded rfl) ?_
    dsimp only
    split
    · refine Spec.seq (update_spec (.const True) fun s hs _ =>
        Quiet.setEphemeral hs me fun _ h => nomatch h) (stable_loaded id _) (fun _ _ => trivial)
        fun _ => Spec.ret ?_
      rintro s ⟨-, h⟩ record hrecord
      exact some.inj hrecord ▸ ⟨h.taskId, h.seen⟩
    · refine query_spec (stable_loaded id _) fun s hs h record hrecord => ?_
      obtain rfl := some.inj hrecord
      cases he : (s.services me).ephemeralTerminal id with
      | none => exact ⟨h.taskId, h.seen⟩
      | some r => exact (hs.service me).ephemeral id r he

theorem statusOr_spec (record : TaskRecord) :
    TaskSpec platform leadership (Seen leadership · record) (statusOr platform me record)
      fun result s => result.taskId = record.taskId ∧ Seen leadership s result := by
  refine (status_spec record.taskId).seq (stable_seen record) (fun _ _ => trivial)
    fun current => Spec.ret ?_
  rintro s ⟨hcurrent, hseen⟩
  cases current with
  | none => exact ⟨rfl, hseen⟩
  | some r => exact hcurrent r rfl

theorem recoverOne_spec :
    TaskSpec platform leadership (fun _ => True) (recoverOne platform me id) fun _ _ => True := by
  refine (read_task_spec id).bind fun stored => ?_
  cases stored with
  | none => exact Spec.ret fun _ _ => trivial
  | some v =>
    refine (parseLoaded_spec id v).bind fun record => ?_
    exact update_spec (stable_loaded id _) fun s hs h => Quiet.setRecord hs me h.seen

theorem recoverAll_spec (ids : List PortableId) :
    TaskSpec platform leadership (fun _ => True) (recoverAll platform me ids) fun _ _ => True := by
  induction ids with
  | nil => exact Spec.ret fun _ _ => trivial
  | cons id ids ih => exact (recoverOne_spec id).bind fun _ => ih

theorem recover_spec :
    TaskSpec platform leadership (fun _ => True) (recover platform me) fun _ _ => True := by
  refine assertOpen_spec.bind fun _ => Spec.bind (update_spec (.const True) fun s hs _ => ?_)
    fun _ => ask_spec.bind fun ids => recoverAll_spec ids
  refine Quiet.updateService hs (fun hservice => { hservice with records := ?_ }) rfl
  intro entry hentry
  cases hentry

/-! ## Waiting -/

theorem awaitPromise_spec (p : Nat) (id : PortableId) :
    TaskSpec platform leadership (PromiseFor · p id) (TaskM.awaitPromise p)
      fun record _ => record.taskId = id := by
  refine Spec.look taskContract_stutters (stable_promiseFor p id) (fun _ _ => rfl)
    fun s r record hs hp h => ?_
  obtain ⟨pr, hpr, rfl⟩ := hp
  simp only [hpr, bind_some] at h
  cases ho : pr.outcome with
  | none =>
    rw [ho] at h
    cases h
  | some outcome =>
    rw [ho] at h
    obtain rfl : outcome = .ok record := h
    exact hs.outcome p pr record hpr ho

theorem addWaiter_quiet (me : Nat) {s : TaskWorld} (hs : TaskInv platform leadership s) (id : PortableId)
    (now : JsDate.Instant) : Quiet leadership s (addWaiter me s id now) ∧
      PromiseFor (addWaiter me s id now) s.promises.length id := by
  have halloc := Quiet.allocate hs id
  have hnew : PromiseFor (s.allocate id) s.promises.length id :=
    ⟨⟨id, none⟩, List.getElem?_concat_length, rfl⟩
  have hwait : Quiet leadership s ((s.allocate id).setWaiters me id
      ((s.services me).waiters id ++ [s.promises.length])) := by
    refine halloc.trans (Quiet.setWaiters (halloc.inv hs) me fun p hp => ?_)
    rcases List.mem_append.mp hp with hp | hp
    · exact ((hs.service me).waiters id p hp).mono halloc.grows
    · rw [List.mem_singleton] at hp
      exact hp ▸ hnew
  unfold addWaiter
  dsimp only
  split
  · have hsettle : Quiet leadership _ (TaskWorld.settle _ s.promises.length
        (.error (stoppedError now))) :=
      Quiet.settle (hwait.inv hs) s.promises.length fun r h => nomatch h
    exact ⟨hwait.trans hsettle, PromiseFor.mono (s := (s.allocate id).setWaiters me id _) hnew
      hsettle.grows⟩
  · exact ⟨hwait, hnew⟩

theorem notifyIfTerminal_spec :
    TaskSpec platform leadership (fun _ => True) (notifyIfTerminal platform me id)
      fun _ _ => True := by
  refine (status_spec id).bind fun result => ?_
  refine Spec.assume (fun _ => True) (fun _ _ => trivial) ?_
  split
  · exact update_spec (.const True) fun s hs _ => Quiet.notify hs me _
  · exact Spec.ret fun _ _ => trivial

theorem awaitWaiter_spec (p : Nat) :
    TaskSpec platform leadership (PromiseFor · p id) (awaitWaiter me id p)
      fun record _ => record.taskId = id := by
  refine (awaitPromise_spec p id).tryFinally (stable_promiseFor p id) (fun _ h => h)
    (fun _ => .const _) (update_spec (stable_promiseFor p id) fun s hs _ => ?_)
  exact Quiet.setWaiters hs me fun q hq => (hs.service me).waiters id q (List.mem_of_mem_filter hq)

theorem wait_spec :
    TaskSpec platform leadership (fun _ => True) (wait platform me id)
      fun record _ => record.taskId = id := by
  refine assertOpen_spec.bind fun _ => (status_spec id).bind fun current => ?_
  cases current with
  | none => exact fail_spec (.all fun _ => .imp fun h => nomatch h)
  | some current =>
    dsimp only
    split
    · exact Spec.ret fun s h => (h current rfl).1
    refine Spec.assume (fun _ => True) (fun _ _ => trivial) ?_
    refine Spec.bind (Q := fun result s => PromiseFor s result.1 id)
      (segment_spec (.const True) fun s now hs _ => ?_) fun result => ?_
    · obtain ⟨hquiet, hnew⟩ := addWaiter_quiet me hs id now
      refine ⟨hquiet, fun a ha => ?_⟩
      obtain rfl := ok.inj ha
      exact hnew
    · obtain ⟨p, closed⟩ := result
      split
      · exact awaitWaiter_spec id p
      refine Spec.seq (Spec.tryCatch (notifyIfTerminal_spec id) (stable_promiseFor p id)
        (fun _ _ => trivial) fun e => ?_) (stable_promiseFor p id) (fun _ h => h)
        fun _ => (awaitWaiter_spec id p).pre fun _ h => h.2
      exact update_spec (stable_promiseFor p id) fun s hs _ =>
        Quiet.settle hs p fun r h => nomatch h

end

/-! ## Rewriting a record -/

variable {P : TaskWorld → Prop}

/-- A commit: what the transaction does is a turn, whether or not its answer gets
lost. -/
theorem commit_spec {α : Type} {Q : α → TaskWorld → Prop}
    {job : TaskWorld → JsDate.Instant → Except TaskFailure (α × TaskWorld)}
    (hP : Stable (taskContract platform leadership) ∅ P)
    (h : ∀ s now a t, TaskInv platform leadership s → P s → job s now = .ok (a, t) →
      Turn (taskContract platform leadership) ∅ s t ∧ Q a t) :
    TaskSpec platform leadership P (TaskM.commit job) Q := by
  refine Spec.turn hP fun s r hs hp _ _ => ?_
  have hstay : Turn (taskContract platform leadership) ∅ s s := (Quiet.refl hs).turn hs
  split
  · exact ⟨hstay, fun a ha => nomatch ha⟩
  split
  · exact ⟨hstay, fun a ha => nomatch ha⟩
  next a t hjob =>
  obtain ⟨hturn, hq⟩ := h s r.now a t hs hp hjob
  split
  · exact ⟨hturn, fun a' ha => nomatch ha⟩
  · exact ⟨hturn, fun a' ha => ok.inj ha ▸ hq⟩

theorem seen_sameTask {s : TaskWorld} {r r' : TaskRecord} (h : Seen leadership s r)
    (h' : Seen leadership s r') (hid : r'.taskId = r.taskId) : SameTask r r' := by
  obtain ⟨⟨r₁, h₁, hsame₁⟩, -⟩ := h
  obtain ⟨⟨r₂, h₂, hsame₂⟩, -⟩ := h'
  rw [hid] at h₂
  obtain rfl := some.inj (h₁.symm.trans h₂)
  exact hsame₁.symm.trans hsame₂

variable {authority : RuntimeAuthority}

theorem transition_spec {note : List TaskEvent} {id : PortableId}
    {next : TaskRecord → JsDate.Instant → TaskRecord} {R : TaskWorld → Prop}
    (hauth : authority.resource = leadership)
    (hR : Stable (taskContract platform leadership) ∅ R)
    (hnext : ∀ s current now, R s → Seen leadership s current → current.taskId = id →
      current.state ≠ .terminal → Replaces leadership authority s note current (next current now))
    (attempts : Nat) :
    TaskSpec platform leadership R (transition platform me note id authority next attempts)
      fun record s => record.taskId = id ∧ Seen leadership s record := by
  induction attempts with
  | zero => exact fail_spec hR
  | succ attempts ih =>
    refine (assertAuthority_spec authority).seq hR (fun _ _ => trivial) fun _ => ?_
    refine (load_spec id).seq ((Stable.const True).and hR) (fun _ _ => trivial) fun result => ?_
    cases result with
    | none => exact fail_spec ((Stable.all fun _ => .imp fun h => nomatch h).and
        ((Stable.const True).and hR))
    | some loaded =>
      have hstable : Stable (taskContract platform leadership) ∅ fun s =>
          Loaded leadership s id loaded ∧ R s := (stable_loaded id loaded).and hR
      refine Spec.assume (fun s => Loaded leadership s id loaded ∧ R s)
        (fun s h => ⟨h.1 loaded rfl, h.2.2⟩) ?_
      dsimp only
      split
      · exact Spec.ret fun s h => ⟨h.1.taskId, h.1.seen⟩
      next hopen =>
      refine Spec.seq (Q := fun record _ => ∃ now, record = next loaded.record now)
        (check_spec hstable fun s now record _ _ h => ⟨now, parseTaskRecord_ok h⟩) hstable
        (fun _ h => h) fun record => ?_
      refine Spec.of_pure (p := ∃ now, record = next loaded.record now) ?_ fun s h => h.1
      rintro ⟨now, rfl⟩
      refine Spec.assume (fun s => Loaded leadership s id loaded ∧ R s) (fun s h => h.2) ?_
      refine Spec.tryCatch ?_ hstable (fun _ h => h) fun e => ?_
      · refine (assertAuthority_spec authority).seq hstable (fun _ _ => trivial) fun _ => ?_
        refine Spec.bind (Q := fun _ _ => True)
          (commit_spec ((Stable.const True).and hstable) ?_) fun _ => ?_
        · rintro s now' a t hs ⟨-, hloaded, hr⟩ hput
          obtain rfl : id = loaded.record.taskId := hloaded.taskId.symm
          exact ⟨turn_putTask hs hloaded.copy hopen
            (hnext s loaded.record now hr hloaded.seen rfl hopen) hauth hput, trivial⟩
        · refine (assertAuthority_spec authority).bind fun _ => (load_spec id).bind
            fun persisted => ?_
          cases persisted with
          | none => exact fail_spec (.all fun _ => .imp fun h => nomatch h)
          | some persisted =>
            exact Spec.ret fun s h => ⟨(h persisted rfl).taskId, (h persisted rfl).seen⟩
      · split
        · exact ih.pre fun s h => h.2
        · exact Spec.throw

theorem update_transition_spec {id : PortableId}
    {next : TaskRecord → JsDate.Instant → TaskRecord} (hauth : authority.resource = leadership)
    (hsame : ∀ current now, SameTask current (next current now))
    (hrank : ∀ current now, current.state ≠ .terminal →
      current.state.rank ≤ (next current now).state.rank)
    (hcancellation : ∀ current now, KeepsCancellation current (next current now))
    (hauthority : ∀ current now, (next current now).authority = current.authority ∨
      (next current now).authority = some authority) :
    TaskSpec platform leadership P
      (transition platform me [] id authority next transitionAttempts)
      fun record s => record.taskId = id ∧ Seen leadership s record := by
  refine Spec.assume (fun _ => True) (fun _ _ => trivial) ?_
  exact transition_spec hauth (.const True) (fun s current now _ _ _ hopen =>
    .updated (hsame current now) (hrank current now hopen) (hcancellation current now)
      (hauthority current now)) _

theorem indeterminateRecord_same (record : TaskRecord) (error : TaskFailure)
    (now : JsDate.Instant) : SameTask record (indeterminateRecord record error now) :=
  ⟨rfl, rfl, rfl, rfl, rfl, rfl⟩

variable {record : TaskRecord}

section

variable (hauth : authority.resource = leadership)
include hauth

theorem settleUncertain_spec {error : TaskFailure} {allowEphemeral : Bool} :
    TaskSpec platform leadership (Seen leadership · record)
      (settleUncertain platform me record error authority allowEphemeral) fun _ _ => True := by
  refine Spec.seq (Q := fun prepared _ => ∀ r, prepared = some r →
    ∃ now, r = indeterminateRecord record error now)
    (segment_spec (stable_seen record) fun s now hs _ => ?_) (stable_seen record) (fun _ h => h)
    fun prepared => ?_
  · split
    · exact ⟨Quiet.refl hs, fun a ha r hr => by cases ha; cases hr⟩
    · refine ⟨Quiet.refl hs, fun a ha r hr => ⟨now, ?_⟩⟩
      subst hr
      cases hparse : parseTaskRecord platform (indeterminateRecord record error now) now with
      | error e =>
        rw [hparse] at ha
        cases ha
      | ok parsed =>
        rw [hparse] at ha
        obtain rfl := some.inj (ok.inj ha)
        exact parseTaskRecord_ok hparse
  · cases prepared with
    | none => exact Spec.ret fun _ _ => trivial
    | some r =>
      refine Spec.of_pure (p := ∃ now, r = indeterminateRecord record error now) ?_
        fun s h => h.1 r rfl
      rintro ⟨now, rfl⟩
      refine Spec.assume (Seen leadership · record) (fun s h => h.2) ?_
      refine Spec.tryCatch ?_ (stable_seen record) (fun _ h => h) fun e => ?_
      · refine Spec.bind (transition_spec hauth (stable_seen record) ?_ _) fun persisted =>
          update_spec ((Stable.const _).and (stable_seen _)) fun s hs _ =>
            Quiet.notify hs me persisted
        intro s current _ hseen hcurrent hid _
        have hsame : SameTask current record := seen_sameTask hcurrent hseen hid.symm
        exact .settled (hsame.trans (indeterminateRecord_same record error now))
          (TaskRecordState.rank_le_terminal _) hid.symm rfl rfl hseen.2
      · refine update_spec (stable_seen record) fun s hs hseen => ?_
        split
        · exact Quiet.refl hs
        have hset : Quiet leadership s (s.setEphemeral me record.taskId
            (some (indeterminateRecord record error now))) := by
          refine Quiet.setEphemeral hs me fun r hr => ?_
          obtain rfl := some.inj hr
          exact ⟨rfl, hseen.congr (indeterminateRecord_same record error now) hseen.2⟩
        exact hset.trans (Quiet.notify (hset.inv hs) me _)

theorem markDiagnostic_spec {diagnostic : JsDate.Instant → RuntimeDiagnostic} :
    TaskSpec platform leadership P (markDiagnostic platform me record authority diagnostic)
      fun _ _ => True := by
  refine Spec.bind (update_transition_spec hauth ?_ ?_ ?_ ?_) fun _ => Spec.ret fun _ _ => trivial
  · exact fun _ _ => ⟨rfl, rfl, rfl, rfl, rfl, rfl⟩
  · exact fun _ _ _ => Nat.le_refl _
  · exact fun _ _ h => h
  · exact fun _ _ => .inr rfl

theorem markUnknown_spec {code : TaskCode} :
    TaskSpec platform leadership P (markUnknown platform me record authority code)
      fun _ _ => True :=
  markDiagnostic_spec hauth

theorem markTargetUnavailable_spec {d : RuntimeDiagnostic} :
    TaskSpec platform leadership P (markTargetUnavailable platform me record authority d)
      fun _ _ => True :=
  markDiagnostic_spec hauth

theorem rejectAdmission_spec {error : TaskFailure}
    {retryable : Bool} :
    TaskSpec platform leadership P
      (rejectAdmission platform me record error authority retryable)
      fun result s => result.taskId = record.taskId ∧ Seen leadership s result := by
  refine Spec.bind (update_transition_spec hauth ?_ ?_ ?_ ?_) fun terminal => ?_
  · exact fun _ _ => ⟨rfl, rfl, rfl, rfl, rfl, rfl⟩
  · exact fun _ _ _ => TaskRecordState.rank_le_terminal _
  · exact fun _ _ h => h
  · exact fun _ _ => .inr rfl
  · have hstable : Stable (taskContract platform leadership) ∅ fun s =>
        terminal.taskId = record.taskId ∧ Seen leadership s terminal :=
      (Stable.const _).and (stable_seen terminal)
    exact Spec.seq (update_spec hstable fun s hs _ => Quiet.notify hs me terminal) hstable
      (fun _ h => h) fun _ => Spec.ret fun s h => h.2

theorem markRunning_spec :
    TaskSpec platform leadership P (markRunning platform me record authority)
      fun result s => result.taskId = record.taskId ∧ Seen leadership s result := by
  refine update_transition_spec hauth ?_ ?_ ?_ ?_
  · exact fun _ _ => ⟨rfl, rfl, rfl, rfl, rfl, rfl⟩
  · intro current _ hopen
    cases hstate : current.state with
    | accepted => exact Nat.zero_le _
    | running => exact Nat.le_refl _
    | terminal => exact absurd hstate hopen
  · exact fun _ _ h => h
  · exact fun _ _ => .inr rfl

theorem complete_spec {input : Option ExecutionResult}
    {registration : Option ExecutorRegistration} :
    TaskSpec platform leadership (Seen leadership · record)
      (complete platform me record input authority registration) fun _ _ => True := by
  refine Spec.tryFinally (Q := fun _ _ => True) (P := (Seen leadership · record)) ?_
    (stable_seen record) (fun _ h => h) (fun _ => .const True)
    (update_spec (stable_seen record) fun s hs _ => Quiet.unregister hs me _ _)
  refine Spec.tryCatch (P := fun _ => True) ?_ (stable_seen record) (fun _ _ => trivial)
    fun e => settleUncertain_spec hauth
  refine Spec.bind (Q := fun _ _ => True) (check_spec (.const True) fun _ _ _ _ _ _ => trivial)
    fun result => ?_
  split
  · exact fail_spec (.const True)
  split
  · exact fail_spec (.const True)
  refine Spec.bind (update_transition_spec hauth ?_ ?_ ?_ ?_) fun terminal =>
    update_spec ((Stable.const _).and (stable_seen _)) fun s hs _ =>
      Quiet.notify hs me terminal
  · exact fun _ _ => ⟨rfl, rfl, rfl, rfl, rfl, rfl⟩
  · exact fun _ _ _ => TaskRecordState.rank_le_terminal _
  · exact fun _ _ h => h
  · exact fun _ _ => .inr rfl

end

end TaskService

end TegoNext
