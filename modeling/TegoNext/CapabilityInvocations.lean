/-
What the capability routers agree on, and why an invocation is dispatched once.

A record is reserved by one execution, which alone dispatches it, once. Records keep their
fingerprint, and a record that is completed or failed does not change any more: what an execution
knows about a record carries over to whatever the store has become when it goes on. The token of
an execution is the index of its promise.
-/
import TegoNext.CapabilityRouter

set_option autoImplicit false

namespace TegoNext

open Async List Option

/-! ## Records and answers -/

namespace RouterWorld

def BoundTo (s : RouterWorld) (key fingerprint : JsString) : Prop :=
  ∃ v, s.store.record key = some v ∧ v.value.fingerprint = fingerprint

/-- The record is completed, and `value` is its result as it is handed out. -/
def CompletedWith (s : RouterWorld) (key fingerprint : JsString) (value : JsonValue) : Prop :=
  ∃ v result, s.store.record key = some v ∧ v.value.fingerprint = fingerprint ∧
    v.value.status = .completed ∧ v.value.result = some result ∧
    value = serializeWireValue result

def Promises (s : RouterWorld) (p : Nat) (key fingerprint : JsString) : Prop :=
  ∃ pr, s.promises[p]? = some pr ∧ pr.key = key ∧ pr.fingerprint = fingerprint

def DispatchedBy (s : RouterWorld) (p : Nat) : Prop :=
  ∃ key fingerprint, .dispatched p key fingerprint ∈ s.events

theorem CompletedWith.boundTo {s : RouterWorld} {key fingerprint : JsString} {value : JsonValue}
    (h : s.CompletedWith key fingerprint value) : s.BoundTo key fingerprint :=
  let ⟨v, _, hv, hf, _⟩ := h
  ⟨v, hv, hf⟩

theorem BoundTo.unique {s : RouterWorld} {key f f' : JsString} (h : s.BoundTo key f)
    (h' : s.BoundTo key f') : f = f' := by
  obtain ⟨v, hv, rfl⟩ := h
  obtain ⟨v', hv', rfl⟩ := h'
  rw [some.inj (hv.symm.trans hv')]

end RouterWorld

/-- The errors of a call whose fingerprint the record is not bound to. -/
def IsRejection (e : RouterFailure) : Prop :=
  e = idempotencyReuse ∨
    e = routerError .CAPABILITY_INVOCATION_CAPACITY_EXHAUSTED
      "Capability invocation capacity is full" ∨
    ∃ diagnostic message, e = .outside diagnostic message

section Contract

variable (platform : RouterPlatform)

/-- What an outcome says about the record of its invocation. -/
def Answered (s : RouterWorld) (key fingerprint : JsString) : Except RouterFailure JsonValue → Prop
  | .ok value => s.CompletedWith (durableInvocationKey platform key) fingerprint value
  | .error e => s.BoundTo (durableInvocationKey platform key) fingerprint ∨ IsRejection e

/-- What a suspended activity may rely on. -/
structure RouterGrows (s t : RouterWorld) : Prop where
  store : s.store.Evolves t.store
  record : ∀ key v, s.store.record key = some v → ∃ v', t.store.record key = some v' ∧
    v'.value.fingerprint = v.value.fingerprint ∧ (v.value.status ≠ .executing → v' = v)
  promise : ∀ (p : Nat) (pr : InvocationPromise), s.promises[p]? = some pr →
    ∃ pr' : InvocationPromise, t.promises[p]? = some pr' ∧ pr'.key = pr.key ∧
      pr'.fingerprint = pr.fingerprint ∧ (pr.outcome.isSome = true → pr'.outcome = pr.outcome)
  events : ∀ e ∈ s.events, e ∈ t.events

/-- A record changes in the name of an execution that has its fingerprint. -/
def RecordChange (s t : RouterWorld) : Prop :=
  ∀ key, t.store.record key ≠ s.store.record key → ∃ p invocation fingerprint,
    t.Promises p invocation fingerprint ∧ durableInvocationKey platform invocation = key ∧
    t.BoundTo key fingerprint ∧
    (t.events = .reserved p key :: s.events ∨ t.events = .completed p key :: s.events)

structure RouterInv (s : RouterWorld) : Prop where
  wellFormed : s.store.WellFormed
  reserved : ∀ p key, .reserved p key ∈ s.events → ∃ v, s.store.record key = some v
  reservedOnce : ∀ p p' key, .reserved p key ∈ s.events → .reserved p' key ∈ s.events → p = p'
  dispatched : ∀ p key fingerprint, .dispatched p key fingerprint ∈ s.events →
    p < s.promises.length ∧ .reserved p (durableInvocationKey platform key) ∈ s.events ∧
    s.BoundTo (durableInvocationKey platform key) fingerprint
  dispatchedOnce : s.events.Pairwise fun e e' => ∀ p p' key key' fingerprint fingerprint',
    e = .dispatched p key fingerprint → e' = .dispatched p' key' fingerprint' →
      durableInvocationKey platform key ≠ durableInvocationKey platform key'
  promise : ∀ (p : Nat) (pr : InvocationPromise) outcome, s.promises[p]? = some pr →
    pr.outcome = some outcome → Answered platform s pr.key pr.fingerprint outcome
  returned : ∀ key fingerprint outcome, .returned key fingerprint outcome ∈ s.events →
    Answered platform s key fingerprint outcome
  entry : ∀ me key entry, (key, entry) ∈ (s.routers me).invocations →
    s.Promises entry.result key entry.fingerprint

structure RouterLaw (s t : RouterWorld) : Prop where
  grows : RouterGrows s t
  change : RecordChange platform s t

end Contract

namespace RouterGrows

variable {s t u : RouterWorld}

theorem refl (s : RouterWorld) : RouterGrows s s :=
  ⟨.refl _, fun _ v h => ⟨v, h, rfl, fun _ => rfl⟩, fun _ pr h => ⟨pr, h, rfl, rfl, fun _ => rfl⟩,
    fun _ h => h⟩

theorem trans (hst : RouterGrows s t) (htu : RouterGrows t u) : RouterGrows s u where
  store := hst.store.trans htu.store
  record key v h := by
    obtain ⟨v₁, h₁, hf₁, hfinal₁⟩ := hst.record key v h
    obtain ⟨v₂, h₂, hf₂, hfinal₂⟩ := htu.record key v₁ h₁
    refine ⟨v₂, h₂, hf₂.trans hf₁, fun hstatus => ?_⟩
    obtain rfl := hfinal₁ hstatus
    exact hfinal₂ hstatus
  promise p pr h := by
    obtain ⟨pr₁, h₁, hk₁, hf₁, ho₁⟩ := hst.promise p pr h
    obtain ⟨pr₂, h₂, hk₂, hf₂, ho₂⟩ := htu.promise p pr₁ h₁
    refine ⟨pr₂, h₂, hk₂.trans hk₁, hf₂.trans hf₁, fun hsome => ?_⟩
    rw [ho₂ (by rw [ho₁ hsome]; exact hsome), ho₁ hsome]
  events e h := htu.events e (hst.events e h)

variable {key fingerprint : JsString}

theorem boundTo (h : RouterGrows s t)
    (hb : s.BoundTo key fingerprint) : t.BoundTo key fingerprint := by
  obtain ⟨v, hv, rfl⟩ := hb
  obtain ⟨v', hv', hf, -⟩ := h.record key v hv
  exact ⟨v', hv', hf⟩

theorem completedWith (h : RouterGrows s t) {value : JsonValue}
    (hc : s.CompletedWith key fingerprint value) : t.CompletedWith key fingerprint value := by
  obtain ⟨v, result, hv, hf, hstatus, hresult, hvalue⟩ := hc
  obtain ⟨v', hv', -, hfinal⟩ := h.record key v hv
  obtain rfl := hfinal (by rw [hstatus]; decide)
  exact ⟨v', result, hv', hf, hstatus, hresult, hvalue⟩

theorem promises (h : RouterGrows s t) {p : Nat}
    (hp : s.Promises p key fingerprint) : t.Promises p key fingerprint := by
  obtain ⟨pr, hpr, rfl, rfl⟩ := hp
  obtain ⟨pr', hpr', hk, hf, -⟩ := h.promise p pr hpr
  exact ⟨pr', hpr', hk, hf⟩

theorem promises_length (h : RouterGrows s t) : s.promises.length ≤ t.promises.length := by
  by_contra hlt
  rw [Nat.not_le] at hlt
  obtain ⟨_, h', -⟩ := h.promise t.promises.length _ (getElem?_eq_getElem hlt)
  rw [getElem?_eq_none (Nat.le_refl _)] at h'
  cases h'

theorem answered {platform : RouterPlatform} (h : RouterGrows s t)
    {outcome : Except RouterFailure JsonValue} (ha : Answered platform s key fingerprint outcome) :
    Answered platform t key fingerprint outcome := by
  cases outcome with
  | ok value => exact h.completedWith ha
  | error e => exact ha.imp_left h.boundTo

end RouterGrows

def routerContract (platform : RouterPlatform) : Contract RouterWorld Nat where
  inv := RouterInv platform
  cond _ _ := True
  law := RouterLaw platform
  rely := RouterGrows
  rely_refl := .refl
  rely_trans := .trans
  rely_of_law _ h := h.grows
  allocated s p := p < s.promises.length
  allocated_of_law h hp := Nat.lt_of_lt_of_le hp h.grows.promises_length
  frame p s t := t.DispatchedBy p → s.DispatchedBy p
  frame_refl _ _ := id
  frame_trans h h' := h ∘ h'

/-! ## Turns -/

section Turns

variable {platform : RouterPlatform} {s t : RouterWorld} {uses : Set Nat}

/-- What has to be known of a new event. -/
def EventLaw (platform : RouterPlatform) (uses : Set Nat) (s t : RouterWorld) : RouterEvent → Prop
  | .reserved _ key => s.store.record key = none ∧ ∃ v, t.store.record key = some v
  | .dispatched p key fingerprint => p ∈ uses ∧ p < s.promises.length ∧
      .reserved p (durableInvocationKey platform key) ∈ s.events ∧
      s.BoundTo (durableInvocationKey platform key) fingerprint ∧ ¬ s.DispatchedBy p
  | .completed _ _ => True
  | .returned key fingerprint outcome => Answered platform s key fingerprint outcome

theorem turn_of_grows (hs : RouterInv platform s) (hgrows : RouterGrows s t)
    (hwf : t.store.WellFormed) (hchange : RecordChange platform s t)
    (hevents : t.events = s.events ∨ ∃ e, t.events = e :: s.events ∧ EventLaw platform uses s t e)
    (hpromise : ∀ (p : Nat) (pr : InvocationPromise) outcome, t.promises[p]? = some pr →
      pr.outcome = some outcome → (∃ pr₀ : InvocationPromise, s.promises[p]? = some pr₀ ∧
        pr₀.outcome = some outcome) ∨ Answered platform t pr.key pr.fingerprint outcome)
    (hentry : ∀ me key entry, (key, entry) ∈ (t.routers me).invocations →
      (key, entry) ∈ (s.routers me).invocations ∨ t.Promises entry.result key entry.fingerprint) :
    Turn (routerContract platform) uses s t := by
  have hmem : ∀ e ∈ t.events, e ∈ s.events ∨ EventLaw platform uses s t e := by
    intro e he
    rcases hevents with heq | ⟨e', heq, hlaw⟩
    · exact .inl (heq ▸ he)
    · rw [heq] at he
      rcases mem_cons.mp he with rfl | he
      · exact .inr hlaw
      · exact .inl he
  refine ⟨?_, ⟨hgrows, hchange⟩, ?_⟩
  · refine ⟨hwf, fun p key hp => ?_, ?_, fun p key fingerprint hp => ?_, ?_,
      fun p pr outcome hp ho => ?_, fun key fingerprint outcome hr => ?_, fun me key entry he => ?_⟩
    · rcases hmem _ hp with hold | ⟨-, hnew⟩
      · obtain ⟨v, hv⟩ := hs.reserved p key hold
        obtain ⟨v', hv', -⟩ := hgrows.record key v hv
        exact ⟨v', hv'⟩
      · exact hnew
    · rcases hevents with heq | ⟨e, heq, hlaw⟩
      · rw [heq]
        exact hs.reservedOnce
      · -- what was reserved has a record, so it is not reserved again
        have hfresh : ∀ p p' key, e = .reserved p key → .reserved p' key ∉ s.events := by
          rintro p p' key rfl hold
          obtain ⟨v, hv⟩ := hs.reserved p' key hold
          rw [hlaw.1] at hv
          cases hv
        rw [heq]
        intro p p' key hp hp'
        rcases mem_cons.mp hp with h | hp
        · rcases mem_cons.mp hp' with h' | hp'
          · exact (RouterEvent.reserved.inj (h.trans h'.symm)).1
          · exact absurd hp' (hfresh p p' key h.symm)
        · rcases mem_cons.mp hp' with h' | hp'
          · exact absurd hp (hfresh p' p key h'.symm)
          · exact hs.reservedOnce p p' key hp hp'
    · rcases hmem _ hp with hold | ⟨-, hlt, hres, hbound, -⟩
      · obtain ⟨hlt, hres, hbound⟩ := hs.dispatched p key fingerprint hold
        exact ⟨Nat.lt_of_lt_of_le hlt hgrows.promises_length, hgrows.events _ hres,
          hgrows.boundTo hbound⟩
      · exact ⟨Nat.lt_of_lt_of_le hlt hgrows.promises_length, hgrows.events _ hres,
          hgrows.boundTo hbound⟩
    · rcases hevents with heq | ⟨e, heq, hlaw⟩
      · rw [heq]
        exact hs.dispatchedOnce
      · rw [heq]
        refine pairwise_cons.mpr
          ⟨fun e' he' p p' key key' fingerprint fingerprint' he₁ he₂ hkey => ?_, hs.dispatchedOnce⟩
        subst he₁ he₂
        obtain ⟨-, -, hres, -, hnot⟩ := hlaw
        obtain ⟨-, hres', -⟩ := hs.dispatched p' key' fingerprint' he'
        -- both executions have reserved the record, so they are the same
        obtain rfl := hs.reservedOnce p p' _ hres (hkey ▸ hres')
        exact hnot ⟨key', fingerprint', he'⟩
    · rcases hpromise p pr outcome hp ho with ⟨pr₀, hpr₀, ho₀⟩ | hnew
      · obtain ⟨pr', hpr', hk, hf, -⟩ := hgrows.promise p pr₀ hpr₀
        obtain rfl := some.inj (hp.symm.trans hpr')
        rw [hk, hf]
        exact hgrows.answered (hs.promise p pr₀ outcome hpr₀ ho₀)
      · exact hnew
    · rcases hmem _ hr with hold | hnew
      · exact hgrows.answered (hs.returned key fingerprint outcome hold)
      · exact hgrows.answered hnew
    · rcases hentry me key entry he with hold | hnew
      · exact hgrows.promises (hs.entry me key entry hold)
      · exact hnew
  · rintro p hp - ⟨key, fingerprint, hd⟩
    rcases hmem _ hd with hold | ⟨huses, -⟩
    · exact ⟨key, fingerprint, hold⟩
    · exact absurd huses hp

theorem stutters_routerContract : Stutters (routerContract platform) :=
  fun s _ => ⟨.refl s, fun _ h => absurd rfl h⟩

theorem turn_quiet (hs : RouterInv platform s) (hevolves : s.store.Evolves t.store)
    (hwf : t.store.WellFormed) (hrecord : t.store.record = s.store.record)
    (hpromises : t.promises = s.promises)
    (hevents : t.events = s.events ∨ ∃ e, t.events = e :: s.events ∧ EventLaw platform uses s t e)
    (hentry : ∀ me key entry, (key, entry) ∈ (t.routers me).invocations →
      (key, entry) ∈ (s.routers me).invocations) :
    Turn (routerContract platform) uses s t := by
  refine turn_of_grows hs ⟨hevolves, fun key v hv => ?_, fun p pr hp => ?_, fun e he => ?_⟩ hwf
    (fun key hne => absurd (by rw [hrecord]) hne) hevents (fun p pr outcome hp ho => ?_)
    fun me key entry he => .inl (hentry me key entry he)
  · exact ⟨v, by rw [hrecord]; exact hv, rfl, fun _ => rfl⟩
  · exact ⟨pr, by rw [hpromises]; exact hp, rfl, rfl, fun _ => rfl⟩
  · rcases hevents with heq | ⟨e', heq, -⟩
    · exact heq ▸ he
    · exact heq ▸ mem_cons_of_mem _ he
  · exact .inl ⟨pr, by rw [← hpromises]; exact hp, ho⟩

theorem turn_setInvocations {me : Nat} {invocations : List (JsString × InvocationEntry)}
    (hs : RouterInv platform s)
    (hsub : ∀ entry ∈ invocations, entry ∈ (s.routers me).invocations) :
    Turn (routerContract platform) uses s (s.setInvocations me invocations) := by
  refine turn_quiet hs (.refl _) hs.wellFormed rfl rfl (.inl rfl) fun me' key entry he => ?_
  by_cases hme : me' = me
  · subst hme
    rw [RouterWorld.setInvocations_self] at he
    exact hsub _ he
  · rw [RouterWorld.setInvocations_of_ne _ hme] at he
    exact he

variable {key fingerprint : JsString}

theorem turn_returned {outcome : Except RouterFailure JsonValue}
    (hs : RouterInv platform s) (ha : Answered platform s key fingerprint outcome) :
    Turn (routerContract platform) uses s (s.log (.returned key fingerprint outcome)) :=
  turn_quiet hs (.refl _) hs.wellFormed rfl rfl (.inr ⟨_, rfl, ha⟩) fun _ _ _ h => h

theorem turn_dispatched {p : Nat} (hs : RouterInv platform s) (hp : s.Promises p key fingerprint)
    (hres : .reserved p (durableInvocationKey platform key) ∈ s.events)
    (hbound : s.BoundTo (durableInvocationKey platform key) fingerprint)
    (hnot : ¬ s.DispatchedBy p) :
    Turn (routerContract platform) {p} s (s.log (.dispatched p key fingerprint)) := by
  obtain ⟨pr, hpr, -⟩ := hp
  have hlt : p < s.promises.length := (List.getElem?_eq_some_iff.mp hpr).1
  exact turn_quiet hs (.refl _) hs.wellFormed rfl rfl
    (.inr ⟨_, rfl, rfl, hlt, hres, hbound, hnot⟩) fun _ _ _ h => h

/-- A promise that is settled keeps its outcome. -/
theorem turn_modifyPromise {p : Nat} {f : InvocationPromise → InvocationPromise}
    (hs : RouterInv platform s) (hf : ∀ pr : InvocationPromise, s.promises[p]? = some pr →
      (f pr).key = pr.key ∧ (f pr).fingerprint = pr.fingerprint ∧
        ((f pr).outcome = pr.outcome ∨ pr.outcome = none ∧
          ∀ outcome, (f pr).outcome = some outcome →
            Answered platform s pr.key pr.fingerprint outcome)) :
    Turn (routerContract platform) uses s { s with promises := s.promises.modify p f } := by
  refine turn_of_grows hs ⟨.refl _, fun key v hv => ⟨v, hv, rfl, fun _ => rfl⟩, fun i pr hi => ?_,
    fun _ he => he⟩ hs.wellFormed (fun key hne => absurd rfl hne) (.inl rfl)
    (fun i pr' outcome hi ho => ?_) fun _ _ _ h => .inl h
  · refine ⟨if p = i then f pr else pr, by rw [getElem?_modify, hi]; split <;> rfl, ?_⟩
    split
    · next hpi =>
      obtain ⟨hkey, hfingerprint, hsame | ⟨hnone, -⟩⟩ := hf pr (hpi ▸ hi)
      · exact ⟨hkey, hfingerprint, fun _ => hsame⟩
      · refine ⟨hkey, hfingerprint, fun hsome => ?_⟩
        rw [hnone] at hsome
        cases hsome
    · exact ⟨rfl, rfl, fun _ => rfl⟩
  · rw [getElem?_modify] at hi
    obtain ⟨pr, hpr, rfl⟩ := Option.map_eq_some_iff.mp hi
    split at ho
    · next hpi =>
      obtain ⟨hkey, hfingerprint, hsame | ⟨-, hanswered⟩⟩ := hf pr (hpi ▸ hpr)
      · exact .inl ⟨pr, hpr, hsame ▸ ho⟩
      · rw [if_pos hpi, hkey, hfingerprint]
        exact .inr (hanswered outcome ho)
    · exact .inl ⟨pr, hpr, ho⟩

theorem turn_settle {p : Nat}
    {outcome : Except RouterFailure JsonValue} (hs : RouterInv platform s)
    (hp : s.Promises p key fingerprint) (ha : Answered platform s key fingerprint outcome) :
    Turn (routerContract platform) uses s (s.settle p outcome) := by
  refine turn_modifyPromise hs fun pr hpr => ?_
  obtain ⟨pr₀, hpr₀, rfl, rfl⟩ := hp
  obtain rfl := some.inj (hpr.symm.trans hpr₀)
  split
  · next hnone =>
    refine ⟨rfl, rfl, .inr ⟨isNone_iff_eq_none.mp hnone, fun outcome' ho => ?_⟩⟩
    obtain rfl := some.inj ho
    exact ha
  · exact ⟨rfl, rfl, .inl rfl⟩

/-- `settled` flags are looked at by the maps only. -/
theorem turn_markSettled {p : Nat} (hs : RouterInv platform s) :
    Turn (routerContract platform) uses s (s.markSettled p) :=
  turn_modifyPromise hs fun _ _ => ⟨rfl, rfl, .inl rfl⟩

theorem turn_addInvocation (hs : RouterInv platform s) (uses : Set Nat) (me : Nat)
    (key fingerprint : JsString) :
    Turn (routerContract platform) uses s (s.addInvocation me key fingerprint) := by
  have hnew : (s.addInvocation me key fingerprint).Promises s.promises.length key fingerprint :=
    ⟨⟨key, fingerprint, none, false⟩, getElem?_concat_length, rfl, rfl⟩
  have hold : ∀ (i : Nat) (pr : InvocationPromise), s.promises[i]? = some pr →
      (s.addInvocation me key fingerprint).promises[i]? = some pr := by
    intro i pr hi
    exact getElem?_append_of_some hi
  refine turn_of_grows hs ⟨.refl _, fun key v hv => ⟨v, hv, rfl, fun _ => rfl⟩,
    fun i pr hi => ⟨pr, hold i pr hi, rfl, rfl, fun _ => rfl⟩, fun _ he => he⟩ hs.wellFormed
    (fun key hne => absurd rfl hne) (.inl rfl) (fun i pr outcome hi ho => ?_)
    fun me' key' entry he => ?_
  · rcases getElem?_concat_cases hi with hi | ⟨-, rfl⟩
    · exact .inl ⟨_, hi, ho⟩
    · -- the new promise has no outcome
      cases ho
  · have he' : (key', entry) ∈ ((s.setInvocations me ((s.routers me).invocations ++
        [(key, ⟨fingerprint, s.promises.length⟩)])).routers me').invocations := he
    by_cases hme : me' = me
    · subst hme
      rw [RouterWorld.setInvocations_self] at he'
      rcases mem_append.mp he' with he' | he'
      · exact .inl he'
      · rw [mem_singleton] at he'
        obtain ⟨rfl, rfl⟩ := Prod.mk.inj he'
        exact .inr hnew
    · rw [RouterWorld.setInvocations_of_ne _ hme] at he'
      exact .inl he'

theorem putRecord_ok {record : DurableInvocationRecord} {expected : Expected}
    {note : RouterEvent} (h : s.putRecord key record expected note = .ok t) :
    expected.matches (s.store.record key) = true ∧ s.store.Evolves t.store ∧
      (s.store.WellFormed → t.store.WellFormed) ∧
      (∃ revision, t.store.record = Function.update s.store.record key (some ⟨record, revision⟩)) ∧
      t.promises = s.promises ∧ t.routers = s.routers ∧ t.events = note :: s.events := by
  unfold RouterWorld.putRecord at h
  split at h
  · cases h
  next store hstore =>
  obtain rfl := Except.ok.inj h
  obtain ⟨hmatches, -, hrecord⟩ := CasStore.commit_put hstore
  exact ⟨hmatches, CasStore.evolves_commit hstore,
    fun hwf => CasStore.wellFormed_commit hwf hstore, ⟨_, hrecord⟩, rfl, rfl, rfl⟩

/-- An execution writes over no record, to reserve it, or over its own, to complete it. -/
def MayPut (s : RouterWorld) (p : Nat) (key fingerprint : JsString) (expected : Expected)
    (note : RouterEvent) : Prop :=
  expected.matches (s.store.record key) = true →
    (s.store.record key = none ∧ note = .reserved p key) ∨
    ∃ v, s.store.record key = some v ∧ v.value.fingerprint = fingerprint ∧
      v.value.status = .executing ∧ note = .completed p key

theorem turn_putRecord {p : Nat} {invocation : JsString}
    {record : DurableInvocationRecord} {expected : Expected} {note : RouterEvent}
    (hs : RouterInv platform s) (hp : s.Promises p invocation fingerprint)
    (hrecord : record.fingerprint = fingerprint)
    (hover : MayPut s p (durableInvocationKey platform invocation) fingerprint expected note)
    (h : s.putRecord (durableInvocationKey platform invocation) record expected note = .ok t) :
    Turn (routerContract platform) uses s t := by
  obtain ⟨hmatches, hevolves, hwf, ⟨revision, hrec⟩, hpromises, hrouters, hevents⟩ := putRecord_ok h
  have hnew : t.store.record (durableInvocationKey platform invocation) =
      some ⟨record, revision⟩ := by
    rw [hrec, Function.update_self]
  have hother : ∀ key, key ≠ durableInvocationKey platform invocation →
      t.store.record key = s.store.record key := fun key hne => by
    rw [hrec, Function.update_of_ne hne]
  have hgrows : RouterGrows s t := by
    refine ⟨hevolves, fun key v hv => ?_, fun i pr hi => ?_, fun e he => ?_⟩
    · by_cases hkey : key = durableInvocationKey platform invocation
      · subst hkey
        rcases hover hmatches with ⟨hnone, -⟩ | ⟨v', hv', hf, hstatus, -⟩
        · rw [hnone] at hv
          cases hv
        · obtain rfl := some.inj (hv.symm.trans hv')
          exact ⟨_, hnew, hrecord.trans hf.symm, fun hne => absurd hstatus hne⟩
      · exact ⟨v, by rw [hother key hkey, hv], rfl, fun _ => rfl⟩
    · exact ⟨pr, by rw [hpromises]; exact hi, rfl, rfl, fun _ => rfl⟩
    · exact hevents ▸ mem_cons_of_mem _ he
  refine turn_of_grows hs hgrows (hwf hs.wellFormed) (fun key hne => ?_) (.inr ⟨note, hevents, ?_⟩)
    (fun i pr outcome hi ho => .inl ⟨pr, by rw [← hpromises]; exact hi, ho⟩)
    fun me key entry he => .inl (by rw [← hrouters]; exact he)
  · by_cases hkey : key = durableInvocationKey platform invocation
    · subst hkey
      refine ⟨p, invocation, fingerprint, hgrows.promises hp, rfl, ⟨_, hnew, hrecord⟩, ?_⟩
      rcases hover hmatches with ⟨-, rfl⟩ | ⟨_, -, -, -, rfl⟩
      · exact .inl hevents
      · exact .inr hevents
    · exact absurd (hother key hkey) hne
  · rcases hover hmatches with ⟨hnone, rfl⟩ | ⟨_, -, -, -, rfl⟩
    · exact ⟨hnone, _, hnew⟩
    · trivial

end Turns

end TegoNext
