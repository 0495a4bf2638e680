/-
Every activity of the capability routers keeps the contract.

The admission says whose record it is, the execution dispatches under the reservation, the
completion hands out a record that will not change, and the promise is settled with what was
found.
-/
import TegoNext.CapabilityInvocations

set_option autoImplicit false

namespace TegoNext

open Async Text List Option Except

namespace CapabilityRouter

variable {platform : RouterPlatform} {uses : Set Nat} {p : Nat}
  {invocation fingerprint : JsString}

/-! ## What stays known -/

variable {key : JsString}

theorem stable_boundTo {fingerprint : JsString} :
    Stable (routerContract platform) uses fun s => s.BoundTo key fingerprint :=
  Stable.of_rely fun _ _ h => h.boundTo

theorem stable_promises :
    Stable (routerContract platform) uses fun s => s.Promises p invocation fingerprint :=
  Stable.of_rely fun _ _ h => h.promises

theorem stable_event {e : RouterEvent} :
    Stable (routerContract platform) uses fun s => e ∈ s.events :=
  Stable.of_rely fun _ _ h => h.events e

theorem stable_notDispatched : Stable (routerContract platform) {p} fun s => ¬ s.DispatchedBy p :=
  fun _ _ _ hframe hnot h => hnot (hframe p rfl h)

/-- What is known of a record that was read. -/
def Held (s : RouterWorld) (key : JsString) (v : Versioned DurableInvocationRecord) : Prop :=
  s.store.IsCopy key v ∧ s.BoundTo key v.value.fingerprint ∧
    (v.value.status ≠ .executing → s.store.record key = some v)

theorem stable_held {v : Versioned DurableInvocationRecord} :
    Stable (routerContract platform) uses fun s => Held s key v := by
  refine Stable.of_rely fun s t h => ?_
  rintro ⟨hcopy, hbound, hfinal⟩
  refine ⟨hcopy.mono h.store, h.boundTo hbound, fun hstatus => ?_⟩
  obtain ⟨v', hv', -, hsame⟩ := h.record key v (hfinal hstatus)
  rw [hv', hsame hstatus]

def Stands (s : RouterWorld) (key : JsString) (record : DurableInvocationRecord) : Prop :=
  ∃ v, s.store.record key = some v ∧ v.value = record

variable {s : RouterWorld}

theorem Held.stands {v : Versioned DurableInvocationRecord}
    (h : Held s key v) (hstatus : v.value.status ≠ .executing) : Stands s key v.value :=
  ⟨v, h.2.2 hstatus, rfl⟩

theorem completedWith_of_stands
    {record : DurableInvocationRecord} {value : JsonValue} (h : Stands s key record)
    (hf : record.fingerprint = fingerprint)
    (hvalue : successfulInvocationResult record = .ok value) :
    s.CompletedWith key fingerprint value := by
  obtain ⟨v, hv, rfl⟩ := h
  unfold successfulInvocationResult at hvalue
  split at hvalue
  · next result hstatus hresult =>
    exact ⟨v, result, hv, hf, hstatus, hresult, (ok.inj hvalue).symm⟩
  · cases hvalue

/-- Errors of the store. -/
def IsOutside (e : RouterFailure) : Prop := ∃ diagnostic message, e = .outside diagnostic message

/-! ## Reading and committing -/

variable {P : RouterWorld → Prop}

theorem triple_get (hP : Stable (routerContract platform) uses P) (key : JsString) :
    Triple (routerContract platform) uses P (get key)
      (fun existing s => (∀ v, existing = some v → Held s key v) ∧ P s)
      fun e s => IsOutside e ∧ P s := by
  refine Triple.look stutters_routerContract hP (fun _ _ => rfl) (fun s r existing hs hp h => ?_)
    fun s r e hs hp h => ?_
  · refine ⟨fun v hv => ?_, hp⟩
    have hrecord : s.store.record key = some v := by
      cases r with
      | failed => cases h
      | _ => exact (ok.inj h).trans hv
    exact ⟨CasStore.IsCopy.of_record hs.wellFormed hrecord, ⟨v, hrecord, rfl⟩, fun _ => hrecord⟩
  · cases r with
    | failed diagnostic message => exact ⟨⟨_, _, (error.inj h).symm⟩, hp⟩
    | _ => cases h

theorem triple_commit_none (hP : Stable (routerContract platform) uses P) :
    Triple (routerContract platform) uses P (commit none) (fun _ => P)
      fun e s => IsOutside e ∧ P s := by
  refine Triple.look stutters_routerContract hP (fun s r => by cases r <;> rfl)
    (fun s r _ hs hp _ => hp) fun s r e hs hp h => ?_
  cases r with
  | failed | lost => exact ⟨⟨_, _, (error.inj h).symm⟩, hp⟩
  | _ => cases h

theorem triple_commit_put {record : DurableInvocationRecord}
    {expected : Expected} {note : RouterEvent} (hP : Stable (routerContract platform) uses P)
    (hp : ∀ s, P s → s.Promises p invocation fingerprint) (hrecord : record.fingerprint = fingerprint)
    (hover : ∀ s, P s →
      MayPut s p (durableInvocationKey platform invocation) fingerprint expected note) :
    Triple (routerContract platform) uses P
      (commit (some (durableInvocationKey platform invocation, record, expected, note)))
      (fun _ s => Stands s (durableInvocationKey platform invocation) record ∧ note ∈ s.events)
      fun e _ => IsOutside e := by
  refine Triple.atomically fun s t r hps hst hframe ht _ => ?_
  have hpt := hP s t hst hframe hps
  have hkeep : Turn (routerContract platform) uses t t := stutters_routerContract.turn ht
  have hput : ∀ u, t.putRecord (durableInvocationKey platform invocation) record expected note =
      .ok u → Turn (routerContract platform) uses t u ∧
        Stands u (durableInvocationKey platform invocation) record ∧ note ∈ u.events := by
    intro u hu
    refine ⟨turn_putRecord ht (hp t hpt) hrecord (hover t hpt) hu, ?_⟩
    obtain ⟨-, -, -, ⟨revision, hrec⟩, -, -, hevents⟩ := putRecord_ok hu
    exact ⟨⟨⟨record, revision⟩, by rw [hrec, Function.update_self], rfl⟩, hevents ▸ mem_cons_self⟩
  have herror : ∀ e, t.putRecord (durableInvocationKey platform invocation) record expected note =
      .error e → IsOutside e := by
    intro e he
    unfold RouterWorld.putRecord at he
    split at he
    · exact ⟨_, _, (error.inj he).symm⟩
    · cases he
  cases hres : t.putRecord (durableInvocationKey platform invocation) record expected note with
  | error e =>
    cases r with
    | failed diagnostic message => exact ⟨hkeep, thrown ⟨_, _, rfl⟩⟩
    | _ =>
      simp only [hres]
      exact ⟨hkeep, thrown (herror e hres)⟩
  | ok u =>
    obtain ⟨hturn, hstands, hnote⟩ := hput u hres
    cases r with
    | failed diagnostic message => exact ⟨hkeep, thrown ⟨_, _, rfl⟩⟩
    | lost diagnostic message =>
      simp only [hres]
      exact ⟨hturn, thrown ⟨_, _, rfl⟩⟩
    | _ =>
      simp only [hres]
      exact ⟨hturn, fun _ _ => ⟨hstands, hnote⟩, fun _ h => (nomatch h)⟩

/-! ## One invocation -/

/-- What an admission has found out. -/
structure Admitted (s : RouterWorld) (p : Nat) (key fingerprint : JsString) (claimed : Bool)
    (record : DurableInvocationRecord) : Prop where
  bound : s.BoundTo key fingerprint
  same : record.fingerprint = fingerprint
  reserved : claimed = true → .reserved p key ∈ s.events
  final : record.status ≠ .executing → Stands s key record

theorem triple_admission (platform : RouterPlatform) (uses : Set Nat) (p : Nat)
    (invocation fingerprint : JsString) :
    Triple (routerContract platform) uses (fun s => s.Promises p invocation fingerprint)
      (admission p (durableInvocationKey platform invocation) fingerprint)
      (fun r s => Admitted s p (durableInvocationKey platform invocation) fingerprint r.1 r.2)
      fun e _ => IsRejection e := by
  refine Triple.bind (Q := fun existing s =>
      (∀ v, existing = some v → Held s (durableInvocationKey platform invocation) v) ∧
        s.Promises p invocation fingerprint)
    (Triple.conseq (triple_get stable_promises _) (fun _ _ h => h) (fun _ _ _ h => h)
      fun _ _ _ h => .inr (.inr h.1)) fun existing => ?_
  cases existing with
  | none =>
    refine Triple.bind (Q := fun _ s => Stands s (durableInvocationKey platform invocation) _ ∧
        .reserved p (durableInvocationKey platform invocation) ∈ s.events)
      (Triple.conseq (triple_commit_put (P := fun s => s.Promises p invocation fingerprint)
        stable_promises (fun _ h => h) rfl fun s _ hmatches => .inl ⟨?_, rfl⟩)
        (fun _ _ h => h.2) (fun _ _ _ h => h) fun _ _ _ h => .inr (.inr h))
      fun _ => Triple.pure fun s _ h => ?_
    · simpa [Expected.matches] using hmatches
    · obtain ⟨⟨v, hv, hvalue⟩, hreserved⟩ := h
      exact ⟨⟨v, hv, by rw [hvalue]⟩, rfl, fun _ => hreserved, fun hne => absurd rfl hne⟩
  | some v =>
    dsimp only
    split
    · exact Triple.throw fun _ _ _ => .inl rfl
    next hf =>
    rw [not_not] at hf
    refine Triple.bind (Triple.conseq (triple_commit_none
        (P := fun s => Held s (durableInvocationKey platform invocation) v) stable_held)
      (fun _ _ h => h.1 v rfl) (fun _ _ _ h => h) fun _ _ _ h => .inr (.inr h.1))
      fun _ => Triple.pure fun s _ h => ?_
    exact ⟨hf ▸ h.2.1, hf, fun hclaimed => absurd hclaimed Bool.false_ne_true, h.stands⟩

theorem spec_execute (platform : RouterPlatform) (p : Nat) (consumer : ComponentInstanceIdentity)
    (call : RoutedCapabilityInvocation) (invocation fingerprint : JsString) (guarded : Bool) :
    Spec (routerContract platform) {p}
      (fun s => s.Promises p invocation fingerprint ∧
        .reserved p (durableInvocationKey platform invocation) ∈ s.events ∧
        s.BoundTo (durableInvocationKey platform invocation) fingerprint ∧ ¬ s.DispatchedBy p)
      (execute platform p consumer call invocation fingerprint guarded) fun _ _ => True := by
  have hstable : Stable (routerContract platform) {p} fun s =>
      s.Promises p invocation fingerprint ∧
        .reserved p (durableInvocationKey platform invocation) ∈ s.events ∧
        s.BoundTo (durableInvocationKey platform invocation) fingerprint ∧ ¬ s.DispatchedBy p :=
    stable_promises.and (stable_event.and (stable_boundTo.and stable_notDispatched))
  refine Spec.bind (Spec.look stutters_routerContract hstable (fun _ _ => rfl)
    fun _ _ _ _ h _ => h) fun route => ?_
  refine Spec.bind (Spec.ofExcept fun _ _ _ h => h) fun checked => ?_
  obtain ⟨value, gate⟩ := checked
  refine Spec.bind (Q := fun _ _ => True) (Spec.turn hstable fun s r hs hp _ _ =>
    ⟨?_, fun _ _ => trivial⟩) fun _ => Spec.bind (Q := fun _ _ => True)
      (Spec.look stutters_routerContract (Stable.const True) (fun _ _ => rfl)
        fun _ _ _ _ _ _ => trivial) fun response => ?_
  · obtain ⟨hpromises, hreserved, hbound, hnot⟩ := hp
    have hkeep : Turn (routerContract platform) {p} s s := stutters_routerContract.turn hs
    have hdispatched := turn_dispatched hs hpromises hreserved hbound hnot
    cases r with
    | revalidated current inactive =>
      cases current with
      | false => exact hkeep
      | true =>
        cases guarded with
        | false => exact hdispatched
        | true =>
          cases inactive with
          | none => exact hdispatched
          | some e => exact hkeep
    | _ => exact hkeep
  · cases gate.response response with
    | error message => exact Spec.throw
    | ok value => exact Spec.ret fun _ _ => trivial

theorem spec_completeInvocation {terminal : DurableInvocationRecord}
    (hf : terminal.fingerprint = fingerprint) :
    Spec (routerContract platform) uses (fun s => s.Promises p invocation fingerprint)
      (completeInvocation p (durableInvocationKey platform invocation) fingerprint terminal)
      fun record s => record.fingerprint = fingerprint ∧
        Stands s (durableInvocationKey platform invocation) record := by
  refine Spec.bind (Q := fun existing s =>
      (∀ v, existing = some v → Held s (durableInvocationKey platform invocation) v) ∧
        s.Promises p invocation fingerprint)
    (Triple.conseq (triple_get stable_promises _) (fun _ _ h => h) (fun _ _ _ h => h)
      fun _ _ _ _ => trivial) fun existing => ?_
  cases existing with
  | none => exact Spec.throw
  | some v =>
    dsimp only
    split
    · exact Spec.throw
    next hsame =>
    rw [not_not] at hsame
    split
    · next hstatus =>
      refine Spec.bind (Triple.conseq (triple_commit_none
          (P := fun s => Held s (durableInvocationKey platform invocation) v) stable_held)
        (fun _ _ h => h.1 v rfl) (fun _ _ _ h => h) fun _ _ _ _ => trivial)
        fun _ => Spec.ret fun s h => ⟨hsame, h.stands hstatus⟩
    · next hstatus =>
      rw [not_not] at hstatus
      refine Spec.bind (Triple.conseq (triple_commit_put
          (P := fun s => Held s (durableInvocationKey platform invocation) v ∧
            s.Promises p invocation fingerprint)
          (stable_held.and stable_promises) (fun _ h => h.2) hf fun s hs hmatches => ?_)
        (fun _ _ h => ⟨h.1 v rfl, h.2⟩) (fun _ _ _ h => h.1) fun _ _ _ _ => trivial)
        fun _ => Spec.ret fun s h => ⟨hf, h⟩
      exact .inr ⟨v, hs.1.1.record_eq_of_matches hmatches, hsame, hstatus, rfl⟩

theorem spec_reloadSuccessfulInvocation :
    Spec (routerContract platform) uses (fun _ => True)
      (reloadSuccessfulInvocation (durableInvocationKey platform invocation) fingerprint)
      fun value s => s.CompletedWith (durableInvocationKey platform invocation) fingerprint value := by
  refine Spec.bind (Q := fun existing s =>
      ∀ v, existing = some v → Held s (durableInvocationKey platform invocation) v)
    (Triple.tryCatch (E := fun _ _ => True) (Triple.conseq (triple_get (Stable.const True) _)
      (fun _ _ h => h) (fun _ _ _ h => h.1) fun _ _ _ _ => trivial) fun _ => Spec.throw)
    fun existing => ?_
  cases existing with
  | none => exact Spec.throw
  | some v =>
    dsimp only
    split
    · exact Spec.throw
    next hsame =>
    rw [not_not] at hsame
    refine Spec.ofExcept fun value s hvalue hheld => ?_
    refine completedWith_of_stands ((hheld v rfl).stands ?_) hsame hvalue
    unfold successfulInvocationResult at hvalue
    split at hvalue
    · next hstatus _ => rw [hstatus]; decide
    · cases hvalue

/-- **An invocation answers for its record.** -/
theorem triple_executeDurable (platform : RouterPlatform) (p : Nat)
    (consumer : ComponentInstanceIdentity) (call : RoutedCapabilityInvocation)
    (invocation fingerprint : JsString) (guarded : Bool) :
    Triple (routerContract platform) {p}
      (fun s => s.Promises p invocation fingerprint ∧ ¬ s.DispatchedBy p)
      (executeDurable platform p consumer call invocation fingerprint guarded)
      (fun value s => Answered platform s invocation fingerprint (.ok value))
      fun e s => Answered platform s invocation fingerprint (.error e) := by
  have hkept : Stable (routerContract platform) {p} fun s =>
      s.Promises p invocation fingerprint ∧ ¬ s.DispatchedBy p :=
    stable_promises.and stable_notDispatched
  have hadmission := Triple.frame (triple_admission platform ∅ p invocation fingerprint) hkept
  refine Triple.bind (Triple.conseq hadmission (fun _ _ h => ⟨h.1, h⟩) (fun _ _ _ h => h)
    fun _ _ _ h => .inr h.1) fun admitted => ?_
  obtain ⟨claimed, record⟩ := admitted
  dsimp only
  cases hanswer : answerAdmitted claimed record with
  | some answer =>
    refine Triple.ofExcept (fun value s hvalue h => ?_) fun e s _ h => .inl h.1.bound
    subst hvalue
    have hsuccess : record.status = .completed ∧ successfulInvocationResult record = .ok value := by
      unfold answerAdmitted at hanswer
      cases hstatus : record.status with
      | completed =>
        rw [hstatus] at hanswer
        cases hresult : record.result with
        | none => simp [hresult] at hanswer
        | some result =>
          refine ⟨rfl, ?_⟩
          simpa [successfulInvocationResult, hstatus, hresult] using hanswer
      | executing => simp [hstatus] at hanswer
      | failed =>
        rw [hstatus] at hanswer
        cases hdiagnostic : record.diagnostic with
        | none => simp [hdiagnostic] at hanswer
        | some diagnostic => simp [hdiagnostic] at hanswer
    exact completedWith_of_stands (h.1.final (by rw [hsuccess.1]; decide)) h.1.same hsuccess.2
  | none =>
    have hclaimed : claimed = true := by
      unfold answerAdmitted at hanswer
      split at hanswer
      · split at hanswer <;> cases hanswer
      · split at hanswer <;> cases hanswer
      · split at hanswer
        · assumption
        · cases hanswer
    -- from here on the record is bound, so any error may be thrown
    have hrest : ∀ {β : Type} {m : RouterM β} {P : RouterWorld → Prop}
        {Q : β → RouterWorld → Prop}, Spec (routerContract platform) {p} P m Q →
        Triple (routerContract platform) {p}
          (fun s => P s ∧ s.BoundTo (durableInvocationKey platform invocation) fingerprint) m
          (fun b s => Q b s ∧ s.BoundTo (durableInvocationKey platform invocation) fingerprint)
          fun e s => Answered platform s invocation fingerprint (.error e) := by
      intro β m P Q h
      exact Triple.conseq (Triple.keep_rely h fun s t hst => hst.boundTo) (fun _ _ h => h)
        (fun _ _ _ h => h) fun _ _ _ h => .inl h.2
    have hexecute := Spec.keep_rely (R := fun s => s.Promises p invocation fingerprint)
      (Spec.attempt RouterFailure
        (spec_execute platform p consumer call invocation fingerprint guarded))
      fun _ _ h => h.promises
    refine Triple.bind (Triple.conseq (hrest hexecute) (fun s _ h => ?_) (fun _ _ _ h => h)
      fun _ _ _ h => h) fun result => ?_
    · exact ⟨⟨⟨h.2.1, h.1.reserved hclaimed, h.1.bound, h.2.2⟩, h.2.1⟩, h.1.bound⟩
    cases result with
    | error cause =>
      refine Triple.bind (Triple.conseq (hrest (spec_completeInvocation rfl))
        (fun s _ h => ⟨h.1.2, h.2⟩) (fun _ _ _ h => h) fun _ _ _ h => h) fun _ =>
          Triple.throw fun s _ h => .inl h.2
    | ok result =>
      refine Triple.conseq (hrest (Triple.tryCatch (E := fun _ _ => True)
          (P := fun s => s.Promises p invocation fingerprint) ?_
          fun _ => spec_reloadSuccessfulInvocation))
        (fun s _ h => ⟨h.1.2, h.2⟩) (fun _ _ _ h => h.1) fun _ _ _ h => h
      exact Spec.bind (spec_completeInvocation rfl) fun terminal =>
        Spec.ofExcept fun value s hvalue h => completedWith_of_stands h.2 h.1 hvalue

theorem stable_answered {outcome : Except RouterFailure JsonValue} :
    Stable (routerContract platform) uses
      fun s => Answered platform s invocation fingerprint outcome :=
  Stable.of_rely fun _ _ h => h.answered

theorem spec_execution {consumer : ComponentInstanceIdentity} {call : RoutedCapabilityInvocation}
    {guarded : Bool} :
    Spec (routerContract platform) {p}
      (fun s => s.Promises p invocation fingerprint ∧ ¬ s.DispatchedBy p)
      (execution platform p consumer call invocation fingerprint guarded) fun _ _ => True := by
  have hattempt := Triple.keep_rely (R := fun s => s.Promises p invocation fingerprint)
    (Triple.attempt (fun (_ : RouterFailure) _ => True)
      (triple_executeDurable platform p consumer call invocation fingerprint guarded))
    fun _ _ h => h.promises
  refine Triple.bind (Q := fun outcome s => s.Promises p invocation fingerprint ∧
      Answered platform s invocation fingerprint outcome)
    (Triple.conseq hattempt (fun s _ h => ⟨h, h.1⟩) (fun outcome s _ h => ⟨h.2, ?_⟩)
      fun _ _ _ _ => trivial) fun outcome => ?_
  · cases outcome with
    | ok value => exact h.1.1 value rfl
    | error e => exact h.1.2 e rfl
  · refine Spec.bind (Q := fun _ _ => True) (Spec.update (stable_promises.and stable_answered)
      fun s _ hs h _ => ⟨turn_settle hs h.1 h.2, trivial⟩) fun _ => ?_
    exact Spec.update (Stable.const True) fun s _ hs _ _ => ⟨turn_markSettled hs, trivial⟩

/-! ## Calls -/

theorem mem_of_mem_pruned {limit fuel : Nat}
    {invocations : List (JsString × InvocationEntry)} {entry : JsString × InvocationEntry}
    (h : entry ∈ s.pruned limit fuel invocations) : entry ∈ invocations := by
  induction fuel generalizing invocations with
  | zero => exact h
  | succ fuel ih =>
    unfold RouterWorld.pruned at h
    split at h
    · split at h
      · exact mem_of_mem_eraseP (ih h)
      · exact h
    · exact h

/-- The synchronous part of a call: it joins an execution of its own identity and
fingerprint, or adds one, or rejects. -/
theorem turn_join (hs : RouterInv platform s) (uses : Set Nat) (me : Nat)
    (invocation fingerprint : JsString) :
    Turn (routerContract platform) uses s (join s me invocation fingerprint).2 ∧
      (∀ q child, (join s me invocation fingerprint).1 = .ok (q, child) →
        (join s me invocation fingerprint).2.Promises q invocation fingerprint ∧
        ∀ c, child = some c → c = q ∧ q ∈ (routerContract platform).fresh s
          (join s me invocation fingerprint).2) ∧
      ∀ e, (join s me invocation fingerprint).1 = .error e → IsRejection e := by
  unfold join
  cases hlookup : (s.routers me).invocations.lookup invocation with
  | some existing =>
    have hmem : (invocation, existing) ∈ (s.routers me).invocations := by
      obtain ⟨l₁, l₂, hl, -⟩ := lookup_eq_some_iff.mp hlookup
      rw [hl]
      exact mem_append_right _ mem_cons_self
    dsimp only
    split
    · exact ⟨stutters_routerContract.turn hs, fun _ _ h => (nomatch h),
        fun _ h => .inl (error.inj h).symm⟩
    next hf =>
    rw [not_not] at hf
    refine ⟨turn_setInvocations hs fun entry he => ?_, fun q child h => ?_, fun _ h => (nomatch h)⟩
    · rcases mem_append.mp he with he | he
      · exact mem_of_mem_filter he
      · rw [mem_singleton.mp he]
        exact hmem
    · obtain ⟨rfl, rfl⟩ := Prod.mk.inj (ok.inj h)
      exact ⟨hf ▸ hs.entry me invocation existing hmem, fun _ h => (nomatch h)⟩
  | none =>
    -- entries are dropped first, and then an execution may be added
    have hprune : Turn (routerContract platform) uses s (s.pruneInvocations me) :=
      turn_setInvocations hs fun entry he => mem_of_mem_pruned he
    dsimp only
    split
    · exact ⟨hprune, fun _ _ h => (nomatch h), fun _ h => .inr (.inl (error.inj h).symm)⟩
    have hadd := turn_addInvocation hprune.inv uses me invocation fingerprint
    refine ⟨⟨hadd.inv, ⟨hprune.law.grows.trans hadd.law.grows, fun key hne => ?_⟩,
      fun i hi hlt hd => ?_⟩, fun q child h => ?_, fun _ h => (nomatch h)⟩
    · exact absurd rfl hne
    · exact hd
    · obtain ⟨rfl, rfl⟩ := Prod.mk.inj (ok.inj h)
      refine ⟨⟨⟨invocation, fingerprint, none, false⟩, getElem?_concat_length, rfl, rfl⟩,
        fun c hc => ⟨(some.inj hc).symm, Nat.lt_irrefl _, ?_⟩⟩
      show s.promises.length < (s.promises ++ [_]).length
      rw [length_append]
      exact Nat.lt_succ_self _

theorem join_events (s : RouterWorld) (me : Nat) (key fingerprint : JsString) :
    (join s me key fingerprint).2.events = s.events := by
  unfold join
  split
  · split <;> rfl
  · dsimp only
    split <;> rfl

/-- **A call answers for its record.** -/
theorem triple_invoke (me : Nat) (consumer : ComponentInstanceIdentity)
    (input : RoutedCapabilityInvocation) (guarded : Bool) :
    Triple (routerContract platform) ∅ (fun _ => True)
      (invoke platform me consumer input guarded)
      (fun value s => Answered platform s (invocationKey platform consumer input.invocationId)
        (callFingerprint platform consumer input.normalizeCall) (.ok value))
      fun e s => Answered platform s (invocationKey platform consumer input.invocationId)
        (callFingerprint platform consumer input.normalizeCall) (.error e) := by
  refine Triple.bind (Q := fun q s => s.Promises q
      (invocationKey platform consumer input.invocationId)
      (callFingerprint platform consumer input.normalizeCall))
    (Triple.spawn fun s t r _ _ _ ht _ => ?_) fun q => ?_
  · obtain ⟨hturn, hok, herror⟩ := turn_join ht ∅ me
      (invocationKey platform consumer input.invocationId)
      (callFingerprint platform consumer input.normalizeCall)
    refine ⟨hturn, fun q child h => (hok q child h).1, fun q child h => ?_,
      fun e h => .inr (herror e h)⟩
    obtain ⟨hpromises, hchild⟩ := hok q (some child) h
    obtain ⟨rfl, hfresh⟩ := hchild child rfl
    refine (Spec.safe_run spec_execution hturn.inv ⟨hpromises, ?_⟩).weaken
      (Set.singleton_subset_iff.mpr hfresh)
    -- a promise that is new has not dispatched
    rintro ⟨key, fingerprint, hd⟩
    rw [join_events] at hd
    exact hfresh.1 (ht.dispatched child key fingerprint hd).1
  · refine Triple.turn fun s t r hp hst _ ht hready _ => ?_
    obtain ⟨pr, hpr, hk, hf⟩ := hst.promises hp
    cases houtcome : pr.outcome with
    | none => simp [hpr, houtcome] at hready
    | some outcome =>
      have hanswer := ht.promise q pr outcome hpr houtcome
      rw [hk, hf] at hanswer
      simp only [hpr, bind_some, houtcome, getD_some]
      exact ⟨stutters_routerContract.turn ht, fun _ h => h ▸ hanswer, fun _ h => h ▸ hanswer⟩

theorem spec_invokeNoted (me : Nat) (consumer : ComponentInstanceIdentity)
    (input : RoutedCapabilityInvocation) (guarded : Bool) :
    Spec (routerContract platform) ∅ (fun _ => True)
      (invokeNoted platform me consumer input guarded) fun _ _ => True := by
  refine Triple.bind (Q := fun outcome s => Answered platform s
      (invocationKey platform consumer input.invocationId)
      (callFingerprint platform consumer input.normalizeCall) outcome)
    (Triple.conseq (Triple.attempt (fun _ _ => True) (triple_invoke me consumer input guarded)) (fun _ _ h => h)
      (fun outcome s _ h => ?_) fun _ _ _ h => h) fun outcome =>
    Spec.update stable_answered fun s _ hs h _ => ⟨turn_returned hs h, trivial⟩
  cases outcome with
  | ok value => exact h.1 value rfl
  | error e => exact h.2 e rfl

theorem spec_commitOther :
    Spec (routerContract platform) ∅ (fun _ => True) commitOther fun _ _ => True := by
  refine Spec.update (Stable.const True) fun s _ hs _ _ => ⟨?_, trivial⟩
  split
  · exact stutters_routerContract.turn hs
  next store hstore =>
  refine turn_quiet hs (CasStore.evolves_commit hstore)
    (CasStore.wellFormed_commit hs.wellFormed hstore) ?_ rfl (.inl rfl) fun _ _ _ h => h
  obtain ⟨-, -, ⟨rfl, -, -⟩ | rfl⟩ := CasStore.commit_ok_cases hstore
  · rfl
  · rfl

theorem safe_call (k : Nat × RouterCall) (s : RouterWorld) (hs : RouterInv platform s) :
    Safe (routerContract platform) (call platform k.1 k.2) ∅ s := by
  obtain ⟨me, c⟩ := k
  cases c with
  | invoke consumer input guarded =>
    exact Spec.safe_run (spec_invokeNoted me consumer input guarded) hs trivial
  | clear =>
    refine Spec.safe_run (Spec.update (P := fun _ => True) (S := fun _ => True)
      (Stable.const True) fun s _ hs _ _ => ⟨?_, trivial⟩) hs trivial
    exact turn_setInvocations hs fun entry he => (not_mem_nil he).elim
  | commitOther => exact Spec.safe_run spec_commitOther hs trivial

theorem inv_of_start (s : RouterWorld) (h : Start s) : RouterInv platform s := by
  have hnone : ∀ e, e ∉ s.events := fun e he => by
    rw [h.events] at he
    exact not_mem_nil he
  refine ⟨h.wellFormed, fun _ _ hm => absurd hm (hnone _), fun _ _ _ hm => absurd hm (hnone _),
    fun _ _ _ hm => absurd hm (hnone _), ?_, fun p pr _ hp => ?_, fun _ _ _ hm => absurd hm (hnone _),
    fun me key entry he => ?_⟩
  · rw [h.events]
    exact List.Pairwise.nil
  · rw [h.promises] at hp
    cases hp
  · rw [h.routers me] at he
    exact (not_mem_nil he).elim

/-! ## The law of invocations -/

variable (platform)

theorem inv_of_reachable {w : World RouterWorld RouterReply} (hr : (machine platform).Reachable w) :
    RouterInv platform w.mem :=
  (World.safe (K := routerContract platform) inv_of_start safe_call hr).1

def isDispatchOf (key : JsString) : RouterEvent → Bool
  | .dispatched _ key' _ => key' == key
  | _ => false

theorem dispatches_le_one (hs : RouterInv platform s) (key : JsString) :
    (s.events.filter (isDispatchOf key)).length ≤ 1 := by
  have honce := hs.dispatchedOnce.filter (isDispatchOf key)
  have hall : ∀ e ∈ s.events.filter (isDispatchOf key),
      ∃ p fingerprint, e = .dispatched p key fingerprint := by
    intro e he
    have hdispatch := (mem_filter.mp he).2
    unfold isDispatchOf at hdispatch
    split at hdispatch
    · next p key' fingerprint =>
      rw [beq_iff_eq] at hdispatch
      exact ⟨p, fingerprint, hdispatch ▸ rfl⟩
    · cases hdispatch
  match hlist : s.events.filter (isDispatchOf key) with
  | [] => exact Nat.zero_le _
  | [_] => exact Nat.le_refl _
  | e :: e' :: rest =>
    rw [hlist] at honce hall
    obtain ⟨p, f, rfl⟩ := hall e mem_cons_self
    obtain ⟨p', f', rfl⟩ := hall e' (mem_cons_of_mem _ mem_cons_self)
    exact absurd rfl ((pairwise_cons.mp honce).1 _ mem_cons_self p p' key key f f' rfl rfl)

/-- What holds of the invocations in a memory `t` that one step has made of `s`. -/
structure AtMostOnce (s t : RouterWorld) : Prop where
  dispatch : ∀ key, (t.events.filter (isDispatchOf key)).length ≤ 1
  result : ∀ key fingerprint value, .returned key fingerprint (.ok value) ∈ t.events →
    t.CompletedWith (durableInvocationKey platform key) fingerprint value
  /-- A call with another fingerprint than the record is rejected; -/
  rejected : ∀ key bound fingerprint outcome,
    t.BoundTo (durableInvocationKey platform key) bound → fingerprint ≠ bound →
      .returned key fingerprint outcome ∈ t.events → ∃ e, outcome = .error e ∧ IsRejection e
  /-- it does not dispatch; -/
  undispatched : ∀ key bound fingerprint p,
    t.BoundTo (durableInvocationKey platform key) bound → fingerprint ≠ bound →
      .dispatched p key fingerprint ∉ t.events
  /-- a record stays bound to its fingerprint; -/
  bound : ∀ key fingerprint, s.BoundTo key fingerprint → t.BoundTo key fingerprint
  /-- and only executions with the fingerprint of the record change it. -/
  unchanged : ∀ key, t.store.record key ≠ s.store.record key → ∃ p invocation fingerprint,
    t.Promises p invocation fingerprint ∧ durableInvocationKey platform invocation = key ∧
    t.BoundTo key fingerprint ∧
    (t.events = .reserved p key :: s.events ∨ t.events = .completed p key :: s.events)

/-- **Invocations are dispatched at most once**, in every interleaving of the calls on any
number of routers. -/
theorem invocations_at_most_once {w w' : World RouterWorld RouterReply}
    {l : Sched (Nat × RouterCall) RouterReply} (hr : (machine platform).Reachable w)
    (hs : (machine platform).step w l = some w') : AtMostOnce platform w.mem w'.mem := by
  have hinv := inv_of_reachable platform (hr.step hs)
  have hlaw : RouterLaw platform w.mem w'.mem := by
    rcases World.law_of_step (K := routerContract platform) inv_of_start safe_call hr hs trivial
      with heq | hlaw
    · rw [heq]
      exact ⟨.refl _, fun _ hne => absurd rfl hne⟩
    · exact hlaw
  refine ⟨dispatches_le_one platform hinv, fun key fingerprint value h => ?_,
    fun key bound fingerprint outcome hbound hne h => ?_,
    fun key bound fingerprint p hbound hne h => ?_, fun key fingerprint => hlaw.grows.boundTo,
    hlaw.change⟩
  · exact hinv.returned key fingerprint (.ok value) h
  · have hanswer := hinv.returned key fingerprint outcome h
    cases outcome with
    | ok value => exact absurd (RouterWorld.CompletedWith.boundTo hanswer |>.unique hbound) hne
    | error e => exact ⟨e, rfl, hanswer.resolve_left fun hb => hne (hb.unique hbound)⟩
  · exact hne ((hinv.dispatched p key fingerprint h).2.2.unique hbound)

theorem grows_of_run {es : List (Sched (Nat × RouterCall) RouterReply)}
    {w w' : World RouterWorld RouterReply} (hr : (machine platform).Reachable w)
    (hrun : (machine platform).run w es = some w') : RouterGrows w.mem w'.mem := by
  induction es generalizing w with
  | nil =>
    cases hrun
    exact .refl _
  | cons l es ih =>
    obtain ⟨w₁, hs, hrun⟩ := bind_eq_some_iff.mp hrun
    have hrest := ih (hr.step hs) hrun
    rcases World.law_of_step (K := routerContract platform) inv_of_start safe_call hr hs trivial
      with heq | hlaw
    · rwa [heq] at hrest
    · exact hlaw.grows.trans hrest

/-- **A result is final.** Once a call of any router has returned it, it stays stored, and all calls
of its invocation that succeed, then or later, return the same. -/
theorem results_final {es : List (Sched (Nat × RouterCall) RouterReply)}
    {w w' : World RouterWorld RouterReply} (hr : (machine platform).Reachable w)
    (hrun : (machine platform).run w es = some w') {key fingerprint : JsString} {value : JsonValue}
    (h : .returned key fingerprint (.ok value) ∈ w.mem.events) :
    w'.mem.CompletedWith (durableInvocationKey platform key) fingerprint value ∧
    ∀ fingerprint' value', .returned key fingerprint' (.ok value') ∈ w'.mem.events →
      fingerprint' = fingerprint ∧ value' = value := by
  have hinv' := inv_of_reachable platform (hr.of_run hrun)
  obtain ⟨v, result, hv, hf, hstatus, hresult, heq⟩ :=
    (inv_of_reachable platform hr).returned key fingerprint (.ok value) h
  obtain ⟨v', hv', -, hfinal⟩ := (grows_of_run platform hr hrun).record _ v hv
  obtain rfl := hfinal (by rw [hstatus]; exact nofun)
  refine ⟨⟨v', result, hv', hf, hstatus, hresult, heq⟩, fun fingerprint' value' h' => ?_⟩
  obtain ⟨u, result', hu, hf', -, hresult', heq'⟩ := hinv'.returned key fingerprint' (.ok value') h'
  obtain rfl := some.inj (hu.symm.trans hv')
  rw [hresult'] at hresult
  exact ⟨hf'.symm.trans hf, by rw [heq', heq, some.inj hresult]⟩

/-! ## An invocation that succeeds -/

def samplePlatform : RouterPlatform where
  numberText _ := ⟨js "0", rfl⟩
  sha256 _ := Vector.replicate 64 0
  domainToASCII host := host
  schemaGate _ := .ok ⟨.ok, .ok⟩

def sampleId : PortableId := ⟨js "c", rfl⟩

def sampleConsumer : ComponentInstanceIdentity where
  applicationId := sampleId
  pluginId := sampleId
  componentId := sampleId
  activation := 1
  target := ⟨sampleId, 1, js "d", ⟨js "e", .thread, none, rfl⟩⟩
  bindingFingerprint := js "b"

def sampleInvocation : RoutedCapabilityInvocation where
  invocationId := sampleId
  identity := ⟨sampleId, js "1.0.0"⟩
  method := js "m"
  input := .null

def sampleRoute : CapabilityRoute where
  consumer := sampleConsumer
  permissionGrants := .array [.object [(js "kind", .string (js "capability")),
    (js "capabilities", .array [.object [(js "name", .string (js "c")),
      (js "methods", .array [.string (js "m")])]])]]
  bindingCapability := ⟨sampleId, js "1.0.0"⟩
  providerDeployment := ⟨sampleId, sampleId⟩
  provision := ⟨⟨sampleId, js "1.0.0"⟩, sampleId, [js "m"], .null, .null⟩
  provider := ⟨sampleId, sampleId, sampleId⟩

def sampleStart : World RouterWorld RouterReply where
  mem :=
    { store := .empty
      routers _ := ⟨⟨256, by decide⟩, []⟩
      promises := []
      events := [] }
  procs := []

theorem start_sampleStart : Start sampleStart.mem :=
  ⟨CasStore.wellFormed_empty, fun _ => rfl, rfl, rfl⟩

/-- An invocation, up to the note of how it ended. -/
def invokeRun : List (Sched (Nat × RouterCall) RouterReply) :=
  [.call (0, .invoke sampleConsumer sampleInvocation true), .resume 0 .done, .resume 0 .done,
    .resume 1 .done, .resume 1 (.route sampleRoute), .resume 1 (.revalidated true none),
    .resume 1 (.response (.bool true)), .resume 1 .done, .resume 1 .done, .resume 1 .done,
    .resume 1 .done, .resume 0 .done]

def successes (w : World RouterWorld RouterReply) : Nat :=
  w.mem.events.countP fun e =>
    match e with
    | .returned _ _ (.ok _) => true
    | _ => false

theorem invocations_at_most_once_invokeRun :
    ∃ w w' : World RouterWorld RouterReply, successes w = 0 ∧ successes w' = 1 ∧
      AtMostOnce samplePlatform w.mem w'.mem := by
  have hrun : ((machine samplePlatform).run sampleStart invokeRun).bind (fun w =>
      ((machine samplePlatform).step w (.resume 0 .done)).map fun w' =>
        (successes w, successes w')) = some (0, 1) := by decide +kernel
  obtain ⟨w, hw, hrest⟩ := bind_eq_some_iff.mp hrun
  obtain ⟨w', hw', hpair⟩ := map_eq_some_iff.mp hrest
  obtain ⟨hbefore, hafter⟩ := Prod.mk.inj hpair
  exact ⟨w, w', hbefore, hafter, invocations_at_most_once samplePlatform
    (.of_init_run ⟨start_sampleStart, rfl⟩ hw) hw'⟩

theorem results_final_invokeRun : ∃ w : World RouterWorld RouterReply,
    (machine samplePlatform).run sampleStart (invokeRun ++ [.resume 0 .done]) = some w ∧
    0 < successes w ∧ ∀ key fingerprint value,
      .returned key fingerprint (.ok value) ∈ w.mem.events →
        w.mem.CompletedWith (durableInvocationKey samplePlatform key) fingerprint value := by
  have hrun : ((machine samplePlatform).run sampleStart (invokeRun ++ [.resume 0 .done])).map
      successes = some 1 := by decide +kernel
  obtain ⟨w, hw, hone⟩ := map_eq_some_iff.mp hrun
  exact ⟨w, hw, hone ▸ Nat.one_pos, fun key fingerprint value h => (results_final samplePlatform
    (.of_init_run ⟨start_sampleStart, rfl⟩ hw) (Machine.run_nil _ _) h).1⟩

end CapabilityRouter

end TegoNext
