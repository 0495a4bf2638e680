/-
The functions of the worker runtime keep the contract.

A transition owns its place on the chain of its attempt, so what it has read about the attempt stays
true as long as the runtime relies on its records (`Knows`). A commit takes effect, or its attempt
is given up with the persistence of the runtime, or it ends without effect and leaves a note.
-/
import TegoNext.WorkerTurns

set_option autoImplicit false

namespace TegoNext

open Async WorkerWorld List Option Function Except

variable {platform : WorkerPlatform} {uses : Set WorkerToken} {me i : Nat} {key : JsString}

/-! ## Assertions -/

def Has (me i : Nat) (key : JsString) (s : WorkerWorld) : Prop :=
  ∃ a, s.attempts[i]? = some a ∧ a.worker = me ∧ a.key = key ∧ a.Recorded

/-- What a transition knows of its attempt while it may rely on its records. -/
def Knows (me i : Nat) (key : JsString) (turn : Option Nat)
    (known : WorkerAttemptState → Option RemoteResult → Prop) (s : WorkerWorld) : Prop :=
  ∃ a, s.attempts[i]? = some a ∧ a.worker = me ∧ a.key = key ∧ a.Recorded ∧
    (∀ n, turn = some n → a.served = n) ∧ (s.Good me → known a.state a.result)

def Ended (i : Nat) (s : WorkerWorld) : Prop :=
  s.Clean → ∃ a r, s.attempts[i]? = some a ∧ a.Settled r

/-- The error tells what has become of the persistence. -/
def Noted (me : Nat) (e : WorkerError) (s : WorkerWorld) : Prop :=
  e = .unavailable → s.available me = false

theorem Noted.of_ne {e : WorkerError} {s : WorkerWorld} (h : e ≠ .unavailable) : Noted me e s :=
  fun h' => absurd h' h

theorem Has.mono {s t : WorkerWorld} (h : Has me i key s) (hst : WorkerGrows s t) :
    Has me i key t := by
  obtain ⟨a, ha, hw, hk, hr⟩ := h
  obtain ⟨a', ha', hg⟩ := hst.attempt i a ha
  exact ⟨a', ha', hg.worker.trans hw, hg.key.trans hk, hg.recorded hr⟩

theorem stable_has : Stable workerContract uses (Has me i key) :=
  .of_rely fun _ _ hst h => h.mono hst

theorem stable_ended : Stable workerContract uses (Ended i) := by
  intro s t hst _ hs ht
  obtain ⟨a, r, ha, hset⟩ := hs (Clean.of_suffix hst.events ht)
  obtain ⟨a', ha', hg⟩ := hst.attempt i a ha
  exact ⟨a', r, ha', hg.settled ht r hset⟩

theorem stable_unavailable : Stable workerContract uses fun s => s.available me = false := by
  intro s t hst _ hs
  cases ht : t.available me with
  | false => rfl
  | true =>
    rw [hst.available me ht] at hs
    cases hs

theorem stable_noted {e : WorkerError} : Stable workerContract uses (Noted me e) :=
  .imp fun _ => stable_unavailable

theorem stable_phase : Stable workerContract uses fun s => s.phase me = .hydrated :=
  .of_rely fun _ _ hst h => hst.phase me h

variable {turn : Option Nat} {known : WorkerAttemptState → Option RemoteResult → Prop}

theorem Knows.has {s : WorkerWorld} (h : Knows me i key turn known s) : Has me i key s := by
  obtain ⟨a, ha, hw, hk, hr, -⟩ := h
  exact ⟨a, ha, hw, hk, hr⟩

/-- Nothing about the state is known. -/
def anything : WorkerAttemptState → Option RemoteResult → Prop := fun _ _ => True

theorem Knows.weaken {s : WorkerWorld} (h : Knows me i key turn known s) :
    Knows me i key turn anything s := by
  obtain ⟨a, ha, hw, hk, hr, hn, -⟩ := h
  exact ⟨a, ha, hw, hk, hr, hn, fun _ => trivial⟩

theorem stable_knows {n : Nat} (hn : .lock i n ∈ uses) :
    Stable workerContract uses (Knows me i key (some n) known) := by
  rintro s t hst hframe ⟨a, ha, hw, hk, hr, hserved, hknown⟩
  obtain ⟨hgood, hlock⟩ := hframe _ hn
  obtain ⟨a', ha', hserved', -, hsame⟩ := hlock a ha (hserved n rfl)
  obtain ⟨b, hb, hg⟩ := hst.attempt i a ha
  obtain rfl := some.inj (ha'.symm.trans hb)
  refine ⟨a', ha', hg.worker.trans hw, hg.key.trans hk, hg.recorded hr, ?_, fun ht => ?_⟩
  · intro m hm
    rw [hserved', some.inj hm]
  · rw [hw] at hsame
    obtain ⟨hstate, hresult⟩ := hsame ht
    rw [hstate, hresult]
    exact hknown (hgood me ht)

theorem stable_knows_settled {r : RemoteResult} : Stable workerContract uses
    (Knows me i key none fun state result => state = .terminal ∧ result = some r) := by
  rintro s t hst - ⟨a, ha, hw, hk, hr, -, hknown⟩
  obtain ⟨b, hb, hg⟩ := hst.attempt i a ha
  refine ⟨b, hb, hg.worker.trans hw, hg.key.trans hk, hg.recorded hr, fun _ h => (nomatch h),
    fun ht => ?_⟩
  exact hg.settled ht.1 r (hknown ⟨Clean.of_suffix hst.events ht.1, hst.available me ht.2⟩)

/-! ## Rules -/

section Rules

variable {ε α : Type} {P R : WorkerWorld → Prop}
  {Q : α → WorkerWorld → Prop} {E : ε → WorkerWorld → Prop}

variable {own : Set WorkerToken}

theorem triple_turn {ready : WorkerWorld → WorkerAnswer → Bool}
    {f : WorkerWorld → WorkerAnswer → Except ε α × WorkerWorld}
    (hP : Stable workerContract uses P) (hown : own ⊆ uses)
    (h : ∀ s r, WorkerInv s → P s → ready s r = true → WorkerTurn own s (f s r).2 ∧
      (∀ a, (f s r).1 = .ok a → Q a (f s r).2) ∧ ∀ e, (f s r).1 = .error e → E e (f s r).2) :
    Triple workerContract uses P (Async.turn ready f) Q E := by
  refine Triple.turn fun s t r hp hst hframe ht hready _ => ?_
  obtain ⟨hturn, hrest⟩ := h t r ht (hP s t hst hframe hp) hready
  exact ⟨hturn.turn hown, hrest⟩

theorem WorkerTurn.keeps_all {s t : WorkerWorld} (h : WorkerTurn ∅ s t)
    (hP : Stable workerContract uses P) (hs : P s) : P t :=
  h.keeps hP (fun _ _ => Set.notMem_empty _) hs

theorem triple_query {f : WorkerWorld → α} (hP : Stable workerContract uses P)
    (h : ∀ s, WorkerInv s → P s → Q (f s) s) :
    Triple workerContract uses P (Async.query f : Async WorkerWorld WorkerAnswer ε α) Q E := by
  refine triple_turn hP (Set.empty_subset _) fun s _ hs hp _ => ⟨.refl hs, fun a ha => ?_,
    fun _ h => nomatch h⟩
  rw [← ok.inj ha]
  exact h s hs hp

theorem triple_check {f : WorkerWorld → WorkerAnswer → Except ε α}
    (hP : Stable workerContract uses P)
    (hok : ∀ s r a, WorkerInv s → P s → f s r = .ok a → Q a s) (herr : ∀ s e, P s → E e s) :
    Triple workerContract uses P (Async.check f) Q E :=
  triple_turn hP (Set.empty_subset _) fun s r hs hp _ =>
    ⟨.refl hs, fun a ha => hok s r a hs hp ha, fun e _ => herr s e hp⟩

theorem spec_turn {ready : WorkerWorld → WorkerAnswer → Bool}
    {f : WorkerWorld → WorkerAnswer → Except ε α × WorkerWorld}
    (hP : Stable workerContract uses P) (hown : own ⊆ uses)
    (h : ∀ s r, WorkerInv s → P s → ready s r = true → WorkerTurn own s (f s r).2 ∧
      ∀ a, (f s r).1 = .ok a → Q a (f s r).2) :
    Spec workerContract uses P (Async.turn ready f) Q :=
  triple_turn hP hown fun s r hs hp hready =>
    ⟨(h s r hs hp hready).1, (h s r hs hp hready).2, fun _ _ => trivial⟩

theorem spec_update {f : WorkerWorld → WorkerAnswer → WorkerWorld}
    {S : WorkerWorld → Prop} (hP : Stable workerContract uses P) (hown : own ⊆ uses)
    (h : ∀ s r, WorkerInv s → P s → WorkerTurn own s (f s r) ∧ S (f s r)) :
    Spec workerContract uses P (Async.update f : Async WorkerWorld WorkerAnswer ε Unit) fun _ => S :=
  spec_turn hP hown fun s r hs hp _ => ⟨(h s r hs hp).1, fun _ _ => (h s r hs hp).2⟩

theorem triple_keep {m : Async WorkerWorld WorkerAnswer ε α} (h : Triple workerContract ∅ P m Q E)
    (hR : Stable workerContract uses R) (hP : ∀ s, R s → P s) :
    Triple workerContract uses R m (fun a s => Q a s ∧ R s) fun e s => E e s ∧ R s :=
  (Triple.frame h hR).conseq (fun s _ hr => ⟨hP s hr, hr⟩) (fun _ _ _ h => h) fun _ _ _ h => h

end Rules

/-! ## Giving an attempt up -/

section Volatile

variable {s : WorkerWorld} {a : WorkerAttempt} {result : RemoteResult}

theorem getElem?_releaseReserved (s : WorkerWorld) (me i : Nat) :
    (WorkerRuntime.releaseReserved s me i).attempts[i]? =
      (s.attempts[i]?).map fun a => { a with reservedBytes := 0 } := by
  rw [WorkerRuntime.releaseReserved, getElem?_modifyAttempt]
  simp [modifyWorker]

theorem WorkerTurn.releaseReserved (hs : WorkerInv s) (me i : Nat) :
    WorkerTurn ∅ s (WorkerRuntime.releaseReserved s me i) := by
  have hworker : WorkerTurn ∅ s (s.modifyWorker me fun worker =>
      { worker with
        reservedResultBytes := worker.reservedResultBytes -
          (s.attempts[i]?.elim 0 (·.reservedBytes)) }) :=
    .bookkeeping hs rfl rfl rfl rfl rfl
  exact hworker.andThen (.attemptField hworker.inv i fun _ => rfl) rfl

theorem puttable_of_settled {own : Set WorkerToken} (hs : WorkerInv s)
    (ha : s.attempts[i]? = some a) (hr : a.Recorded)
    (hset : s.Clean → a.Settled result) : Puttable own s a.worker a.key result := by
  refine ⟨hs.recorded i a ha hr, fun hc j b hb hw hk hrb => ?_, .inl ⟨i, a, ha, rfl, rfl, hr⟩⟩
  obtain rfl := hs.unique j i b a hb ha hrb hr hw hk
  obtain rfl := some.inj (ha.symm.trans hb)
  exact hset hc

theorem WorkerTurn.putAndRelease (platform : WorkerPlatform) (hs : WorkerInv s) (ha : s.attempts[i]? = some a)
    (hr : a.Recorded) (hset : s.Clean → a.Settled result) (hkey : result.key = a.key) :
    WorkerTurn ∅ s (match WorkerRuntime.putResult platform s a.worker result with
      | (.error e, t) => ((.error e, t) : Except WorkerError Unit × WorkerWorld)
      | (.ok (), t) => (.ok (), WorkerRuntime.releaseReserved t a.worker i)).2 := by
  have hput : WorkerTurn ∅ s (WorkerRuntime.putResult platform s a.worker result).2 := by
    refine .putResult platform hs ?_
    rw [hkey]
    exact puttable_of_settled hs ha hr hset
  generalize WorkerRuntime.putResult platform s a.worker result = answer at hput
  obtain ⟨e | u, t⟩ := answer
  · exact hput
  · exact hput.andThen (.releaseReserved hput.inv _ _) rfl

theorem putAndRelease_error {e : WorkerError}
    (h : (match WorkerRuntime.putResult platform s me result with
      | (.error e, t) => ((.error e, t) : Except WorkerError Unit × WorkerWorld)
      | (.ok (), t) => (.ok (), WorkerRuntime.releaseReserved t me i)).1 = .error e) :
    e ≠ .unavailable := by
  rcases putResult_cases platform s me result with h' | h' | ⟨-, h'⟩
  · rw [h'] at h
    obtain rfl := error.inj h
    exact WorkerError.noConfusion
  · rw [h'] at h
    cases h
  · rw [h'] at h
    cases h

theorem isTerminal_iff (ha : s.attempts[i]? = some a) :
    s.isTerminal i = true ↔ a.state = .terminal := by
  simp [isTerminal, ha]

theorem WorkerTurn.terminalVolatile (platform : WorkerPlatform) (result : RemoteResult)
    (hs : WorkerInv s) (ha : s.attempts[i]? = some a)
    (hr : a.Recorded) (hkey : result.key = a.key) (hbad : ¬ s.Good a.worker) :
    WorkerTurn ∅ s (WorkerRuntime.terminalVolatile platform s a.worker i result).2 ∧
      ((WorkerRuntime.terminalVolatile platform s a.worker i result).1 = .ok () →
        ∃ b, (WorkerRuntime.terminalVolatile platform s a.worker i result).2.attempts[i]? = some b ∧
          b.worker = a.worker ∧ b.key = a.key ∧ b.Recorded ∧ b.state = .terminal ∧
          (a.state ≠ .terminal → b.result = some result)) := by
  unfold WorkerRuntime.terminalVolatile
  by_cases hstate : s.isTerminal i = true
  · rw [if_pos hstate]
    have hterminal := (isTerminal_iff ha).mp hstate
    exact ⟨.refl hs, fun _ => ⟨a, ha, rfl, rfl, hr, hterminal, fun h => absurd hterminal h⟩⟩
  rw [if_neg hstate]
  dsimp only
  have hnot : a.state ≠ .terminal := fun h => hstate ((isTerminal_iff ha).mpr h)
  set t := s.modifyAttempt i fun attempt =>
    { attempt with result := some result, state := .terminal } with ht
  have hturn : WorkerTurn ∅ s t := by
    refine .attempt hs ha rfl rfl rfl le_rfl le_rfl (fun _ r h => absurd h.1 hnot) ?_
      (fun _ _ => rfl) ?_
    · exact fun _ _ => ⟨result, rfl, hkey⟩
    · exact .inr ⟨rfl, fun h => absurd h hbad⟩
  let b : WorkerAttempt := { a with result := some result, state := .terminal }
  have hget : t.attempts[i]? = some b := by
    rw [ht, getElem?_modifyAttempt, ha, map_some, if_pos rfl]
  have hput : WorkerTurn ∅ t (WorkerRuntime.putResult platform t a.worker result).2 := by
    refine .putResult platform hturn.inv ?_
    rw [hkey]
    have hb : Puttable ∅ t b.worker b.key result :=
      puttable_of_settled hturn.inv hget hr fun _ => ⟨rfl, rfl⟩
    exact hb
  have hrest := putResult_rest platform t a.worker result
  generalize WorkerRuntime.putResult platform t a.worker result = answer at hput hrest
  obtain ⟨e | u, u'⟩ := answer
  · exact ⟨hturn.andThen hput hrest.2.1, fun h => nomatch h⟩
  · have hdone : WorkerTurn ∅ t (WorkerRuntime.releaseReserved u' a.worker i) :=
      hput.andThen (.releaseReserved hput.inv _ _) rfl
    refine ⟨hturn.andThen hdone hrest.2.1, fun _ => ?_⟩
    refine ⟨{ b with reservedBytes := 0 }, ?_, rfl, rfl, hr, rfl, fun _ => rfl⟩
    refine (getElem?_releaseReserved u' a.worker i).trans ?_
    rw [hrest.1, hget]
    rfl

theorem failureResult_key (me : Nat) (request : RemoteRequest) (status : ExecutionTerminalStatus)
    (code message : String) (now : Int) :
    (WorkerRuntime.failureResult platform me request status code message now).key = request.key :=
  rfl

theorem WorkerTurn.failAttemptPersistence (platform : WorkerPlatform) (hs : WorkerInv s) (hhas : Has me i key s)
    (message : String) (now : Int) :
    WorkerTurn ∅ s (WorkerRuntime.failAttemptPersistence platform s me i message now).2 ∧
      (WorkerRuntime.failAttemptPersistence platform s me i message now).2.available me = false := by
  obtain ⟨a, ha, hw, hk, hr⟩ := hhas
  subst hw
  unfold WorkerRuntime.failAttemptPersistence
  dsimp only
  set t := s.setUnavailable a.worker with ht
  have hturn : WorkerTurn ∅ s t := .setUnavailable hs a.worker
  have hbad : t.available a.worker = false := by
    rw [available, ht, WorkerWorld.setUnavailable, workers_modifyWorker, if_pos rfl]
  have hta : t.attempts[i]? = some a := ha
  rw [hta]
  dsimp only
  by_cases hstate : a.state = .terminal
  · rw [if_pos hstate]
    exact ⟨hturn, hbad⟩
  rw [if_neg hstate]
  have hkeep : ∀ {u : WorkerWorld}, WorkerTurn ∅ t u → u.available a.worker = false := by
    intro u hu
    have hstable : Stable workerContract ∅ fun s => s.available a.worker = false :=
      stable_unavailable
    exact hu.keeps hstable (fun _ _ => Set.notMem_empty _) hbad
  obtain ⟨hvolatile, hset⟩ := WorkerTurn.terminalVolatile platform
    (WorkerRuntime.unavailableResult platform a.worker a.request message now) hturn.inv hta hr (failureResult_key ..) fun h => by
      rw [h.2] at hbad
      cases hbad
  generalize WorkerRuntime.terminalVolatile platform t a.worker i
    (WorkerRuntime.unavailableResult platform a.worker a.request message now) = answer
    at hvolatile hset
  obtain ⟨e | u, u'⟩ := answer
  · exact ⟨hturn.before hvolatile rfl fun _ => rfl, hkeep hvolatile⟩
  · dsimp only at hvolatile hset ⊢
    obtain ⟨b, hb, hbw, hbk, hbr, hbs, hbres⟩ := hset rfl
    have hpublish : WorkerTurn ∅ u' (WorkerRuntime.publishLater u' a.worker
        (WorkerRuntime.unavailableResult platform a.worker a.request message now)) := by
      refine .publications hvolatile.inv fun p hp => ?_
      rcases mem_append.mp hp with hp | hp
      · exact .inl ⟨p.2.2, hp⟩
      · obtain rfl := mem_singleton.mp hp
        exact .inr fun _ => ⟨i, b, hb, hbw, hbk, hbr, hbs, hbres hstate⟩
    have hdone := hvolatile.andThen hpublish rfl
    exact ⟨hturn.before hdone rfl fun _ => rfl, hkeep hdone⟩

end Volatile

/-! ## Requests to the stores -/

theorem triple_storeOperation {α : Type} {P : WorkerWorld → Prop} {Q : α → WorkerWorld → Prop}
    (me : Nat) {request : WorkerWorld → WorkerAnswer → α × WorkerWorld}
    (hP : Stable workerContract ∅ P) (hQ : ∀ a, Stable workerContract ∅ (Q a))
    (h : ∀ s r, WorkerInv s → P s →
      WorkerTurn ∅ s (request s r).2 ∧ Q (request s r).1 (request s r).2) :
    Triple workerContract ∅ P (WorkerRuntime.storeOperation me request) Q (Noted me) := by
  refine Triple.bind (Q := fun answer s => ∀ a, answer = some a → Q a s)
    (Triple.spawn fun s t r hp hst hframe ht _ => ?_) fun answer => ?_
  · have hp' : P t := hP s t hst (fun i hi => hframe i hi) hp
    obtain ⟨hturn, hq⟩ := h t r ht hp'
    have hrefl : WorkerTurn ∅ t t := .refl ht
    -- a request that is late is taken at any later time
    have hlate : ∀ fresh, Safe workerContract (run (update fun s r => (request s r).2 :
        WorkerM Unit)) fresh t := by
      intro fresh
      refine Safe.weaken (Spec.safe_run (Q := fun _ _ => True) ?_ ht hp') (Set.empty_subset fresh)
      exact Spec.update hP fun s r hs hps _ => ⟨(h s r hs hps).1.turn (Set.empty_subset _), trivial⟩
    cases r.outcome with
    | done =>
      refine ⟨hturn.turn (Set.empty_subset _), fun a b hab c hc => ?_, fun a b hab => ?_,
        fun e he => by cases he⟩
      · obtain ⟨rfl, -⟩ := Prod.mk.inj (ok.inj hab)
        obtain rfl := some.inj hc
        exact hq
      · cases (Prod.mk.inj (ok.inj hab)).2
    | lost =>
      refine ⟨hturn.turn (Set.empty_subset _), fun a b hab c hc => ?_, fun a b hab => ?_,
        fun e he => by cases he⟩
      · obtain ⟨rfl, -⟩ := Prod.mk.inj (ok.inj hab)
        cases hc
      · cases (Prod.mk.inj (ok.inj hab)).2
    | failed revision =>
      refine ⟨hrefl.turn (Set.empty_subset _), fun a b hab c hc => ?_, fun a b hab => ?_,
        fun e he => by cases he⟩
      · obtain ⟨rfl, -⟩ := Prod.mk.inj (ok.inj hab)
        cases hc
      · cases (Prod.mk.inj (ok.inj hab)).2
    | late =>
      refine ⟨hrefl.turn (Set.empty_subset _), fun a b hab c hc => ?_, fun a b hab => hlate _,
        fun e he => by cases he⟩
      obtain ⟨rfl, -⟩ := Prod.mk.inj (ok.inj hab)
      cases hc
  · have hstable : Stable workerContract ∅ fun s => ∀ a, answer = some a → Q a s :=
      .all fun a => .imp fun _ => hQ a
    refine triple_turn hstable (Set.empty_subset _) fun s r hs hp _ => ?_
    have hfail : WorkerTurn ∅ s (s.setUnavailable me) ∧
        (s.setUnavailable me).available me = false := by
      refine ⟨.setUnavailable hs me, ?_⟩
      rw [available, setUnavailable, workers_modifyWorker, if_pos rfl]
    cases answer with
    | none => exact ⟨hfail.1, thrown fun _ => hfail.2⟩
    | some a =>
      cases r.ok with
      | true => exact ⟨.refl hs, returned (hp _ rfl)⟩
      | false => exact ⟨hfail.1, thrown fun _ => hfail.2⟩

theorem triple_load (me : Nat) (key : JsString) :
    Triple workerContract ∅ (fun _ => True) (WorkerRuntime.load me key)
      (fun record _ => ∀ r, record = some r → r.request.key = key) (Noted me) :=
  triple_storeOperation me (.const _) (fun _ => .all fun _ => .imp fun _ => .const _)
    fun _ _ hs _ => ⟨.refl hs, fun record h => hs.recordKey key record h⟩

theorem parseStoredRecord_error {fingerprint : Option JsString} {record : RemoteAttemptRecord}
    {parsed : ParseOutcome} {e : WorkerError}
    (h : WorkerRuntime.parseStoredRecord platform me fingerprint record parsed = .error e) :
    e ≠ .unavailable := by
  unfold WorkerRuntime.parseStoredRecord at h
  cases parsed with
  | badRevision | malformed =>
    obtain rfl := error.inj h
    exact WorkerError.noConfusion
  | valid =>
    dsimp only at h
    split at h
    · obtain rfl := error.inj h
      exact WorkerError.noConfusion
    · cases h

/-- A record that was parsed is the one that was read, and its result is the one of its
attempt. -/
theorem parseStoredRecord_ok {fingerprint : Option JsString} {record parsedRecord : RemoteAttemptRecord}
    {parsed : ParseOutcome}
    (h : WorkerRuntime.parseStoredRecord platform me fingerprint record parsed = .ok parsedRecord) :
    parsedRecord = record ∧ (record.state = .terminal → record.result ≠ none) ∧
      ∀ r, record.result = some r → r.key = record.request.key := by
  unfold WorkerRuntime.parseStoredRecord at h
  cases parsed with
  | badRevision => cases h
  | malformed => cases h
  | valid =>
    dsimp only at h
    split at h
    · cases h
    next hcheck =>
    obtain rfl := ok.inj h
    rw [not_or, not_or, not_or, not_or] at hcheck
    obtain ⟨-, -, h₁, -, h₂⟩ := hcheck
    refine ⟨rfl, fun hstate hnone => h₁ ⟨hstate, hnone⟩, fun r hr => ?_⟩
    rw [hr] at h₂
    simpa using h₂

/-! ## Commits -/

/-- A commit of an attempt of which `known` is known: its activity owns the attempt's turn,
or the commit changes nothing. A terminal attempt stays as it is. -/
structure CommitPlan (uses : Set WorkerToken) (me i : Nat) (key : JsString) (turn : Option Nat)
    (known : WorkerAttemptState → Option RemoteResult → Prop) (state : WorkerAttemptState)
    (result : Option RemoteResult) : Prop where
  stable : Stable workerContract uses (Knows me i key turn known)
  own : (∃ n, turn = some n ∧ .lock i n ∈ uses) ∨
    ∀ st res, known st res → st = .terminal ∧ state = .terminal ∧ result.or res = res
  terminal : ∀ res, known .terminal res → state = .terminal ∧ result.or res = res
  unfinished : state ≠ .terminal → ∀ st res, known st res → result.or res = none
  result : state = .terminal → ∀ st res, known st res → ∃ r, result.or res = some r ∧ r.key = key

/-- What a commit leaves when it returns. -/
def Committed (me i : Nat) (key : JsString) (turn : Option Nat) (state : WorkerAttemptState)
    (s : WorkerWorld) : Prop :=
  Knows me i key turn anything s ∧ (state = .terminal → Ended i s)

section Commit

variable {state : WorkerAttemptState} {result : Option RemoteResult}

variable {s : WorkerWorld} {a : WorkerAttempt}

theorem ended_of_terminal (hs : WorkerInv s)
    (ha : s.attempts[i]? = some a) (hstate : a.state = .terminal) : Ended i s := by
  intro hc
  obtain ⟨r, hr, -⟩ := hs.result hc i a ha hstate
  exact ⟨a, r, ha, hstate, hr⟩

theorem getElem?_committed (ha : s.attempts[i]? = some a)
    (revision : Nat) : (WorkerRuntime.committed s i revision state result).attempts[i]? =
      some { a with
        revision := revision
        state := state
        result := result.or a.result } := by
  rw [WorkerRuntime.committed, getElem?_modifyAttempt, ha, map_some, if_pos rfl]

theorem watchPersistence_safe (w : Nat) {fresh : Set WorkerToken} (hs : WorkerInv s) (hhas : Has me i key s) :
    Safe workerContract (run (WorkerRuntime.watchPersistence platform me i w)) fresh s := by
  have hspec : Spec workerContract ∅ (Has me i key)
      (WorkerRuntime.watchPersistence platform me i w) fun _ _ => True := by
    refine triple_turn stable_has (Set.empty_subset _) fun s r hs hp _ => ?_
    split
    · exact ⟨(WorkerTurn.failAttemptPersistence platform hs hp _ _).1, fun _ _ => trivial,
        fun _ _ => trivial⟩
    · exact ⟨.refl hs, fun _ _ => trivial, fun _ _ => trivial⟩
  exact (hspec.safe_run hs hhas).weaken (Set.empty_subset fresh)

section

variable (hplan : CommitPlan uses me i key turn known state result)
include hplan

theorem triple_beginCommit :
    Triple workerContract uses (Knows me i key turn known)
      (WorkerRuntime.beginCommit platform me i state result)
      (fun p s => Knows me i key turn known s ∧ p.2.1.request.key = key)
      fun e s => Knows me i key turn known s ∧ Noted me e s := by
  refine Triple.spawn fun s t r hp hst hframe ht _ => ?_
  have hp' := hplan.stable s t hst hframe hp
  have hfound := hp'
  obtain ⟨a, ha, -, hk, -⟩ := hfound
  rw [ha]
  have hturn : WorkerTurn ∅ t { t with watches := t.watches ++ [false] } := .watches ht _
  have hkeep := hturn.keeps_all hplan.stable hp'
  refine ⟨hturn.turn (Set.empty_subset _), fun p w h => ?_, fun p w h => ?_, fun e h => nomatch h⟩
  · obtain ⟨rfl, -⟩ := Prod.mk.inj (ok.inj h)
    exact ⟨hkeep, hk⟩
  · exact watchPersistence_safe _ hturn.inv hkeep.has

theorem WorkerTurn.committed
    (hs : WorkerInv s) (hp : Knows me i key turn known s) (havailable : s.available me = true)
    (revision : Nat) : WorkerTurn uses s (WorkerRuntime.committed s i revision state result) ∧
      Committed me i key turn state (WorkerRuntime.committed s i revision state result) := by
  obtain ⟨a, ha, hw, hk, hr, hn, hknown⟩ := hp
  have hgood : s.Clean → known a.state a.result := fun hc => hknown ⟨hc, havailable⟩
  have hturn : WorkerTurn uses s (WorkerRuntime.committed s i revision state result) := by
    refine .attempt hs ha rfl rfl rfl le_rfl le_rfl (fun hc r hset => ?_) (fun hc hstate => ?_)
      (fun hc hresult => ?_) ?_
    · -- a terminal attempt keeps its result
      have hterminal := hgood hc
      rw [hset.1] at hterminal
      obtain ⟨h₁, h₂⟩ := hplan.terminal _ hterminal
      exact ⟨h₁, h₂.trans hset.2⟩
    · rw [hk]
      exact hplan.result hstate _ _ (hgood hc)
    · by_contra hstate
      exact hresult (hplan.unfinished hstate _ _ (hgood hc))
    · rcases hplan.own with ⟨n, hturn, hlock⟩ | hsame
      · left
        rw [hn n hturn]
        exact hlock
      · refine .inr ⟨rfl, fun hgood' => ?_⟩
        obtain ⟨h₁, h₂, h₃⟩ := hsame _ _ (hgood hgood'.1)
        exact ⟨h₂.trans h₁.symm, h₃⟩
  have hget : (WorkerRuntime.committed s i revision state result).attempts[i]? = _ :=
    getElem?_committed ha revision
  exact ⟨hturn, ⟨_, hget, hw, hk, hr, hn, fun _ => trivial⟩,
    fun hstate => ended_of_terminal hturn.inv hget hstate⟩

theorem triple_endCommit (w : Nat)
    {answer : Except WorkerError (Option RemoteAttemptRecord)}
    (hanswer : ∀ e, answer = .error e → e ≠ .unavailable) :
    Triple workerContract uses (Knows me i key turn known)
      (WorkerRuntime.endCommit platform me i w state result answer)
      (fun done s => (done = true → Committed me i key turn state s) ∧
        (done = false → Knows me i key turn known s))
      fun e s => Knows me i key turn known s ∧ Noted me e s := by
  refine triple_turn hplan.stable subset_rfl fun s r hs hp _ => ?_
  have hwatch : WorkerTurn ∅ s { s with watches := s.watches.set w true } := .watches hs _
  have hp' := hwatch.keeps_all hplan.stable hp
  have hstart : Knows me i key turn known { s with watches := s.watches.set w true } ∧
      WorkerTurn uses s { s with watches := s.watches.set w true } :=
    ⟨hp', hwatch.mono (Set.empty_subset _)⟩
  have hthen : ∀ {u : WorkerWorld}, WorkerTurn uses { s with watches := s.watches.set w true } u →
      WorkerTurn uses s u := fun h => hstart.2.before h rfl fun _ => rfl
  generalize ({ s with watches := s.watches.set w true } : WorkerWorld) = t at hp' hwatch hstart hthen ⊢
  have ht : WorkerInv t := hwatch.inv
  cases answer with
  | error e => exact ⟨hstart.2, thrown ⟨hp', .of_ne (hanswer e rfl)⟩⟩
  | ok committedRecord =>
    dsimp only
    cases havailable : t.available me with
    | false =>
      rw [Bool.not_false, if_pos rfl]
      obtain ⟨a, ha, hrest⟩ := hp'
      by_cases hterminal : t.isTerminal i = true
      · rw [if_pos hterminal]
        refine ⟨hstart.2, returned ⟨fun _ => ⟨hstart.1.weaken, fun _ => ?_⟩, fun h => (nomatch h)⟩⟩
        exact ended_of_terminal ht ha ((isTerminal_iff ha).mp hterminal)
      · rw [if_neg hterminal]
        have hlog : WorkerTurn uses t (t.log (.ignored i)) := .log ht trivial trivial
        refine ⟨hthen hlog, returned ⟨fun _ => ⟨?_, fun _ hc => ?_⟩, fun h => (nomatch h)⟩⟩
        · exact ⟨a, ha, hrest.1, hrest.2.1, hrest.2.2.1, hrest.2.2.2.1, fun _ => trivial⟩
        · exact absurd mem_cons_self (hc i).1
    | true =>
      rw [Bool.not_true, if_neg Bool.false_ne_true]
      cases committedRecord with
      | none => exact ⟨hstart.2, returned ⟨fun h => (nomatch h), fun _ => hp'⟩⟩
      | some record =>
        dsimp only
        cases hparse : WorkerRuntime.parseStoredRecord platform me none record r.parsed with
        | error e =>
          have hfail : WorkerTurn ∅ t (t.setUnavailable me) := .setUnavailable ht me
          have hkept := hfail.keeps_all hplan.stable hp'
          have hne := parseStoredRecord_error hparse
          cases e with
          | revision =>
            exact ⟨hthen (hfail.mono (Set.empty_subset _)), thrown ⟨hkept, .of_ne hne⟩⟩
          | unavailable => exact absurd rfl hne
          | lostAuthority | other => exact ⟨hstart.2, thrown ⟨hp', .of_ne hne⟩⟩
        | ok parsedRecord =>
          obtain ⟨hturn, hcommitted⟩ :=
            WorkerTurn.committed hplan ht hp' havailable parsedRecord.revision
          exact ⟨hthen hturn, returned ⟨fun _ => hcommitted, fun h => (nomatch h)⟩⟩

theorem turn_adopted {r : RemoteResult}
    {latest : RemoteAttemptRecord}
    (hs : WorkerInv s) (hp : Knows me i key turn known s) (ha : s.attempts[i]? = some a)
    (hr : latest.result.or a.result = some r) (hkey : r.key = key)
    (hsame : s.Clean → a.state = .terminal → latest.result.or a.result = a.result) :
    WorkerTurn uses s (s.modifyAttempt i fun attempt =>
        { attempt with
          state := .terminal
          result := latest.result.or attempt.result }) ∧
      Committed me i key turn state (s.modifyAttempt i fun attempt =>
        { attempt with
          state := .terminal
          result := latest.result.or attempt.result }) := by
  obtain ⟨b, hb, hw, hk, hrec, hn, hknown⟩ := hp
  obtain rfl := some.inj (ha.symm.trans hb)
  have hturn : WorkerTurn uses s (s.modifyAttempt i fun attempt =>
      { attempt with
        state := .terminal
        result := latest.result.or attempt.result }) := by
    refine .attempt hs ha rfl rfl rfl le_rfl le_rfl (fun hc r hset => ?_) (fun _ _ => ?_)
      (fun _ _ => rfl) ?_
    · exact ⟨rfl, (hsame hc hset.1).trans hset.2⟩
    · exact ⟨r, hr, by rw [hk, hkey]⟩
    · rcases hplan.own with ⟨n, hturn, hlock⟩ | hfixed
      · left
        rw [hn n hturn]
        exact hlock
      · refine .inr ⟨rfl, fun hgood => ?_⟩
        rw [hw] at hgood
        obtain ⟨h₁, -, -⟩ := hfixed _ _ (hknown hgood)
        exact ⟨h₁.symm, hsame hgood.1 h₁⟩
  have hget : (s.modifyAttempt i fun attempt =>
      { attempt with
        state := .terminal
        result := latest.result.or attempt.result }).attempts[i]? = some { a with
          state := .terminal
          result := latest.result.or a.result } := by
    rw [getElem?_modifyAttempt, ha, map_some, if_pos rfl]
  exact ⟨hturn, ⟨_, hget, hw, hk, hrec, hn, fun _ => trivial⟩,
    fun _ => ended_of_terminal hturn.inv hget rfl⟩

theorem triple_adoptLatest
    {latest : Option RemoteAttemptRecord} (hlatest : ∀ r, latest = some r → r.request.key = key) :
    Triple workerContract uses (Knows me i key turn known)
      (WorkerRuntime.adoptLatest platform me i latest)
      (fun _ s => Committed me i key turn state s)
      fun e s => Knows me i key turn known s ∧ Noted me e s := by
  refine triple_turn hplan.stable subset_rfl fun s r hs hp _ => ?_
  have hfound := hp
  obtain ⟨a, ha, hw, hk, hrec, hn, hknown⟩ := hfound
  rw [ha]
  cases latest with
  | none => exact ⟨.refl hs, thrown ⟨hp, nofun⟩⟩
  | some record =>
    dsimp only
    cases hparse : WorkerRuntime.parseStoredRecord platform me (some a.fingerprint) record
        r.parsed with
    | error e =>
      have hne := parseStoredRecord_error hparse
      have hfail : WorkerTurn ∅ s (s.setUnavailable me) := .setUnavailable hs me
      have hkept := hfail.keeps_all hplan.stable hp
      cases e with
      | revision => exact ⟨hfail.mono (Set.empty_subset _), thrown ⟨hkept, .of_ne hne⟩⟩
      | unavailable => exact absurd rfl hne
      | lostAuthority | other => exact ⟨.refl hs, thrown ⟨hp, .of_ne hne⟩⟩
    | ok parsedRecord =>
      obtain ⟨rfl, hsome, hresultKey⟩ := parseStoredRecord_ok hparse
      dsimp only
      by_cases hrevision : parsedRecord.revision ≤ a.revision
      · rw [if_pos hrevision]
        exact ⟨.refl hs, thrown ⟨hp, nofun⟩⟩
      rw [if_neg hrevision]
      set t := s.modifyAttempt i fun attempt =>
        { attempt with
          revision := parsedRecord.revision
          epoch := parsedRecord.epoch
          cancellation := parsedRecord.cancellation } with ht
      have hturn : WorkerTurn ∅ s t := .attemptField hs i fun _ => rfl
      have hpt := hturn.keeps_all hplan.stable hp
      by_cases hterminal : parsedRecord.result.isSome ∨ parsedRecord.state = .terminal
      · rw [if_pos hterminal]
        obtain ⟨res, hres⟩ : ∃ res, parsedRecord.result = some res := by
          rw [← isSome_iff_exists]
          rcases hterminal with h | h
          · exact h
          · rw [← ne_none_iff_isSome]
            exact hsome h
        have hreskey : res.key = key := by
          rw [hresultKey res hres, hlatest parsedRecord rfl]
        let b : WorkerAttempt := { a with
          revision := parsedRecord.revision
          epoch := parsedRecord.epoch
          cancellation := parsedRecord.cancellation }
        have hb : t.attempts[i]? = some b := by
          rw [ht, getElem?_modifyAttempt, ha, map_some, if_pos rfl]
        have hor : parsedRecord.result.or b.result = some res := by
          rw [hres]
          rfl
        have hview := view_modifyAttempt s i (f := fun attempt : WorkerAttempt =>
          { attempt with
            revision := parsedRecord.revision
            epoch := parsedRecord.epoch
            cancellation := parsedRecord.cancellation }) fun _ => rfl
        by_cases hreplaced : s.isTerminal i = true ∧ parsedRecord.result.or a.result ≠ a.result
        · rw [if_pos hreplaced]
          -- the note comes first, so that nothing is promised any more
          have hlog : WorkerTurn uses t (t.log (.replaced i)) := .log hturn.inv trivial trivial
          have hnot : ¬ (t.log (.replaced i)).Clean :=
            fun hc => absurd mem_cons_self (hc i).2
          obtain ⟨hadopted, hcommitted⟩ := turn_adopted hplan hlog.inv
            ⟨b, hb, hw, hk, hrec, hn, fun hgood => absurd hgood.1 hnot⟩ hb hor hreskey
            fun hc => absurd hc hnot
          exact ⟨(hturn.mono (Set.empty_subset _)).before (hlog.andThen hadopted rfl) rfl hview,
            returned hcommitted⟩
        · rw [if_neg hreplaced]
          obtain ⟨hadopted, hcommitted⟩ := turn_adopted hplan hturn.inv hpt hb hor hreskey
            fun _ hstate => by
              by_contra hne
              exact hreplaced ⟨(isTerminal_iff ha).mpr hstate, hne⟩
          exact ⟨(hturn.mono (Set.empty_subset _)).before hadopted rfl hview, returned hcommitted⟩
      · rw [if_neg hterminal]
        exact ⟨hturn.mono (Set.empty_subset _), thrown ⟨hpt, nofun⟩⟩

theorem triple_commitOnce :
    Triple workerContract uses (Knows me i key turn known)
      (WorkerRuntime.commitOnce platform me i state result)
      (fun _ s => Committed me i key turn state s)
      fun e s => Knows me i key turn known s ∧ Noted me e s := by
  refine Triple.bind (triple_beginCommit hplan) fun p => ?_
  obtain ⟨w, record, condition⟩ := p
  refine Triple.of_pure (p := record.request.key = key) (fun hrecord => ?_) fun _ h => h.2
  refine Triple.conseq (?_ : Triple _ _ (Knows me i key turn known) _ _ _) (fun _ _ h => h.1)
    (fun _ _ _ h => h) fun _ _ _ h => h
  refine Triple.bind (Q := fun answer s => (∀ e, answer = .error e → e ≠ .unavailable) ∧
    Knows me i key turn known s) ?_ fun answer => ?_
  · refine triple_turn hplan.stable (Set.empty_subset _) fun s r hs hp _ => ?_
    have hstore : WorkerTurn ∅ s (s.commitRecord record condition).2 := .commitRecord hs _ _
    have hkept := hstore.keeps_all hplan.stable hp
    have hrefl : WorkerTurn ∅ s s := .refl hs
    have hother : ∀ e, (error .other : Except WorkerError (Option RemoteAttemptRecord)) = error e →
        e ≠ .unavailable := by
      intro e he
      obtain rfl := error.inj he
      exact WorkerError.noConfusion
    rcases r.outcome with _ | (_ | _) | _ | _
    · exact ⟨hstore, returned ⟨fun e he => (nomatch he), hkept⟩⟩
    · exact ⟨hrefl, returned ⟨hother, hp⟩⟩
    · refine ⟨hrefl, returned ⟨fun e he => ?_, hp⟩⟩
      obtain rfl := error.inj he
      exact WorkerError.noConfusion
    · exact ⟨hstore, returned ⟨hother, hkept⟩⟩
    · exact ⟨hrefl, returned ⟨hother, hp⟩⟩
  · refine Triple.of_pure (p := ∀ e, answer = .error e → e ≠ .unavailable) (fun hanswer => ?_)
      fun _ h => h.1
    refine Triple.bind (Triple.conseq (triple_endCommit hplan w hanswer) (fun _ _ h => h.2)
      (fun _ _ _ h => h) fun _ _ _ h => h) fun done => ?_
    cases done with
    | true => exact Triple.pure fun _ _ h => h.1 rfl
    | false =>
      rw [if_neg Bool.false_ne_true]
      refine Triple.bind (Q := fun latest s => (∀ r, latest = some r → r.request.key = key) ∧
        Knows me i key turn known s) ?_ fun latest => ?_
      · refine Triple.conseq (triple_keep (triple_load me record.request.key) hplan.stable
          fun _ _ => trivial)
          (fun _ _ h => h.2 rfl) (fun _ _ _ h => ?_) fun _ _ _ h => ⟨h.2, h.1⟩
        rw [hrecord] at h
        exact h
      · exact Triple.of_pure (fun hlatest => Triple.conseq (triple_adoptLatest hplan hlatest)
          (fun _ _ h => h.2) (fun _ _ _ h => h) fun _ _ _ h => h) fun _ h => h.1

end

theorem triple_giveUp {P : WorkerWorld → Prop} {Q : Unit → WorkerWorld → Prop}
    (hstable : Stable workerContract uses (Knows me i key turn known)) (message : String)
    (e : WorkerError) (hP : ∀ s, P s → Knows me i key turn known s) :
    Triple workerContract uses P
      (do
        atomically fun s r =>
          WorkerRuntime.failAttemptPersistence platform s me i message r.now
        Async.throw e : WorkerM Unit)
      Q fun e s => Knows me i key turn known s ∧ Noted me e s := by
  refine Triple.conseq (?_ : Triple _ _ (Knows me i key turn known) _ _ _) (fun s _ => hP s)
    (fun _ _ _ h => h) fun _ _ _ h => h
  have hfail : ∀ {s : WorkerWorld} {r : WorkerAnswer}, WorkerInv s → Knows me i key turn known s →
      WorkerTurn ∅ s (WorkerRuntime.failAttemptPersistence platform s me i message r.now).2 ∧
        Knows me i key turn known
          (WorkerRuntime.failAttemptPersistence platform s me i message r.now).2 ∧
        (WorkerRuntime.failAttemptPersistence platform s me i message r.now).2.available me =
          false := by
    intro s r hs hp
    obtain ⟨hturn, hbad⟩ := WorkerTurn.failAttemptPersistence platform hs hp.has message r.now
    exact ⟨hturn, hturn.keeps_all hstable hp, hbad⟩
  refine Triple.bind (Q := fun _ s => Knows me i key turn known s ∧ s.available me = false)
    (triple_turn hstable (Set.empty_subset _) fun s r hs hp _ => ?_) fun _ => ?_
  · obtain ⟨hturn, hkept, hbad⟩ := hfail (r := r) hs hp
    exact ⟨hturn, fun _ _ => ⟨hkept, hbad⟩, fun _ _ => ⟨hkept, fun _ => hbad⟩⟩
  · exact Triple.throw fun s _ hp => ⟨hp.1, fun _ => hp.2⟩

theorem triple_commit (hplan : CommitPlan uses me i key turn known state result) (rounds : Nat) :
    Triple workerContract uses (Knows me i key turn known)
      (WorkerRuntime.commit platform me i state result rounds)
      (fun _ s => Committed me i key turn state s)
      fun e s => Knows me i key turn known s ∧ Noted me e s := by
  induction rounds with
  | zero => exact triple_giveUp hplan.stable _ _ fun _ h => h
  | succ rounds ih =>
    refine Triple.tryCatch (triple_commitOnce hplan) fun e => ?_
    refine Triple.bind (Q := fun available s => Knows me i key turn known s ∧ Noted me e s ∧
      (available = false → s.available me = false)) ?_ fun available => ?_
    · exact triple_query (hplan.stable.and stable_noted) fun _ _ hp => ⟨hp.1, hp.2, fun h => h⟩
    · -- whatever is thrown, the attempt is given up or as it was
      cases e with
      | revision => exact triple_giveUp hplan.stable _ _ fun _ h => h.1
      | unavailable =>
        cases available with
        | false => exact triple_giveUp hplan.stable _ _ fun _ h => h.1
        | true => exact Triple.throw fun _ _ h => ⟨h.1, h.2.1⟩
      | lostAuthority =>
        cases available with
        | false => exact triple_giveUp hplan.stable _ _ fun _ h => h.1
        | true => exact Triple.throw fun _ _ h => ⟨h.1, fun he => (nomatch he)⟩
      | other =>
        cases available with
        | false => exact triple_giveUp hplan.stable _ _ fun _ h => h.1
        | true => exact ih.conseq (fun _ _ h => h.1) (fun _ _ _ h => h) fun _ _ _ h => h

end Commit

/-! ## Transitions -/

section Transition

variable {R Q : WorkerWorld → Prop}

theorem WorkerTurn.takeTurn {s : WorkerWorld} {a : WorkerAttempt} (hs : WorkerInv s)
    (ha : s.attempts[i]? = some a) : WorkerTurn ∅ s (s.modifyAttempt i fun attempt =>
      { attempt with issued := attempt.issued + 1 }) :=
  .attempt hs ha rfl rfl rfl (Nat.le_succ _) le_rfl (fun _ _ h => h)
    (fun hc h => hs.result hc i a ha h) (fun hc h => hs.terminal hc i a ha h)
    (.inr ⟨rfl, fun _ => ⟨rfl, rfl⟩⟩)

theorem triple_transition {operation : WorkerM Unit} (hfree : ∀ n, .lock i n ∉ uses)
    (hR : Stable workerContract uses R) (hQ : Stable workerContract uses Q)
    (hop : ∀ n, Triple workerContract (insert (.lock i n) uses)
      (fun s => Knows me i key (some n) anything s ∧ R s) operation
      (fun _ s => Knows me i key (some n) anything s ∧ Q s)
      fun e s => Knows me i key (some n) anything s ∧ Noted me e s) :
    Triple workerContract uses (fun s => Has me i key s ∧ R s)
      (WorkerRuntime.transition i operation) (fun _ => Q) (Noted me) := by
  have hrest : ∀ n, Triple workerContract (insert (.lock i n) uses) (fun s => Has me i key s ∧ R s)
      (do
        WorkerRuntime.awaitTurn i n
        tryFinally operation (update fun s _ => s.modifyAttempt i fun attempt =>
          { attempt with served := n + 1 })) (fun _ => Q) (Noted me) := by
    intro n
    have hR' : Stable workerContract (insert (.lock i n) uses) R := hR.mono (Set.subset_insert _ _)
    refine Triple.bind (Q := fun _ s => Knows me i key (some n) anything s ∧ R s) ?_ fun _ => ?_
    · refine triple_turn (stable_has.and hR') (Set.empty_subset _) fun s r hs hp hready =>
        ⟨.refl hs, fun _ _ => ⟨?_, hp.2⟩, fun _ h => nomatch h⟩
      obtain ⟨⟨a, ha, hw, hk, hrec⟩, -⟩ := hp
      refine ⟨a, ha, hw, hk, hrec, fun m hm => ?_, fun _ => trivial⟩
      rw [ha] at hready
      obtain rfl := some.inj hm
      simpa using hready
    · -- the turn is given on whatever the operation does
      have hend : ∀ {P : WorkerWorld → Prop}, Stable workerContract uses P →
          Triple workerContract (insert (.lock i n) uses)
            (fun s => Knows me i key (some n) anything s ∧ P s)
            (update fun s _ => s.modifyAttempt i fun attempt =>
              { attempt with served := n + 1 } : WorkerM Unit) (fun _ => P) (Noted me) := by
        intro P hP
        have hP' : Stable workerContract (insert (.lock i n) uses) P :=
          hP.mono (Set.subset_insert _ _)
        refine triple_turn ((stable_knows (Set.mem_insert _ _)).and hP')
          (Set.singleton_subset_iff.mpr (Set.mem_insert _ _)) fun s r hs hp _ => ?_
        obtain ⟨⟨a, ha, -, -, -, hn, -⟩, hPs⟩ := hp
        have hserved : a.served = n := hn n rfl
        have hturn : WorkerTurn {.lock i n} s (s.modifyAttempt i fun attempt =>
            { attempt with served := n + 1 }) := by
          refine .attempt hs ha rfl rfl rfl le_rfl ?_ (fun _ _ h => h)
            (fun hc h => hs.result hc i a ha h) (fun hc h => hs.terminal hc i a ha h) (.inl ?_)
          · rw [hserved]
            exact Nat.le_succ n
          · rw [hserved]
            rfl
        refine ⟨hturn, fun _ _ => hturn.keeps hP (fun token htoken hown => ?_) hPs,
          fun _ h => nomatch h⟩
        rw [Set.mem_singleton_iff] at hown
        rw [hown] at htoken
        exact hfree n htoken
      exact Triple.tryFinally (hop n) (fun _ => hend hQ) fun e => hend stable_noted
  refine Triple.alloc (fun s t r hp hst hframe ht _ => ?_) hrest
  have hp' := (stable_has.and hR) s t hst hframe hp
  have hfound := hp'
  obtain ⟨⟨a, ha, -⟩, -⟩ := hfound
  rw [ha]
  have hturn : WorkerTurn ∅ t _ := .takeTurn ht ha
  refine ⟨hturn.turn (Set.empty_subset _), fun n hn => ⟨?_, ?_⟩, fun _ h => nomatch h⟩
  · obtain rfl := ok.inj hn
    refine ⟨?_, ?_⟩
    · rintro ⟨b, hb, hlt⟩
      obtain rfl := some.inj (ha.symm.trans hb)
      exact Nat.lt_irrefl _ hlt
    · refine ⟨{ a with issued := a.issued + 1 }, ?_, Nat.lt_succ_self _⟩
      rw [getElem?_modifyAttempt, ha, map_some, if_pos rfl]
  · exact hturn.keeps_all (stable_has.and hR) hp'

end Transition

/-! ## Results -/

section Results

variable {result : RemoteResult}

theorem triple_bufferTerminal {n : Nat} (hn : .lock i n ∈ uses) (hkey : result.key = key) :
    Triple workerContract uses (Committed me i key (some n) .terminal)
      (WorkerRuntime.bufferTerminal platform me i result)
      (fun _ s => Knows me i key (some n) anything s ∧ Ended i s)
      fun e s => Knows me i key (some n) anything s ∧ Noted me e s := by
  have hstable : Stable workerContract uses (Committed me i key (some n) .terminal) :=
    (stable_knows hn).and (.imp fun _ => stable_ended)
  refine triple_turn hstable (Set.empty_subset _) fun s r hs hp _ => ?_
  have hfound := hp.1
  obtain ⟨a, ha, rfl, hk, hrec, -⟩ := hfound
  have hended : Ended i s := hp.2 rfl
  rw [ha]
  dsimp only [bind_some]
  by_cases hsame : a.result.getD result ≠ result
  · rw [if_pos hsame]
    exact ⟨.refl hs, thrown ⟨hp.1, nofun⟩⟩
  rw [if_neg hsame]
  rw [not_not] at hsame
  rw [hsame]
  have hset : s.Clean → a.Settled result := by
    intro hc
    obtain ⟨b, r', hb, hstate, hr'⟩ := hended hc
    obtain rfl := some.inj (ha.symm.trans hb)
    rw [hr', getD_some] at hsame
    rw [hsame] at hr'
    exact ⟨hstate, hr'⟩
  have hturn : WorkerTurn ∅ s _ := .putAndRelease platform hs ha hrec hset (hkey.trans hk.symm)
  have hkeep := hturn.keeps_all hstable hp
  refine ⟨hturn, fun _ _ => ⟨hkeep.1, hkeep.2 rfl⟩, fun e he => ⟨hkeep.1, fun he' => ?_⟩⟩
  exact absurd he' (putAndRelease_error he)

theorem triple_terminalTransition {n : Nat} (hn : .lock i n ∈ uses) (hkey : result.key = key) :
    Triple workerContract uses (Knows me i key (some n) anything)
      (WorkerRuntime.terminalTransition platform me i result)
      (fun _ s => Knows me i key (some n) anything s ∧ Ended i s)
      fun e s => Knows me i key (some n) anything s ∧ Noted me e s := by
  refine Triple.bind (Q := fun terminal s => Knows me i key (some n) (fun state _ =>
    terminal = false → state ≠ .terminal) s ∧ (terminal = true → Ended i s)) ?_ fun terminal => ?_
  · refine triple_query (stable_knows hn) fun s hs hp => ?_
    obtain ⟨a, ha, hw, hk, hrec, hserved, -⟩ := hp
    refine ⟨⟨a, ha, hw, hk, hrec, hserved, fun _ hfalse hstate => ?_⟩, fun htrue => ?_⟩
    · rw [(isTerminal_iff ha).mpr hstate] at hfalse
      cases hfalse
    · exact ended_of_terminal hs ha ((isTerminal_iff ha).mp htrue)
  · cases terminal with
    | true => exact Triple.pure fun _ _ h => ⟨h.1.weaken, h.2 rfl⟩
    | false =>
      rw [if_neg Bool.false_ne_true]
      have hplan : CommitPlan uses me i key (some n) (fun state _ => false = false →
          state ≠ .terminal) .terminal (some result) :=
        { stable := stable_knows hn
          own := .inl ⟨n, rfl, hn⟩
          terminal := fun _ h => absurd rfl (h rfl)
          result := fun _ _ _ _ => ⟨result, rfl, hkey⟩
          unfinished := fun h => absurd rfl h }
      refine Triple.bind ((triple_commit hplan _).conseq (fun _ _ h => h.1) (fun _ _ _ h => h)
        fun _ _ _ h => ⟨h.1.weaken, h.2⟩) fun _ => ?_
      exact triple_bufferTerminal hn hkey

theorem terminalFailed_spec {request : RemoteRequest} {e : WorkerError} (hkey : request.key = key) :
    Spec workerContract ∅ (fun s => Has me i key s ∧ Noted me e s)
      (WorkerRuntime.terminalFailed platform me i request e) fun _ => Ended i := by
  refine triple_turn (stable_has.and stable_noted) (Set.empty_subset _) fun s r hs hp _ => ?_
  obtain ⟨⟨a, ha, rfl, hk, hrec⟩, hnoted⟩ := hp
  by_cases hrethrow : (e = .other ∨ e = .lostAuthority) ∧ s.available a.worker = true
  · rw [if_pos hrethrow]
    exact ⟨.refl hs, fun _ h => (nomatch h), fun _ _ => trivial⟩
  rw [if_neg hrethrow]
  set t := if e = .revision then s.setUnavailable a.worker else s with ht
  have hturn : WorkerTurn ∅ s t := by
    rw [ht]
    split
    · exact .setUnavailable hs _
    · exact .refl hs
  have hta : t.attempts[i]? = some a := by
    rw [ht]
    split
    · exact ha
    · exact ha
  have hevents : t.works = s.works ∧ ∀ j : Nat, (t.attempts[j]?).map WorkerAttempt.view =
      (s.attempts[j]?).map WorkerAttempt.view := by
    rw [ht]
    split
    · exact ⟨rfl, fun _ => rfl⟩
    · exact ⟨rfl, fun _ => rfl⟩
  -- nothing relies on the records any more
  have hbad : ¬ t.Good a.worker := by
    intro hgood
    have havailable := hturn.law.grows.available _ hgood.2
    cases e with
    | revision =>
      have hset : t.available a.worker = false := by
        rw [ht, if_pos rfl, available, setUnavailable, workers_modifyWorker, if_pos rfl]
      rw [hgood.2] at hset
      cases hset
    | unavailable =>
      rw [hnoted rfl] at havailable
      cases havailable
    | lostAuthority => exact hrethrow ⟨.inr rfl, havailable⟩
    | other => exact hrethrow ⟨.inl rfl, havailable⟩
  obtain ⟨hvolatile, hset⟩ := WorkerTurn.terminalVolatile platform
    (WorkerRuntime.unavailableResult platform a.worker request
      (if e = .revision then "Worker attempt persistence returned an invalid revision"
        else "Worker attempt persistence is unavailable") r.now) hturn.inv hta hrec
    (hkey.trans hk.symm) hbad
  refine ⟨hturn.before hvolatile hevents.1 hevents.2, fun u hu => ?_, fun _ _ => trivial⟩
  obtain ⟨b, hb, -, -, -, hstate, -⟩ := hset hu
  exact ended_of_terminal hvolatile.inv hb hstate

theorem persistResult_spec {request : RemoteRequest} (hrequest : request.key = key)
    (hkey : result.key = key) : Spec workerContract ∅ (Has me i key)
      (WorkerRuntime.persistResult platform me request result) fun r _ => r.key = key := by
  unfold WorkerRuntime.persistResult
  split
  · refine Spec.bind (Q := fun _ => Has me i key) (triple_turn stable_has (Set.empty_subset _)
      fun s r hs hp _ => ?_) fun stored => ?_
    · have hdurable : WorkerTurn ∅ s { s with
          durableResults := Function.update s.durableResults result.key (some result) } := by
        refine .durable hs fun k res h => ?_
        by_cases hk : k = result.key
        · obtain ⟨a, ha, -, hka, hrec⟩ := hp
          rw [hk, update_self] at h
          obtain rfl := some.inj h
          refine ⟨?_, hk.symm⟩
          rw [hk, hkey, ← hka]
          exact hs.recorded i a ha hrec
        · rw [update_of_ne hk] at h
          exact hs.durable k res h
      have hkeep := hp.mono hdurable.law.grows
      cases r.outcome with
      | done | lost => exact ⟨hdurable, fun _ _ => hkeep, fun _ _ => trivial⟩
      | failed revision => exact ⟨.refl hs, fun _ _ => hp, fun _ _ => trivial⟩
      | late => exact ⟨.refl hs, fun _ _ => hp, fun _ _ => trivial⟩
    · cases stored with
      | true => exact Spec.ret fun _ _ => hkey
      | false =>
        refine spec_turn stable_has (Set.empty_subset _) fun s r hs hp _ => ⟨?_, fun res h => ?_⟩
        · dsimp only
          exact .bookkeeping hs rfl rfl rfl rfl rfl
        · rw [← ok.inj h]
          exact hrequest
  · exact Spec.ret fun _ _ => hkey

theorem boundedResult_key {a : WorkerAttempt} {candidate : RemoteResult} {now : Int}
    (h : candidate.key = a.key) :
    (WorkerRuntime.boundedResult platform me a candidate now).key = a.key := by
  unfold WorkerRuntime.boundedResult
  dsimp only
  split
  · split
    · rfl
    · rfl
  split
  · rfl
  · exact h

theorem terminal_spec {candidate : RemoteRequest → Int → RemoteResult}
    (hcandidate : ∀ request now, (candidate request now).key = request.key) :
    Spec workerContract ∅ (Has me i key) (WorkerRuntime.terminal platform me i candidate)
      fun _ _ => True := by
  refine Spec.bind (Q := fun prepared s => (∀ p, prepared = some p →
    p.1.key = key ∧ p.2.key = key) ∧ Has me i key s) ?_ fun prepared => ?_
  · refine triple_turn stable_has (Set.empty_subset _) fun s r hs hp _ =>
      ⟨.refl hs, fun prepared h => ⟨fun p hp' => ?_, hp⟩, fun _ _ => trivial⟩
    obtain ⟨a, ha, -, hk, -⟩ := hp
    obtain rfl := ok.inj h
    rw [ha] at hp'
    split at hp'
    · cases hp'
    · obtain rfl := some.inj hp'
      exact ⟨hk, (boundedResult_key (hcandidate _ _)).trans hk⟩
  · refine Spec.of_pure (fun hprepared => ?_) fun _ h => h.1
    cases prepared with
    | none => exact Spec.ret fun _ _ => trivial
    | some p =>
      obtain ⟨request, bounded⟩ := p
      obtain ⟨hrequest, hbounded⟩ := hprepared _ rfl
      refine Spec.pre ?_ fun _ h => h.2
      refine (persistResult_spec hrequest hbounded).seq stable_has (fun _ h => h) fun result => ?_
      refine Spec.of_pure (fun hresult => ?_) fun _ h => h.1
      have hready : ∀ s, result.key = key ∧ Has me i key s → Has me i key s := fun _ h => h.2
      refine Spec.pre ?_ hready
      refine Spec.bind (Q := fun _ s => Ended i s ∧ Has me i key s) ?_ fun _ => ?_
      · have htransition : Triple workerContract ∅ (fun s => Has me i key s ∧ True)
            (WorkerRuntime.transition i (WorkerRuntime.terminalTransition platform me i result))
            (fun _ => Ended i) (Noted me) :=
          triple_transition (fun _ => Set.notMem_empty _) (.const True) stable_ended fun n =>
            (triple_terminalTransition (Set.mem_insert _ _) hresult).conseq (fun _ _ h => h.1)
              (fun _ _ _ h => h) fun _ _ _ h => h
        refine Triple.tryCatch ((triple_keep (htransition.conseq (fun _ _ h => ⟨h, trivial⟩)
          (fun _ _ _ h => h) fun _ _ _ h => h) stable_has fun _ h => h)) fun e => ?_
        exact (Triple.keep_rely (terminalFailed_spec hrequest) fun s t hst h =>
          h.mono hst).conseq (fun _ _ h => ⟨⟨h.2, h.1⟩, h.2⟩) (fun _ _ _ h => h) fun _ _ _ _ => trivial
      · refine spec_update (stable_ended.and stable_has) (Set.empty_subset _)
          fun s r hs hp => ⟨.publications hs fun p hmem => ?_, trivial⟩
        rcases mem_append.mp hmem with hmem | hmem
        · exact .inl ⟨p.2.2, hmem⟩
        · obtain rfl := mem_singleton.mp hmem
          right
          intro hc
          obtain ⟨hended, a, ha, hw, hk, hrec⟩ := hp
          obtain ⟨b, res, hb, hstate, hres⟩ := hended hc
          obtain rfl := some.inj (ha.symm.trans hb)
          obtain ⟨res', hres', hkey'⟩ := hs.result hc i a ha hstate
          obtain rfl := some.inj (hres.symm.trans hres')
          rw [ha, bind_some, hres, getD_some]
          exact ⟨i, a, ha, hw, hkey'.symm, hrec, hstate, hres⟩

end Results

/-! ## Acknowledgements and publications -/

section Acknowledgements

variable {n work : Nat}

theorem stable_working (hwork : .work work ∈ uses) :
    Stable workerContract uses fun s => s.Working me work :=
  fun _ _ _ hframe h => hframe _ hwork me h

theorem triple_commitCurrent (hn : .lock i n ∈ uses) :
    Triple workerContract uses (Knows me i key (some n) anything)
      (WorkerRuntime.commitCurrent platform me i) (fun _ => Knows me i key (some n) anything)
      fun e s => Knows me i key (some n) anything s ∧ Noted me e s := by
  refine Triple.bind (Q := fun current s => ∃ st res, current = some (st, res) ∧
    Knows me i key (some n) (fun st' res' => st' = st ∧ res' = res ∧
      (st = .terminal → ∃ r, res = some r ∧ r.key = key) ∧
      (st ≠ .terminal → res = none)) s) ?_ fun current => ?_
  · refine triple_query (stable_knows hn) fun s hs hp => ?_
    obtain ⟨a, ha, hw, hk, hrec, hserved, -⟩ := hp
    refine ⟨a.state, a.result, by rw [ha, map_some], a, ha, hw, hk, hrec, hserved,
      fun hgood => ⟨rfl, rfl, fun hstate => ?_, fun hstate => ?_⟩⟩
    · rw [← hk]
      exact hs.result hgood.1 i a ha hstate
    · by_contra hresult
      exact hstate (hs.terminal hgood.1 i a ha hresult)
  · cases current with
    | none => exact Triple.of_false fun s ⟨_, _, h, _⟩ => nomatch h
    | some p =>
      obtain ⟨state, result⟩ := p
      have hplan : CommitPlan uses me i key (some n) (fun st' res' => st' = state ∧
          res' = result ∧ (state = .terminal → ∃ r, result = some r ∧ r.key = key) ∧
          (state ≠ .terminal → result = none)) state result :=
        { stable := stable_knows hn
          own := .inl ⟨n, rfl, hn⟩
          terminal := by
            rintro res ⟨hstate, rfl, -⟩
            exact ⟨hstate.symm, Option.or_self⟩
          result := by
            rintro hstate st res ⟨-, rfl, h, -⟩
            rw [Option.or_self]
            exact h hstate
          unfinished := by
            rintro hstate st res ⟨-, rfl, -, h⟩
            rw [Option.or_self]
            exact h hstate }
      refine (triple_commit hplan _).conseq (fun s _ h => ?_) (fun _ _ _ h => h.1)
        fun _ _ _ h => ⟨h.1.weaken, h.2⟩
      obtain ⟨st, res, heq, hknows⟩ := h
      obtain ⟨rfl, rfl⟩ := Prod.mk.inj (some.inj heq)
      exact hknows

theorem triple_acknowledgeAttempt : Triple workerContract (insert (.lock i n) {.work work})
    (fun s => Knows me i key (some n) anything s ∧ s.Working me work)
    (WorkerRuntime.acknowledgeAttempt platform me i key work)
    (fun _ s => Knows me i key (some n) anything s ∧ s.Working me work)
    fun e s => Knows me i key (some n) anything s ∧ Noted me e s := by
  have hn : .lock i n ∈ (insert (.lock i n) {.work work} : Set WorkerToken) := Set.mem_insert _ _
  have hstable : Stable workerContract (insert (.lock i n) {.work work}) fun s =>
      Knows me i key (some n) anything s ∧ s.Working me work :=
    (stable_knows hn).and (stable_working (Set.mem_insert_of_mem _ rfl))
  have hfield : ∀ {s : WorkerWorld} {f : WorkerAttempt → WorkerAttempt}, WorkerInv s →
      (∀ a, (f a).view = a.view) → WorkerTurn ∅ s (s.modifyAttempt i f) :=
    fun hs hview => .attemptField hs i hview
  refine Triple.bind (Q := fun _ s => Knows me i key (some n) anything s ∧ s.Working me work)
    (triple_turn hstable (Set.empty_subset _) fun s r hs hp _ => ?_) fun first => ?_
  · split
    · have hset : WorkerTurn ∅ s (s.modifyAttempt i fun attempt =>
          { attempt with acknowledgedAt := some r.now }) := hfield hs fun _ => rfl
      have hturn := hset.before (.log (e := .acknowledged me key work) hset.inv
        hp.2 trivial) rfl (view_modifyAttempt s i fun _ => rfl)
      exact ⟨hturn, returned (hturn.keeps_all hstable hp)⟩
    · exact ⟨.refl hs, returned hp⟩
  · cases first with
    | false => exact Triple.pure fun _ _ h => h
    | true =>
      rw [if_pos rfl]
      have hlock : Triple workerContract {.lock i n} (Knows me i key (some n) anything)
          (WorkerRuntime.commitCurrent platform me i)
          (fun _ => Knows me i key (some n) anything)
          fun e s => Knows me i key (some n) anything s ∧ Noted me e s :=
        triple_commitCurrent (Set.mem_singleton _)
      have hworking : Stable workerContract {.work work} fun s => s.Working me work :=
        stable_working (Set.mem_singleton _)
      have hcommit := Triple.frame_union hlock (fun token htoken hown => ?_)
        (hworking : Stable workerContract {.work work} fun s => s.Working me work)
      · rw [← Set.insert_eq] at hcommit
        refine Triple.tryCatch hcommit fun e => ?_
        refine Triple.bind (Q := fun _ s => Knows me i key (some n) anything s ∧ Noted me e s)
          (triple_turn (((stable_knows hn).and stable_noted).and
            (stable_working (Set.mem_insert_of_mem _ rfl))) (Set.empty_subset _)
            fun s r hs hp _ => ?_) fun _ => Triple.throw fun _ _ h => h
        have hset : WorkerTurn ∅ s (s.modifyAttempt i fun attempt =>
            { attempt with acknowledgedAt := none }) := hfield hs fun _ => rfl
        exact ⟨hset, returned (hset.keeps_all ((stable_knows hn).and stable_noted) hp.1)⟩
      · rw [Set.mem_singleton_iff] at htoken hown
        rw [htoken] at hown
        cases hown

theorem has_of_lookup {s : WorkerWorld} (hs : WorkerInv s) (h : s.lookup me key = some i) :
    Has me i key s := by
  obtain ⟨l₁, l₂, hl, -⟩ := lookup_eq_some_iff.mp h
  have hmem : (key, i) ∈ s.entries me := by
    show (key, i) ∈ (s.workers me).attempts
    rw [hl]
    simp
  obtain ⟨a, ha, hw, hk, hr⟩ := hs.entry me key i hmem
  exact ⟨a, ha, hw, hk, hr⟩

theorem deleteResult_spec : Spec workerContract ∅ (fun _ => True)
    (WorkerRuntime.deleteResult platform me key) fun _ _ => True := by
  unfold WorkerRuntime.deleteResult
  split
  · refine spec_turn (.const True) (Set.empty_subset _) fun s r hs _ _ => ?_
    have hdelete : WorkerTurn ∅ s { s with
        durableResults := Function.update s.durableResults key none } := by
      refine .durable hs fun k res h => ?_
      by_cases hk : k = key
      · subst hk
        rw [update_self] at h
        cases h
      · rw [update_of_ne hk] at h
        exact hs.durable k res h
    cases r.outcome with
    | done | lost => exact ⟨hdelete, fun _ _ => trivial⟩
    | failed revision => exact ⟨.refl hs, fun _ _ => trivial⟩
    | late => exact ⟨.refl hs, fun _ _ => trivial⟩
  · exact Spec.ret fun _ _ => trivial

theorem acknowledgeResult_spec : Spec workerContract {.work work} (fun s => s.Working me work)
    (WorkerRuntime.acknowledgeResult platform me key work) fun _ _ => True := by
  have hstable : Stable workerContract {.work work} fun s => s.Working me work :=
    stable_working (Set.mem_singleton _)
  refine Spec.bind (Q := fun p s => (∀ i, p.2.1 = some i → Has me i key s) ∧ s.Working me work)
    (triple_query hstable fun s hs hp => ⟨fun i h => has_of_lookup hs h, hp⟩) fun p => ?_
  obtain ⟨retained, attempt, available⟩ := p
  -- the end of an acknowledgement
  have hend : Spec workerContract {.work work} (fun s => s.Working me work)
      (do
        WorkerRuntime.deleteResult platform me key
        update fun s _ => (s.modifyWorker me fun worker =>
          { worker with
            results := worker.results.filter fun entry => entry.1 != key
            reservedResults := worker.reservedResults - 1 }).log (.acknowledged me key work))
      fun _ _ => True := by
    refine (deleteResult_spec.keep hstable fun _ _ => trivial).bind fun _ => ?_
    refine spec_update ((Stable.const True).and hstable) (Set.empty_subset _)
      fun s r hs hp => ⟨?_, trivial⟩
    have hdrop : WorkerTurn ∅ s (s.modifyWorker me fun worker =>
        { worker with
          results := worker.results.filter fun entry => entry.1 != key
          reservedResults := worker.reservedResults - 1 }) :=
      .dropResult hs me key rfl rfl rfl rfl rfl
    exact hdrop.before (.log hdrop.inv hp.2 trivial) rfl fun _ => rfl
  cases retained with
  | false => exact Spec.ret fun _ _ => trivial
  | true =>
    cases attempt with
    | none =>
      exact hend.pre fun _ h => h.2
    | some i =>
      have hhas : Stable workerContract {.work work} fun s =>
          (∀ j, some i = some j → Has me j key s) ∧ s.Working me work :=
        (Stable.all fun _ => .imp fun _ => stable_has).and hstable
      cases available with
      | false =>
        refine spec_turn hhas (Set.empty_subset _) fun s r hs hp _ =>
          ⟨(WorkerTurn.failAttemptPersistence platform hs (hp.1 i rfl) _ _).1, fun _ _ => trivial⟩
      | true =>
        refine Spec.bind (Q := fun _ s => s.Working me work) ?_ fun _ => hend
        have htransition : Triple workerContract {.work work}
            (fun s => Has me i key s ∧ s.Working me work)
            (WorkerRuntime.transition i (WorkerRuntime.acknowledgeAttempt platform me i key work))
            (fun _ s => s.Working me work) (Noted me) :=
          triple_transition (fun _ h => nomatch h) hstable hstable
            fun _ => triple_acknowledgeAttempt
        exact htransition.conseq (fun _ _ h => ⟨h.1 i rfl, h.2⟩) (fun _ _ _ h => h)
          fun _ _ _ _ => trivial

variable {result : RemoteResult}

theorem reportable_of_settledBy {s : WorkerWorld} (hs : WorkerInv s)
    (hc : s.Clean) (hphase : s.phase me = .hydrated) (h : s.SettledBy me result) :
    s.Reportable me result.key result := by
  obtain ⟨i, a, ha, hw, hk, hr, hset⟩ := h
  refine ⟨⟨?_, hphase, fun r hbuffered => ?_, fun j b hb hwb hkb hrb => ?_⟩,
    .inl ⟨i, a, ha, hw, hk, hr, hset⟩⟩
  · rw [← hk]
    exact hs.recorded i a ha hr
  · rw [← hw, ← hk] at hbuffered
    have hset' := hs.bufferedResult hc i a r ha hr hbuffered
    exact some.inj (hset'.2.symm.trans hset.2)
  · obtain rfl := hs.unique j i b a hb ha hrb hr (hwb.trans hw.symm) (hkb.trans hk.symm)
    obtain rfl := some.inj (ha.symm.trans hb)
    exact hset

theorem stable_settledBy : Stable workerContract uses fun s => s.Clean → s.SettledBy me result := by
  intro s t hst _ hs ht
  obtain ⟨i, a, ha, hw, hk, hr, hset⟩ := hs (Clean.of_suffix hst.events ht)
  obtain ⟨b, hb, hg⟩ := hst.attempt i a ha
  exact ⟨i, b, hb, hg.worker.trans hw, hg.key.trans hk, hg.recorded hr, hg.settled ht _ hset⟩

theorem closeWork_spec : Spec workerContract {.work work} (fun _ => True)
    (update fun s _ => WorkerRuntime.closeWork s work : WorkerM Unit) fun _ _ => True :=
  spec_update (.const True) subset_rfl fun _ _ hs _ => ⟨.closeWork hs work, trivial⟩

theorem publish_spec : Spec workerContract ∅
    (fun s => s.Clean → s.SettledBy me result) (WorkerRuntime.publish platform me result)
    fun _ _ => True := by
  refine Spec.bind (Q := fun session s => session ≠ none → s.phase me = .hydrated)
    (triple_turn stable_settledBy (Set.empty_subset _) fun s r hs hp _ => ?_) fun session => ?_
  · cases hsession : (s.workers me).session with
    | none => exact ⟨.refl hs, returned fun h => absurd rfl h⟩
    | some session =>
      have hphase : s.phase me = .hydrated := by
        refine hs.session me ?_
        show (s.workers me).session ≠ none
        rw [hsession]
        exact some_ne_none _
      cases r.ok with
      | false => exact ⟨.refl hs, returned fun h => absurd rfl h⟩
      | true =>
        refine ⟨.log (e := .reported me result.key result) hs trivial fun hc =>
          reportable_of_settledBy hs hc hphase (hp hc), returned fun _ => hphase⟩
  · cases session with
    | none => exact Spec.ret fun _ _ => trivial
    | some session =>
      refine Spec.assume (fun s => s.phase me = .hydrated) (fun _ h => h (some_ne_none _)) ?_
      refine Triple.tryCatch (E := fun _ _ => True) ?_ fun _ => Triple.pure fun _ _ _ => trivial
      refine Spec.alloc (fun work => .work work) stable_phase (Q := fun work s => s.Working me work)
        (fun s r hs hp _ => ?_) fun work => ?_
      · cases r.ok with
        | false => exact ⟨(WorkerTurn.refl hs).turn (Set.empty_subset _), fun _ h => nomatch h⟩
        | true =>
          have hopen : WorkerTurn ∅ s (WorkerRuntime.openWork s me session).2 := .openWork hs hp
          refine ⟨hopen.turn (Set.empty_subset _), fun work h => ?_⟩
          obtain rfl := ok.inj h
          refine ⟨⟨Nat.lt_irrefl _, ?_⟩, ⟨me, session, false⟩, ?_, rfl, rfl⟩
          · show s.works.length < (s.works ++ [_]).length
            rw [length_append]
            exact Nat.lt_succ_self _
          · exact getElem?_concat_length
      · rw [insert_empty_eq]
        exact Triple.tryFinally acknowledgeResult_spec (fun _ => closeWork_spec)
          fun _ => closeWork_spec

end Acknowledgements

end TegoNext
