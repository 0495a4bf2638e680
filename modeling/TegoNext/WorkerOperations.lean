/-
Executions, assignments, cancellations and messages of the worker runtime keep the contract.

The handler of a message owns its work until the message has been handled. An assignment
owns the launch of the attempt it adds, and the execution it starts owns the submission.
-/
import TegoNext.WorkerCalls

set_option autoImplicit false

namespace TegoNext

open Async WorkerWorld List Option Except

variable {platform : WorkerPlatform} {uses : Set WorkerToken} {me i : Nat} {key : JsString}
  {P : WorkerWorld → Prop}

/-! ## Cancellation -/

/-- The work of a cancellation, if it was asked for. -/
def workTokens (work : Option Nat) : Set WorkerToken :=
  {token | ∃ w, work = some w ∧ token = .work w}

def Works (me : Nat) (work : Option Nat) (s : WorkerWorld) : Prop :=
  ∀ w, work = some w → s.Working me w

theorem stable_works {work : Option Nat} :
    Stable workerContract (workTokens work) (Works me work) := by
  refine .all fun w => ?_
  intro s t _ hframe hs hw
  exact hframe (.work w) ⟨w, hw, rfl⟩ me (hs hw)

theorem send_spec (hP : Stable workerContract uses P) :
    Spec workerContract uses P WorkerRuntime.send fun _ => P :=
  Spec.check stutters_workerContract hP fun _ _ _ _ hp _ => hp

theorem spec_query {α : Type} {f : WorkerWorld → α} {Q : α → WorkerWorld → Prop}
    (hP : Stable workerContract uses P) (h : ∀ s, WorkerInv s → P s → Q (f s) s) :
    Spec workerContract uses P (Async.query f : WorkerM α) Q :=
  Spec.query stutters_workerContract hP h

theorem spec_check {α : Type} {f : WorkerWorld → WorkerAnswer → Except WorkerError α}
    {Q : α → WorkerWorld → Prop} (hP : Stable workerContract uses P)
    (h : ∀ s r a, WorkerInv s → P s → f s r = .ok a → Q a s) :
    Spec workerContract uses P (Async.check f) Q :=
  Spec.check stutters_workerContract hP h

theorem last_spec {α : Type} {P' : WorkerWorld → Prop} {m : WorkerM α}
    (h : Spec workerContract ∅ P' m fun _ _ => True) (hP' : Stable workerContract uses P')
    (hP : ∀ s, P s → P' s) : Spec workerContract uses P m fun _ _ => True :=
  (h.keep hP' fun _ h => h).conseq hP fun _ _ _ => trivial

theorem terminalFailure_spec (status : ExecutionTerminalStatus) (code message : String) :
    Spec workerContract ∅ (Has me i key)
      (WorkerRuntime.terminalFailure platform me i status code message) fun _ _ => True :=
  terminal_spec fun _ _ => rfl

theorem markCancelled_spec {work : Option Nat} : Spec workerContract (workTokens work)
    (fun s => Has me i key s ∧ Works me work s)
    (WorkerRuntime.markCancelled platform me i work) fun _ _ => True := by
  refine Spec.bind (Q := fun _ => Has me i key) (spec_turn (stable_has.and stable_works)
    (Set.empty_subset _) fun s r hs hp _ => ?_) fun marked => ?_
  · split
    · exact ⟨.refl hs, fun _ _ => hp.1⟩
    · have hset : WorkerTurn ∅ s (s.modifyAttempt i fun attempt =>
          { attempt with cancellation := some .cancelled }) := .attemptField hs i fun _ => rfl
      have hlaw : EffectLaw (s.modifyAttempt i fun attempt =>
          { attempt with cancellation := some .cancelled }) (.cancelled me i work) := by
        cases work with
        | none => trivial
        | some w => exact hp.2 w rfl
      have hturn := hset.before (.log (e := .cancelled me i work) hset.inv hlaw trivial) rfl
        (view_modifyAttempt s i fun _ => rfl)
      exact ⟨hturn, fun _ _ => hp.1.mono hturn.law.grows⟩
  · cases marked with
    | false => exact Spec.ret fun _ _ => trivial
    | true =>
      rw [if_pos rfl]
      have htransition : Triple workerContract ∅ (fun s => Has me i key s ∧ True)
          (WorkerRuntime.transition i (do
            let terminal ← query fun s => s.isTerminal i
            if terminal then pure () else WorkerRuntime.commitCurrent platform me i))
          (fun _ _ => True) (Noted me) := by
        refine triple_transition (fun _ => Set.notMem_empty _) (.const True) (.const True)
          fun n => ?_
        have hn : .lock i n ∈ (insert (.lock i n) ∅ : Set WorkerToken) := Set.mem_insert _ _
        refine Triple.bind (Q := fun _ => Knows me i key (some n) anything)
          (triple_query ((stable_knows hn).and (.const True)) fun _ _ hp => hp.1)
          fun terminal => ?_
        cases terminal with
        | true => exact Triple.pure fun _ _ h => ⟨h, trivial⟩
        | false =>
          exact (triple_commitCurrent hn).conseq (fun _ _ h => h)
            (fun _ _ _ h => ⟨h, trivial⟩) fun _ _ _ h => h
      have hspec : Spec workerContract ∅ (Has me i key) _ fun _ _ => True :=
        htransition.conseq (fun _ _ h => ⟨h, trivial⟩) (fun _ _ _ h => h) fun _ _ _ _ => trivial
      exact last_spec hspec stable_has fun _ h => h

theorem cancelAttempt_spec {work : Option Nat} (code message : String) :
    Spec workerContract (workTokens work) (fun s => Has me i key s ∧ Works me work s)
      (WorkerRuntime.cancelAttempt platform me i work code message) fun _ _ => True := by
  have hstable : Stable workerContract (workTokens work) fun s =>
      Has me i key s ∧ Works me work s := stable_has.and stable_works
  refine Spec.bind (spec_query (Q := fun _ s => Has me i key s ∧ Works me work s) hstable
    fun _ _ h => h) fun terminal => ?_
  cases terminal with
  | true => exact Spec.ret fun _ _ => trivial
  | false =>
    rw [if_neg Bool.false_ne_true]
    have hmark : Spec workerContract (workTokens work)
        (fun s => Has me i key s ∧ Works me work s)
        (WorkerRuntime.markCancelled platform me i work) fun _ => Has me i key :=
      ((markCancelled_spec.keep_rely fun _ _ hst h => h.mono hst).pre fun _ h => ⟨h, h.1⟩).post
        fun _ _ h => h.2
    refine hmark.bind fun _ => ?_
    refine Spec.bind (spec_query (Q := fun _ => Has me i key) stable_has fun _ _ h => h)
      fun executor => ?_
    cases executor with
    | true => exact (send_spec stable_has).post fun _ _ _ => trivial
    | false => exact last_spec (terminalFailure_spec _ _ _) stable_has fun _ h => h

/-! ## Executions -/

def Executing (me i : Nat) (key : JsString) (s : WorkerWorld) : Prop :=
  Has me i key s ∧ .submitted i ∉ s.events ∧ (∃ me' w, .launched me' i w ∈ s.events) ∧
    ∃ a, s.attempts[i]? = some a ∧ a.origin = .assigned

theorem stable_assigned : Stable workerContract uses
    fun s => ∃ a, s.attempts[i]? = some a ∧ a.origin = .assigned := by
  refine .of_rely fun s t hst => ?_
  rintro ⟨a, ha, ho⟩
  obtain ⟨b, hb, hg⟩ := hst.attempt i a ha
  refine ⟨b, hb, ?_⟩
  rcases hg.origin with h | ⟨h, -⟩
  · exact h.trans ho
  · rw [ho] at h
    cases h

theorem stable_executing (hi : .execution i ∈ uses) :
    Stable workerContract uses (Executing me i key) := by
  have hlaunched : Stable workerContract uses fun s => ∃ me' w, .launched me' i w ∈ s.events :=
    .of_rely fun s t hst ⟨me', w, h⟩ => ⟨me', w, hst.events.mem h⟩
  have hnew : Stable workerContract uses fun s => .submitted i ∉ s.events :=
    fun s t _ hframe h => hframe (.execution i) hi h
  exact stable_has.and (hnew.and (hlaunched.and stable_assigned))

theorem submit_spec : Spec workerContract {.execution i} (Executing me i key)
    (WorkerRuntime.submit me i) fun _ => Has me i key := by
  refine spec_turn (stable_executing (Set.mem_singleton _)) subset_rfl fun s r hs hp _ => ?_
  have hkeep : ∀ {t : WorkerWorld}, WorkerTurn {.execution i} s t → Has me i key t :=
    fun h => hp.1.mono h.law.grows
  split
  · exact ⟨.refl hs, fun _ _ => hp.1⟩
  next hstopped =>
  split
  · exact ⟨.refl hs, fun _ h => nomatch h⟩
  obtain ⟨-, hnew, hlaunched, a, ha, ho⟩ := hp
  have hset : WorkerTurn ∅ s (s.modifyAttempt i fun attempt =>
      { attempt with executor := true }) := .attemptField hs i fun _ => rfl
  have hget : (s.modifyAttempt i fun attempt =>
      { attempt with executor := true }).attempts[i]? = some { a with executor := true } := by
    rw [getElem?_modifyAttempt, ha, map_some, if_pos rfl]
  have hstate : a.state ≠ .terminal := by
    intro h
    rw [WorkerRuntime.isStopped, (isTerminal_iff ha).mpr h] at hstopped
    exact hstopped rfl
  have hlog := WorkerTurn.log (e := .submitted i) hset.inv
    ⟨hnew, { a with executor := true }, hget, ho, hstate⟩
    ⟨Set.mem_singleton (WorkerToken.execution i), hlaunched⟩
  have hturn := (hset.mono (Set.empty_subset _)).before hlog rfl
    (view_modifyAttempt s i fun _ => rfl)
  exact ⟨hturn, fun _ _ => hkeep hturn⟩

theorem triple_runningTransition {n : Nat} (hn : .lock i n ∈ uses) :
    Triple workerContract uses (Knows me i key (some n) anything)
      (WorkerRuntime.runningTransition platform me i)
      (fun _ => Knows me i key (some n) anything)
      fun e s => Knows me i key (some n) anything s ∧ Noted me e s := by
  refine Triple.bind (Q := fun current => Knows me i key (some n) fun state res =>
    ∀ result, current = some result → state ≠ .terminal ∧ res = none ∧ result = none) ?_
    fun current => ?_
  · refine triple_query (stable_knows hn) fun s hs hp => ?_
    obtain ⟨a, ha, hw, hk, hrec, hserved, -⟩ := hp
    refine ⟨a, ha, hw, hk, hrec, hserved, fun hgood result hresult => ?_⟩
    split at hresult
    · cases hresult
    next hstopped =>
    rw [ha, map_some, some.injEq] at hresult
    have hstate : a.state ≠ .terminal := by
      intro h
      rw [(isTerminal_iff ha).mpr h] at hstopped
      exact hstopped rfl
    have hnone : a.result = none := by
      by_contra h
      exact hstate (hs.terminal hgood.1 i a ha h)
    exact ⟨hstate, hnone, hresult.symm.trans hnone⟩
  · cases current with
    | none => exact Triple.pure fun _ _ h => h.weaken
    | some result =>
      have hplan : CommitPlan uses me i key (some n) (fun state res =>
          ∀ r, some result = some r → state ≠ .terminal ∧ res = none ∧ r = none) .running
          result :=
        { stable := stable_knows hn
          own := .inl ⟨n, rfl, hn⟩
          terminal := fun res h => absurd rfl (h result rfl).1
          unfinished := fun _ st res h => by
            obtain ⟨-, h₁, h₂⟩ := h result rfl
            rw [h₁, h₂]
            rfl
          result := fun h => nomatch h }
      exact (triple_commit hplan _).conseq (fun _ _ h => h) (fun _ _ _ h => h.1)
        fun _ _ _ h => ⟨h.1.weaken, h.2⟩

theorem remoteResult_key (localResult : Option RemoteResult) (request : RemoteRequest) (now : Int) :
    (WorkerRuntime.remoteResult platform me localResult request now).key = request.key := by
  unfold WorkerRuntime.remoteResult
  cases localResult with
  | none => rfl
  | some result =>
    dsimp only
    split
    · rfl
    next h =>
    rw [not_or, not_not, not_not] at h
    rw [RemoteResult.key, RemoteRequest.key, h.1, h.2]

theorem andThen_has {α β : Type} {m : WorkerM α} {f : α → WorkerM β} {S : β → WorkerWorld → Prop}
    (hm : Spec workerContract ∅ (Has me i key) m fun _ _ => True)
    (hf : ∀ a, Spec workerContract uses (Has me i key) (f a) S) :
    Spec workerContract uses (Has me i key) (m >>= f) S :=
  (hm.keep stable_has fun _ h => h).bind fun a => (hf a).pre fun _ h => h.2

theorem sendHas_spec : Spec workerContract ∅ (Has me i key) WorkerRuntime.send fun _ _ => True :=
  (send_spec stable_has).post fun _ _ _ => trivial

theorem queryHas_spec {α : Type} {f : WorkerWorld → α} :
    Spec workerContract ∅ (Has me i key) (Async.query f : WorkerM α) fun _ _ => True :=
  spec_query stable_has fun _ _ _ => trivial

theorem running_spec : Spec workerContract ∅ (Has me i key)
    (WorkerRuntime.transition i (WorkerRuntime.runningTransition platform me i))
    fun _ _ => True := by
  have htransition : Triple workerContract ∅ (fun s => Has me i key s ∧ True)
      (WorkerRuntime.transition i (WorkerRuntime.runningTransition platform me i))
      (fun _ _ => True) (Noted me) :=
    triple_transition (fun _ => Set.notMem_empty _) (.const True) (.const True) fun n =>
      (triple_runningTransition (Set.mem_insert _ _)).conseq (fun _ _ h => h.1)
        (fun _ _ _ h => ⟨h, trivial⟩) fun _ _ _ h => h
  exact htransition.conseq (fun _ _ h => ⟨h, trivial⟩) (fun _ _ _ h => h) fun _ _ _ _ => trivial

theorem awaitResult_spec : Spec workerContract uses (Has me i key)
    (do
      let terminated ← query fun s => s.isTerminal i
      if terminated then WorkerRuntime.send
      else do
        let cancelled ← query fun s => WorkerRuntime.isCancelled s me i
        if cancelled then WorkerRuntime.send else pure ()
        let localResult ← check fun _ r => if r.ok then .ok r.localResult else .error .other
        WorkerRuntime.terminal platform me i (WorkerRuntime.remoteResult platform me localResult))
    fun _ _ => True := by
  have hlast : Spec workerContract uses (Has me i key)
      (do
        let localResult ← check fun _ r => if r.ok then .ok r.localResult else .error .other
        WorkerRuntime.terminal platform me i (WorkerRuntime.remoteResult platform me localResult))
      fun _ _ => True := by
    refine andThen_has (spec_check stable_has fun _ _ _ _ _ _ => trivial) fun localResult => ?_
    exact last_spec (terminal_spec (remoteResult_key localResult)) stable_has fun _ h => h
  refine andThen_has queryHas_spec fun terminated => ?_
  cases terminated with
  | true => exact last_spec sendHas_spec stable_has fun _ h => h
  | false =>
    rw [if_neg Bool.false_ne_true]
    refine andThen_has queryHas_spec fun cancelled => ?_
    cases cancelled with
    | true => exact andThen_has sendHas_spec fun _ => hlast
    | false => exact hlast

theorem executeLocally_spec : Spec workerContract {.execution i} (Executing me i key)
    (WorkerRuntime.executeLocally platform me i) fun _ _ => True := by
  have hexecuting : Stable workerContract {.execution i} (Executing me i key) :=
    stable_executing (Set.mem_singleton _)
  refine Spec.bind (spec_query (Q := fun _ => Executing me i key) hexecuting fun _ _ h => h)
    fun stopped => ?_
  cases stopped with
  | true => exact Spec.ret fun _ _ => trivial
  | false =>
    rw [if_neg Bool.false_ne_true]
    refine (send_spec hexecuting).bind fun _ => submit_spec.bind fun submitted => ?_
    cases submitted with
    | false => exact Spec.ret fun _ _ => trivial
    | true =>
      rw [Bool.not_true, if_neg Bool.false_ne_true]
      -- from here on the attempt is all there is to know
      refine andThen_has sendHas_spec fun _ => andThen_has queryHas_spec fun terminated => ?_
      cases terminated with
      | true => exact last_spec sendHas_spec stable_has fun _ h => h
      | false =>
        rw [if_neg Bool.false_ne_true]
        refine andThen_has queryHas_spec fun cancelled => ?_
        cases cancelled with
        | true => exact andThen_has sendHas_spec fun _ => awaitResult_spec
        | false => exact andThen_has running_spec fun _ => awaitResult_spec

theorem execute_spec : Spec workerContract {.execution i} (Executing me i key)
    (WorkerRuntime.execute platform me i) fun _ _ => True := by
  have hlocal : Spec workerContract {.execution i} (Executing me i key)
      (WorkerRuntime.executeLocally platform me i) fun _ _ => True := executeLocally_spec
  have hkeep := Triple.keep_rely (R := Has me i key) hlocal fun _ _ hst h => h.mono hst
  refine Triple.tryCatch (hkeep.conseq (fun _ _ h => ⟨h, h.1⟩) (fun _ _ _ _ => trivial)
    fun _ _ _ h => h.2) fun _ => ?_
  refine andThen_has queryHas_spec fun terminated => ?_
  cases terminated with
  | true => exact Spec.ret fun _ _ => trivial
  | false => exact last_spec (terminalFailure_spec _ _ _) stable_has fun _ h => h

variable {work : Nat} {request : RemoteRequest}

theorem launch_spec (hcreation : .creation i ∈ uses) (hwork : .work work ∈ uses) :
    Spec workerContract uses
      (fun s => (∀ me' w, .launched me' i w ∉ s.events) ∧ s.Working me work ∧ Has me i key s ∧
        ∃ a, s.attempts[i]? = some a ∧ a.origin = .assigned)
      (WorkerRuntime.launch platform me i work) fun _ _ => True := by
  refine Triple.spawn fun s t r hp hst hframe ht _ => ?_
  have hnew : ∀ me' w, .launched me' i w ∉ t.events := hframe _ hcreation hp.1
  have hworking : t.Working me work := hframe _ hwork me hp.2.1
  have hassigned : ∃ a, t.attempts[i]? = some a ∧ a.origin = .assigned :=
    stable_assigned s t hst hframe hp.2.2.2
  have hhas : Has me i key t := hp.2.2.1.mono hst
  have hturn : WorkerTurn {.creation i} t (t.log (.launched me i work)) :=
    .log ht hworking ⟨Set.mem_singleton _, hassigned⟩
  refine ⟨hturn.turn (Set.singleton_subset_iff.mpr hcreation), fun _ _ _ => trivial,
    fun u v h => ?_, fun _ _ => trivial⟩
  have hexecuting : Executing me i key (t.log (.launched me i work)) := by
    refine ⟨hhas.mono hturn.law.grows, fun h => ?_, ⟨me, work, mem_cons_self⟩, hassigned⟩
    rcases mem_cons.mp h with h | h
    · cases h
    · obtain ⟨me', w, hlaunched⟩ := ht.submitted i h
      exact hnew me' w hlaunched
  refine Safe.weaken (execute_spec.safe_run hturn.inv hexecuting) ?_
  rw [Set.singleton_subset_iff]
  refine ⟨?_, me, work, mem_cons_self⟩
  rintro ⟨me', w, hlaunched⟩
  exact hnew me' w hlaunched

/-! ## Loops -/

theorem forAttempts_spec {body : Nat → WorkerM Unit}
    (hbody : ∀ i key, Spec workerContract ∅ (Has me i key) (body i) fun _ _ => True) (rounds : Nat) :
    ∀ seen, Spec workerContract ∅ (fun _ => True)
      (WorkerRuntime.forAttempts me body rounds seen) fun _ _ => True := by
  induction rounds with
  | zero => exact fun _ => Spec.ret fun _ _ => trivial
  | succ rounds ih =>
    intro seen
    refine Spec.bind (Q := fun next s => ∀ i, next = some i → ∃ key, Has me i key s)
      (spec_query (.const True) fun s hs _ i h => ?_) fun next => ?_
    · have hmem := mem_of_find?_eq_some h
      obtain ⟨⟨key, j⟩, hentry, rfl⟩ := List.mem_map.mp hmem
      obtain ⟨a, ha, hw, hk, hr⟩ := hs.entry me key j hentry
      exact ⟨key, a, ha, hw, hk, hr⟩
    · cases next with
      | none => exact Spec.ret fun _ _ => trivial
      | some i =>
        have hfound : Spec workerContract ∅ (fun s => ∃ key, Has me i key s)
            (body i) fun _ _ => True :=
          fun extra s k ke hextra ⟨key, h⟩ => hbody i key extra s k ke hextra h
        exact (hfound.pre fun _ h => h i rfl).bind fun _ => ih (i :: seen)

theorem forEachAttempt_spec {body : Nat → WorkerM Unit}
    (hbody : ∀ i key, Spec workerContract ∅ (Has me i key) (body i) fun _ _ => True) :
    Spec workerContract ∅ (fun _ => True) (WorkerRuntime.forEachAttempt me body) fun _ _ => True :=
  (spec_check (Q := fun _ _ => True) (.const True) fun _ _ _ _ _ _ => trivial).bind
    fun rounds => forAttempts_spec hbody rounds []

theorem expireAttempt_spec (cutoff : Int) : Spec workerContract ∅ (fun _ => True)
    (WorkerRuntime.expireAttempt platform me i cutoff) fun _ _ => True := by
  refine Spec.bind (spec_query (Q := fun _ _ => True) (.const True) fun _ _ _ => trivial)
    fun expired => ?_
  cases expired with
  | none => exact Spec.ret fun _ _ => trivial
  | some p =>
    obtain ⟨record, revision, epoch⟩ := p
    have hstore : Triple workerContract ∅ (fun _ => True)
        (WorkerRuntime.storeOperation me fun s _ =>
          s.commitRecord record ⟨some revision, some epoch⟩) (fun _ _ => True) (Noted me) :=
      triple_storeOperation me (.const True) (fun _ => .const True)
        fun _ _ hs _ => ⟨.commitRecord hs _ _, trivial⟩
    refine Spec.bind (Q := fun _ _ => True) (hstore.conseq (fun _ _ h => h) (fun _ _ _ h => h)
      fun _ _ _ _ => trivial) fun answer => ?_
    cases answer with
    | none => exact Spec.ret fun _ _ => trivial
    | some committedRecord =>
      refine spec_turn (.const True) (Set.empty_subset _) fun s r hs _ _ => ?_
      cases WorkerRuntime.parseStoredRecord platform me none committedRecord r.parsed with
      | ok parsedRecord =>
        refine ⟨?_, fun _ _ => trivial⟩
        dsimp only
        exact .worker hs rfl (fun _ _ h => .inl h)
          (fun entry h => .inl (mem_of_mem_filter h)) (hs.distinct me) (hs.session me)
          fun h => h
      | error e =>
        cases e with
        | revision => exact ⟨.setUnavailable hs me, fun _ h => nomatch h⟩
        | unavailable | lostAuthority | other => exact ⟨.refl hs, fun _ h => nomatch h⟩

theorem pruneAcknowledged_spec : Spec workerContract ∅ (fun _ => True)
    (WorkerRuntime.pruneAcknowledged platform me) fun _ _ => True :=
  (spec_check (Q := fun _ _ => True) (.const True) fun _ _ _ _ _ _ => trivial).bind fun cutoff =>
    forEachAttempt_spec fun _ _ => (expireAttempt_spec cutoff).pre fun _ _ => trivial

/-! ## Assignments -/

theorem settledBy_of_result {s : WorkerWorld} {a : WorkerAttempt} {result : RemoteResult}
    (hs : WorkerInv s) (ha : s.attempts[i]? = some a) (hw : a.worker = me) (hr : a.Recorded)
    (hresult : a.result = some result) (hc : s.Clean) :
    s.SettledBy me result ∧ result.key = a.key := by
  have hstate : a.state = .terminal := hs.terminal hc i a ha (by rw [hresult]; exact some_ne_none _)
  obtain ⟨r, hr', hkey⟩ := hs.result hc i a ha hstate
  obtain rfl := some.inj (hresult.symm.trans hr')
  exact ⟨⟨i, a, ha, hw, hkey.symm, hr, hstate, hresult⟩, hkey⟩

theorem phase_of_working {s : WorkerWorld} {work : Nat} (hs : WorkerInv s)
    (h : s.Working me work) : s.phase me = .hydrated := by
  obtain ⟨x, hx, hw, -⟩ := h
  rw [← hw]
  exact hs.works work x hx

theorem assignExisting_spec {work : Nat} : Spec workerContract {.work work}
    (fun s => Has me i request.key s ∧ s.Working me work)
    (WorkerRuntime.assignExisting platform me i request) fun _ _ => True := by
  have hworking : Stable workerContract {.work work} fun s => s.Working me work :=
    stable_working (Set.mem_singleton _)
  refine Spec.bind (Q := fun current s => ∀ result, current = some result → s.Clean →
    s.SettledBy me result) (spec_turn (stable_has.and hworking) (Set.empty_subset _)
    fun s r hs hp _ => ?_) fun current => ?_
  · obtain ⟨⟨a, ha, hw, hk, hr⟩, hworking⟩ := hp
    rw [ha]
    dsimp only
    split
    · refine ⟨.refl hs, fun current h result hresult => ?_⟩
      rw [← ok.inj h] at hresult
      cases hresult
    cases hresult : a.result with
    | none =>
      refine ⟨.refl hs, fun current h result hresult => ?_⟩
      rw [← ok.inj h] at hresult
      cases hresult
    | some result =>
      have hset := fun hc => settledBy_of_result hs ha hw hr hresult hc
      refine ⟨.log (e := .reported me request.key result) hs trivial fun hc => ?_,
        fun current h result' hresult' hc => ?_⟩
      · obtain ⟨hby, hkey⟩ := hset hc
        rw [← hk, ← hkey]
        exact reportable_of_settledBy hs hc (phase_of_working hs hworking) hby
      · rw [← ok.inj h] at hresult'
        obtain rfl := some.inj hresult'
        exact (hset (Clean.of_suffix ⟨[_], rfl⟩ hc)).1
  · have hstable : Stable workerContract {.work work} fun s => ∀ result,
        current = some result → s.Clean → s.SettledBy me result :=
      .all fun _ => .imp fun _ => stable_settledBy
    refine (send_spec hstable).bind fun _ => ?_
    cases current with
    | none => exact Spec.ret fun _ _ => trivial
    | some result =>
      refine (spec_query (Q := fun _ s => s.Clean → s.SettledBy me result) hstable
        fun _ _ h => h result rfl).bind fun retained => ?_
      split
      · exact last_spec publish_spec stable_settledBy fun _ h => h
      · exact Spec.ret fun _ _ => trivial

def New (me i : Nat) (request : RemoteRequest) (s : WorkerWorld) : Prop :=
  ∃ a, s.attempts[i]? = some a ∧ a.worker = me ∧ a.request = request ∧ a.origin ≠ .hydrated

/-- A new attempt whose record has been written. -/
def Created (me i : Nat) (key : JsString) (s : WorkerWorld) : Prop :=
  Has me i key s ∧ ∃ a, s.attempts[i]? = some a ∧ a.origin = .assigned

theorem stable_new : Stable workerContract uses (New me i request) := by
  refine .of_rely fun s t hst => ?_
  rintro ⟨a, ha, hw, hk, ho⟩
  obtain ⟨b, hb, hg⟩ := hst.attempt i a ha
  refine ⟨b, hb, hg.worker.trans hw, hg.request.trans hk, fun h => ?_⟩
  rcases hg.origin with h' | ⟨-, h'⟩
  · exact ho (h'.symm.trans h)
  · rw [h] at h'
    cases h'

theorem stable_created : Stable workerContract uses (Created me i key) :=
  stable_has.and stable_assigned

theorem create_spec : Spec workerContract ∅ (New me i request)
    (WorkerRuntime.create platform me i) fun _ => Created me i request.key := by
  refine Spec.bind (Q := fun record s => record.request = request ∧ New me i request s)
    (spec_check stable_new fun s r record hs hp h => ⟨?_, hp⟩) fun record => ?_
  · obtain ⟨a, ha, -, hk, -⟩ := hp
    rw [ha] at h
    rw [← ok.inj h]
    exact hk
  refine Spec.of_pure (fun hrecord => ?_) fun _ h => h.1
  have hstore : Triple workerContract ∅ (New me i request)
      (WorkerRuntime.storeOperation me fun s _ => WorkerRuntime.createRecord s i record)
      (fun answer s => answer ≠ none → Created me i request.key s) (Noted me) := by
    refine triple_storeOperation me stable_new (fun _ => .imp fun _ => stable_created)
      fun s r hs hp => ?_
    obtain ⟨a, ha, hw, hk, ho⟩ := hp
    obtain ⟨hturn, hcreated⟩ := WorkerTurn.createRecord hs ha (hrecord.trans hk.symm) ho
    refine ⟨hturn, fun h => ?_⟩
    obtain ⟨b, hb, hbo, hbw, hbr⟩ := hcreated h
    refine ⟨⟨b, hb, hbw.trans hw, ?_, ?_⟩, b, hb, hbo⟩
    · rw [WorkerAttempt.key, hbr, hk]
    · rw [WorkerAttempt.Recorded, hbo]
      exact AttemptOrigin.noConfusion
  refine Spec.bind (Q := fun answer s => answer ≠ none → Created me i request.key s)
    (hstore.conseq (fun _ _ h => h.2) (fun _ _ _ h => h) fun _ _ _ _ => trivial) fun answer => ?_
  cases answer with
  | none => exact Spec.throw
  | some committedRecord =>
    refine spec_turn (P := Created me i request.key) stable_created (Set.empty_subset _)
      (fun s r hs hp _ => ?_) |>.pre fun _ h => h (some_ne_none _)
    cases WorkerRuntime.parseStoredRecord platform me none committedRecord r.parsed with
    | ok parsedRecord =>
      have hset : WorkerTurn ∅ s (s.modifyAttempt i fun attempt =>
          { attempt with revision := parsedRecord.revision }) :=
        .attemptField hs i fun _ => rfl
      exact ⟨hset, fun _ _ => hset.keeps_always stable_created hp⟩
    | error e =>
      cases e with
      | revision => exact ⟨.setUnavailable hs me, fun _ h => by cases h⟩
      | unavailable | lostAuthority | other => exact ⟨.refl hs, fun _ h => by cases h⟩

/-- A new attempt that nobody has started. -/
def Fresh (me i work : Nat) (s : WorkerWorld) : Prop :=
  (∀ me' w, .launched me' i w ∉ s.events) ∧ s.Working me work

theorem stable_fresh (hcreation : .creation i ∈ uses) (hwork : .work work ∈ uses) :
    Stable workerContract uses (Fresh me i work) := by
  have hnew : Stable workerContract uses fun s => ∀ me' w, .launched me' i w ∉ s.events :=
    fun s t _ hframe h => hframe (.creation i) hcreation h
  exact hnew.and (stable_working hwork)

theorem startAttempt_spec (hcreation : .creation i ∈ uses)
    (hwork : .work work ∈ uses) : Spec workerContract uses
      (fun s => New me i request s ∧ Fresh me i work s)
      (WorkerRuntime.startAttempt platform me i work request) fun _ _ => True := by
  have hfresh : Stable workerContract uses (Fresh me i work) := stable_fresh hcreation hwork
  -- the record is written, or the persistence is given up
  have hcreate : Spec workerContract ∅ (New me i request)
      (Async.tryCatch (do
          WorkerRuntime.create platform me i
          pure true)
        fun _ => do
          update fun s _ => s.setUnavailable me
          pure false : WorkerM Bool)
      fun created s => created = true → Created me i request.key s := by
    have hok : Spec workerContract ∅ (New me i request) (do
        WorkerRuntime.create platform me i
        pure true) fun created s => created = true → Created me i request.key s :=
      create_spec.bind fun _ => Spec.ret fun _ h _ => h
    refine hok.tryCatch stable_new (fun _ h => h) fun _ => ?_
    refine (spec_update (S := fun _ => True) stable_new (Set.empty_subset _) fun s _ hs _ =>
      ⟨.setUnavailable hs me, trivial⟩).bind fun _ => Spec.ret fun _ _ h => nomatch h
  refine Spec.bind (Q := fun created s => (created = true → Created me i request.key s) ∧
    Fresh me i work s) ?_ fun created => ?_
  · refine ((hcreate.keep (stable_new.and hfresh) fun _ h => h.1)).post fun _ _ h => ⟨h.1, h.2.2⟩
  have hstable : Stable workerContract uses fun s =>
      Created me i request.key s ∧ Fresh me i work s := stable_created.and hfresh
  cases created with
  | false => exact (send_spec (.const True)).conseq (fun _ _ => trivial) fun _ _ _ => trivial
  | true =>
    rw [Bool.not_true, if_neg Bool.false_ne_true]
    refine Spec.assume (fun s => Created me i request.key s ∧ Fresh me i work s)
      (fun _ h => ⟨h.1 rfl, h.2⟩) ?_
    refine Spec.bind (Q := fun _ s => Created me i request.key s ∧ Fresh me i work s)
      (spec_update hstable (Set.empty_subset _) fun s r hs hp => ?_) fun _ => ?_
    · have hinsert : WorkerTurn ∅ s (WorkerRuntime.insertAttempt s me i request.key) := by
        refine .worker hs rfl (fun _ _ h => .inl h) (fun entry h => ?_) (hs.distinct me)
          (hs.session me) fun h => h
        rcases mem_append.mp h with h | h
        · exact .inl h
        · obtain rfl := mem_singleton.mp h
          exact .inr hp.1.1
      have hturn := hinsert.before (.log (e := .created me i work) hinsert.inv hp.2.2 trivial)
        rfl fun _ => rfl
      exact ⟨hturn, hturn.keeps hstable (fun _ _ => Set.notMem_empty _) hp⟩
    · have hlaunch : Spec workerContract uses (fun s => Created me i request.key s ∧
          Fresh me i work s) (WorkerRuntime.launch platform me i work) fun _ _ => True :=
        (launch_spec hcreation hwork).pre fun _ h => ⟨h.2.1, h.2.2, h.1.1, h.1.2⟩
      refine Spec.bind (Q := fun _ s => Created me i request.key s ∧ Fresh me i work s)
        (((((send_spec (.const True)).attempt WorkerError).keep hstable fun _ _ => trivial)).post
          fun _ _ h => h.2) fun acknowledged => ?_
      cases acknowledged with
      | ok u => exact hlaunch
      | error e =>
        dsimp only
        split
        · exact hlaunch.bind fun _ => Spec.throw
        have hfailure : Spec workerContract uses (fun s => Created me i request.key s ∧
            Fresh me i work s) (WorkerRuntime.terminalFailure platform me i .cancelled
              "EXECUTOR_REMOTE_ORPHAN_CANCELLED" "Assignment acknowledgement was interrupted")
            fun _ _ => True :=
          last_spec (terminalFailure_spec _ _ _) stable_has fun _ h => h.1.1
        exact hfailure.bind fun _ => Spec.throw

/-- A call of the store that an unavailable executor answers with a value of its own. -/
theorem unavailable_spec {α : Type} {m : WorkerM α} {fallback : α}
    (hm : Spec workerContract ∅ (fun _ => True) m fun _ _ => True) :
    Spec workerContract ∅ (fun _ => True)
      (Async.tryCatch m fun e => match e with
        | .unavailable => pure fallback
        | e => throw e : WorkerM α) fun _ _ => True := by
  refine hm.tryCatch (.const True) (fun _ h => h) fun e => ?_
  cases e with
  | unavailable => exact Spec.ret fun _ _ => trivial
  | revision | lostAuthority | other => exact Spec.throw

theorem assignNew_spec {session work : Nat} {request : RemoteRequest} :
    Spec workerContract {.work work} (fun s => s.Working me work)
      (WorkerRuntime.assignNew platform me session work request) fun _ _ => True := by
  have hworking : Stable workerContract {.work work} fun s => s.Working me work :=
    stable_working (Set.mem_singleton _)
  have hload : Spec workerContract ∅ (fun _ => True) (do
      let persisted ← WorkerRuntime.load me request.key
      pure (some persisted)) fun _ _ => True :=
    Spec.bind (Q := fun _ _ => True) ((triple_load me request.key).conseq (fun _ _ h => h)
      (fun _ _ _ _ => trivial) fun _ _ _ _ => trivial) fun _ => Spec.ret fun _ _ => trivial
  refine Spec.bind (Q := fun _ s => s.Working me work)
    (((unavailable_spec hload).keep hworking fun _ _ =>
    trivial).post fun _ _ h => h.2) fun loaded => ?_
  cases loaded with
  | none => exact (send_spec hworking).post fun _ _ _ => trivial
  | some persisted =>
    refine Spec.bind (Q := fun _ s => s.Working me work) (spec_turn hworking (Set.empty_subset _)
      fun s r hs hp _ => ?_) fun refused => ?_
    · have hfail : WorkerTurn ∅ s (s.setUnavailable me) := .setUnavailable hs me
      cases persisted with
      | none => exact ⟨.refl hs, fun _ _ => hp⟩
      | some record =>
        dsimp only
        cases WorkerRuntime.parseStoredRecord platform me none record r.parsed with
        | ok parsedRecord => exact ⟨.refl hs, fun _ _ => hp⟩
        | error e =>
          cases e with
          | revision => exact ⟨hfail, fun _ h => by cases h⟩
          | unavailable | lostAuthority | other => exact ⟨.refl hs, fun _ h => by cases h⟩
    · cases refused with
      | true => exact (send_spec hworking).post fun _ _ _ => trivial
      | false =>
        rw [if_neg Bool.false_ne_true]
        refine Spec.bind (Q := fun _ s => s.Working me work) (spec_check hworking
          fun _ _ _ _ hp _ => hp) fun admitted => ?_
        cases admitted with
        | false => exact (send_spec hworking).post fun _ _ _ => trivial
        | true =>
          rw [Bool.not_true, if_neg Bool.false_ne_true]
          refine Spec.alloc (fun i => .creation i) hworking
            (Q := fun i s => New me i request s ∧ Fresh me i work s) (fun s r hs hp _ => ?_)
            fun i => startAttempt_spec (Set.mem_insert _ _)
              (Set.mem_insert_of_mem _ (Set.mem_singleton _))
          have hphase := phase_of_working hs hp
          have hadd : Addable ∅ s (WorkerRuntime.newAttempt platform me session request r.now) :=
            { started := by
                show s.phase me ≠ .idle
                rw [hphase]
                exact InitializationPhase.noConfusion
              origin := .inl ⟨rfl, hphase⟩
              record := fun h => absurd rfl h
              unique := fun h => absurd rfl h
              result := fun h => by cases h
              terminal := fun h => absurd rfl h
              unbuffered := fun h => absurd rfl h }
          have hturn := WorkerTurn.append hs hadd
          refine ⟨hturn.turn (Set.empty_subset _), fun i hi => ?_⟩
          obtain rfl := ok.inj hi
          refine ⟨⟨Nat.lt_irrefl _, ?_⟩, ⟨_, getElem?_concat_length, rfl, rfl,
            fun h => by cases h⟩, fun me' w hlaunched => ?_, hp⟩
          · show s.attempts.length < (s.attempts ++ [_]).length
            rw [length_append]
            exact Nat.lt_succ_self _
          · -- an attempt that was launched was there before
            obtain ⟨a, ha, -⟩ := hs.launched me' _ w hlaunched
            rw [getElem?_eq_none (Nat.le_refl _)] at ha
            cases ha

theorem assign_spec {session work : Nat} {request : RemoteRequest} :
    Spec workerContract {.work work} (fun s => s.Working me work)
      (WorkerRuntime.assign platform me session work request) fun _ _ => True := by
  have hworking : Stable workerContract {.work work} fun s => s.Working me work :=
    stable_working (Set.mem_singleton _)
  have hprune : Spec workerContract ∅ (fun _ => True) (do
      WorkerRuntime.pruneAcknowledged platform me
      pure true) fun _ _ => True :=
    pruneAcknowledged_spec.bind fun _ => Spec.ret fun _ _ => trivial
  have hquery : ∀ {α : Type} {f : WorkerWorld → α}, Spec workerContract {.work work}
      (fun s => s.Working me work) (Async.query f : WorkerM α) fun _ s => s.Working me work :=
    spec_query hworking fun _ _ h => h
  have hreject : Spec workerContract {.work work} (fun s => s.Working me work)
      WorkerRuntime.send fun _ _ => True := (send_spec hworking).post fun _ _ _ => trivial
  unfold WorkerRuntime.assign
  split
  · exact Spec.bind (Q := fun _ _ => False) Spec.throw fun _ => Triple.of_false fun _ h => h
  refine (spec_check (Q := fun _ s => s.Working me work) hworking fun _ _ _ _ h _ => h).bind
    fun valid => ?_
  split
  · exact hreject
  refine hquery.bind fun available => ?_
  split
  · exact hreject
  refine Spec.bind (Q := fun _ s => s.Working me work)
    (((unavailable_spec hprune).keep hworking fun _ _ =>
    trivial).post fun _ _ h => h.2) fun pruned => hquery.bind fun available => ?_
  split
  · exact hreject
  refine Spec.bind (spec_query (Q := fun existing s => (∀ i, existing = some i →
    Has me i request.key s) ∧ s.Working me work) hworking fun s hs hp =>
      ⟨fun i h => has_of_lookup hs h, hp⟩) fun existing => ?_
  cases existing with
  | some i => exact assignExisting_spec.pre fun _ h => ⟨h.1 i rfl, h.2⟩
  | none => exact assignNew_spec.pre fun _ h => h.2

/-! ## Messages -/

theorem workTokens_some (work : Nat) : workTokens (some work) = {.work work} := by
  ext token
  constructor
  · rintro ⟨w, hw, rfl⟩
    rw [some.inj hw]
    rfl
  · rintro rfl
    exact ⟨work, rfl, rfl⟩

theorem workTokens_none : workTokens none = ∅ := by
  ext token
  constructor
  · rintro ⟨w, hw, -⟩
    cases hw
  · exact fun h => absurd h (Set.notMem_empty _)

/-- What the attempt that was found has for its result is reported. -/
theorem report_spec {existing : Option Nat} :
    Spec workerContract {.work work}
      (fun s => (∀ i, existing = some i → Has me i request.key s) ∧ s.phase me = .hydrated)
      (do
        update fun s _ =>
          match existing.bind fun i => s.attempts[i]?.bind (·.result) with
          | none => s
          | some result => s.log (.reported me request.key result)
        WorkerRuntime.send) fun _ _ => True := by
  refine Spec.bind (Q := fun _ _ => True) (spec_update (.of_rely fun _ _ hst h =>
    ⟨fun i hi => (h.1 i hi).mono hst, hst.phase me h.2⟩) (Set.empty_subset _)
      fun s _ hs hp => ⟨?_, trivial⟩) fun _ => (send_spec (.const True)).post fun _ _ _ => trivial
  cases existing with
  | none => exact .refl hs
  | some i =>
    obtain ⟨a, ha, hw, hk, hr⟩ := hp.1 i rfl
    rw [bind_some, ha, bind_some]
    cases hresult : a.result with
    | none => exact .refl hs
    | some result =>
      refine .log (e := .reported me request.key result) hs trivial fun hc => ?_
      obtain ⟨hby, hkey⟩ := settledBy_of_result hs ha hw hr hresult hc
      rw [← hk, ← hkey]
      exact reportable_of_settledBy hs hc hp.2 hby

theorem cancel_spec :
    Spec workerContract {.work work} (fun s => s.Working me work)
      (WorkerRuntime.cancel platform me work request) fun _ _ => True := by
  have hworking : Stable workerContract {.work work} fun s => s.Working me work :=
    stable_working (Set.mem_singleton _)
  refine Spec.bind (Q := fun existing s => (∀ i, existing = some i → Has me i request.key s) ∧
    s.phase me = .hydrated ∧ s.Working me work) (spec_query hworking fun s hs hp =>
      ⟨fun i h => has_of_lookup hs h, phase_of_working hs hp, hp⟩) fun existing => ?_
  cases existing with
  | none => exact (@report_spec _ _ _ none).pre fun _ (h : _ ∧ _ ∧ _) => ⟨h.1, h.2.1⟩
  | some i =>
    refine Spec.bind (Q := fun _ s => (∀ j, some i = some j → Has me j request.key s) ∧
      s.phase me = .hydrated) ?_ fun _ => report_spec
    have hcancel : Spec workerContract {.work work}
        (fun s => Has me i request.key s ∧ Works me (some work) s)
        (WorkerRuntime.cancelAttempt platform me i (some work) "EXECUTOR_REMOTE_CANCELLED"
          "Remote attempt was cancelled before local execution") fun _ _ => True := by
      rw [← workTokens_some]
      exact cancelAttempt_spec _ _
    refine (hcancel.keep_rely fun _ _ hst h => ⟨fun j hj => (h.1 j hj).mono hst,
      hst.phase me h.2⟩).conseq (fun s h => ?_) fun _ _ h => h.2
    refine ⟨⟨h.1 i rfl, fun w hw => ?_⟩, h.1, h.2.1⟩
    rw [← some.inj hw]
    exact h.2.2

theorem WorkerTurn.reports {s : WorkerWorld} (hs : WorkerInv s) :
    ∀ buffered : List (JsString × RemoteResult),
      (∀ entry ∈ buffered, s.Clean → s.Reportable me entry.1 entry.2) →
      WorkerTurn ∅ s (buffered.foldl (fun s entry => s.log (.reported me entry.1 entry.2)) s)
  | [], _ => .refl hs
  | entry :: rest, h => by
    have hlog : WorkerTurn ∅ s (s.log (.reported me entry.1 entry.2)) :=
      .log hs trivial (h entry mem_cons_self)
    refine hlog.before (WorkerTurn.reports hlog.inv rest fun e he hc => ?_) rfl fun _ => rfl
    have hclean : s.Clean := Clean.of_suffix ⟨[_], rfl⟩ hc
    exact (h e (mem_cons_of_mem _ he) hclean).of_grows hlog.law.grows hc

theorem reportable_of_buffered {s : WorkerWorld} (hs : WorkerInv s)
    (hphase : s.phase me = .hydrated) {entry : JsString × RemoteResult}
    (h : entry ∈ (s.workers me).results) (hc : s.Clean) :
    s.Reportable me entry.1 entry.2 := by
  have hbuffered : s.buffered me entry.1 = some entry.2 := lookup_of_mem (hs.distinct me) h
  refine ⟨⟨hs.buffered me _ _ hbuffered, hphase, fun r hr => ?_, fun i a ha hw hk hr => ?_⟩,
    hs.held hc me _ _ hphase hbuffered⟩
  · exact some.inj (hr.symm.trans hbuffered)
  · rw [← hw, ← hk] at hbuffered
    exact hs.bufferedResult hc i a _ ha hr hbuffered

theorem stable_reportable {result : RemoteResult} : Stable workerContract uses
    fun s => s.Clean → s.Reportable me key result :=
  fun _ _ hst _ hs ht => (hs (Clean.of_suffix hst.events ht)).of_grows hst ht

theorem inventory_spec : Spec workerContract {.work work} (fun s => s.Working me work)
    (WorkerRuntime.inventory platform me) fun _ _ => True := by
  have hworking : Stable workerContract {.work work} fun s => s.Working me work :=
    stable_working (Set.mem_singleton _)
  have hreject : ∀ {P : WorkerWorld → Prop}, Spec workerContract {.work work} P
      WorkerRuntime.send fun _ _ => True :=
    (send_spec (.const True)).conseq (fun _ _ => trivial) fun _ _ _ => trivial
  refine (send_spec hworking).bind fun _ => ?_
  refine Spec.bind (Q := fun p s => (∀ entry ∈ p.1, Has me entry.2 entry.1 s) ∧
    ∀ entry ∈ p.2, s.Clean → s.Reportable me entry.1 entry.2) (spec_query hworking fun s hs hp => ?_)
    fun p => ?_
  · refine ⟨fun entry h => ?_, fun entry h hc => ?_⟩
    · obtain ⟨a, ha, hw, hk, hr⟩ := hs.entry me entry.1 entry.2 h
      exact ⟨a, ha, hw, hk, hr⟩
    · exact reportable_of_buffered hs (phase_of_working hs hp) h hc
  · obtain ⟨attempts, buffered⟩ := p
    have hstable : Stable workerContract {.work work} fun s =>
        (∀ entry ∈ attempts, Has me entry.2 entry.1 s) ∧
          ∀ entry ∈ buffered, s.Clean → s.Reportable me entry.1 entry.2 :=
      (Stable.all fun _ => .imp fun _ => stable_has).and
        (.all fun _ => .imp fun _ => stable_reportable)
    dsimp only
    split
    · exact hreject
    refine (send_spec hstable).bind fun _ => ?_
    refine (spec_check (Q := fun _ s => (∀ entry ∈ attempts, Has me entry.2 entry.1 s) ∧
      ∀ entry ∈ buffered, s.Clean → s.Reportable me entry.1 entry.2) hstable
      fun _ _ _ _ h _ => h).bind fun fits => ?_
    split
    · exact hreject
    refine Spec.bind (Q := fun _ _ => True) (spec_update hstable (Set.empty_subset _)
      fun s _ hs hp => ⟨?_, trivial⟩) fun _ => hreject
    have hdisjoint : s.Clean → ∀ key ∈ WorkerRuntime.unfinishedKeys s attempts,
        key ∉ buffered.map (·.1) := by
      intro hc key hunfinished hterminal
      obtain ⟨entry, hentry, rfl⟩ := List.mem_map.mp hunfinished
      obtain ⟨hmem, hstate⟩ := mem_filter.mp hentry
      obtain ⟨kept, hkept, hkey⟩ := List.mem_map.mp hterminal
      obtain ⟨a, ha, hw, hk, hr⟩ := hp.1 entry hmem
      have hset := (hp.2 kept hkept hc).agrees.settled entry.2 a ha hw (hk.trans hkey.symm) hr
      rw [ha, any_some, hset.1] at hstate
      cases hstate
    have hlog : WorkerTurn ∅ s (s.log (.inventory me (WorkerRuntime.unfinishedKeys s attempts)
        (buffered.map (·.1)))) := .log hs trivial hdisjoint
    refine hlog.before (WorkerTurn.reports hlog.inv buffered fun entry h hc => ?_) rfl fun _ => rfl
    exact (hp.2 entry h (Clean.of_suffix ⟨[_], rfl⟩ hc)).of_grows hlog.law.grows hc

theorem receive_spec {session work : Nat} (message : WorkerRuntime.WorkerMessage) :
    Spec workerContract {.work work} (fun s => s.Working me work)
      (WorkerRuntime.receive platform me session work message) fun _ _ => True := by
  cases message with
  | assign request =>
    cases request with
    | none => exact Spec.throw
    | some request => exact assign_spec
  | cancel request =>
    cases request with
    | none => exact Spec.throw
    | some request => exact cancel_spec
  | inventory => exact inventory_spec
  | ack taskId attemptId => exact acknowledgeResult_spec
  | other => exact (send_spec (.const True)).conseq (fun _ _ => trivial) fun _ _ _ => trivial

theorem handle_spec {session n work : Nat} (message : WorkerRuntime.WorkerMessage) :
    Spec workerContract {.work work} (fun s => s.Working me work)
      (WorkerRuntime.handle platform me session n work message) fun _ _ => True := by
  have hworking : Stable workerContract {.work work} fun s => s.Working me work :=
    stable_working (Set.mem_singleton _)
  refine Spec.bind (Q := fun _ s => s.Working me work) (spec_turn hworking (Set.empty_subset _)
    fun s r hs hp _ => ⟨.refl hs, fun _ _ => hp⟩) fun _ => ?_
  have hend : Triple workerContract {.work work} (fun _ => True)
      (update fun s _ => WorkerRuntime.closeWork (s.modifyWorker me fun worker =>
        { worker with receiveServed := n + 1 }) work : WorkerM Unit) (fun _ _ => True)
      fun _ _ => True := by
    refine spec_update (.const True) subset_rfl fun s _ hs _ => ⟨?_, trivial⟩
    have hset : WorkerTurn ∅ s (s.modifyWorker me fun worker =>
        { worker with receiveServed := n + 1 }) := .bookkeeping hs rfl rfl rfl rfl rfl
    exact (hset.mono (Set.empty_subset _)).andThen (.closeWork hset.inv work) rfl
  refine Triple.tryFinally (?_ : Triple _ _ _ _ (fun _ _ => True) fun _ _ => True) (fun _ => hend)
    fun _ => hend
  exact Triple.tryCatch (E := fun _ _ => True) (receive_spec message) fun _ =>
    Triple.pure fun _ _ _ => trivial

theorem fresh_work {s : WorkerWorld} {t : WorkerWorld} {session : Nat}
    (hworks : t.works = s.works ++ [⟨me, session, false⟩]) :
    .work s.works.length ∈ workerContract.fresh s t ∧ t.Working me s.works.length := by
  refine ⟨⟨Nat.lt_irrefl _, ?_⟩, ⟨me, session, false⟩, ?_, rfl, rfl⟩
  · show s.works.length < t.works.length
    rw [hworks, length_append]
    exact Nat.lt_succ_self _
  · rw [hworks]
    exact getElem?_concat_length

theorem onMessage_spec {session : Nat} (message : WorkerRuntime.WorkerMessage) :
    Spec workerContract ∅ (fun _ => True)
      (WorkerRuntime.onMessage platform me session message) fun _ _ => True := by
  refine Triple.spawn fun s t r _ hst hframe ht _ => ?_
  split
  · next hsession =>
    have hphase : t.phase me = .hydrated := by
      refine ht.session me ?_
      show (t.workers me).session ≠ none
      rw [hsession]
      exact some_ne_none _
    have hopen : WorkerTurn ∅ t (WorkerRuntime.openWork t me session).2 := .openWork ht hphase
    have hturn : WorkerTurn ∅ t ((WorkerRuntime.openWork t me session).2.modifyWorker me
        fun worker => { worker with receiveIssued := (t.workers me).receiveIssued + 1 }) :=
      hopen.andThen (.bookkeeping hopen.inv rfl rfl rfl rfl rfl) rfl
    refine ⟨hturn.turn (Set.empty_subset _), fun _ _ _ => trivial, fun u entry h => ?_,
      fun _ _ => trivial⟩
    obtain ⟨-, hentry⟩ := Prod.mk.inj (ok.inj h)
    obtain rfl := some.inj hentry
    have hwork : ((WorkerRuntime.openWork t me session).2.modifyWorker me fun worker =>
        { worker with receiveIssued := (t.workers me).receiveIssued + 1 }).works =
          t.works ++ [⟨me, session, false⟩] := rfl
    obtain ⟨hfresh, hworking⟩ := fresh_work hwork
    exact Safe.weaken ((handle_spec message).safe_run hturn.inv hworking)
      (Set.singleton_subset_iff.mpr hfresh)
  · refine ⟨(WorkerTurn.refl ht).turn (Set.empty_subset _), fun _ _ _ => trivial,
      fun u entry h => ?_, fun _ _ => trivial⟩
    cases (Prod.mk.inj (ok.inj h)).2

/-! ## Sessions -/

theorem cancelAll_spec (code message : String) : Spec workerContract ∅ (Has me i key)
    (WorkerRuntime.cancelAttempt platform me i none code message) fun _ _ => True := by
  have h : Spec workerContract (workTokens none) (fun s => Has me i key s ∧ Works me none s)
      (WorkerRuntime.cancelAttempt platform me i none code message) fun _ _ => True :=
    cancelAttempt_spec code message
  rw [workTokens_none] at h
  exact h.pre fun _ h => ⟨h, fun _ hw => nomatch hw⟩

theorem sessionLost_spec {session : Nat} : Spec workerContract ∅ (fun _ => True)
    (WorkerRuntime.sessionLost platform me session) fun _ _ => True := by
  refine Spec.bind (Q := fun _ _ => True) (spec_turn (.const True) (Set.empty_subset _)
    fun s r hs _ _ => ?_) fun lost => ?_
  · split
    · refine ⟨?_, fun _ _ => trivial⟩
      dsimp only
      exact .worker hs rfl (fun _ _ h => .inl h) (fun _ h => .inl h) (hs.distinct me)
        (fun h => absurd rfl h) fun h => h
    · exact ⟨.refl hs, fun _ _ => trivial⟩
  · split
    · exact Spec.ret fun _ _ => trivial
    · refine forEachAttempt_spec fun i key => andThen_has queryHas_spec fun orphaned => ?_
      cases orphaned with
      | true => exact cancelAll_spec _ _
      | false => exact Spec.ret fun _ _ => trivial

theorem markCancelledHas_spec : Spec workerContract ∅ (Has me i key)
    (WorkerRuntime.markCancelled platform me i none) fun _ _ => True := by
  have h : Spec workerContract (workTokens none) (fun s => Has me i key s ∧ Works me none s)
      (WorkerRuntime.markCancelled platform me i none) fun _ _ => True := markCancelled_spec
  rw [workTokens_none] at h
  exact h.pre fun _ h => ⟨h, fun _ hw => nomatch hw⟩

theorem recoverHydrated_spec : Spec workerContract ∅ (fun _ => True)
    (WorkerRuntime.recoverHydrated platform me) fun _ _ => True := by
  refine Spec.bind (Q := fun _ _ => True) (spec_turn (.const True) (Set.empty_subset _)
    fun s r hs _ _ => ⟨?_, fun _ _ => trivial⟩) fun recovered => ?_
  · dsimp only
    exact .bookkeeping hs rfl rfl rfl rfl rfl
  · split
    · exact Spec.ret fun _ _ => trivial
    · refine forEachAttempt_spec fun i key => andThen_has queryHas_spec fun unfinished => ?_
      cases unfinished with
      | none => exact Spec.ret fun _ _ => trivial
      | some p =>
        obtain ⟨cancelled, orphan⟩ := p
        have hend : Spec workerContract ∅ (Has me i key)
            (if cancelled || orphan then
              WorkerRuntime.terminalFailure platform me i .cancelled
                "EXECUTOR_REMOTE_ORPHAN_CANCELLED"
                "Worker restart cancelled an unfinished remote attempt"
            else
              WorkerRuntime.terminalFailure platform me i .failed
                "EXECUTOR_REMOTE_RESTART_UNCERTAIN"
                "Worker restart cannot safely re-execute an unfinished remote attempt")
            fun _ _ => True := by
          split
          · exact terminalFailure_spec _ _ _
          · exact terminalFailure_spec _ _ _
        dsimp only
        split
        · exact andThen_has markCancelledHas_spec fun _ => hend
        · exact hend

end TegoNext
