/-
Hydration, attachments and the end of a worker runtime keep the contract, and so does the
machine of all its runs.

Hydration owns the attempts of its runtime until it ends: the records it has read have
different identities, and each of them is added once. Durable results that are left over
belong to no attempt.
-/
import TegoNext.WorkerOperations

set_option autoImplicit false

namespace TegoNext

open Async WorkerWorld List Except

variable {platform : WorkerPlatform} {uses : Set WorkerToken} {me i : Nat} {key : JsString}

/-! ## What is left to do -/

def Unhydrated (me : Nat) (s : WorkerWorld) : Prop := s.phase me = .loading ∨ s.phase me = .failed

theorem stable_unhydrated (hown : .hydration me ∈ uses) :
    Stable workerContract uses (Unhydrated me) := by
  intro s t hst hframe hs
  rcases hs with h | h
  · exact .inl (hframe (.hydration me) hown h).1
  · exact .inr (hst.failed me h)

structure Hydrating (me : Nat) (records : List RemoteAttemptRecord)
    (durable : List (JsString × RemoteResult)) (s : WorkerWorld) : Prop where
  loading : s.phase me = .loading
  record : ∀ record ∈ records, s.records record.request.key ≠ none
  resultKey : ∀ record ∈ records, ∀ r, record.result = some r → r.key = record.request.key
  nodup : (records.map fun record => record.request.key).Nodup
  stored : ∀ entry ∈ durable, s.records entry.1 ≠ none ∧ entry.2.key = entry.1
  fresh : ∀ (i : Nat) (a : WorkerAttempt), s.attempts[i]? = some a → a.worker = me →
    (∀ record ∈ records, record.request.key ≠ a.key) ∧ ∀ entry ∈ durable, entry.1 ≠ a.key
  unbuffered : ∀ record ∈ records, s.buffered me record.request.key = none

variable {records : List RemoteAttemptRecord} {durable : List (JsString × RemoteResult)}
  {record : RemoteAttemptRecord}

theorem stable_hydrating (hown : .hydration me ∈ uses) :
    Stable workerContract uses (Hydrating me records durable) := by
  intro s t hst hframe hs
  obtain ⟨hloading, hattempts, hbuffered⟩ := hframe (.hydration me) hown hs.loading
  refine ⟨hloading, fun r hr => hst.record _ (hs.record r hr), hs.resultKey, hs.nodup,
    fun e he => ⟨hst.record _ (hs.stored e he).1, (hs.stored e he).2⟩, fun i a ha hw => ?_,
    fun record hrecord => ?_⟩
  · obtain ⟨b, hb, hbw, hbk⟩ := hattempts i a ha hw
    rw [← hbk]
    exact hs.fresh i b hb hbw
  · cases hput : t.buffered me record.request.key with
    | none => rfl
    | some r =>
      rcases hbuffered _ r hput with h | ⟨i, a, ha, hw, hk⟩
      · rw [hs.unbuffered record hrecord] at h
        cases h
      · exact absurd hk.symm ((hs.fresh i a ha hw).1 record hrecord)

theorem Hydrating.next {s t : WorkerWorld} (h : Hydrating me (record :: records) durable s)
    (hphase : t.phase me = s.phase me) (hrecords : t.records = s.records)
    (hattempts : ∀ (i : Nat) (a : WorkerAttempt), t.attempts[i]? = some a → a.worker = me →
      s.attempts[i]? = some a ∨ a.key = record.request.key)
    (hbuffered : ∀ k, k ≠ record.request.key → t.buffered me k = s.buffered me k) :
    Hydrating me records (durable.filter fun entry => entry.1 != record.request.key) t := by
  have hnodup := h.nodup
  rw [map_cons, nodup_cons] at hnodup
  refine ⟨hphase.trans h.loading, fun r hr => ?_, fun r hr => h.resultKey r (.tail _ hr),
    hnodup.2, fun e he => ?_, fun i a ha hw => ?_, fun r hr => ?_⟩
  · rw [hrecords]
    exact h.record r (.tail _ hr)
  · rw [hrecords]
    exact h.stored e (mem_of_mem_filter he)
  · rcases hattempts i a ha hw with ha' | hk
    · obtain ⟨h₁, h₂⟩ := h.fresh i a ha' hw
      exact ⟨fun r hr => h₁ r (.tail _ hr), fun e he => h₂ e (mem_of_mem_filter he)⟩
    · refine ⟨fun r hr heq => ?_, fun e he heq => ?_⟩
      · exact hnodup.1 (mem_map.mpr ⟨r, hr, heq.trans hk⟩)
      · obtain ⟨-, hne⟩ := mem_filter.mp he
        rw [heq, hk, bne_self_eq_false] at hne
        cases hne
  · rw [hbuffered _ fun heq => hnodup.1 (mem_map.mpr ⟨r, hr, heq⟩)]
    exact h.unbuffered r (.tail _ hr)

section

variable {s : WorkerWorld}

theorem WorkerTurn.addHydrated {b : WorkerAttempt} (hs : WorkerInv s)
    (h : Hydrating me (record :: records) durable s) (hw : b.worker = me)
    (hk : b.request = record.request) (ho : b.origin = .hydrated)
    (hresult : b.state = .terminal → ∃ r, b.result = some r ∧ r.key = b.key)
    (hterminal : b.result ≠ none → b.state = .terminal) :
    WorkerTurn {.hydration me} s (WorkerRuntime.addHydrated s b) := by
  have hkey : b.key = record.request.key := by
    rw [WorkerAttempt.key, hk]
  have hrecorded : b.Recorded := by
    rw [WorkerAttempt.Recorded, ho]
    exact AttemptOrigin.noConfusion
  have hadd : Addable {.hydration me} s b := by
    refine ⟨?_, .inr ⟨ho, ?_, ?_⟩, fun _ => ?_, fun _ j c hc hcw => ?_, hresult, hterminal,
      fun _ => ?_⟩
    · rw [hw, h.loading]
      exact InitializationPhase.noConfusion
    · rw [hw]
      exact h.loading
    · rw [hw]
      rfl
    · rw [hkey]
      exact h.record record mem_cons_self
    · rw [hkey]
      exact fun heq => (h.fresh j c hc (hcw.trans hw)).1 record mem_cons_self heq.symm
    · rw [hw, hkey]
      exact h.unbuffered record mem_cons_self
  have happend := WorkerTurn.append hs hadd
  have hentry : WorkerTurn ∅ { s with attempts := s.attempts ++ [b] }
      (WorkerWorld.modifyWorker { s with attempts := s.attempts ++ [b] } b.worker fun worker =>
        { worker with attempts := worker.attempts ++ [(b.request.key, s.attempts.length)] }) := by
    refine .worker happend.inv rfl (fun _ _ h => .inl h) (fun entry hmem => ?_)
      (happend.inv.distinct _) (happend.inv.session _) fun h => h
    rcases mem_append.mp hmem with hmem | hmem
    · exact .inl hmem
    · obtain rfl := mem_singleton.mp hmem
      exact .inr ⟨b, getElem?_concat_length, rfl, rfl, hrecorded⟩
  exact happend.andThen (hentry.mono (Set.empty_subset _)) rfl

theorem phase_addHydrated (s : WorkerWorld) (b : WorkerAttempt) (me : Nat) :
    (WorkerRuntime.addHydrated s b).phase me = s.phase me := by
  have hworkers : (WorkerRuntime.addHydrated s b).workers =
      (s.modifyWorker b.worker fun worker =>
        { worker with attempts := worker.attempts ++ [(b.request.key, s.attempts.length)] }).workers :=
    rfl
  rw [phase, hworkers, workers_modifyWorker]
  split
  · rfl
  · rfl

theorem buffered_addHydrated (s : WorkerWorld) (b : WorkerAttempt) (me : Nat) :
    (WorkerRuntime.addHydrated s b).buffered me = s.buffered me := by
  have hworkers : (WorkerRuntime.addHydrated s b).workers =
      (s.modifyWorker b.worker fun worker =>
        { worker with attempts := worker.attempts ++ [(b.request.key, s.attempts.length)] }).workers :=
    rfl
  unfold buffered
  rw [hworkers, workers_modifyWorker]
  by_cases h : me = b.worker
  · rw [if_pos h]
  · rw [if_neg h]

theorem attempts_addHydrated {b : WorkerAttempt} {j : Nat} {a : WorkerAttempt}
    (h : (WorkerRuntime.addHydrated s b).attempts[j]? = some a) :
    s.attempts[j]? = some a ∨ j = s.attempts.length ∧ a = b := by
  have h' : (s.attempts ++ [b])[j]? = some a := h
  rw [getElem?_append] at h'
  by_cases hj : j < s.attempts.length
  · rw [if_pos hj] at h'
    exact .inl h'
  rw [if_neg hj] at h'
  obtain ⟨h₁, h₂⟩ := List.getElem?_eq_some_iff.mp h'
  rw [length_singleton] at h₁
  refine .inr ⟨by omega, ?_⟩
  rw [← h₂, getElem_singleton]

theorem WorkerTurn.addSettled {result : RemoteResult} (platform : WorkerPlatform)
    (hs : WorkerInv s) (h : Hydrating me (record :: records) durable s)
    (hkey : result.key = record.request.key) :
    WorkerTurn {.hydration me} s (WorkerRuntime.putResult platform
      (WorkerRuntime.addHydrated s (WorkerRuntime.hydratedAttempt me record .terminal 0
        (some result))) me result).2 := by
  set b := WorkerRuntime.hydratedAttempt me record .terminal 0 (some result) with hb
  have hadd : WorkerTurn {.hydration me} s (WorkerRuntime.addHydrated s b) :=
    .addHydrated hs h rfl rfl rfl (fun _ => ⟨result, rfl, hkey⟩) fun _ => rfl
  have hget : (WorkerRuntime.addHydrated s b).attempts[s.attempts.length]? = some b :=
    getElem?_concat_length
  have hput : WorkerTurn ∅ (WorkerRuntime.addHydrated s b) (WorkerRuntime.putResult platform
      (WorkerRuntime.addHydrated s b) me result).2 := by
    refine .putResult platform hadd.inv ?_
    rw [hkey]
    have hrecorded : b.Recorded := fun h => nomatch h
    have hputtable : Puttable ∅ (WorkerRuntime.addHydrated s b) b.worker b.key result :=
      puttable_of_settled hadd.inv hget hrecorded fun _ => ⟨rfl, rfl⟩
    exact hputtable
  exact hadd.andThen (hput.mono (Set.empty_subset _)) (putResult_rest platform _ me result).2.1

/-! ## Records -/

theorem attempts_addSettled {result : RemoteResult} {b : WorkerAttempt}
    (i : Nat) (a : WorkerAttempt) (h : (WorkerRuntime.putResult platform
      (WorkerRuntime.addHydrated s b) me result).2.attempts[i]? = some a) :
    s.attempts[i]? = some a ∨ i = s.attempts.length ∧ a = b := by
  rw [(putResult_rest platform _ me result).1] at h
  exact attempts_addHydrated h

theorem triple_hydrateRecord : Triple workerContract {.hydration me}
    (Hydrating me (record :: records) durable)
    (WorkerRuntime.hydrateRecord platform me record (durable.lookup record.request.key))
    (fun _ => Hydrating me records (durable.filter fun entry => entry.1 != record.request.key))
    fun _ => Unhydrated me := by
  have hown : .hydration me ∈ ({.hydration me} : Set WorkerToken) := Set.mem_singleton _
  have hstable : Stable workerContract {.hydration me} (Hydrating me (record :: records) durable) :=
    stable_hydrating hown
  have hphase : ∀ {s : WorkerWorld} {b : WorkerAttempt} {result : RemoteResult},
      (WorkerRuntime.putResult platform (WorkerRuntime.addHydrated s b) me result).2.phase me =
        s.phase me := by
    intro s b result
    rw [(putResult_rest platform _ me result).2.2.2.2 me, phase_addHydrated]
  unfold WorkerRuntime.hydrateRecord
  cases hlookup : durable.lookup record.request.key with
  | some result =>
    dsimp only
    split
    · exact Triple.bind (Q := fun _ _ => False) (Triple.throw fun _ _ h => .inl h.loading)
        fun _ => Triple.of_false fun _ h => h
    next hcheck =>
    rw [not_or, not_not, not_not] at hcheck
    have hkey := hcheck.1
    refine Triple.bind (Q := fun i s =>
      Knows me i record.request.key none (fun state res => state = .terminal ∧
        res = some result) s ∧
      Hydrating me records (durable.filter fun entry => entry.1 != record.request.key) s) ?_
      fun i => ?_
    · refine triple_turn hstable subset_rfl fun s r hs hp _ => ?_
      have hturn := WorkerTurn.addSettled platform hs hp hkey
      have hrest := putResult_rest platform (WorkerRuntime.addHydrated s
        (WorkerRuntime.hydratedAttempt me record .terminal 0 (some result))) me result
      have hnext : Hydrating me records (durable.filter fun entry => entry.1 != record.request.key)
          (WorkerRuntime.putResult platform (WorkerRuntime.addHydrated s
            (WorkerRuntime.hydratedAttempt me record .terminal 0 (some result))) me result).2 := by
        refine hp.next hphase hrest.2.2.1 (fun j a ha _ => ?_) fun k hk => ?_
        · rcases attempts_addSettled j a ha with ha' | ⟨-, rfl⟩
          · exact .inl ha'
          · exact .inr rfl
        · rw [← hkey] at hk
          rw [buffered_putResult platform _ me result hk, buffered_addHydrated]
      have hget : (WorkerRuntime.putResult platform (WorkerRuntime.addHydrated s
          (WorkerRuntime.hydratedAttempt me record .terminal 0 (some result))) me
            result).2.attempts[s.attempts.length]? =
          some (WorkerRuntime.hydratedAttempt me record .terminal 0 (some result)) := by
        rw [hrest.1]
        exact getElem?_concat_length
      generalize WorkerRuntime.putResult platform (WorkerRuntime.addHydrated s
        (WorkerRuntime.hydratedAttempt me record .terminal 0 (some result))) me result = answer
        at hturn hnext hget
      obtain ⟨e | u, t⟩ := answer
      · exact ⟨hturn, fun _ h => (nomatch h), fun _ _ => .inl hnext.loading⟩
      · refine ⟨hturn, fun i hi => ?_, fun _ h => nomatch h⟩
        obtain rfl := ok.inj hi
        exact ⟨⟨_, hget, rfl, rfl, fun h => (nomatch h), fun _ h => (nomatch h),
          fun _ => ⟨rfl, rfl⟩⟩, hnext⟩
    · have hplan : CommitPlan ∅ me i record.request.key none (fun state res =>
          state = .terminal ∧ res = some result) .terminal (some result) :=
        { stable := stable_knows_settled
          own := .inr fun st res h => ⟨h.1, rfl, h.2.symm⟩
          terminal := fun res h => ⟨rfl, h.2.symm⟩
          unfinished := fun h => absurd rfl h
          result := fun _ st res _ => ⟨result, rfl, hkey⟩ }
      have hrest : Stable workerContract {.hydration me} (Hydrating me records
        (durable.filter fun entry => entry.1 != record.request.key)) := stable_hydrating hown
      exact (Triple.frame (triple_commit hplan _) hrest).conseq (fun _ _ h => h)
        (fun _ _ _ h => h.2) fun _ _ _ h => .inl h.2.loading
  | none =>
    refine triple_turn hstable subset_rfl fun s r hs hp _ => ?_
    -- an attempt that is added has the key of the record
    have hadded : ∀ {t : WorkerWorld} {b : WorkerAttempt}, t.phase me = s.phase me →
        t.records = s.records → b.key = record.request.key →
        (∀ (j : Nat) (a : WorkerAttempt), t.attempts[j]? = some a →
          s.attempts[j]? = some a ∨ j = s.attempts.length ∧ a = b) →
        (∀ k, k ≠ record.request.key → t.buffered me k = s.buffered me k) →
        Hydrating me records (durable.filter fun entry => entry.1 != record.request.key) t := by
      intro t b h₁ h₂ hb hattempts hbuffered
      refine hp.next h₁ h₂ (fun j a ha _ => ?_) hbuffered
      rcases hattempts j a ha with ha' | ⟨-, rfl⟩
      · exact .inl ha'
      · exact .inr hb
    have hunfinished : WorkerTurn {.hydration me} s (WorkerRuntime.addHydrated s
        (WorkerRuntime.hydratedAttempt me record .acknowledged
          (WorkerRuntime.resultReservationBytes platform me record.request r.now) none)) :=
      .addHydrated hs hp rfl rfl rfl (fun h => nomatch h) fun h => absurd rfl h
    have hkept : Hydrating me records
        (durable.filter fun entry => entry.1 != record.request.key) s :=
      hp.next rfl rfl (fun _ _ ha _ => .inl ha) fun _ _ => rfl
    split
    · next result hterminal hresult =>
      have hkey := hp.resultKey record mem_cons_self result hresult
      split
      · have hrest := putResult_rest platform (WorkerRuntime.addHydrated s
          (WorkerRuntime.hydratedAttempt me record .terminal 0 (some result))) me result
        have hnext := hadded (b := WorkerRuntime.hydratedAttempt me record .terminal 0
          (some result)) hphase hrest.2.2.1 rfl (fun j a ha => attempts_addSettled j a ha)
          fun k hk => by
            rw [← hkey] at hk
            rw [buffered_putResult platform _ me result hk, buffered_addHydrated]
        exact ⟨.addSettled platform hs hp hkey, fun _ _ => hnext, fun _ _ => .inl hnext.loading⟩
      · refine ⟨.addHydrated hs hp rfl rfl rfl (fun _ => ⟨result, rfl, hkey⟩) fun _ => rfl,
          fun _ _ => ?_, fun _ h => nomatch h⟩
        exact hadded (phase_addHydrated _ _ _) rfl rfl (fun _ _ ha => attempts_addHydrated ha)
          fun k _ => by rw [buffered_addHydrated]
    · exact ⟨hunfinished, fun _ _ => hadded (phase_addHydrated _ _ _) rfl rfl
        (fun _ _ ha => attempts_addHydrated ha) fun k _ => by rw [buffered_addHydrated],
        fun _ h => nomatch h⟩
    · exact ⟨hunfinished, fun _ _ => hadded (phase_addHydrated _ _ _) rfl rfl
        (fun _ _ ha => attempts_addHydrated ha) fun k _ => by rw [buffered_addHydrated],
        fun _ h => nomatch h⟩
    · exact ⟨.refl hs, fun _ _ => hkept, fun _ h => nomatch h⟩

theorem triple_hydrateRecords : ∀ (records : List RemoteAttemptRecord)
    (durable : List (JsString × RemoteResult)), Triple workerContract {.hydration me}
      (Hydrating me records durable) (WorkerRuntime.hydrateRecords platform me records durable)
      (fun rest => Hydrating me [] rest) fun _ => Unhydrated me
  | [], _ => Triple.pure fun _ _ h => h
  | _ :: records, _ =>
    Triple.bind triple_hydrateRecord fun _ => triple_hydrateRecords records _

/-! ## The end of hydration -/

theorem WorkerTurn.putResults {own : Set WorkerToken} {s : WorkerWorld}
    (platform : WorkerPlatform) (me : Nat) (hs : WorkerInv s) :
    ∀ results : List RemoteResult, (∀ r ∈ results, Puttable own s me r.key r) →
      WorkerTurn own s (WorkerRuntime.putResults platform me results s).2 ∧
        (WorkerRuntime.putResults platform me results s).2.attempts = s.attempts ∧
        (WorkerRuntime.putResults platform me results s).2.events = s.events ∧
        (WorkerRuntime.putResults platform me results s).2.works = s.works ∧
        (WorkerRuntime.putResults platform me results s).2.phase me = s.phase me
  | [], _ => ⟨.refl hs, rfl, rfl, rfl, rfl⟩
  | result :: results, h => by
    have hput : WorkerTurn own s (WorkerRuntime.putResult platform s me result).2 :=
      .putResult platform hs (h result mem_cons_self)
    have hrest := putResult_rest platform s me result
    rw [WorkerRuntime.putResults]
    generalize WorkerRuntime.putResult platform s me result = answer at hput hrest
    obtain ⟨hattempts, hevents, hrecords, hworks, hphase⟩ := hrest
    obtain ⟨e | u, t⟩ := answer
    · exact ⟨hput, hattempts, hevents, hworks, hphase me⟩
    · -- nothing that matters has changed
      have hstill : ∀ r ∈ results, Puttable own t me r.key r := by
        intro r hr
        have hold := h r (mem_cons_of_mem _ hr)
        refine ⟨?_, fun hc i a ha => ?_, ?_⟩
        · rw [hrecords]
          exact hold.record
        · rw [hattempts] at ha
          rw [Clean, hevents] at hc
          exact hold.settled hc i a ha
        · rw [hattempts, hphase]
          exact hold.attempt
      obtain ⟨hturn, h₁, h₂, h₃, h₄⟩ := WorkerTurn.putResults platform me hput.inv results hstill
      exact ⟨hput.andThen hturn h₂, h₁.trans hattempts, h₂.trans hevents, h₃.trans hworks,
        h₄.trans (hphase me)⟩

theorem unhydrated_failed (s : WorkerWorld) (me : Nat) : Unhydrated me
    (s.modifyWorker me fun worker => { worker with initialization := .failed }) := by
  refine .inr ?_
  rw [phase, workers_modifyWorker, if_pos rfl]

theorem phase_modifyWorker (s : WorkerWorld) (me : Nat) (f : WorkerState → WorkerState) :
    (s.modifyWorker me f).phase me = (f (s.workers me)).initialization := by
  rw [phase, workers_modifyWorker, if_pos rfl]

theorem Hydrating.puttable {rest : List (JsString × RemoteResult)}
    (hp : Hydrating me [] rest s) : ∀ r ∈ rest.map (·.2), Puttable {.hydration me} s me r.key r := by
  intro r hr
  obtain ⟨entry, hentry, rfl⟩ := mem_map.mp hr
  obtain ⟨hrecord, hkey⟩ := hp.stored entry hentry
  refine ⟨?_, fun _ i a ha hw hk => ?_, .inr ⟨hp.loading, rfl⟩⟩
  · rw [hkey]
    exact hrecord
  · refine absurd ?_ ((hp.fresh i a ha hw).2 entry hentry)
    rw [← hkey, hk]

theorem turn_endHydration {rest : List (JsString × RemoteResult)}
    (platform : WorkerPlatform) (hs : WorkerInv s) (hp : Hydrating me [] rest s) (now : Int) :
    WorkerTurn {.hydration me} s (WorkerRuntime.endHydration platform me rest s now).2 ∧
      ∀ e, (WorkerRuntime.endHydration platform me rest s now).1 = .error e →
        Unhydrated me (WorkerRuntime.endHydration platform me rest s now).2 := by
  have hput := WorkerTurn.putResults platform me hs (rest.map (·.2)) hp.puttable
  unfold WorkerRuntime.endHydration
  generalize WorkerRuntime.putResults platform me (rest.map (·.2)) s = answer at hput
  obtain ⟨e | u, t⟩ := answer
  · obtain ⟨hturn, -, -, -, hphase⟩ := hput
    have hfailed : WorkerTurn {.hydration me} t (t.modifyWorker me fun worker =>
        { worker with initialization := .failed }) :=
      .setPhase hturn.inv (fun _ => rfl) (.inr ⟨hphase.trans hp.loading, rfl⟩)
    exact ⟨hturn.andThen hfailed rfl, fun _ _ => unhydrated_failed t me⟩
  · obtain ⟨hturn, hattempts, -, hworks, hphase⟩ := hput
    dsimp only at hturn hattempts hworks hphase ⊢
    -- the reservations are counted before the phase ends
    set u := t.modifyWorker me fun worker =>
      { worker with
        reservedResults := (WorkerRuntime.unfinished t me).length + worker.results.length
        reservedResultBytes := ((WorkerRuntime.unfinished t me).map (·.reservedBytes)).sum } with hu
    have hset : WorkerTurn {.hydration me} t u :=
      (WorkerTurn.bookkeeping hturn.inv rfl rfl rfl rfl rfl).mono (Set.empty_subset _)
    have hloading : u.phase me = .loading := by
      rw [hu, phase_modifyWorker]
      exact hphase.trans hp.loading
    have hreserved : WorkerTurn {.hydration me} s u := hturn.andThen hset rfl
    split
    · have hfailed : WorkerTurn {.hydration me} u (u.modifyWorker me fun worker =>
          { worker with initialization := .failed }) :=
        .setPhase hset.inv (fun _ => rfl) (.inr ⟨hloading, rfl⟩)
      exact ⟨hreserved.andThen hfailed rfl, fun _ _ => unhydrated_failed u me⟩
    · have hhydrated : WorkerTurn {.hydration me} u
          ((u.modifyWorker me fun worker => { worker with initialization := .hydrated }).log
            (.restored me (u.workers me).results)) :=
        .setHydrated hset.inv hloading rfl
      refine ⟨hreserved.before hhydrated hworks fun i => ?_, fun _ h => nomatch h⟩
      have hsame : u.attempts = s.attempts := hattempts
      rw [hsame]

/-- The runtime has no attempts and no results yet. -/
def Empty (me : Nat) (s : WorkerWorld) : Prop :=
  s.phase me = .loading ∧
    (∀ (i : Nat) (a : WorkerAttempt), s.attempts[i]? = some a → a.worker ≠ me) ∧
    ∀ key, s.buffered me key = none

theorem stable_empty (hown : .hydration me ∈ uses) : Stable workerContract uses (Empty me) := by
  rintro s t hst hframe ⟨hloading, hnone, hempty⟩
  obtain ⟨hloading', hattempts, hbuffered⟩ := hframe (.hydration me) hown hloading
  refine ⟨hloading', fun i a ha hw => ?_, fun key => ?_⟩
  · obtain ⟨b, hb, hbw, -⟩ := hattempts i a ha hw
    exact hnone i b hb hbw
  · cases hput : t.buffered me key with
    | none => rfl
    | some r =>
      rcases hbuffered key r hput with h | ⟨i, a, ha, hw, -⟩
      · rw [hempty] at h
        cases h
      · exact absurd hw (hnone i a ha)

def Listed (records : List RemoteAttemptRecord) (s : WorkerWorld) : Prop :=
  ∀ record ∈ records, s.records record.request.key ≠ none

theorem stable_listed : Stable workerContract uses (Listed records) :=
  .of_rely fun _ _ hst h r hr => hst.record _ (h r hr)

theorem listed_recoverable (hs : WorkerInv s) (workerId : PortableId)
    (keys : List JsString) : Listed (s.recoverable workerId keys) s := by
  intro record hrecord
  obtain ⟨key, -, hkey⟩ := mem_filterMap.mp (mem_of_mem_filter hrecord)
  rw [hs.recordKey key record hkey, hkey]
  exact Option.some_ne_none _

end

theorem recoverable_facts {highestEpoch : Nat} {parsed : ParseOutcome}
    (h : WorkerRuntime.recoverable platform me records highestEpoch parsed = true) :
    (∀ record ∈ records, ∀ r, record.result = some r → r.key = record.request.key) ∧
      (records.map fun record => record.request.key).Nodup := by
  unfold WorkerRuntime.recoverable at h
  rw [Bool.and_eq_true, Bool.and_eq_true, all_eq_true] at h
  obtain ⟨⟨-, hall⟩, hnodup⟩ := h
  refine ⟨fun record hrecord r hr => ?_, of_decide_eq_true hnodup⟩
  have hvalid := hall record hrecord
  cases hparse : WorkerRuntime.parseStoredRecord platform me none record parsed with
  | error e =>
    rw [hparse] at hvalid
    cases hvalid
  | ok parsedRecord => exact (parseStoredRecord_ok hparse).2.2 r hr

def Durable (durable : List (JsString × RemoteResult)) (s : WorkerWorld) : Prop :=
  ∀ entry ∈ durable, s.records entry.1 ≠ none ∧ entry.2.key = entry.1

theorem stable_durable : Stable workerContract uses (Durable durable) :=
  .of_rely fun _ _ hst h e he => ⟨hst.record _ (h e he).1, (h e he).2⟩

/-- What the source does once its stores are there. -/
theorem triple_hydrateBody : Triple workerContract {.hydration me} (Empty me)
    (do
      let (records, highestEpoch) ← WorkerRuntime.storeOperation me fun s r =>
        ((s.recoverable (platform.options me).workerId r.keys,
          s.highestEpochs (platform.options me).workerId), s)
      check fun _ r =>
        if WorkerRuntime.recoverable platform me records highestEpoch r.parsed then .ok ()
        else .error .other
      let durable ← check fun s r =>
        if (platform.options me).resultStore.isNone then .ok []
        else if r.ok then
          .ok (r.keys.dedup.filterMap fun key =>
            (s.durableResults key).map fun result => (key, result))
        else .error .other
      update fun s _ => s.modifyWorker me fun worker =>
        { worker with highestEpoch := max worker.highestEpoch highestEpoch }
      let durable ← WorkerRuntime.hydrateRecords platform me records durable
      atomically fun s r => WorkerRuntime.endHydration platform me durable s r.now)
    (fun _ _ => True) fun _ => Unhydrated me := by
  have hown : .hydration me ∈ ({.hydration me} : Set WorkerToken) := Set.mem_singleton _
  have hempty : Stable workerContract {.hydration me} (Empty me) := stable_empty hown
  have hstore : Triple workerContract ∅ (fun _ => True)
      (WorkerRuntime.storeOperation me fun s r =>
        ((s.recoverable (platform.options me).workerId r.keys,
          s.highestEpochs (platform.options me).workerId), s))
      (fun answer => Listed answer.1) (Noted me) :=
    triple_storeOperation me (.const True) (fun _ => stable_listed)
      fun s r hs _ => ⟨.refl hs, listed_recoverable hs _ _⟩
  refine Triple.bind (Q := fun answer s => Listed answer.1 s ∧ Empty me s)
    ((triple_keep hstore hempty fun _ _ => trivial).conseq (fun _ _ h => h)
      (fun _ _ _ h => h) fun _ _ _ h => .inl h.2.1) fun answer => ?_
  obtain ⟨records, highestEpoch⟩ := answer
  refine Triple.bind (Q := fun _ s =>
    ((∀ record ∈ records, ∀ r, record.result = some r → r.key = record.request.key) ∧
      (records.map fun record => record.request.key).Nodup) ∧ Listed records s ∧ Empty me s)
    (triple_check (stable_listed.and hempty) (fun s r _ _ hp h => ⟨?_, hp⟩)
      fun s e hp => .inl hp.2.1) fun _ => Triple.of_pure (fun hfacts => ?_) fun _ h => h.1
  · split at h
    · next hrecoverable => exact recoverable_facts hrecoverable
    · cases h
  refine Triple.conseq (?_ : Triple _ _ (fun s => Listed records s ∧ Empty me s) _ _ _)
    (fun _ _ h => h.2) (fun _ _ _ h => h) fun _ _ _ h => h
  refine Triple.bind (Q := fun durable s => Durable durable s ∧ Listed records s ∧ Empty me s)
    (triple_check (stable_listed.and hempty) (fun s r durable hs hp h => ⟨?_, hp⟩)
      fun s e hp => .inl hp.2.1) fun durable => ?_
  · split at h
    · rw [← ok.inj h]
      exact fun _ h => by cases h
    · split at h
      · rw [← ok.inj h]
        intro entry hentry
        obtain ⟨key, -, hkey⟩ := mem_filterMap.mp hentry
        obtain ⟨result, hresult, rfl⟩ := Option.map_eq_some_iff.mp hkey
        exact hs.durable key result hresult
      · cases h
  have hstable : Stable workerContract {.hydration me} fun s =>
      Durable durable s ∧ Listed records s ∧ Empty me s :=
    stable_durable.and (stable_listed.and hempty)
  refine Triple.bind (Q := fun _ => Hydrating me records durable)
    (triple_turn hstable (Set.empty_subset _) fun s r hs hp _ => ?_) fun _ => ?_
  · have hset : WorkerTurn ∅ s (s.modifyWorker me fun worker =>
        { worker with highestEpoch := max worker.highestEpoch highestEpoch }) :=
      .bookkeeping hs rfl rfl rfl rfl rfl
    obtain ⟨hdurable, hlisted, hloading, hnone, hbuffered⟩ :=
      hset.keeps hstable (fun _ _ => Set.notMem_empty _) hp
    refine ⟨hset, fun _ _ => ⟨hloading, hlisted, hfacts.1, hfacts.2, hdurable,
      fun i a ha hw => absurd hw (hnone i a ha), fun record _ => hbuffered _⟩,
      fun _ h => by cases h⟩
  · refine Triple.bind (triple_hydrateRecords records durable) fun rest => ?_
    refine triple_turn (stable_hydrating hown) subset_rfl fun s r hs hp _ => ?_
    obtain ⟨hturn, herror⟩ := turn_endHydration platform hs hp r.now
    exact ⟨hturn, fun _ _ => trivial, herror⟩

theorem hydrate_spec : Spec workerContract {.hydration me} (Empty me)
    (WorkerRuntime.hydrate platform me) fun _ _ => True := by
  have hown : .hydration me ∈ ({.hydration me} : Set WorkerToken) := Set.mem_singleton _
  have hempty : Stable workerContract {.hydration me} (Empty me) := stable_empty hown
  refine Triple.tryCatch (E := fun _ => Unhydrated me) ?_ fun e => ?_
  · refine Triple.bind (Q := fun _ => Empty me) (triple_query hempty fun _ _ h => h)
      fun available => ?_
    cases available with
    | false =>
      exact Triple.bind (Q := fun _ _ => False) (Triple.throw fun _ _ h => .inl h.1)
        fun _ => Triple.of_false fun _ h => h
    | true => exact triple_hydrateBody
  · refine spec_update (stable_unhydrated hown) subset_rfl fun s _ hs hp => ⟨?_, trivial⟩
    rcases hp with hp | hp
    · exact .setPhase hs (fun _ => hown) (.inr ⟨hp, rfl⟩)
    · have hset : WorkerTurn ∅ s (s.modifyWorker me fun worker =>
          { worker with initialization := .failed }) := .bookkeeping hs hp.symm rfl rfl rfl rfl
      exact hset.mono (Set.empty_subset _)

/-! ## Attaching and closing -/

theorem initialized_spec : Spec workerContract ∅ (fun _ => True)
    (WorkerRuntime.initialized platform me) fun _ s => s.phase me = .hydrated := by
  refine Spec.bind (Q := fun _ _ => True) (Triple.spawn fun s t r _ hst hframe ht _ => ?_)
    fun _ => spec_turn (.const True) (Set.empty_subset _) fun s r hs _ _ => ⟨.refl hs, fun u h => ?_⟩
  · split
    · exact ⟨(WorkerTurn.refl ht).turn (Set.empty_subset _), fun _ _ h => (nomatch h),
        fun _ _ h => (nomatch h), fun _ _ => trivial⟩
    split
    · next hidle =>
      have hphase : t.phase me = .idle := hidle
      have hturn : WorkerTurn ∅ t (t.modifyWorker me fun worker =>
          { worker with initialization := .loading }) := by
        refine .setPhase ht (fun h => ?_) (.inl ⟨hphase, rfl⟩)
        rw [hphase] at h
        cases h
      have hloading : (t.modifyWorker me fun worker =>
          { worker with initialization := .loading }).phase me = .loading :=
        phase_modifyWorker t me _
      refine ⟨hturn.turn (Set.empty_subset _), fun _ _ _ => trivial, fun _ _ _ => ?_,
        fun _ _ => trivial⟩
      refine Safe.weaken (hydrate_spec.safe_run hturn.inv
        ⟨hloading, fun i a ha hw => ?_, fun key => ?_⟩) ?_
      · refine (ht.phase i a ha).1 ?_
        rw [hw]
        exact hphase
      · rw [buffered, workers_modifyWorker, if_pos rfl]
        exact ht.idle me key hphase
      · rw [Set.singleton_subset_iff]
        have hstarted : (t.modifyWorker me fun worker =>
            { worker with initialization := .loading }).phase me ≠ .idle := by
          rw [hloading]
          exact InitializationPhase.noConfusion
        exact ⟨fun h => h hphase, hstarted⟩
    · refine ⟨(WorkerTurn.refl ht).turn (Set.empty_subset _), fun _ _ _ => trivial, fun _ _ h => ?_,
        fun _ _ => trivial⟩
      cases (Prod.mk.inj (ok.inj h)).2
  · split at h
    · next hhydrated => exact hhydrated
    · cases h

theorem attachSession_spec {session : Nat} : Spec workerContract ∅ (fun _ => True)
    (WorkerRuntime.attachSession platform me session) fun _ _ => True := by
  have hphase : Stable workerContract ∅ fun s => s.phase me = .hydrated := stable_phase
  refine Spec.bind (Q := fun _ _ => True) (spec_check (.const True) fun _ _ _ _ _ _ => trivial)
    fun _ => initialized_spec.bind fun _ => ?_
  refine Spec.bind (Q := fun _ s => s.phase me = .hydrated) (spec_check hphase
    fun _ _ _ _ hp _ => hp) fun current => ?_
  have hend : Spec workerContract ∅ (fun s => s.phase me = .hydrated)
      (do
        update fun s _ => s.modifyWorker me fun worker =>
          { worker with
            highestEpoch := platform.epoch session
            session := some session
            attached := some session }
        WorkerRuntime.recoverHydrated platform me) fun _ _ => True := by
    refine Spec.bind (Q := fun _ _ => True) (spec_update hphase (Set.empty_subset _)
      fun s _ hs hp => ⟨?_, trivial⟩) fun _ => recoverHydrated_spec
    exact .worker hs rfl (fun _ _ h => .inl h) (fun _ h => .inl h) (hs.distinct me) (fun _ => hp)
      fun h => h
  cases current with
  | none => exact hend
  | some current =>
    dsimp only
    split
    · exact ((sessionLost_spec.keep hphase fun _ _ => trivial).post fun _ _ h => h.2).bind
        fun _ => hend
    · exact hend

theorem attach_spec {session : Nat} : Spec workerContract ∅ (fun _ => True)
    (WorkerRuntime.attach platform me session) fun _ _ => True := by
  refine Spec.bind (Q := fun _ _ => True) (spec_turn (.const True) (Set.empty_subset _)
    fun s r hs _ _ => ⟨?_, fun _ _ => trivial⟩) fun n => ?_
  · dsimp only
    exact .bookkeeping hs rfl rfl rfl rfl rfl
  refine Spec.bind (Q := fun _ _ => True) (spec_turn (.const True) (Set.empty_subset _)
    fun s r hs _ _ => ⟨.refl hs, fun _ _ => trivial⟩) fun _ => ?_
  refine attachSession_spec.tryFinally (.const True) (fun _ h => h) (fun _ => .const True)
    (spec_update (.const True) (Set.empty_subset _) fun s _ hs _ => ⟨?_, trivial⟩)
  exact .bookkeeping hs rfl rfl rfl rfl rfl

theorem close_spec : Spec workerContract ∅ (fun _ => True)
    (WorkerRuntime.close platform me) fun _ _ => True := by
  refine Spec.bind (Q := fun _ _ => True) (spec_turn (.const True) (Set.empty_subset _)
    fun s r hs _ _ => ⟨?_, fun _ _ => trivial⟩) fun session => ?_
  · split
    · exact .refl hs
    · dsimp only
      exact .bookkeeping hs rfl rfl rfl rfl rfl
  have hend : Spec workerContract ∅ (fun _ => True)
      (do
        let attempts ← query fun s => (s.workers me).attempts.map (·.2)
        WorkerRuntime.detachAll (fun i => WorkerRuntime.cancelAttempt platform me i none
          "EXECUTOR_REMOTE_CANCELLED" "Worker runtime closed before local execution completed")
          attempts) fun _ _ => True := by
    refine Spec.bind (Q := fun attempts s => ∀ i ∈ attempts, ∃ key, Has me i key s)
      (spec_query (.const True) fun s hs _ i hi => ?_) fun attempts => ?_
    · obtain ⟨⟨key, j⟩, hentry, rfl⟩ := mem_map.mp hi
      obtain ⟨a, ha, hw, hk, hr⟩ := hs.entry me key j hentry
      exact ⟨key, a, ha, hw, hk, hr⟩
    · induction attempts with
      | nil => exact Spec.ret fun _ _ => trivial
      | cons i rest ih =>
        refine Spec.bind (Spec.detach fun s hs hp => ?_) fun _ => ih.pre fun s h j hj =>
          h j (mem_cons_of_mem _ hj)
        obtain ⟨key, hhas⟩ := hp i mem_cons_self
        exact (cancelAll_spec _ _).safe_run hs hhas
  cases session with
  | none => exact hend
  | some session => exact sessionLost_spec.bind fun _ => hend

theorem publication_spec (n : Nat) : Spec workerContract ∅ (fun _ => True)
    (WorkerRuntime.publication platform n) fun _ _ => True := by
  refine Spec.bind (Q := fun next s => ∀ me result, next = some (me, result) → s.Clean →
    s.SettledBy me result) (spec_turn (.const True) (Set.empty_subset _) fun s r hs _ _ => ?_)
    fun next => ?_
  · have hrefl : WorkerTurn ∅ s s := .refl hs
    split
    · next me result hn =>
      have hmem : (me, result, false) ∈ s.publications := mem_of_getElem? hn
      have hturn : WorkerTurn ∅ s { s with
          publications := s.publications.set n (me, result, true) } := by
        refine .publications hs fun p hp => ?_
        rcases mem_or_eq_of_mem_set hp with hp | rfl
        · exact .inl ⟨p.2.2, hp⟩
        · exact .inl ⟨false, hmem⟩
      refine ⟨hturn, fun next h me' result' heq hc => ?_⟩
      rw [← ok.inj h] at heq
      obtain ⟨rfl, rfl⟩ := Prod.mk.inj (Option.some.inj heq)
      exact hturn.inv.publication hc _ _ _ (mem_of_getElem? (getElem?_set_self
        (List.getElem?_eq_some_iff.mp hn).1))
    · refine ⟨hrefl, fun next h me result heq => ?_⟩
      rw [← ok.inj h] at heq
      cases heq
  · cases next with
    | none => exact Spec.ret fun _ _ => trivial
    | some p => exact publish_spec.pre fun _ h => h p.1 p.2 rfl

/-! ## All runs -/

theorem inv_initial : WorkerInv .initial where
  recordKey _ _ h := nomatch h
  recorded _ _ h := nomatch h
  durable _ _ h := nomatch h
  buffered _ _ _ h := nomatch h
  assigned _ _ _ _ h := nomatch h
  unique _ _ _ _ h := nomatch h
  entry _ _ _ h := nomatch h
  phase _ _ h := nomatch h
  idle _ _ _ := rfl
  session _ h := absurd rfl h
  works _ _ h := nomatch h
  launched _ _ _ h := nomatch h
  submitted _ h := nomatch h
  submittedOnce := .nil
  result _ _ _ h := nomatch h
  terminal _ _ _ h := nomatch h
  distinct _ := .nil
  bufferedResult _ _ _ _ h := nomatch h
  publication _ _ _ _ h := nomatch h
  held _ _ _ _ h := nomatch h
  restored _ _ h := nomatch h
  restoredOnce _ _ _ h := nomatch h
  kept _ _ _ _ _ h := nomatch h
  reported _ _ _ _ h := nomatch h
  inventory _ _ _ _ h := nomatch h

theorem entry_safe (call : WorkerCall) (s : WorkerWorld) (hs : WorkerInv s) :
    Safe workerContract (WorkerRuntime.entry platform call) ∅ s := by
  cases call with
  | init me => exact initialized_spec.safe_run hs trivial
  | attach me session => exact attach_spec.safe_run hs trivial
  | message me session message => exact (onMessage_spec message).safe_run hs trivial
  | stateChange me session => exact sessionLost_spec.safe_run hs trivial
  | publication n => exact (publication_spec n).safe_run hs trivial
  | close me => exact close_spec.safe_run hs trivial

namespace WorkerRuntime

variable (platform) {w w' : World WorkerWorld WorkerAnswer}

theorem inv_of_reachable (hr : (machine platform).Reachable w) : WorkerInv w.mem := by
  refine (World.safe (K := workerContract) (fun s h => ?_) entry_safe hr).1
  rw [h]
  exact inv_initial

theorem law_of_step {l : Sched WorkerCall WorkerAnswer} (hr : (machine platform).Reachable w)
    (hs : (machine platform).step w l = some w') : WorkerLaw w.mem w'.mem := by
  have hinit : ∀ s, s = WorkerWorld.initial → WorkerInv s := by
    rintro s rfl
    exact inv_initial
  rcases World.law_of_step (K := workerContract) hinit entry_safe hr hs trivial with h | h
  · rw [h]
    exact stutters_workerContract _ (inv_of_reachable platform hr)
  · exact h

end WorkerRuntime

end TegoNext
