/-
What the turns of a worker runtime do, one lemma for each kind of change.

Most turns change what only the runtime itself looks at. The others add an event, change the
state of an attempt, add an attempt, write the first record of one, open or close work, or
change the phase of a runtime. Each lemma says which token the turn needs.
-/
import TegoNext.WorkerContract

set_option autoImplicit false

namespace TegoNext

open Async WorkerWorld List Option Function

section

variable {s t : WorkerWorld}

/-! ## Silent turns -/

variable {own : Set WorkerToken} {me : Nat}

theorem runtimeChange_modifyWorker (hs : WorkerInv s) {events : List WorkerEvent}
    {f : WorkerState → WorkerState} (hf : RuntimeChange own s events me (f (s.workers me)))
    (me' : Nat) : RuntimeChange own s events me' ((s.modifyWorker me f).workers me') := by
  rw [workers_modifyWorker]
  by_cases h : me' = me
  · subst h
    rw [if_pos rfl]
    exact hf
  · rw [if_neg h]
    exact .refl hs me'

theorem WorkerTurn.worker (hs : WorkerInv s)
    {f : WorkerState → WorkerState}
    (hphase : (f (s.workers me)).initialization = s.phase me)
    (hresults : ∀ key r, (f (s.workers me)).results.lookup key = some r →
      s.buffered me key = some r ∨ Puttable own s me key r)
    (hentries : ∀ entry ∈ (f (s.workers me)).attempts, entry ∈ s.entries me ∨
      ∃ a, s.attempts[entry.2]? = some a ∧ a.worker = me ∧ a.key = entry.1 ∧ a.Recorded)
    (hdistinct : ((f (s.workers me)).results.map (·.1)).Nodup)
    (hsession : (f (s.workers me)).session ≠ none → s.phase me = .hydrated)
    (havailable : (f (s.workers me)).attemptPersistenceAvailable = true →
      s.available me = true) : WorkerTurn own s (s.modifyWorker me f) :=
  WorkerChange.turn hs { WorkerChange.refl hs with
    attempts := .same rfl
    state := runtimeChange_modifyWorker hs
      ⟨.inl hphase, hresults, hentries, hdistinct, hsession, havailable⟩
    events := .same rfl }

theorem WorkerTurn.bookkeeping (hs : WorkerInv s) {f : WorkerState → WorkerState}
    (hphase : (f (s.workers me)).initialization = s.phase me)
    (hresults : (f (s.workers me)).results = (s.workers me).results)
    (hentries : (f (s.workers me)).attempts = s.entries me)
    (hsession : (f (s.workers me)).session = s.session me)
    (havailable : (f (s.workers me)).attemptPersistenceAvailable = s.available me) :
    WorkerTurn ∅ s (s.modifyWorker me f) := by
  refine WorkerTurn.worker hs hphase (fun key r h => .inl ?_) (fun entry h => .inl ?_) ?_
    (fun h => ?_) fun h => ?_
  · rw [hresults] at h
    exact h
  · rw [hentries] at h
    exact h
  · rw [hresults]
    exact hs.distinct me
  · rw [hsession] at h
    exact hs.session me h
  · rw [havailable] at h
    exact h

theorem WorkerTurn.setUnavailable (hs : WorkerInv s) (me : Nat) : WorkerTurn ∅ s (s.setUnavailable me) :=
  WorkerTurn.worker hs rfl (fun _ _ h => .inl h) (fun _ h => .inl h) (hs.distinct me)
    (hs.session me) fun h => nomatch h

variable {f : WorkerAttempt → WorkerAttempt}

theorem view_modifyAttempt (s : WorkerWorld) (i : Nat)
    (hview : ∀ a, (f a).view = a.view) (j : Nat) :
    ((s.modifyAttempt i f).attempts[j]?).map WorkerAttempt.view =
      (s.attempts[j]?).map WorkerAttempt.view := by
  rw [getElem?_modifyAttempt, Option.map_map]
  congr 1
  funext a
  show (if i = j then f a else a).view = a.view
  by_cases h : i = j
  · rw [if_pos h, hview]
  · rw [if_neg h]

theorem getElem?_modifyAttempt_eq {i : Nat} {a : WorkerAttempt} (ha : s.attempts[i]? = some a)
    (j : Nat) : (s.modifyAttempt i f).attempts[j]? =
      if j = i then some (f a) else s.attempts[j]? := by
  rw [getElem?_modifyAttempt]
  by_cases h : j = i
  · subst h
    rw [ha, if_pos rfl]
    simp
  · rw [if_neg h]
    simp [Ne.symm h]

theorem WorkerTurn.attemptField (hs : WorkerInv s) (i : Nat)
    (hview : ∀ a, (f a).view = a.view) : WorkerTurn ∅ s (s.modifyAttempt i f) := by
  refine WorkerChange.turn hs { WorkerChange.refl hs with attempts := ?_ }
  cases ha : s.attempts[i]? with
  | none =>
    refine .same (List.ext_getElem? fun j => ?_)
    rw [getElem?_modifyAttempt]
    by_cases h : i = j
    · rw [← h, ha]
      rfl
    · simp [h]
  | some a =>
    exact .changed i a (f a) ha (getElem?_modifyAttempt_eq ha) (.of_view hs ha (hview a))

theorem WorkerTurn.watches (hs : WorkerInv s) (watches : List Bool) :
    WorkerTurn ∅ s { s with watches := watches } :=
  WorkerChange.turn hs { WorkerChange.refl hs with }

theorem WorkerTurn.durable (hs : WorkerInv s) {durable : JsString → Option RemoteResult}
    (h : ∀ key result, durable key = some result → s.records key ≠ none ∧ result.key = key) :
    WorkerTurn ∅ s { s with durableResults := durable } :=
  WorkerChange.turn hs { WorkerChange.refl hs with durable := h }

theorem WorkerTurn.publications (hs : WorkerInv s) {publications : List (Nat × RemoteResult × Bool)}
    (h : ∀ p ∈ publications, (∃ b, (p.1, p.2.1, b) ∈ s.publications) ∨
      (s.Clean → s.SettledBy p.1 p.2.1)) :
    WorkerTurn ∅ s { s with publications := publications } :=
  WorkerChange.turn hs { WorkerChange.refl hs with publications := h }

/-! ## The attempt store -/

theorem commitRecord_cases (s : WorkerWorld) (record : RemoteAttemptRecord)
    (condition : RemoteAttemptCommitCondition) :
    s.commitRecord record condition = (none, s) ∨
    s.conflicts record.request.key condition = false ∧
      ∃ snapshot highestEpochs, snapshot.request = record.request ∧
        s.commitRecord record condition = (some snapshot, { s with
          records := Function.update s.records record.request.key (some snapshot)
          highestEpochs := highestEpochs }) := by
  unfold commitRecord
  by_cases h : s.conflicts record.request.key condition = true
  · rw [if_pos h]
    exact .inl rfl
  rw [if_neg h]
  exact .inr ⟨by simpa using h, { record with
    revision := (s.records record.request.key).elim 1 fun current => current.revision + 1 }, _,
    rfl, rfl⟩

variable {key : JsString}

theorem records_update {s : WorkerWorld} {snapshot : RemoteAttemptRecord}
    (k : JsString) (h : s.records k ≠ none) :
    Function.update s.records key (some snapshot) k ≠ none := by
  by_cases hk : k = key
  · subst hk
    simp
  · rw [update_of_ne hk]
    exact h

theorem recordKey_update (hs : WorkerInv s) {snapshot : RemoteAttemptRecord}
    (hkey : snapshot.request.key = key) (k : JsString) (record : RemoteAttemptRecord)
    (h : Function.update s.records key (some snapshot) k = some record) :
    record.request.key = k := by
  by_cases hk : k = key
  · subst hk
    rw [update_self] at h
    rw [← some.inj h]
    exact hkey
  · rw [update_of_ne hk] at h
    exact hs.recordKey k record h

theorem WorkerTurn.commitRecord (hs : WorkerInv s) (record : RemoteAttemptRecord)
    (condition : RemoteAttemptCommitCondition) :
    WorkerTurn ∅ s (s.commitRecord record condition).2 := by
  rcases commitRecord_cases s record condition with h | ⟨-, snapshot, epochs, hrequest, h⟩
  · rw [h]
    exact .refl hs
  · rw [h]
    have hmono : ∀ k, s.records k ≠ none →
        Function.update s.records record.request.key (some snapshot) k ≠ none := records_update
    exact WorkerChange.turn hs { WorkerChange.refl hs with
      record := hmono
      recordKey := recordKey_update hs (by rw [hrequest])
      durable := fun key result h =>
        ⟨hmono key (hs.durable key result h).1, (hs.durable key result h).2⟩
      attempts := .same rfl }

/-! ## Events -/

theorem WorkerTurn.log (hs : WorkerInv s) {e : WorkerEvent}
    (hlaw : EffectLaw s e) (h : Loggable own s e) : WorkerTurn own s (s.log e) :=
  WorkerChange.turn hs { WorkerChange.refl hs with
    state := .refl hs
    events := .logged e rfl hlaw h }

/-! ## The state of an attempt -/

theorem WorkerTurn.attempt (hs : WorkerInv s) {i : Nat} {a : WorkerAttempt}
    (ha : s.attempts[i]? = some a)
    (hworker : (f a).worker = a.worker) (hrequest : (f a).request = a.request)
    (horigin : (f a).origin = a.origin) (hissued : a.issued ≤ (f a).issued)
    (hserved : a.served ≤ (f a).served) (hsettled : s.Clean → ∀ r, a.Settled r → (f a).Settled r)
    (hresult : s.Clean → (f a).state = .terminal → ∃ r, (f a).result = some r ∧ r.key = a.key)
    (hterminal : s.Clean → (f a).result ≠ none → (f a).state = .terminal)
    (hlock : .lock i a.served ∈ own ∨ (f a).served = a.served ∧
      (s.Good a.worker → (f a).state = a.state ∧ (f a).result = a.result)) :
    WorkerTurn own s (s.modifyAttempt i f) := by
  have hgrows : AttemptGrows s.Clean a (f a) :=
    ⟨hworker, hrequest, .inl horigin, hissued, hserved, hsettled⟩
  exact WorkerChange.turn hs { WorkerChange.refl hs with
    attempts := .changed i a (f a) ha (getElem?_modifyAttempt_eq ha)
      ⟨hgrows, .inl horigin, hresult, hterminal, hlock⟩ }

/-! ## New attempts -/

theorem WorkerTurn.append (hs : WorkerInv s) {b : WorkerAttempt}
    (hb : Addable own s b) : WorkerTurn own s { s with attempts := s.attempts ++ [b] } :=
  WorkerChange.turn hs { WorkerChange.refl hs with attempts := .added b rfl hb hb.unbuffered }

theorem WorkerTurn.createRecord (hs : WorkerInv s) {i : Nat} {a : WorkerAttempt}
    {record : RemoteAttemptRecord} (ha : s.attempts[i]? = some a)
    (hrequest : record.request = a.request) (horigin : a.origin ≠ .hydrated) :
    WorkerTurn ∅ s (WorkerRuntime.createRecord s i record).2 ∧
      ((WorkerRuntime.createRecord s i record).1 ≠ none → ∃ a',
        (WorkerRuntime.createRecord s i record).2.attempts[i]? = some a' ∧
          a'.origin = .assigned ∧ a'.worker = a.worker ∧ a'.request = a.request) := by
  have hkey : record.request.key = a.key := by
    rw [hrequest]
    rfl
  unfold WorkerRuntime.createRecord
  rcases commitRecord_cases s record ⟨none, none⟩ with h | ⟨hfree, snapshot, epochs, hsnapshot, h⟩
  · rw [h]
    exact ⟨.refl hs, fun h => absurd rfl h⟩
  rw [h]
  have hnone : s.records a.key = none := by
    rw [conflicts, hkey] at hfree
    cases hrec : s.records a.key with
    | none => rfl
    | some current =>
      rw [hrec] at hfree
      simp at hfree
  rw [hkey]
  have hmono : ∀ k, s.records k ≠ none →
      Function.update s.records a.key (some snapshot) k ≠ none := records_update
  have hget := @getElem?_modifyAttempt_eq s (fun attempt => { attempt with origin := .assigned })
    i a ha
  refine ⟨WorkerChange.turn hs { WorkerChange.refl hs with
    record := hmono
    recordKey := recordKey_update hs (by rw [hsnapshot, hkey])
    durable := fun key r h => ⟨hmono key (hs.durable key r h).1, (hs.durable key r h).2⟩
    attempts := .changed i a { a with origin := .assigned } ha hget
      ⟨⟨rfl, rfl, ?_, le_rfl, le_rfl, fun _ _ h => h⟩, .inr ⟨horigin, rfl, hnone, ?_⟩,
        fun hc => hs.result hc i a ha, fun hc => hs.terminal hc i a ha,
        .inr ⟨rfl, fun _ => ⟨rfl, rfl⟩⟩⟩ }, fun _ => ⟨_, (hget i).trans (if_pos rfl), rfl, rfl, rfl⟩⟩
  · cases ho : a.origin with
    | assigning => exact .inr ⟨rfl, rfl⟩
    | assigned => exact .inl rfl
    | hydrated => exact absurd ho horigin
  · show Function.update s.records a.key (some snapshot) a.key ≠ none
    rw [update_self]
    exact some_ne_none _

/-! ## Phases and works -/

theorem WorkerTurn.changePhase {own : Set WorkerToken} (hs : WorkerInv s) {me : Nat}
    {p : InitializationPhase} {new : List WorkerEvent}
    (hown : s.phase me = .loading → .hydration me ∈ own)
    (hold : s.phase me = .idle ∧ p = .loading ∨ s.phase me = .loading ∧ p ≠ .loading ∧ p ≠ .idle)
    (hnew : p ≠ .hydrated ∧ new = [] ∨
      p = .hydrated ∧ new = [.restored me (s.workers me).results]) :
    WorkerTurn own s { s.modifyWorker me fun worker => { worker with initialization := p } with
      events := new ++ s.events } := by
  have hsession : s.session me = none := by
    refine not_ne_iff.mp fun h => ?_
    have hhydrated := hs.session me h
    rcases hold with ⟨h, -⟩ | ⟨h, -⟩
    · cases hhydrated.symm.trans h
    · cases hhydrated.symm.trans h
  have hworker : (s.modifyWorker me fun worker => { worker with initialization := p }).workers me =
      { s.workers me with initialization := p } := by
    rw [workers_modifyWorker, if_pos rfl]
  have hstate : ∀ me', RuntimeChange own s (new ++ s.events) me'
      ((s.modifyWorker me fun worker => { worker with initialization := p }).workers me') := by
    refine runtimeChange_modifyWorker hs ⟨.inr ?_, fun _ _ h => .inl h, fun _ h => .inl h,
      hs.distinct me, fun h => absurd hsession h, fun h => h⟩
    rcases hold with hidle | ⟨hloading, hne, hidle⟩
    · exact .inl hidle
    · refine .inr ⟨hloading, hown hloading, ?_⟩
      rcases hnew with ⟨hne', -⟩ | ⟨hp, rfl⟩
      · left
        cases p with
        | failed => rfl
        | idle => exact absurd rfl hidle
        | loading => exact absurd rfl hne
        | hydrated => exact absurd rfl hne'
      · exact .inr ⟨hp, mem_cons_self⟩
  refine WorkerChange.turn hs { WorkerChange.refl hs with
    attempts := .same rfl
    state := hstate
    events := ?_ }
  rcases hnew with ⟨-, rfl⟩ | ⟨rfl, rfl⟩
  · exact .same rfl
  · refine .restored me ?_ ?_ ?_
    · exact congrArg (WorkerEvent.restored me ·.results :: s.events) hworker.symm
    · rcases hold with ⟨-, h⟩ | ⟨h, -⟩
      · cases h
      · exact h
    · exact congrArg WorkerState.initialization hworker

theorem WorkerTurn.setPhase (hs : WorkerInv s)
    {p : InitializationPhase} (hown : s.phase me = .loading → .hydration me ∈ own)
    (hold : s.phase me = .idle ∧ p = .loading ∨ s.phase me = .loading ∧ p = .failed) :
    WorkerTurn own s (s.modifyWorker me fun worker => { worker with initialization := p }) := by
  rcases hold with ⟨hidle, rfl⟩ | ⟨hloading, rfl⟩
  · exact @WorkerTurn.changePhase s own hs me .loading [] hown (.inl ⟨hidle, rfl⟩)
      (.inl ⟨InitializationPhase.noConfusion, rfl⟩)
  · exact @WorkerTurn.changePhase s own hs me .failed [] hown
      (.inr ⟨hloading, InitializationPhase.noConfusion, InitializationPhase.noConfusion⟩)
      (.inl ⟨InitializationPhase.noConfusion, rfl⟩)

theorem WorkerTurn.setHydrated (hs : WorkerInv s)
    (hloading : s.phase me = .loading) (hown : .hydration me ∈ own) :
    WorkerTurn own s ((s.modifyWorker me fun worker =>
      { worker with initialization := .hydrated }).log (.restored me (s.workers me).results)) :=
  @WorkerTurn.changePhase s own hs me .hydrated [.restored me (s.workers me).results]
    (fun _ => hown) (.inr ⟨hloading, InitializationPhase.noConfusion,
      InitializationPhase.noConfusion⟩) (.inr ⟨rfl, rfl⟩)

theorem WorkerTurn.openWork (hs : WorkerInv s) {session : Nat} (hphase : s.phase me = .hydrated) :
    WorkerTurn ∅ s (WorkerRuntime.openWork s me session).2 := by
  refine WorkerChange.turn hs { WorkerChange.refl hs with
    works := fun w x hx => ?_
    work := fun w x hx => ⟨x, ?_, rfl, rfl, fun h => h, .inl rfl⟩ }
  · have hx' : (s.works ++ [⟨me, session, false⟩])[w]? = some x := hx
    rw [getElem?_append] at hx'
    by_cases hw : w < s.works.length
    · rw [if_pos hw] at hx'
      exact hs.works w x hx'
    rw [if_neg hw] at hx'
    obtain ⟨h₁, h₂⟩ := List.getElem?_eq_some_iff.mp hx'
    rw [getElem_singleton] at h₂
    rw [← h₂]
    exact hphase
  · exact getElem?_append_of_some hx

theorem WorkerTurn.closeWork (hs : WorkerInv s) (work : Nat) :
    WorkerTurn {.work work} s (WorkerRuntime.closeWork s work) := by
  have hget : ∀ w : Nat, (WorkerRuntime.closeWork s work).works[w]? =
      (s.works[w]?).map fun x => if work = w then { x with closed := true } else x := by
    intro w
    rw [WorkerRuntime.closeWork, getElem?_modify]
    by_cases h : work = w
    · simp [h]
    · simp [h]
  refine WorkerChange.turn hs { WorkerChange.refl hs with
    works := fun w x hx => ?_
    work := fun w x hx => ⟨_, by rw [hget, hx, map_some], ?_⟩ }
  · rw [hget] at hx
    obtain ⟨y, hy, hyx⟩ := map_eq_some_iff.mp hx
    have hw : x.worker = y.worker := by
      rw [← hyx]
      split <;> rfl
    rw [hw]
    exact hs.works w y hy
  · by_cases h : work = w
    · rw [if_pos h]
      exact ⟨rfl, rfl, fun _ => rfl, .inr (by rw [h]; rfl)⟩
    · rw [if_neg h]
      exact ⟨rfl, rfl, fun h => h, .inl rfl⟩

/-! ## The result buffer -/

variable (platform : WorkerPlatform)

theorem lookup_filter_ne {β : Type} (l : List (JsString × β)) (key k : JsString) :
    (l.filter fun entry => entry.1 != key).lookup k = if k = key then none else l.lookup k := by
  induction l with
  | nil => simp
  | cons entry rest ih =>
    rw [filter_cons]
    by_cases hentry : entry.1 = key
    · rw [if_neg (by simp [hentry]), ih, lookup_cons]
      by_cases hk : k = key
      · rw [if_pos hk, if_pos hk]
      have hne : (k == entry.1) = false := by
        rw [hentry]
        exact beq_eq_false_iff_ne.mpr hk
      rw [if_neg hk, if_neg hk, hne]
    · rw [if_pos (by simpa using hentry), lookup_cons, lookup_cons, ih]
      by_cases hk : k = entry.1
      · subst hk
        rw [if_neg hentry, if_neg hentry, beq_self_eq_true]
      · rw [beq_eq_false_iff_ne.mpr hk]

theorem putResult_cases (s : WorkerWorld) (me : Nat) (result : RemoteResult) :
    WorkerRuntime.putResult platform s me result = (.error .other, s) ∨
    WorkerRuntime.putResult platform s me result = (.ok (), s) ∨
    (∀ entry ∈ (s.workers me).results, entry.1 ≠ result.key) ∧
    WorkerRuntime.putResult platform s me result = (.ok (), s.modifyWorker me fun worker =>
      { worker with results := worker.results ++ [(result.key, result)] }) := by
  unfold WorkerRuntime.putResult
  cases hbuffered : s.buffered me result.key with
  | some existing =>
    dsimp only
    by_cases h : existing = result
    · rw [if_pos h]
      exact .inr (.inl rfl)
    · rw [if_neg h]
      exact .inl rfl
  | none =>
    dsimp only
    split
    · exact .inl rfl
    refine .inr (.inr ⟨fun entry hentry hkey => ?_, rfl⟩)
    have hnone := lookup_eq_none_iff.mp hbuffered entry hentry
    rw [hkey, bne_self_eq_false] at hnone
    cases hnone

theorem WorkerTurn.putResult (hs : WorkerInv s)
    {result : RemoteResult} (hput : Puttable own s me result.key result) :
    WorkerTurn own s (WorkerRuntime.putResult platform s me result).2 := by
  rcases putResult_cases platform s me result with h | h | ⟨hnew, h⟩
  · rw [h]
    exact .refl hs
  · rw [h]
    exact .refl hs
  · rw [h]
    dsimp only
    refine WorkerTurn.worker hs rfl (fun key r hr => ?_) (fun _ h => .inl h) ?_ (hs.session me)
      fun h => h
    rotate_left
    · show (((s.workers me).results ++ [(result.key, result)]).map (·.1)).Nodup
      rw [map_append, nodup_append]
      refine ⟨hs.distinct me, nodup_singleton _, ?_⟩
      rintro k hk _ hk' rfl
      obtain rfl := mem_singleton.mp hk'
      obtain ⟨entry, hmem, hentry⟩ := List.mem_map.mp hk
      exact hnew entry hmem hentry
    have hlookup : ((s.workers me).results ++ [(result.key, result)]).lookup key = some r := hr
    rw [lookup_append] at hlookup
    cases hold : (s.workers me).results.lookup key with
    | some r' =>
      rw [hold] at hlookup
      left
      exact hold.trans hlookup
    | none =>
      rw [hold, none_or, lookup_cons, lookup_nil] at hlookup
      cases hk : key == result.key with
      | false =>
        rw [hk] at hlookup
        cases hlookup
      | true =>
        rw [hk] at hlookup
        obtain rfl := some.inj hlookup
        rw [eq_of_beq hk]
        exact .inr hput

theorem putResult_rest (s : WorkerWorld) (me : Nat) (result : RemoteResult) :
    (WorkerRuntime.putResult platform s me result).2.attempts = s.attempts ∧
      (WorkerRuntime.putResult platform s me result).2.events = s.events ∧
      (WorkerRuntime.putResult platform s me result).2.records = s.records ∧
      (WorkerRuntime.putResult platform s me result).2.works = s.works ∧
      ∀ me', (WorkerRuntime.putResult platform s me result).2.phase me' = s.phase me' := by
  rcases putResult_cases platform s me result with h | h | ⟨hnew, h⟩
  · rw [h]
    exact ⟨rfl, rfl, rfl, rfl, fun _ => rfl⟩
  · rw [h]
    exact ⟨rfl, rfl, rfl, rfl, fun _ => rfl⟩
  · rw [h]
    refine ⟨rfl, rfl, rfl, rfl, fun me' => ?_⟩
    rw [phase, workers_modifyWorker]
    split <;> rfl

theorem buffered_putResult (s : WorkerWorld) (me : Nat) (result : RemoteResult)
    (hkey : key ≠ result.key) :
    (WorkerRuntime.putResult platform s me result).2.buffered me key = s.buffered me key := by
  rcases putResult_cases platform s me result with h | h | ⟨hnew, h⟩
  · rw [h]
  · rw [h]
  · rw [h, buffered, workers_modifyWorker, if_pos rfl]
    rw [lookup_append, lookup_cons, beq_eq_false_iff_ne.mpr hkey]
    exact or_none

theorem WorkerTurn.dropResult (hs : WorkerInv s) (me : Nat) (key : JsString) {f : WorkerState → WorkerState}
    (hphase : (f (s.workers me)).initialization = s.phase me)
    (hresults : (f (s.workers me)).results =
      (s.workers me).results.filter fun entry => entry.1 != key)
    (hentries : (f (s.workers me)).attempts = s.entries me)
    (hsession : (f (s.workers me)).session = s.session me)
    (havailable : (f (s.workers me)).attemptPersistenceAvailable = s.available me) :
    WorkerTurn ∅ s (s.modifyWorker me f) := by
  refine WorkerTurn.worker hs hphase (fun k r h => .inl ?_) (fun entry h => .inl ?_) ?_
    (fun h => ?_) fun h => ?_
  · rw [hresults, lookup_filter_ne] at h
    split at h
    · cases h
    · exact h
  · rw [hentries] at h
    exact h
  · rw [hresults]
    exact (hs.distinct me).sublist (filter_sublist.map _)
  · rw [hsession] at h
    exact hs.session me h
  · rw [havailable] at h
    exact h

end

end TegoNext
