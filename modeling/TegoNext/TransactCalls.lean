/-
The calls of `transact` that carry an idempotency key.

For one key there is at most one call at work at a time, the one the in-flight table names; the
others wait for it or are answered from the table of results. `CallTable` says so, about what a
call shows of itself: its identity and its phase. Most steps of a run change nothing of that.
-/
import TegoNext.StoreWorld
import TegoNext.CommitRefinement

set_option autoImplicit false

namespace TegoNext

open MemoryStateStore List Option AList

variable {V : Type}

/-! ## What a call shows -/

/-- Is the call at work, or settled by its own work? -/
def CallPhase.Leads : CallPhase V → Prop
  | .joined _ => False
  | _ => True

/-- Has the call's own work not come to its end? -/
def CallPhase.Pending : CallPhase V → Prop
  | .running | .queued => True
  | _ => False

structure CallState (V : Type) where
  identity : Option IdempotencyIdentity
  phase : CallPhase V

def TransactCall.state (call : TransactCall V) : CallState V := ⟨call.identity, call.phase⟩

def StoreJob.committing : StoreJob V → Option Nat
  | .commit call _ _ _ => some call
  | _ => none

namespace StoreWorld

variable (w : StoreWorld V)

def states : List (CallState V) := w.calls.map TransactCall.state

def commitJobs : List Nat := w.jobs.filterMap StoreJob.committing

def committed : List Nat := w.commits.map (·.call)

theorem states_getElem? (i : Nat) :
    w.states[i]? = w.calls[i]?.map TransactCall.state := getElem?_map ..

theorem states_setCall (i : Nat) (call : TransactCall V) :
    (w.setCall i call).states = w.states.set i call.state := map_set ..

theorem states_addCall (call : TransactCall V) :
    (w.addCall call).states = w.states ++ [call.state] := by
  rw [states, addCall, map_append]
  rfl

theorem states_setCall_self {w : StoreWorld V} {i : Nat} {call call' : TransactCall V}
    (hcall : w.calls[i]? = some call) (hstate : call'.state = call.state) :
    (w.setCall i call').states = w.states := by
  have hi : w.states[i]? = some call.state := by rw [states_getElem?, hcall, map_some]
  obtain ⟨hlt, hget⟩ := List.getElem?_eq_some_iff.mp hi
  rw [states_setCall, hstate, ← hget, set_getElem_self]

end StoreWorld

/-! ## The table -/

structure CallTable (states : List (CallState V))
    (idempotency : AList fun _ : JsString => IdempotencyRecord V)
    (inFlight : AList fun _ : JsString => InFlightRecord) (jobs committed : List Nat) : Prop where
  queued : ∀ i ∈ jobs, ∃ identity, states[i]? = some ⟨identity, .queued⟩
  once : jobs.Nodup
  joined : ∀ (i : Nat) identity leader, states[i]? = some ⟨identity, .joined leader⟩ →
    ∃ id phase, identity = some id ∧ states[leader]? = some ⟨some id, phase⟩ ∧ phase.Leads
  listed : ∀ key record, inFlight.lookup key = some record →
    ∃ phase, states[record.result]? = some ⟨some ⟨key, record.fingerprint⟩, phase⟩ ∧ phase.Leads
  pending : ∀ (i : Nat) id phase, states[i]? = some ⟨some id, phase⟩ → phase.Pending →
    inFlight.lookup id.key = some ⟨id.fingerprint, i⟩ ∧ idempotency.lookup id.key = none
  recorded : ∀ key record, idempotency.lookup key = some record → ∃ i ∈ committed,
    states[i]? = some ⟨some ⟨key, record.fingerprint⟩, .settled (.ok record.result)⟩
  succeeded : ∀ (i : Nat) id result, states[i]? = some ⟨some id, .settled (.ok result)⟩ →
    idempotency.lookup id.key = some ⟨id.fingerprint, result⟩
  settled : ∀ i ∈ committed, ∃ identity result, states[i]? = some ⟨identity, .settled (.ok result)⟩
  distinct : ∀ i ∈ committed, ∀ j ∈ committed, ∀ id id' phase phase',
    states[i]? = some ⟨some id, phase⟩ → states[j]? = some ⟨some id', phase'⟩ →
      id.key = id'.key → i = j
  nodup : committed.Nodup

namespace CallTable

variable {states : List (CallState V)}
  {idempotency : AList fun _ : JsString => IdempotencyRecord V}
  {inFlight : AList fun _ : JsString => InFlightRecord} {jobs committed : List Nat}

theorem empty : CallTable (V := V) [] ∅ ∅ [] [] where
  queued i hi := absurd hi not_mem_nil
  once := nodup_nil
  joined i identity leader h := by cases h
  listed key record h := by simp at h
  pending i id phase h := by cases h
  recorded key record h := by simp at h
  succeeded i id result h := by cases h
  settled i hi := absurd hi not_mem_nil
  distinct i hi := absurd hi not_mem_nil
  nodup := nodup_nil

variable {state state' : CallState V} {i : Nat}

theorem getElem?_set_self_of_some (state : CallState V)
    (h : states[i]? = some state') : (states.set i state)[i]? = some state := by
  obtain ⟨hlt, -⟩ := List.getElem?_eq_some_iff.mp h
  exact getElem?_set_self hlt

theorem leads_set {j : Nat} {identity : Option IdempotencyIdentity} {id : IdempotencyIdentity}
    {phase phase'' : CallPhase V} (phase' : CallPhase V) (hi : states[i]? = some ⟨identity, phase⟩)
    (hj : states[j]? = some ⟨some id, phase''⟩) (hleads : phase''.Leads) (hleads' : phase'.Leads) :
    ∃ p, (states.set i ⟨identity, phase'⟩)[j]? = some ⟨some id, p⟩ ∧ p.Leads := by
  by_cases hij : j = i
  · subst hij
    cases hi.symm.trans hj
    exact ⟨phase', getElem?_set_self_of_some _ hi, hleads'⟩
  · exact ⟨phase'', by rwa [getElem?_set_ne (Ne.symm hij)], hleads⟩

section

variable (h : CallTable states idempotency inFlight jobs committed)
include h

/-- A call comes in, and the in-flight table changes with it. -/
theorem extend {inFlight' : AList fun _ : JsString => InFlightRecord}
    (hlisted : ∀ key record, inFlight'.lookup key = some record → ∃ phase,
      (states ++ [state])[record.result]? = some ⟨some ⟨key, record.fingerprint⟩, phase⟩ ∧
        phase.Leads)
    (hpending : ∀ (i : Nat) id phase, (states ++ [state])[i]? = some ⟨some id, phase⟩ →
      phase.Pending → inFlight'.lookup id.key = some ⟨id.fingerprint, i⟩ ∧
        idempotency.lookup id.key = none)
    (hjoined : ∀ leader, state.phase = .joined leader → ∃ id phase, state.identity = some id ∧
      states[leader]? = some ⟨some id, phase⟩ ∧ phase.Leads)
    (hsucceeded : ∀ id result, state = ⟨some id, .settled (.ok result)⟩ →
      idempotency.lookup id.key = some ⟨id.fingerprint, result⟩) :
    CallTable (states ++ [state]) idempotency inFlight' jobs committed where
  queued i hi := by
    obtain ⟨identity, hstate⟩ := h.queued i hi
    exact ⟨identity, getElem?_append_of_some hstate⟩
  once := h.once
  joined i identity leader hi := by
    rcases getElem?_concat_cases hi with hold | ⟨-, rfl⟩
    · obtain ⟨id, phase, hid, hleader, hleads⟩ := h.joined i identity leader hold
      exact ⟨id, phase, hid, getElem?_append_of_some hleader, hleads⟩
    · obtain ⟨id, phase, hid, hleader, hleads⟩ := hjoined leader rfl
      exact ⟨id, phase, hid, getElem?_append_of_some hleader, hleads⟩
  listed := hlisted
  pending := hpending
  recorded key record hrecord := by
    obtain ⟨i, hi, hstate⟩ := h.recorded key record hrecord
    exact ⟨i, hi, getElem?_append_of_some hstate⟩
  succeeded i id result hi := by
    rcases getElem?_concat_cases hi with hold | ⟨-, rfl⟩
    · exact h.succeeded i id result hold
    · exact hsucceeded id result rfl
  settled i hi := by
    obtain ⟨identity, result, hstate⟩ := h.settled i hi
    exact ⟨identity, result, getElem?_append_of_some hstate⟩
  distinct i hi j hj id id' phase phase' hstate hstate' hkey := by
    obtain ⟨identity, result, hold⟩ := h.settled i hi
    obtain ⟨identity', result', hold'⟩ := h.settled j hj
    cases (getElem?_append_of_some hold).symm.trans hstate
    cases (getElem?_append_of_some hold').symm.trans hstate'
    exact h.distinct i hi j hj id id' _ _ hold hold' hkey
  nodup := h.nodup

theorem add (hpending : state.identity.isSome = true → ¬state.phase.Pending)
    (hjoined : ∀ leader, state.phase = .joined leader → ∃ id phase, state.identity = some id ∧
      states[leader]? = some ⟨some id, phase⟩ ∧ phase.Leads)
    (hsucceeded : ∀ id result, state = ⟨some id, .settled (.ok result)⟩ →
      idempotency.lookup id.key = some ⟨id.fingerprint, result⟩) :
    CallTable (states ++ [state]) idempotency inFlight jobs committed := by
  refine h.extend (fun key record hrecord => ?_) (fun i id phase hi hp => ?_) hjoined hsucceeded
  · obtain ⟨phase, hphase, hleads⟩ := h.listed key record hrecord
    exact ⟨phase, getElem?_append_of_some hphase, hleads⟩
  · rcases getElem?_concat_cases hi with hold | ⟨-, rfl⟩
    · exact h.pending i id phase hold hp
    · exact absurd hp (hpending rfl)

theorem start {id : IdempotencyIdentity} (hrecord : idempotency.lookup id.key = none)
    (hlisted : inFlight.lookup id.key = none) :
    CallTable (states ++ [⟨some id, .running⟩]) idempotency
      (inFlight.insert id.key ⟨id.fingerprint, states.length⟩) jobs committed := by
  refine h.extend (fun key record hrecord => ?_) (fun i id' phase hi hp => ?_) nofun nofun
  · rcases lookup_insert_cases hrecord with ⟨rfl, rfl⟩ | ⟨-, hrecord⟩
    · exact ⟨.running, getElem?_concat_length, trivial⟩
    · obtain ⟨phase, hphase, hleads⟩ := h.listed key record hrecord
      exact ⟨phase, getElem?_append_of_some hphase, hleads⟩
  · rcases getElem?_concat_cases hi with hold | ⟨rfl, hnew⟩
    · have hother := h.pending i id' phase hold hp
      have hkey : id'.key ≠ id.key := by
        intro hkey
        rw [hkey, hlisted] at hother
        cases hother.1
      rw [lookup_insert_ne hkey]
      exact hother
    · cases hnew
      rw [lookup_insert]
      exact ⟨rfl, hrecord⟩

theorem set {identity : Option IdempotencyIdentity} {phase : CallPhase V} (phase' : CallPhase V)
    (jobs' : List Nat) (hi : states[i]? = some ⟨identity, phase⟩) (hopen : ∀ result, phase ≠ .settled (.ok result))
    (hleads : phase'.Leads) (hpending : phase'.Pending → phase.Pending)
    (hsucceeded : ∀ id result, identity = some id → phase' = .settled (.ok result) →
      idempotency.lookup id.key = some ⟨id.fingerprint, result⟩)
    (hjobs : ∀ j ∈ jobs', (j ∈ jobs ∧ j ≠ i) ∨ (j = i ∧ phase' = .queued)) (honce : jobs'.Nodup) :
    CallTable (states.set i ⟨identity, phase'⟩) idempotency inFlight jobs' committed := by
  have hother : ∀ j ∈ committed, j ≠ i := by
    rintro j hj rfl
    obtain ⟨_, result, hstate⟩ := h.settled j hj
    cases hi.symm.trans hstate
    exact hopen result rfl
  have hkept : ∀ j ∈ committed, (states.set i ⟨identity, phase'⟩)[j]? = states[j]? := fun j hj =>
    getElem?_set_ne (Ne.symm (hother j hj))
  refine ⟨fun j hj => ?_, honce, fun j identity' leader hj => ?_, fun key record hrecord => ?_,
    fun j id phase'' hj hp => ?_, fun key record hrecord => ?_, fun j id result hj => ?_,
    fun j hj => ?_, fun j hj k hk id id' p p' hp hp' hkey => ?_, h.nodup⟩
  · rcases hjobs j hj with ⟨hmem, hne⟩ | ⟨rfl, rfl⟩
    · obtain ⟨identity', hstate⟩ := h.queued j hmem
      exact ⟨identity', by rwa [getElem?_set_ne (Ne.symm hne)]⟩
    · exact ⟨identity, getElem?_set_self_of_some _ hi⟩
  · rcases getElem?_set_cases hj with ⟨rfl, heq⟩ | ⟨-, hold⟩
    · cases heq
      exact absurd hleads id
    · obtain ⟨id, phase'', hid, hleader, hleads''⟩ := h.joined j identity' leader hold
      obtain ⟨p, hp, hpl⟩ := leads_set phase' hi hleader hleads'' hleads
      exact ⟨id, p, hid, hp, hpl⟩
  · obtain ⟨phase'', hphase, hleads''⟩ := h.listed key record hrecord
    exact leads_set phase' hi hphase hleads'' hleads
  · rcases getElem?_set_cases hj with ⟨rfl, heq⟩ | ⟨-, hold⟩
    · cases heq
      exact h.pending j id phase hi (hpending hp)
    · exact h.pending j id phase'' hold hp
  · obtain ⟨j, hj, hstate⟩ := h.recorded key record hrecord
    exact ⟨j, hj, (hkept j hj).trans hstate⟩
  · rcases getElem?_set_cases hj with ⟨rfl, heq⟩ | ⟨-, hold⟩
    · obtain ⟨hid, hphase⟩ := CallState.mk.inj heq
      exact hsucceeded id result hid.symm hphase.symm
    · exact h.succeeded j id result hold
  · obtain ⟨identity', result, hstate⟩ := h.settled j hj
    exact ⟨identity', result, (hkept j hj).trans hstate⟩
  · rw [hkept j hj] at hp
    rw [hkept k hk] at hp'
    exact h.distinct j hj k hk id id' p p' hp hp' hkey

theorem release {key : JsString}
    (hover : ∀ record, inFlight.lookup key = some record → ∀ identity phase,
      states[record.result]? = some ⟨identity, phase⟩ → ¬phase.Pending) :
    CallTable states idempotency (inFlight.erase key) jobs committed where
  queued := h.queued
  once := h.once
  joined := h.joined
  listed key' record hrecord := by
    by_cases hkey : key' = key
    · subst hkey
      rw [lookup_erase] at hrecord
      cases hrecord
    · rw [lookup_erase_ne hkey] at hrecord
      exact h.listed key' record hrecord
  pending i id phase hi hp := by
    obtain ⟨hlisted, hrecord⟩ := h.pending i id phase hi hp
    have hkey : id.key ≠ key := by
      rintro rfl
      exact hover _ hlisted _ _ hi hp
    rw [lookup_erase_ne hkey]
    exact ⟨hlisted, hrecord⟩
  recorded := h.recorded
  succeeded := h.succeeded
  settled := h.settled
  distinct := h.distinct
  nodup := h.nodup

end

def remembered (idempotency : AList fun _ : JsString => IdempotencyRecord V)
    (identity : Option IdempotencyIdentity) (result : V) :
    AList fun _ : JsString => IdempotencyRecord V :=
  match identity with
  | none => idempotency
  | some id => idempotency.insert id.key ⟨id.fingerprint, result⟩

theorem commit {i : Nat} (h : CallTable states idempotency inFlight (i :: jobs) committed)
    {identity : Option IdempotencyIdentity} (result : V)
    (hi : states[i]? = some ⟨identity, .queued⟩) :
    CallTable (states.set i ⟨identity, .settled (.ok result)⟩)
      (remembered idempotency identity result) inFlight jobs (committed ++ [i]) := by
  have hother : ∀ j ∈ committed, j ≠ i := by
    rintro j hj rfl
    obtain ⟨_, result, hstate⟩ := h.settled j hj
    cases hi.symm.trans hstate
  have hkept : ∀ {j}, j ≠ i →
      (states.set i ⟨identity, .settled (.ok result)⟩)[j]? = states[j]? := fun hne =>
    getElem?_set_ne (Ne.symm hne)
  have hself := getElem?_set_self_of_some ⟨identity, .settled (.ok result)⟩ hi
  obtain ⟨hnot, honce⟩ := nodup_cons.mp h.once
  -- nobody else of this key is at work, or has a result
  have hkeys : ∀ id, identity = some id → inFlight.lookup id.key = some ⟨id.fingerprint, i⟩ ∧
      idempotency.lookup id.key = none := by
    rintro id rfl
    exact h.pending i id .queued hi trivial
  have hlookup : ∀ key, (∀ id, identity = some id → key ≠ id.key) →
      (remembered idempotency identity result).lookup key = idempotency.lookup key := by
    intro key hkey
    cases identity with
    | none => rfl
    | some id => exact lookup_insert_ne (hkey id rfl)
  refine ⟨fun j hj => ?_, honce, fun j identity' leader hj => ?_, fun key record hrecord => ?_,
    fun j id phase hj hp => ?_, fun key record hrecord => ?_, fun j id r hj => ?_,
    fun j hj => ?_, fun j hj k hk id id' p p' hp hp' hkey => ?_, ?_⟩
  · have hne : j ≠ i := fun heq => hnot (heq ▸ hj)
    obtain ⟨identity', hstate⟩ := h.queued j (mem_cons_of_mem i hj)
    exact ⟨identity', (hkept hne).trans hstate⟩
  · rcases getElem?_set_cases hj with ⟨-, heq⟩ | ⟨-, hold⟩
    · cases heq
    · obtain ⟨id, phase, hid, hleader, hleads⟩ := h.joined j identity' leader hold
      obtain ⟨p, hp, hpl⟩ := leads_set (.settled (.ok result)) hi hleader hleads trivial
      exact ⟨id, p, hid, hp, hpl⟩
  · obtain ⟨phase, hphase, hleads⟩ := h.listed key record hrecord
    exact leads_set _ hi hphase hleads trivial
  · rcases getElem?_set_cases hj with ⟨-, heq⟩ | ⟨hne, hold⟩
    · cases heq
      exact absurd hp not_false
    · obtain ⟨hlisted, hnone⟩ := h.pending j id phase hold hp
      refine ⟨hlisted, (hlookup id.key fun id' hid' hkey => hne ?_).trans hnone⟩
      have hi' := (hkeys id' hid').1
      rw [← hkey, hlisted] at hi'
      exact congrArg InFlightRecord.result (some.inj hi')
  · by_cases hkey : ∃ id, identity = some id ∧ key = id.key
    · obtain ⟨id, rfl, rfl⟩ := hkey
      rw [remembered, lookup_insert] at hrecord
      obtain rfl := some.inj hrecord
      exact ⟨i, mem_append_right committed mem_cons_self, hself⟩
    · rw [hlookup key fun id hid heq => hkey ⟨id, hid, heq⟩] at hrecord
      obtain ⟨j, hj, hstate⟩ := h.recorded key record hrecord
      exact ⟨j, mem_append_left [i] hj, (hkept (hother j hj)).trans hstate⟩
  · rcases getElem?_set_cases hj with ⟨-, heq⟩ | ⟨hne, hold⟩
    · cases heq
      exact lookup_insert _
    · have hrecord := h.succeeded j id r hold
      rw [hlookup id.key fun id' hid' hkey => ?_]
      · exact hrecord
      · rw [hkey, (hkeys id' hid').2] at hrecord
        cases hrecord
  · rcases mem_append.mp hj with hold | hnew
    · obtain ⟨identity', r, hstate⟩ := h.settled j hold
      exact ⟨identity', r, (hkept (hother j hold)).trans hstate⟩
    · obtain rfl := mem_singleton.mp hnew
      exact ⟨identity, result, hself⟩
  · -- a call that has committed under this key has left its result
    have hclash : ∀ j ∈ committed, ∀ id id' p, identity = some id' →
        states[j]? = some ⟨some id, p⟩ → id.key ≠ id'.key := by
      intro j hj id id' p hid' hp hkey
      obtain ⟨_, r, hstate⟩ := h.settled j hj
      cases hp.symm.trans hstate
      have hrecord := h.succeeded j id r hp
      rw [hkey, (hkeys id' hid').2] at hrecord
      cases hrecord
    rcases mem_append.mp hj with hold | hnew
    · rw [hkept (hother j hold)] at hp
      rcases mem_append.mp hk with hold' | hnew'
      · rw [hkept (hother k hold')] at hp'
        exact h.distinct j hold k hold' id id' p p' hp hp' hkey
      · obtain rfl := mem_singleton.mp hnew'
        cases hself.symm.trans hp'
        exact absurd hkey (hclash j hold id id' p rfl hp)
    · obtain rfl := mem_singleton.mp hnew
      rcases mem_append.mp hk with hold' | hnew'
      · rw [hkept (hother k hold')] at hp'
        cases hself.symm.trans hp
        exact absurd hkey.symm (hclash k hold' id' id p' rfl hp')
      · exact (mem_singleton.mp hnew').symm
  · refine nodup_append.mpr ⟨h.nodup, nodup_singleton i, fun j hj k hk => ?_⟩
    rw [mem_singleton.mp hk]
    exact hother j hj

end CallTable

/-! ## The calls of a store -/

namespace MemoryTransaction

variable {tx tx' : MemoryTransaction V}

theorem assertActive_ok (h : tx.assertActive = .ok ()) : tx.active = true := by
  unfold assertActive at h
  split at h
  · assumption
  · cases h

theorem active_of_bind {α : Type} {rest : Unit → Except StateError α} {a : α}
    (h : (tx.assertActive >>= rest) = .ok a) : tx.active = true := by
  cases hactive : tx.assertActive with
  | error e =>
    rw [hactive] at h
    cases h
  | ok u => exact assertActive_ok hactive

theorem active_of_stage {key : StateKey} {mutation : Mutation V}
    (h : tx.stage key mutation = .ok tx') : tx.active = true := active_of_bind h

theorem active_of_appendOperation {entry : OperationJournalEntry V}
    (h : tx.appendOperation entry = .ok tx') : tx.active = true := active_of_bind h

theorem active_of_enqueueOutbox {message : OutboxMessage V}
    (h : tx.enqueueOutbox message = .ok tx') : tx.active = true := active_of_bind h

theorem active_of_finish {staged : StagedTransaction V}
    (h : tx.finish = .ok (staged, tx')) : tx.active = true := active_of_bind h

end MemoryTransaction

theorem fingerprint_of_assert {identity : IdempotencyIdentity} {fingerprint : JsString} {u : Unit}
    (h : assertIdempotencyFingerprint identity fingerprint = .ok u) :
    identity.fingerprint = fingerprint := by
  unfold assertIdempotencyFingerprint at h
  split at h
  · cases h
  · next hsame => exact not_ne_iff.mp hsame

namespace StoreWorld

variable {w w' : StoreWorld V}

structure CallsInv (w : StoreWorld V) : Prop where
  table : CallTable w.states w.store.idempotency w.store.inFlightIdempotency w.commitJobs w.committed
  active : ∀ call ∈ w.calls, call.tx.active = true → call.phase = .running

theorem callsInv_initial : (initial : StoreWorld V).CallsInv where
  table := CallTable.empty
  active _ hcall := absurd hcall not_mem_nil

theorem CallsInv.of_quiet (h : w.CallsInv) (hstates : w'.states = w.states)
    (hidempotency : w'.store.idempotency = w.store.idempotency)
    (hinFlight : w'.store.inFlightIdempotency = w.store.inFlightIdempotency)
    (hjobs : w'.commitJobs = w.commitJobs) (hcommitted : w'.committed = w.committed)
    (hactive : ∀ call ∈ w'.calls, call.tx.active = true → call.phase = .running) : w'.CallsInv := by
  refine ⟨?_, hactive⟩
  rw [hstates, hidempotency, hinFlight, hjobs, hcommitted]
  exact h.table

variable {call : TransactCall V}

theorem CallsInv.active_set (h : w.CallsInv) (i : Nat)
    (hcall : call.tx.active = true → call.phase = .running) :
    ∀ c ∈ w.calls.set i call, c.tx.active = true → c.phase = .running := by
  intro c hc
  rcases mem_or_eq_of_mem_set hc with hc | rfl
  · exact h.active c hc
  · exact hcall

theorem CallsInv.active_add (h : w.CallsInv)
    (hcall : call.tx.active = true → call.phase = .running) :
    ∀ c ∈ w.calls ++ [call], c.tx.active = true → c.phase = .running := by
  intro c hc
  rcases mem_append.mp hc with hc | hc
  · exact h.active c hc
  · exact mem_singleton.mp hc ▸ hcall

theorem CallsInv.addCall (h : w.CallsInv) (hactive : call.tx.active = true → call.phase = .running)
    (hpending : call.identity.isSome = true → ¬call.phase.Pending)
    (hjoined : ∀ leader, call.phase = .joined leader → ∃ id phase, call.identity = some id ∧
      w.states[leader]? = some ⟨some id, phase⟩ ∧ phase.Leads)
    (hsucceeded : ∀ id result, call.identity = some id → call.phase = .settled (.ok result) →
      w.store.idempotency.lookup id.key = some ⟨id.fingerprint, result⟩) :
    (w.addCall call).CallsInv := by
  refine ⟨?_, h.active_add hactive⟩
  rw [states_addCall]
  refine h.table.add hpending hjoined fun id result heq => ?_
  obtain ⟨hid, hphase⟩ := CallState.mk.inj heq
  exact hsucceeded id result hid hphase

theorem CallsInv.transact (h : w.CallsInv) (options : StateTransactionOptions) :
    (w.transact options).CallsInv := by
  have hrefuse : ∀ identity e, (w.addCall (w.answeredCall options identity
      (.settled (.error (.state e))))).CallsInv := by
    intro identity e
    exact h.addCall (fun hactive => by cases hactive) (fun _ => not_false)
      (fun leader hphase => by cases hphase) fun id result _ hphase => by cases hphase
  unfold StoreWorld.transact
  split
  · exact hrefuse none _
  split
  · exact hrefuse none _
  · exact h.addCall (fun _ => rfl) (fun hsome => by cases hsome)
      (fun leader hphase => by cases hphase) fun id result hid => by cases hid
  next identity hidentity =>
  split
  · next replay hreplay =>
    split
    · exact hrefuse (some identity) _
    next hsame =>
    refine h.addCall (fun hactive => by cases hactive) (fun _ => not_false)
      (fun leader hphase => by cases hphase) fun id result hid hphase => ?_
    cases hid
    cases hphase
    rw [hreplay, fingerprint_of_assert hsame]
  · next hfresh =>
    split
    · next inFlight hinFlight =>
      split
      · exact hrefuse (some identity) _
      next hsame =>
      refine h.addCall (fun hactive => by cases hactive) (fun _ => not_false)
        (fun leader hphase => ?_) fun id result hid hphase => by cases hphase
      cases hphase
      obtain ⟨phase, hstate, hleads⟩ := h.table.listed _ _ hinFlight
      rw [← fingerprint_of_assert hsame] at hstate
      exact ⟨identity, phase, rfl, hstate, hleads⟩
    · next hidle =>
      refine ⟨?_, h.active_add fun _ => rfl⟩
      have htable := h.table.start hfresh hidle
      have hlength : w.states.length = w.calls.length := length_map ..
      rw [hlength] at htable
      rw [states_addCall]
      exact htable

variable {i : Nat}

theorem CallsInv.body (h : w.CallsInv) {issued : List (StateKey × ExpectedRevision)}
    {method : MemoryTransaction V → Except StateError (MemoryTransaction V)}
    (hmethod : ∀ tx tx', method tx = .ok tx' → tx.active = true)
    (hs : w.body i issued method = some w') : w'.CallsInv := by
  obtain rfl | ⟨call, tx, hcall, htx, rfl⟩ := body_cases hs
  · exact h
  · refine h.of_quiet (states_setCall_self hcall rfl) rfl rfl rfl rfl (h.active_set i fun _ => ?_)
    exact h.active call (mem_of_getElem? hcall) (hmethod call.tx tx htx)

theorem state_of_call (hcall : w.calls[i]? = some call) : w.states[i]? = some call.state := by
  rw [states_getElem?, hcall, map_some]

theorem CallsInv.resolve (h : w.CallsInv) {result : V}
    (hs : w.resolve i result = some w') : w'.CallsInv := by
  obtain ⟨call, staged, tx, hcall, hfin, rfl⟩ := resolve_cases hs
  have hrunning := h.active call (mem_of_getElem? hcall) (MemoryTransaction.active_of_finish hfin)
  obtain ⟨-, -, rfl⟩ := MemoryTransaction.finish_ok hfin
  have hi : w.states[i]? = some ⟨call.identity, .running⟩ := by
    rw [state_of_call hcall, TransactCall.state, hrunning]
  have hnot : i ∉ w.commitJobs := by
    intro hmem
    obtain ⟨identity, hqueued⟩ := h.table.queued i hmem
    cases hi.symm.trans hqueued
  have hjobs : ({ w.setCall i { call with tx := { call.tx with active := false }, phase := .queued } with
      jobs := w.jobs ++ [.commit i call.issued staged result] } : StoreWorld V).commitJobs =
        w.commitJobs ++ [i] := filterMap_append ..
  refine ⟨?_, h.active_set i fun hactive => by cases hactive⟩
  rw [hjobs]
  have htable := h.table.set .queued (w.commitJobs ++ [i]) hi
    (fun result hphase => by cases hphase) trivial (fun _ => trivial)
    (fun id r _ hphase => by cases hphase) (fun j hj => ?_) ?_
  · change CallTable (StoreWorld.setCall w i _).states _ _ _ _
    rw [states_setCall]
    exact htable
  · rcases mem_append.mp hj with hold | hnew
    · exact .inl ⟨hold, fun heq => hnot (heq ▸ hold)⟩
    · exact .inr ⟨mem_singleton.mp hnew, rfl⟩
  · refine nodup_append.mpr ⟨h.table.once, nodup_singleton i, fun j hj k hk => ?_⟩
    rw [mem_singleton.mp hk]
    exact fun heq => hnot (heq ▸ hj)

theorem CallsInv.answer (h : w.CallsInv) {call' : TransactCall V}
    (outcome : Except Rejection V) (hcall : w.calls[i]? = some call)
    (hidentity : call'.identity = call.identity) (hphase : call'.phase = .settled outcome)
    (hactive : call'.tx.active = true → call'.phase = .running)
    (hopen : ∀ result, call.phase ≠ .settled (.ok result)) (hqueued : i ∉ w.commitJobs)
    (hsucceeded : ∀ id result, call.identity = some id → outcome = .ok result →
      w.store.idempotency.lookup id.key = some ⟨id.fingerprint, result⟩) :
    (w.setCall i call').CallsInv := by
  refine ⟨?_, h.active_set i hactive⟩
  rw [states_setCall, TransactCall.state, hidentity, hphase]
  refine h.table.set _ _ (state_of_call hcall) hopen trivial (fun hp => absurd hp not_false)
    (fun id result hid hok => ?_) (fun j hj => .inl ⟨hj, fun heq => hqueued (heq ▸ hj)⟩) h.table.once
  cases hok
  exact hsucceeded id result hid rfl

theorem CallsInv.notQueued (h : w.CallsInv)
    (hcall : w.calls[i]? = some call) (hphase : call.phase ≠ .queued) : i ∉ w.commitJobs := by
  intro hmem
  obtain ⟨identity, hqueued⟩ := h.table.queued i hmem
  have heq := (state_of_call hcall).symm.trans hqueued
  exact hphase (congrArg CallState.phase (some.inj heq))

theorem CallsInv.reject (h : w.CallsInv) (hs : w.reject i = some w') : w'.CallsInv := by
  unfold StoreWorld.reject at hs
  split at hs
  · next call hcall =>
    split at hs
    · next hrunning =>
      obtain rfl := some.inj hs
      refine h.answer (.error .work) hcall rfl rfl (fun hactive => by cases hactive) (fun result hphase => ?_)
        (h.notQueued hcall fun hphase => ?_) fun id result _ hok => by cases hok
      · rw [hrunning] at hphase
        cases hphase
      · rw [hrunning] at hphase
        cases hphase
    · cases hs
  · cases hs

theorem CallsInv.deliver (h : w.CallsInv) (hs : w.deliver i = some w') :
    w'.CallsInv := by
  unfold StoreWorld.deliver at hs
  split at hs
  · next call hcall =>
    split at hs
    · next outcome identity hphase hidentity =>
      split at hs
      · next hown =>
        obtain rfl := some.inj hs
        refine ⟨h.table.release fun record hrecord identity' phase hstate hpending => ?_, h.active⟩
        rw [hrecord] at hown
        rw [eq_of_beq hown, state_of_call hcall, TransactCall.state, hphase] at hstate
        cases hstate
        exact hpending
      · cases hs
    · next leader hjoined =>
      split at hs
      · next leading hleading =>
        split at hs
        · next outcome houtcome =>
          obtain rfl := some.inj hs
          refine h.answer outcome hcall rfl rfl (fun hactive => ?_)
            (fun result hphase => ?_) (h.notQueued hcall fun hphase => ?_) fun id result hid hok => ?_
          · have hrunning := h.active call (mem_of_getElem? hcall) hactive
            rw [hjoined] at hrunning
            cases hrunning
          · rw [hjoined] at hphase
            cases hphase
          · rw [hjoined] at hphase
            cases hphase
          · have hi := state_of_call hcall
            rw [TransactCall.state, hjoined, hid] at hi
            obtain ⟨id', phase, hid', hlead, -⟩ := h.table.joined i (some id) leader hi
            cases hid'
            have hl := (state_of_call hleading).symm.trans hlead
            rw [TransactCall.state, houtcome, hok] at hl
            obtain rfl : .settled (.ok result) = phase := congrArg CallState.phase (some.inj hl)
            exact h.table.succeeded leader id result hlead
        · cases hs
      · cases hs
    · cases hs
  · cases hs

/-! ### The jobs of the queue -/

theorem commit_tables [WireValue V] {store store' : MemoryStateStore V} {fencing : Option StateFencing}
    {identity : Option IdempotencyIdentity} {staged : StagedTransaction V} {result : V}
    (h : store.commit fencing identity staged result = .ok store') :
    store'.idempotency = CallTable.remembered store.idempotency identity result ∧
      store'.inFlightIdempotency = store.inFlightIdempotency := by
  obtain ⟨-, next, applied, newOutbox, advances, -, -, -, rfl⟩ := commit_ok h
  cases identity with
  | none | some identity =>
    rw [MemoryStateStore.remember, CallTable.remembered]
    split
    · exact ⟨rfl, rfl⟩
    · exact ⟨rfl, rfl⟩

theorem CallsInv.of_job (h : w.CallsInv) {job : StoreJob V} {jobs : List (StoreJob V)}
    (hjobs : w.jobs = job :: jobs) (hjob : job.committing = none) {store : MemoryStateStore V}
    (hstore : w.store.Rewrites store)
    {claims : List (OutboxClaim V)} {answers : List (StoreAnswer V)} :
    ({ w with
      store := store
      jobs := jobs
      claims := claims
      answers := answers } : StoreWorld V).CallsInv := by
  have hkept : jobs.filterMap StoreJob.committing = w.commitJobs := by
    rw [commitJobs, hjobs, filterMap_cons_none hjob]
  exact h.of_quiet rfl ((congrArg (·.idempotency) hstore.rest).trans rfl)
    ((congrArg (·.inFlightIdempotency) hstore.rest).trans rfl) hkept rfl h.active

section Turn

variable [WireValue V]

theorem CallsInv.turn (h : w.CallsInv) {now : JsDate.Instant} (hs : w.turn now = some w') :
    w'.CallsInv := by
  obtain ⟨job, jobs, hjobs, hrun⟩ := turn_cases hs
  cases job with
  | claim request limit =>
    obtain rfl := some.inj hrun
    exact h.of_job hjobs rfl (MemoryStateStore.claimOutbox_rewrites ..)
  | acknowledge request =>
    obtain rfl := some.inj hrun
    exact h.of_job hjobs rfl (MemoryStateStore.acknowledgeOutbox_rewrites ..)
  | commit i issued staged result =>
    have hqueue : w.commitJobs = i :: jobs.filterMap StoreJob.committing := by
      rw [commitJobs, hjobs]
      rfl
    have htable := h.table
    rw [hqueue] at htable
    obtain ⟨identity, hstate⟩ := htable.queued i mem_cons_self
    obtain ⟨hnot, honce⟩ := nodup_cons.mp htable.once
    obtain ⟨call, hcall, hw⟩ := map_eq_some_iff.mp hrun
    obtain rfl : call.identity = identity :=
      congrArg CallState.identity (some.inj ((state_of_call hcall).symm.trans hstate))
    have hidle : call.tx.active = true → call.phase = .running :=
      h.active call (mem_of_getElem? hcall)
    have hinactive : call.tx.active = false := by
      refine Bool.eq_false_iff.mpr fun hactive => ?_
      have hi := (state_of_call hcall).symm.trans hstate
      rw [TransactCall.state, hidle hactive] at hi
      cases hi
    split at hw
    · obtain rfl := hw
      refine ⟨?_, h.active_set i fun hactive => ?_⟩
      · change CallTable (StoreWorld.setCall w i _).states _ _ _ _
        rw [states_setCall]
        exact htable.set _ _ hstate (fun r hphase => by cases hphase) trivial
          (fun hp => absurd hp not_false) (fun id r _ hphase => by cases hphase)
          (fun j hj => .inl ⟨mem_cons_of_mem i hj, fun heq => hnot (heq ▸ hj)⟩) honce
      · rw [hinactive] at hactive
        cases hactive
    · next store hstore =>
      obtain rfl := hw
      refine ⟨?_, h.active_set i fun hactive => ?_⟩
      · obtain ⟨hidempotency, hinFlight⟩ := commit_tables hstore
        have hcommits : (w.commits ++ [(⟨i, issued, w.store.records, store.records⟩ :
            CommitRecord V)]).map (·.call) = w.committed ++ [i] := map_append ..
        have hcommit := htable.commit result hstate
        rw [← hidempotency, ← hinFlight, ← hcommits] at hcommit
        change CallTable (StoreWorld.setCall w i _).states _ _ _ _
        rw [states_setCall]
        exact hcommit
      · rw [hinactive] at hactive
        cases hactive

/-- **What every step keeps.** -/
theorem callsInv_step (h : w.CallsInv) {e : StoreEvent V} (hs : w.step e = some w') :
    w'.CallsInv := by
  cases e with
  | openStore =>
    simp only [step] at hs
    split at hs
    · obtain rfl := some.inj hs
      exact h
    next store hopen =>
    obtain rfl := some.inj hs
    unfold MemoryStateStore.openStore at hopen
    split at hopen
    · cases hopen
    · obtain rfl := Except.ok.inj hopen
      exact ⟨h.table, h.active⟩
  | close =>
    obtain rfl := some.inj hs
    exact ⟨h.table, h.active⟩
  | transact options =>
    obtain rfl := some.inj hs
    exact h.transact options
  | put i key value expected | delete i key expected =>
    exact h.body (fun _ _ => MemoryTransaction.active_of_stage) hs
  | appendOperation i entry =>
    exact h.body (fun _ _ => MemoryTransaction.active_of_appendOperation) hs
  | enqueueOutbox i message =>
    exact h.body (fun _ _ => MemoryTransaction.active_of_enqueueOutbox) hs
  | resolve i result => exact h.resolve hs
  | reject i => exact h.reject hs
  | deliver i => exact h.deliver hs
  | claimOutbox request =>
    obtain rfl := some.inj hs
    obtain heq | ⟨limit, heq⟩ := enqueueClaim_cases w request
    · rw [heq]
      exact h
    · rw [heq]
      exact h.of_quiet rfl rfl rfl ((filterMap_append ..).trans (append_nil _)) rfl h.active
  | acknowledgeOutbox request =>
    obtain rfl := some.inj hs
    obtain heq | heq := enqueueAcknowledge_cases w request
    · rw [heq]
      exact h
    · rw [heq]
      exact h.of_quiet rfl rfl rfl ((filterMap_append ..).trans (append_nil _)) rfl h.active
  | turn now => exact h.turn hs

theorem callsInv_of_reachable (hr : (machine V).Reachable w) : w.CallsInv :=
  hr.invariant (I := CallsInv)
    (fun w h0 => by
      obtain rfl : w = initial := h0
      exact callsInv_initial)
    fun _ _ _ _ ih hs _ => callsInv_step ih hs

end Turn

/-! ## What becomes of a call -/

section Later

variable [WireValue V]

/-- The same call, a step later: an outcome stays, and who waits gets its leader's. -/
structure CallLater (w : StoreWorld V) (call call' : TransactCall V) : Prop where
  options : call'.options = call.options
  identity : call'.identity = call.identity
  settled : ∀ outcome, call.phase = .settled outcome → call'.phase = .settled outcome
  joined : ∀ leader, call.phase = .joined leader → call'.phase = .joined leader ∨
    ∃ leading outcome, w.calls[leader]? = some leading ∧ leading.phase = .settled outcome ∧
      call'.phase = .settled outcome
  pending : call.phase.Pending → call'.phase.Pending ∨ (∃ e, call'.phase = .settled (.error e)) ∨
    ∃ staged result store,
      w.store.commit call.options.fencing call.identity staged result = .ok store

variable {call call' : TransactCall V}

theorem CallLater.of_phase (hoptions : call'.options = call.options)
    (hidentity : call'.identity = call.identity) (hphase : call'.phase = call.phase) :
    w.CallLater call call' := by
  refine ⟨hoptions, hidentity, fun _ h => ?_, fun _ h => .inl ?_, fun h => .inl ?_⟩
  · rw [hphase, h]
  · rw [hphase, h]
  · rwa [hphase]

theorem CallLater.refl (w : StoreWorld V) (call : TransactCall V) : w.CallLater call call :=
  .of_phase rfl rfl rfl

theorem CallLater.of_pending (hpending : call.phase.Pending)
    (hoptions : call'.options = call.options) (hidentity : call'.identity = call.identity)
    (hphase : call'.phase.Pending ∨ (∃ e, call'.phase = .settled (.error e)) ∨
      ∃ staged result store,
        w.store.commit call.options.fencing call.identity staged result = .ok store) :
    w.CallLater call call' := by
  refine ⟨hoptions, hidentity, fun outcome hphase => ?_, fun leader hphase => ?_, fun _ => hphase⟩
  · rw [hphase] at hpending
    exact absurd hpending not_false
  · rw [hphase] at hpending
    exact absurd hpending not_false

def CallsKept (w w' : StoreWorld V) : Prop :=
  ∀ (i : Nat) call, w.calls[i]? = some call →
    ∃ call', w'.calls[i]? = some call' ∧ w.CallLater call call'

theorem CallsKept.of_calls (h : w'.calls = w.calls) : w.CallsKept w' := fun _ call hcall =>
  ⟨call, h ▸ hcall, .refl w call⟩

theorem CallsKept.of_append {calls : List (TransactCall V)} (h : w'.calls = w.calls ++ calls) :
    w.CallsKept w' := by
  intro i call hcall
  refine ⟨call, ?_, .refl w call⟩
  rw [h, getElem?_append_of_some hcall]

theorem CallsKept.of_set {i : Nat} (hcall : w.calls[i]? = some call)
    (h : w'.calls = w.calls.set i call') (hlater : w.CallLater call call') : w.CallsKept w' := by
  intro j other hother
  rw [h]
  by_cases hij : i = j
  · subst hij
    cases hcall.symm.trans hother
    obtain ⟨hi, -⟩ := List.getElem?_eq_some_iff.mp hcall
    exact ⟨call', getElem?_set_self hi, hlater⟩
  · exact ⟨other, by rwa [getElem?_set_ne hij], .refl w other⟩

theorem CallsKept.body {i : Nat} {issued : List (StateKey × ExpectedRevision)}
    {method : MemoryTransaction V → Except StateError (MemoryTransaction V)}
    (hs : w.body i issued method = some w') : w.CallsKept w' := by
  obtain rfl | ⟨call, tx, hcall, -, rfl⟩ := body_cases hs
  · exact .of_calls rfl
  · exact .of_set hcall rfl (.of_phase rfl rfl rfl)

theorem callsKept_deliver {i : Nat} (hs : w.deliver i = some w') : w.CallsKept w' := by
  unfold StoreWorld.deliver at hs
  split at hs
  · next call hcall =>
    split at hs
    · split at hs
      · obtain rfl := some.inj hs
        exact .of_calls rfl
      · cases hs
    · next leader hjoined =>
      split at hs
      · next leading hleading =>
        split at hs
        · next outcome houtcome =>
          obtain rfl := some.inj hs
          refine .of_set hcall rfl ⟨rfl, rfl, fun outcome hphase => ?_, fun leader' hphase => ?_,
            fun hpending => ?_⟩
          · rw [hjoined] at hphase
            cases hphase
          · rw [hjoined] at hphase
            cases hphase
            exact .inr ⟨leading, outcome, hleading, houtcome, rfl⟩
          · rw [hjoined] at hpending
            exact absurd hpending not_false
        · cases hs
      · cases hs
    · cases hs
  · cases hs

omit [WireValue V] in
theorem CallsInv.pending_of_job (h : w.CallsInv) {i : Nat} {call : TransactCall V}
    (hcall : w.calls[i]? = some call) (hmem : i ∈ w.commitJobs) : call.phase.Pending := by
  obtain ⟨identity, hstate⟩ := h.table.queued i hmem
  obtain heq : call.phase = .queued :=
    congrArg CallState.phase (some.inj ((state_of_call hcall).symm.trans hstate))
  rw [heq]
  trivial

theorem callsKept_step (h : w.CallsInv) {e : StoreEvent V} (hs : w.step e = some w') :
    w.CallsKept w' := by
  cases e with
  | openStore =>
    simp only [step] at hs
    split at hs
    · obtain rfl := some.inj hs
      exact .of_calls rfl
    · obtain rfl := some.inj hs
      exact .of_calls rfl
  | close =>
    obtain rfl := some.inj hs
    exact .of_calls rfl
  | transact options =>
    obtain ⟨inFlight, call, heq, -⟩ := transact_cases w options
    obtain rfl := some.inj hs
    rw [heq]
    exact .of_append rfl
  | put i key value expected | delete i key expected | appendOperation i entry
  | enqueueOutbox i message =>
    simp only [step] at hs
    exact .body hs
  | resolve i result =>
    obtain ⟨call, staged, tx, hcall, hfin, rfl⟩ := resolve_cases hs
    have hrunning := h.active call (mem_of_getElem? hcall) (MemoryTransaction.active_of_finish hfin)
    refine .of_set hcall rfl (.of_pending ?_ rfl rfl (.inl trivial))
    rw [hrunning]
    trivial
  | reject i =>
    simp only [step, reject] at hs
    split at hs
    · next call hcall =>
      split at hs
      · next hrunning =>
        obtain rfl := some.inj hs
        refine .of_set hcall rfl (.of_pending ?_ rfl rfl (.inr (.inl ⟨_, rfl⟩)))
        rw [hrunning]
        trivial
      · cases hs
    · cases hs
  | deliver i => exact callsKept_deliver hs
  | claimOutbox request =>
    obtain rfl := some.inj hs
    obtain heq | ⟨limit, heq⟩ := enqueueClaim_cases w request
    · rw [heq]
      exact .of_calls rfl
    · rw [heq]
      exact .of_calls rfl
  | acknowledgeOutbox request =>
    obtain rfl := some.inj hs
    obtain heq | heq := enqueueAcknowledge_cases w request
    · rw [heq]
      exact .of_calls rfl
    · rw [heq]
      exact .of_calls rfl
  | turn now =>
    obtain ⟨job, jobs, hjobs, hrun⟩ := turn_cases hs
    cases job with
    | claim request limit =>
      obtain rfl := some.inj hrun
      exact .of_calls rfl
    | acknowledge request =>
      obtain rfl := some.inj hrun
      exact .of_calls rfl
    | commit i issued staged result =>
      have hmem : i ∈ w.commitJobs :=
        mem_filterMap.mpr ⟨.commit i issued staged result, hjobs ▸ mem_cons_self, rfl⟩
      obtain ⟨call, hcall, hw⟩ := map_eq_some_iff.mp hrun
      have hpending := h.pending_of_job hcall hmem
      split at hw
      · obtain rfl := hw
        exact .of_set hcall rfl (.of_pending hpending rfl rfl (.inr (.inl ⟨_, rfl⟩)))
      next store hstore =>
      obtain rfl := hw
      exact .of_set hcall rfl
        (.of_pending hpending rfl rfl (.inr (.inr ⟨staged, result, store, hstore⟩)))

end Later

end StoreWorld

end TegoNext
