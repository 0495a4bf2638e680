/-
Idempotent transactions, over whole runs of the memory store.

A call that carries an idempotency key leads, waits for the call that leads, or is answered from
the table of results, as `CallTable` says. What a caller can rely on follows: under one key at
most one call commits, and whoever succeeds under the same fingerprint gets its result.
-/
import TegoNext.TransactCalls

set_option autoImplicit false

namespace TegoNext

open MemoryStateStore List Option

variable {V : Type}

/-! ## The law -/

/-- The fingerprint a key is in use with: that of its result, or of the call that is in flight. -/
def MemoryStateStore.fingerprintOf (store : MemoryStateStore V) (key : JsString) :
    Option JsString :=
  match store.idempotency.lookup key with
  | some record => some record.fingerprint
  | none => (store.inFlightIdempotency.lookup key).map (·.fingerprint)

namespace StoreWorld

variable {w w' : StoreWorld V}

def identityOf (w : StoreWorld V) (i : Nat) : Option IdempotencyIdentity :=
  w.calls[i]?.bind (·.identity)

/-- What a run may lead to. -/
def Later [WireValue V] (w w' : StoreWorld V) : Prop :=
  Relation.ReflTransGen ((machine V).StepVia fun _ _ _ => True) w w'

structure IdempotencyLaw [WireValue V] (w : StoreWorld V) : Prop where
  once : w.commits.Pairwise fun c c' => c.call ≠ c'.call ∧ ∀ id id',
    w.identityOf c.call = some id → w.identityOf c'.call = some id' → id.key ≠ id'.key
  agree : ∀ (i j : Nat) call call' id result result', w.calls[i]? = some call →
    w.calls[j]? = some call' → call.identity = some id → call'.identity = some id →
      call.phase = .settled (.ok result) → call'.phase = .settled (.ok result') → result = result'
  conflict : ∀ options id fingerprint, w.store.lifecycle = .open →
    idempotencyIdentity options = .ok (some id) → w.store.fingerprintOf id.key = some fingerprint →
      fingerprint ≠ id.fingerprint → ∃ e, e.code = .STATE_IDEMPOTENCY_CONFLICT ∧
        w.transact options =
          w.addCall (w.answeredCall options (some id) (.settled (.error (.state e))))
  recorded : ∀ key record, w.store.idempotency.lookup key = some record → ∃ c ∈ w.commits,
    w.identityOf c.call = some ⟨key, record.fingerprint⟩
  failed : ∀ (i : Nat) call e, w.calls[i]? = some call → call.phase = .settled (.error e) →
    ∀ c ∈ w.commits, c.call ≠ i
  released : ∀ (i : Nat) call id e, w.calls[i]? = some call → call.identity = some id →
    call.phase = .settled (.error e) →
      w.store.inFlightIdempotency.lookup id.key = some ⟨id.fingerprint, i⟩ →
        ∃ w', w.deliver i = some w' ∧ w'.store.inFlightIdempotency.lookup id.key = none ∧
          w'.store.idempotency.lookup id.key = w.store.idempotency.lookup id.key
  again : ∀ options id advances (result : V), w.store.lifecycle = .open →
    idempotencyIdentity options = .ok (some id) → w.store.fingerprintOf id.key = none →
      w.jobs = [] → w.store.assertFence options.fencing = .ok advances →
        ∃ w', (w.transact options).Later w' ∧ w.calls.length ∈ w'.committed ∧
          w'.store.idempotency.lookup id.key = some ⟨id.fingerprint, result⟩

/-! ## The law of a table -/

variable {id : IdempotencyIdentity}

theorem state_of_identity {i : Nat} (h : w.identityOf i = some id) :
    ∃ phase, w.states[i]? = some ⟨some id, phase⟩ := by
  obtain ⟨call, hcall, hid⟩ := bind_eq_some_iff.mp h
  refine ⟨call.phase, ?_⟩
  rw [state_of_call hcall, TransactCall.state, hid]

theorem CallsInv.once (h : w.CallsInv) :
    w.commits.Pairwise fun c c' => c.call ≠ c'.call ∧ ∀ id id',
      w.identityOf c.call = some id → w.identityOf c'.call = some id' → id.key ≠ id'.key := by
  have hnodup : w.commits.Pairwise fun c c' => c.call ≠ c'.call := pairwise_map.mp h.table.nodup
  refine hnodup.imp_of_mem fun {c c'} hc hc' hne => ⟨hne, fun id id' hid hid' hkey => hne ?_⟩
  obtain ⟨phase, hstate⟩ := state_of_identity hid
  obtain ⟨phase', hstate'⟩ := state_of_identity hid'
  exact h.table.distinct c.call (List.mem_map_of_mem hc) c'.call (List.mem_map_of_mem hc') id id'
    phase phase' hstate hstate' hkey

theorem CallsInv.result (h : w.CallsInv) {i : Nat} {call : TransactCall V}
    {id : IdempotencyIdentity} {result : V} (hcall : w.calls[i]? = some call)
    (hid : call.identity = some id) (hphase : call.phase = .settled (.ok result)) :
    w.store.idempotency.lookup id.key = some ⟨id.fingerprint, result⟩ := by
  refine h.table.succeeded i id result ?_
  rw [state_of_call hcall, TransactCall.state, hid, hphase]

/-! ## What `transact` answers -/

theorem assertOpen_of_open {store : MemoryStateStore V} (h : store.lifecycle = .open) :
    store.assertOpen = .ok () := if_pos h

theorem assertIdempotencyFingerprint_ne {fingerprint : JsString}
    (h : fingerprint ≠ id.fingerprint) :
    ∃ e, assertIdempotencyFingerprint id fingerprint = .error e ∧
      e.code = .STATE_IDEMPOTENCY_CONFLICT := by
  refine ⟨_, if_pos (Ne.symm h), rfl⟩

theorem transact_conflict {options : StateTransactionOptions}
    {fingerprint : JsString} (hopen : w.store.lifecycle = .open)
    (hid : idempotencyIdentity options = .ok (some id))
    (huse : w.store.fingerprintOf id.key = some fingerprint) (hne : fingerprint ≠ id.fingerprint) :
    ∃ e, e.code = .STATE_IDEMPOTENCY_CONFLICT ∧
      w.transact options =
        w.addCall (w.answeredCall options (some id) (.settled (.error (.state e)))) := by
  obtain ⟨e, he, hcode⟩ := assertIdempotencyFingerprint_ne hne
  refine ⟨e, hcode, ?_⟩
  rw [transact, assertOpen_of_open hopen, hid]
  unfold MemoryStateStore.fingerprintOf at huse
  dsimp only
  cases hrecord : w.store.idempotency.lookup id.key with
  | some record =>
    rw [hrecord] at huse
    obtain rfl := some.inj huse
    dsimp only
    rw [he]
  | none =>
    rw [hrecord] at huse
    obtain ⟨inFlight, hinFlight, rfl⟩ := map_eq_some_iff.mp huse
    rw [hinFlight]
    dsimp only
    rw [he]

theorem transact_fresh {options : StateTransactionOptions}
    (hopen : w.store.lifecycle = .open) (hid : idempotencyIdentity options = .ok (some id))
    (hfree : w.store.fingerprintOf id.key = none) :
    w.transact options = (w.registerInFlight id).addCall (w.startedCall options (some id)) := by
  unfold MemoryStateStore.fingerprintOf at hfree
  rw [transact, assertOpen_of_open hopen, hid]
  dsimp only
  cases hrecord : w.store.idempotency.lookup id.key with
  | some record =>
    rw [hrecord] at hfree
    cases hfree
  | none =>
    rw [hrecord] at hfree
    rw [map_eq_none_iff.mp hfree]

/-! ## A call that starts afresh -/

section Turn

variable [WireValue V]

theorem commit_nothing {store : MemoryStateStore V} {fencing : Option StateFencing}
    (identity : Option IdempotencyIdentity) (result : V) {advances : Bool}
    (hopen : store.lifecycle = .open) (hfence : store.assertFence fencing = .ok advances) :
    ∃ store', store.commit fencing identity ⟨[], [], []⟩ result = .ok store' := by
  unfold MemoryStateStore.commit
  rw [assertOpen_of_open hopen, hfence]
  exact ⟨_, rfl⟩

theorem transact_again {options : StateTransactionOptions} {id : IdempotencyIdentity}
    {advances : Bool} (result : V) (hopen : w.store.lifecycle = .open)
    (hid : idempotencyIdentity options = .ok (some id))
    (hfree : w.store.fingerprintOf id.key = none) (hjobs : w.jobs = [])
    (hfence : w.store.assertFence options.fencing = .ok advances) :
    ∃ w', (w.transact options).Later w' ∧ w.calls.length ∈ w'.committed ∧
      w'.store.idempotency.lookup id.key = some ⟨id.fingerprint, result⟩ := by
  rw [transact_fresh hopen hid hfree]
  have hcall : ((w.registerInFlight id).addCall (w.startedCall options (some id))).calls[
      w.calls.length]? = some (w.startedCall options (some id)) := getElem?_concat_length
  have hqueued : ∃ w₁ call, ((w.registerInFlight id).addCall
      (w.startedCall options (some id))).resolve w.calls.length result = some w₁ ∧
      w₁.calls[w.calls.length]? = some call ∧ call.options = options ∧
      call.identity = some id ∧ w₁.jobs = [.commit w.calls.length [] ⟨[], [], []⟩ result] ∧
      w₁.store = (w.registerInFlight id).store := by
    unfold StoreWorld.resolve
    rw [hcall]
    refine ⟨_, _, rfl, getElem?_set_self ?_, rfl, rfl, ?_, rfl⟩
    · exact (List.getElem?_eq_some_iff.mp hcall).1
    · change w.jobs ++ _ = _
      rw [hjobs]
      rfl
  obtain ⟨w₁, call, hresolve, hcall₁, hoptions, hidentity, hjobs₁, hstore⟩ := hqueued
  have hopen₁ : w₁.store.lifecycle = .open := by
    rw [hstore]
    exact hopen
  have hfence₁ : w₁.store.assertFence options.fencing = .ok advances := by
    rw [hstore]
    exact hfence
  obtain ⟨store, hcommit⟩ := commit_nothing call.identity result hopen₁ hfence₁
  have hturn : w₁.turn JsDate.epochStart =
      some { ({ w₁ with jobs := [] } : StoreWorld V).setCall w.calls.length
          { call with phase := .settled (.ok result) } with
        store := store
        commits := w₁.commits ++ [⟨w.calls.length, [], w₁.store.records, store.records⟩] } := by
    rw [← hoptions] at hcommit
    simp only [turn, hjobs₁, runJob, commitJob, hcall₁, map_some, hcommit]
  refine ⟨_, .tail (.single ⟨.resolve w.calls.length result, hresolve, trivial⟩)
    ⟨.turn JsDate.epochStart, hturn, trivial⟩, ?_, ?_⟩
  · refine List.mem_map.mpr ⟨⟨w.calls.length, [], w₁.store.records, store.records⟩, ?_, rfl⟩
    exact mem_append_right w₁.commits mem_cons_self
  · rw [(commit_tables hcommit).1, hidentity]
    exact AList.lookup_insert _

/-- **Idempotent transactions**, in every state a run can reach. -/
theorem idempotencyLaw (w : StoreWorld V) (hr : (machine V).Reachable w) : w.IdempotencyLaw := by
  have h := callsInv_of_reachable hr
  refine ⟨h.once, ?_, fun options id fingerprint hopen hid huse hne => ?_,
    fun key record hrecord => ?_, fun i call e hcall hphase c hc heq => ?_,
    fun i call id e hcall hid hphase hlisted => ?_,
    fun options id advances result hopen hid hfree hjobs hfence => ?_⟩
  · intro i j call call' id result result' hcall hcall' hid hid' hphase hphase'
    have heq := (h.result hcall hid hphase).symm.trans (h.result hcall' hid' hphase')
    exact congrArg IdempotencyRecord.result (some.inj heq)
  · exact transact_conflict hopen hid huse hne
  · obtain ⟨i, hi, hstate⟩ := h.table.recorded key record hrecord
    obtain ⟨c, hc, rfl⟩ := List.mem_map.mp hi
    obtain ⟨call, hcall, heq⟩ := map_eq_some_iff.mp ((w.states_getElem? _).symm.trans hstate)
    refine ⟨c, hc, bind_eq_some_iff.mpr ⟨call, hcall, ?_⟩⟩
    exact congrArg CallState.identity heq
  · obtain ⟨identity, result, hstate⟩ := h.table.settled c.call (List.mem_map_of_mem hc)
    rw [heq, state_of_call hcall, TransactCall.state, hphase] at hstate
    cases hstate
  · refine ⟨{ w with store := { w.store with
        inFlightIdempotency := w.store.inFlightIdempotency.erase id.key } }, ?_,
      AList.lookup_erase _ _, rfl⟩
    unfold StoreWorld.deliver
    simp only [hcall, hphase, hid, hlisted, any_some, beq_self_eq_true, if_true]
  · exact transact_again result hopen hid hfree hjobs hfence

end Turn

/-! ## A run -/

def keyedOptions : StateTransactionOptions := ⟨none, some (Text.js "k"), some (Text.js "f")⟩

/-- One call leads and a second one waits; the body of the first throws. A third one starts
afresh and commits, and a fourth one is answered from the table. -/
def keyedRun : List (StoreEvent Unit) :=
  [.openStore, .transact keyedOptions, .transact keyedOptions, .reject 0, .deliver 0, .deliver 1,
    .transact keyedOptions, .resolve 2 (), .turn JsDate.epochStart, .transact keyedOptions]

theorem idempotencyLaw_keyedRun :
    ∃ w : StoreWorld Unit, (machine Unit).run initial keyedRun = some w ∧ w.committed = [2] ∧
      w.IdempotencyLaw := by
  have hrun : ((machine Unit).run initial keyedRun).map (·.committed) = some [2] := by
    decide +kernel
  obtain ⟨w, hw, hcommitted⟩ := map_eq_some_iff.mp hrun
  exact ⟨w, hw, hcommitted, idempotencyLaw w (.of_init_run rfl hw)⟩

end StoreWorld

end TegoNext
