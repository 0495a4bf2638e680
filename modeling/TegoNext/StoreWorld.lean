/-
Runs of a memory store: transactions in progress, the commit queue, and what an arbitrary caller
does with them.

A transaction body is arbitrary code, so it is modelled by the calls it makes: events of different
bodies interleave freely, and a body ends by returning a result or by throwing. The queue is worked
off one job at a time, each at a time the clock gives. For statements about runs, the world
remembers the writes each transaction was asked for, the commits that succeeded and the claims.
-/
import TegoNext.MemoryStateStore
import TegoNext.Machine

set_option autoImplicit false

namespace TegoNext

open Option

namespace MemoryStateStore

variable {V : Type}

/-- Everything but the lifecycle and the calls in flight. -/
structure SameState (store store' : MemoryStateStore V) : Prop where
  records : store'.records = store.records
  operations : store'.operations = store.operations
  operationHistory : store'.operationHistory = store.operationHistory
  outbox : store'.outbox = store.outbox
  outboxSequence : store'.outboxSequence = store.outboxSequence
  fences : store'.fences = store.fences
  changes : store'.changes = store.changes
  idempotency : store'.idempotency = store.idempotency
  revision : store'.revision = store.revision

theorem SameState.refl (store : MemoryStateStore V) : store.SameState store :=
  ⟨rfl, rfl, rfl, rfl, rfl, rfl, rfl, rfl, rfl⟩

/-- What the jobs of the outbox write. -/
structure Rewrites (store store' : MemoryStateStore V) : Prop where
  revision : store.revision ≤ store'.revision
  rest : store' = { store with
    outbox := store'.outbox
    fences := store'.fences
    revision := store'.revision }

namespace Rewrites

variable {store store' : MemoryStateStore V} {outbox : Outbox V}

theorem refl : store.Rewrites store := ⟨le_rfl, rfl⟩

theorem put : store.Rewrites { store with
    outbox
    revision := store.revision + 1 } :=
  ⟨Nat.le_succ _, rfl⟩

theorem advance (h : store.Rewrites store') (fencing : Option StateFencing) :
    store.Rewrites (store'.advanceFence fencing) := by
  cases fencing with
  | none => exact h
  | some fencing => exact ⟨h.revision, congrArg (advanceFence · (some fencing)) h.rest⟩

end Rewrites

theorem claimOutbox_rewrites (store : MemoryStateStore V) (request : OutboxClaimRequest)
    (limit : Nat) (now : JsDate.Instant) :
    store.Rewrites (store.claimOutbox request limit now).2.1 := by
  unfold claimOutbox
  split
  · exact .refl
  split
  · exact .refl
  dsimp only
  split
  · exact ⟨le_rfl, rfl⟩
  split
  · exact Rewrites.put.advance _
  · exact ⟨le_rfl, rfl⟩

theorem acknowledgeOutbox_rewrites (store : MemoryStateStore V)
    (request : OutboxAcknowledgementRequest) (now : JsDate.Instant) :
    store.Rewrites (store.acknowledgeOutbox request now).2 := by
  unfold acknowledgeOutbox
  split
  · exact .refl
  split
  · exact .refl
  split
  · exact .refl
  split
  · split
    · exact .refl
    · split
      · exact Rewrites.put.advance _
      · exact .refl
  split
  · exact .refl
  split
  · dsimp only
    split
    · exact Rewrites.put.advance _
    · exact .put
  · exact .refl

end MemoryStateStore

/-! ## The world -/

/-- Where a call of `transact` stands. -/
inductive CallPhase (V : Type) where
  | running
  | queued
  | joined (leader : Nat)
  | settled (outcome : Except Rejection V)

/-- A call of `transact`. `issued` lists the expectations of its `put` and
`delete` calls that were accepted. -/
structure TransactCall (V : Type) where
  options : StateTransactionOptions
  identity : Option IdempotencyIdentity
  tx : MemoryTransaction V
  issued : List (StateKey × ExpectedRevision)
  phase : CallPhase V

inductive StoreJob (V : Type) where
  | commit (call : Nat) (issued : List (StateKey × ExpectedRevision))
      (staged : StagedTransaction V) (result : V)
  | claim (request : OutboxClaimRequest) (limit : Nat)
  | acknowledge (request : OutboxAcknowledgementRequest)

structure CommitRecord (V : Type) where
  call : Nat
  issued : List (StateKey × ExpectedRevision)
  before : Records V
  after : Records V

/-- What a promise of `claimOutbox` or `acknowledgeOutbox` settled with. -/
inductive StoreAnswer (V : Type) where
  | claimed (request : OutboxClaimRequest) (outcome : Except Rejection (List (OutboxClaim V)))
  | acknowledged (request : OutboxAcknowledgementRequest)
      (outcome : Except StateError OutboxAcknowledgement)

structure StoreWorld (V : Type) where
  store : MemoryStateStore V
  calls : List (TransactCall V)
  jobs : List (StoreJob V)
  commits : List (CommitRecord V)
  claims : List (OutboxClaim V)
  answers : List (StoreAnswer V)

/-- What callers, transaction bodies, the queue and the promises may do. -/
inductive StoreEvent (V : Type) where
  | openStore
  | close
  | transact (options : StateTransactionOptions)
  | put (call : Nat) (key : StateKey) (value : V) (expectedRevision : ExpectedRevision)
  | delete (call : Nat) (key : StateKey) (expectedRevision : ExpectedRevision)
  | appendOperation (call : Nat) (entry : OperationJournalEntry V)
  | enqueueOutbox (call : Nat) (message : OutboxMessage V)
  | resolve (call : Nat) (result : V)
  | reject (call : Nat)
  | deliver (call : Nat)
  | claimOutbox (request : OutboxClaimRequest)
  | acknowledgeOutbox (request : OutboxAcknowledgementRequest)
  | turn (now : JsDate.Instant)

namespace StoreWorld

variable {V : Type}

def initial : StoreWorld V where
  store := .new
  calls := []
  jobs := []
  commits := []
  claims := []
  answers := []

/-! ## Calls of `transact` -/

section

variable (w : StoreWorld V) (i : Nat)

def addCall (call : TransactCall V) : StoreWorld V := { w with calls := w.calls ++ [call] }

def setCall (call : TransactCall V) : StoreWorld V := { w with calls := w.calls.set i call }

/-- A call that is answered without a body of its own. -/
def answeredCall (options : StateTransactionOptions)
    (identity : Option IdempotencyIdentity) (phase : CallPhase V) : TransactCall V where
  options := options
  identity := identity
  tx := (MemoryTransaction.start w.store.records).abort
  issued := []
  phase := phase

/-- `executeTransaction`: the body starts on the records as they are now. -/
def startedCall (options : StateTransactionOptions)
    (identity : Option IdempotencyIdentity) : TransactCall V where
  options := options
  identity := identity
  tx := .start w.store.records
  issued := []
  phase := .running

/-- The in-flight table names the call that is about to start. -/
def registerInFlight (identity : IdempotencyIdentity) : StoreWorld V :=
  { w with
    store :=
      { w.store with
        inFlightIdempotency :=
          w.store.inFlightIdempotency.insert identity.key ⟨identity.fingerprint, w.calls.length⟩ } }

def transact (options : StateTransactionOptions) : StoreWorld V :=
  match w.store.assertOpen with
  | .error e => w.addCall (w.answeredCall options none (.settled (.error (.state e))))
  | .ok _ =>
    match idempotencyIdentity options with
    | .error e => w.addCall (w.answeredCall options none (.settled (.error (.state e))))
    | .ok none => w.addCall (w.startedCall options none)
    | .ok (some identity) =>
      match w.store.idempotency.lookup identity.key with
      | some replay =>
        match MemoryStateStore.assertIdempotencyFingerprint identity replay.fingerprint with
        | .error e =>
          w.addCall (w.answeredCall options (some identity) (.settled (.error (.state e))))
        | .ok _ =>
          w.addCall (w.answeredCall options (some identity) (.settled (.ok replay.result)))
      | none =>
        match w.store.inFlightIdempotency.lookup identity.key with
        | some inFlight =>
          match MemoryStateStore.assertIdempotencyFingerprint identity inFlight.fingerprint with
          | .error e =>
            w.addCall (w.answeredCall options (some identity) (.settled (.error (.state e))))
          | .ok _ => w.addCall (w.answeredCall options (some identity) (.joined inFlight.result))
        | none =>
          (w.registerInFlight identity).addCall (w.startedCall options (some identity))

/-- One method call of a transaction body; a call that throws changes nothing. -/
def body (issued : List (StateKey × ExpectedRevision))
    (method : MemoryTransaction V → Except StateError (MemoryTransaction V)) :
    Option (StoreWorld V) :=
  w.calls[i]?.map fun call =>
    match method call.tx with
    | .error _ => w
    | .ok tx => w.setCall i { call with tx := tx, issued := call.issued ++ issued }

/-- The body returned `result`: its staged work goes to the commit queue. -/
def resolve (result : V) : Option (StoreWorld V) :=
  match w.calls[i]? with
  | some call =>
    match call.tx.finish with
    | .error _ => none
    | .ok (staged, tx) =>
      some { w.setCall i { call with tx := tx, phase := .queued } with
        jobs := w.jobs ++ [.commit i call.issued staged result] }
  | none => none

/-- The body threw. -/
def reject : Option (StoreWorld V) :=
  match w.calls[i]? with
  | some call =>
    match call.phase with
    | .running =>
      some (w.setCall i { call with tx := call.tx.abort, phase := .settled (.error .work) })
    | _ => none
  | none => none

/-- A promise of a settled transaction reaches its owner, or a call that joined it. -/
def deliver : Option (StoreWorld V) :=
  match w.calls[i]? with
  | some call =>
    match call.phase, call.identity with
    | .settled _, some identity =>
      if (w.store.inFlightIdempotency.lookup identity.key).any fun r => r.result == i then
        some { w with
          store :=
            { w.store with
              inFlightIdempotency := w.store.inFlightIdempotency.erase identity.key } }
      else none
    | .joined leader, _ =>
      match w.calls[leader]? with
      | some leading =>
        match leading.phase with
        | .settled outcome => some (w.setCall i { call with phase := .settled outcome })
        | _ => none
      | none => none
    | _, _ => none
  | none => none

/-! ## The commit queue -/

/-- `claimOutbox` up to the queue. -/
def enqueueClaim (request : OutboxClaimRequest) : StoreWorld V :=
  match w.store.assertOpen, assertOutboxClaimRequest request with
  | .ok _, .ok limit => { w with jobs := w.jobs ++ [.claim request limit] }
  | _, _ => w

/-- `acknowledgeOutbox` up to the queue. -/
def enqueueAcknowledge (request : OutboxAcknowledgementRequest) : StoreWorld V :=
  match w.store.assertOpen, assertOutboxAcknowledgementRequest request with
  | .ok _, .ok _ => { w with jobs := w.jobs ++ [.acknowledge request] }
  | _, _ => w

end

def commitJob [WireValue V] (w : StoreWorld V) (i : Nat)
    (issued : List (StateKey × ExpectedRevision)) (staged : StagedTransaction V) (result : V) :
    Option (StoreWorld V) :=
  w.calls[i]?.map fun call =>
    match w.store.commit call.options.fencing call.identity staged result with
    | .error e => w.setCall i { call with phase := .settled (.error (.state e)) }
    | .ok store =>
      { w.setCall i { call with phase := .settled (.ok result) } with
        store := store
        commits := w.commits ++ [⟨i, issued, w.store.records, store.records⟩] }

def runJob [WireValue V] (w : StoreWorld V) (now : JsDate.Instant) :
    StoreJob V → Option (StoreWorld V)
  | .commit i issued staged result => w.commitJob i issued staged result
  | .claim request limit =>
    let job := w.store.claimOutbox request limit now
    some { w with
      store := job.2.1
      claims := w.claims ++ job.2.2
      answers := w.answers ++ [.claimed request job.1] }
  | .acknowledge request =>
    let job := w.store.acknowledgeOutbox request now
    some { w with store := job.2, answers := w.answers ++ [.acknowledged request job.1] }

/-- The next job of the queue runs. -/
def turn [WireValue V] (w : StoreWorld V) (now : JsDate.Instant) : Option (StoreWorld V) :=
  match w.jobs with
  | [] => none
  | job :: jobs => { w with jobs := jobs }.runJob now job

/-! ## The machine -/

def step [WireValue V] (w : StoreWorld V) : StoreEvent V → Option (StoreWorld V)
  | .openStore =>
    match w.store.openStore with
    | .error _ => some w
    | .ok store => some { w with store := store }
  | .close => some { w with store := w.store.close }
  | .transact options => some (w.transact options)
  | .put i key value expected => w.body i [(key, expected)] fun tx => tx.put key value expected
  | .delete i key expected => w.body i [(key, expected)] fun tx => tx.delete key expected
  | .appendOperation i entry => w.body i [] fun tx => tx.appendOperation entry
  | .enqueueOutbox i message => w.body i [] fun tx => tx.enqueueOutbox message
  | .resolve i result => w.resolve i result
  | .reject i => w.reject i
  | .deliver i => w.deliver i
  | .claimOutbox request => some (w.enqueueClaim request)
  | .acknowledgeOutbox request => some (w.enqueueAcknowledge request)
  | .turn now => w.turn now

def machine (V : Type) [WireValue V] : Machine (StoreWorld V) (StoreEvent V) where
  Init w := w = initial
  step := step

/-! ## What the steps do -/

/-- `transact` adds a call that has written nothing; the store may only change
in its in-flight table. -/
theorem transact_cases (w : StoreWorld V) (options : StateTransactionOptions) :
    ∃ inFlight call, w.transact options =
        { w with
          store := { w.store with inFlightIdempotency := inFlight }
          calls := w.calls ++ [call] } ∧
      call.issued = [] ∧ call.tx.mutations = ∅ ∧ call.tx.operations = [] ∧
      call.tx.operationIds = [] := by
  unfold transact
  repeat' split
  all_goals exact ⟨_, _, rfl, rfl, rfl, rfl, rfl⟩

variable {w w' : StoreWorld V}

theorem body_cases {i : Nat} {issued : List (StateKey × ExpectedRevision)}
    {method : MemoryTransaction V → Except StateError (MemoryTransaction V)}
    (h : w.body i issued method = some w') :
    w' = w ∨ ∃ call tx, w.calls[i]? = some call ∧ method call.tx = .ok tx ∧
      w' = w.setCall i { call with tx := tx, issued := call.issued ++ issued } := by
  obtain ⟨call, hcall, hw⟩ := map_eq_some_iff.mp h
  split at hw
  · exact .inl hw.symm
  · next tx htx => exact .inr ⟨call, tx, hcall, htx, hw.symm⟩

theorem resolve_cases {i : Nat} {result : V} (h : w.resolve i result = some w') :
    ∃ call staged tx, w.calls[i]? = some call ∧ call.tx.finish = .ok (staged, tx) ∧
      w' = { w.setCall i { call with tx := tx, phase := .queued } with
        jobs := w.jobs ++ [.commit i call.issued staged result] } := by
  unfold resolve at h
  split at h
  · next call hcall =>
    split at h
    · cases h
    · next staged tx hfin => exact ⟨call, staged, tx, hcall, hfin, (some.inj h).symm⟩
  · cases h

theorem reject_cases {i : Nat} (h : w.reject i = some w') :
    ∃ call, w.calls[i]? = some call ∧
      w' = w.setCall i { call with tx := call.tx.abort, phase := .settled (.error .work) } := by
  unfold reject at h
  split at h
  · next call hcall =>
    split at h
    · exact ⟨call, hcall, (some.inj h).symm⟩
    · cases h
  · cases h

theorem deliver_cases {i : Nat} (h : w.deliver i = some w') :
    (∃ inFlight, w' = { w with store := { w.store with inFlightIdempotency := inFlight } }) ∨
    ∃ call outcome, w.calls[i]? = some call ∧
      w' = w.setCall i { call with phase := .settled outcome } := by
  unfold deliver at h
  split at h
  · next call hcall =>
    split at h
    · split at h
      · exact .inl ⟨_, (some.inj h).symm⟩
      · cases h
    · split at h
      · split at h
        · next outcome _ => exact .inr ⟨call, outcome, hcall, (some.inj h).symm⟩
        · cases h
      · cases h
    · cases h
  · cases h

theorem enqueueClaim_cases (w : StoreWorld V) (request : OutboxClaimRequest) :
    w.enqueueClaim request = w ∨
      ∃ limit, w.enqueueClaim request = { w with jobs := w.jobs ++ [.claim request limit] } := by
  unfold enqueueClaim
  split
  · exact .inr ⟨_, rfl⟩
  · exact .inl rfl

theorem enqueueAcknowledge_cases (w : StoreWorld V) (request : OutboxAcknowledgementRequest) :
    w.enqueueAcknowledge request = w ∨
      w.enqueueAcknowledge request = { w with jobs := w.jobs ++ [.acknowledge request] } := by
  unfold enqueueAcknowledge
  split
  · exact .inr rfl
  · exact .inl rfl

section Turn

variable [WireValue V]

theorem commitJob_cases {w w' : StoreWorld V} {i : Nat}
    {issued : List (StateKey × ExpectedRevision)} {staged : StagedTransaction V} {result : V}
    (h : w.commitJob i issued staged result = some w') :
    ∃ call phase, w.calls[i]? = some call ∧
      (w' = w.setCall i { call with phase := phase } ∨
        ∃ store, w.store.commit call.options.fencing call.identity staged result = .ok store ∧
          w' = { w.setCall i { call with phase := phase } with
            store := store
            commits := w.commits ++ [⟨i, issued, w.store.records, store.records⟩] }) := by
  obtain ⟨call, hcall, hw⟩ := map_eq_some_iff.mp h
  split at hw
  · exact ⟨call, _, hcall, .inl hw.symm⟩
  · next store hstore => exact ⟨call, _, hcall, .inr ⟨store, hstore, hw.symm⟩⟩

theorem turn_cases {w w' : StoreWorld V} {now : JsDate.Instant} (h : w.turn now = some w') :
    ∃ job jobs, w.jobs = job :: jobs ∧ { w with jobs := jobs }.runJob now job = some w' := by
  unfold turn at h
  split at h
  · cases h
  · next job jobs hjobs => exact ⟨job, jobs, hjobs, h⟩

def Queued (w : StoreWorld V) : StoreJob V → Prop
  | .commit i _ staged _ =>
    ∃ call tx, w.calls[i]? = some call ∧ call.tx.finish = .ok (staged, tx)
  | _ => True

/-- What is as it was, as long as the queue rests. -/
structure Rests (w w' : StoreWorld V) : Prop where
  store : w.store.SameState w'.store
  claims : w'.claims = w.claims
  jobs : ∃ added, w'.jobs = w.jobs ++ added ∧ ∀ job ∈ added, w.Queued job

/-- **A step that does no job** changes calls and adds jobs only. -/
theorem rests_step {e : StoreEvent V} (hs : w.step e = some w') (hturn : ∀ now, e ≠ .turn now) :
    w.Rests w' := by
  have hcalls {lifecycle inFlight calls} : w.Rests { w with
      store := { w.store with lifecycle, inFlightIdempotency := inFlight }
      calls } :=
    ⟨⟨rfl, rfl, rfl, rfl, rfl, rfl, rfl, rfl, rfl⟩, rfl, [], (List.append_nil _).symm, nofun⟩
  have hjob {job calls} (h : w.Queued job) : w.Rests { w with
      calls
      jobs := w.jobs ++ [job] } :=
    ⟨.refl _, rfl, [job], rfl, fun _ hmem => List.mem_singleton.mp hmem ▸ h⟩
  have hbody {i issued method} (h : w.body i issued method = some w') : w.Rests w' := by
    rcases body_cases h with rfl | ⟨call, tx, -, -, rfl⟩ <;> exact hcalls
  cases e with
  | openStore =>
    simp only [step] at hs
    split at hs
    · cases hs
      exact hcalls
    next store hopen =>
    cases hs
    unfold MemoryStateStore.openStore at hopen
    split at hopen <;> cases hopen
    exact hcalls
  | close =>
    cases hs
    exact hcalls
  | transact options =>
    cases hs
    obtain ⟨inFlight, call, heq, -⟩ := transact_cases w options
    rw [heq]
    exact hcalls
  | put | delete | appendOperation | enqueueOutbox =>
    simp only [step] at hs
    exact hbody hs
  | resolve i result =>
    obtain ⟨call, staged, tx, hcall, hfin, rfl⟩ := resolve_cases hs
    exact hjob ⟨call, tx, hcall, hfin⟩
  | reject i =>
    obtain ⟨call, -, rfl⟩ := reject_cases hs
    exact hcalls
  | deliver i =>
    rcases deliver_cases hs with ⟨inFlight, rfl⟩ | ⟨call, outcome, -, rfl⟩ <;> exact hcalls
  | claimOutbox request =>
    cases hs
    rcases enqueueClaim_cases w request with heq | ⟨limit, heq⟩ <;> rw [heq]
    · exact hcalls
    · exact hjob trivial
  | acknowledgeOutbox request =>
    cases hs
    rcases enqueueAcknowledge_cases w request with heq | heq <;> rw [heq]
    · exact hcalls
    · exact hjob trivial
  | turn now => exact absurd rfl (hturn now)

end Turn

end StoreWorld

end TegoNext
