/-
What a call of the memory store leaves behind when it throws.

`commitStatements` is the commit once more, statement by statement in a monad in which a throw
keeps what was written before it; nothing has been written by then (`commitStatements_run`). A claim
writes one entry after the other, and an entry further down the queue whose attempts are used up
makes it throw with the earlier ones already claimed.
-/
import TegoNext.OutboxSafety

set_option autoImplicit false

namespace TegoNext

open MemoryStateStore List Option AList

variable {V : Type}

/-! ## Statements that write and throw -/

/-- A piece of code that reads and writes the store and may throw; what it wrote stays. -/
abbrev StoreCode (V α : Type) : Type := ExceptT StateError (StateM (MemoryStateStore V)) α

namespace StoreCode

variable {α β : Type}

/-- Run the code: its outcome, and the store it leaves behind. -/
def exec (code : StoreCode V α) (store : MemoryStateStore V) :
    Except StateError α × MemoryStateStore V :=
  Id.run (StateT.run (ExceptT.run code) store)

/-- A check throws or answers, and writes nothing. -/
def check (outcome : Except StateError α) : StoreCode V α := ExceptT.mk (pure outcome)

def write (f : MemoryStateStore V → MemoryStateStore V) : StoreCode V Unit := modify f

@[simp] theorem exec_check (outcome : Except StateError α) (store : MemoryStateStore V) :
    exec (check outcome) store = (outcome, store) := rfl

@[simp] theorem exec_write (f : MemoryStateStore V → MemoryStateStore V)
    (store : MemoryStateStore V) : exec (write f) store = (.ok (), f store) := rfl

@[simp] theorem exec_pure (a : α) (store : MemoryStateStore V) :
    exec (pure a) store = (.ok a, store) := rfl

@[simp] theorem exec_get (store : MemoryStateStore V) : exec get store = (.ok store, store) := rfl

theorem exec_bind (code : StoreCode V α) (next : α → StoreCode V β) (store : MemoryStateStore V) :
    exec (code >>= next) store =
      match exec code store with
      | (.error e, left) => (.error e, left)
      | (.ok a, left) => exec (next a) left := by
  unfold exec ExceptT.run StateT.run Id.run
  simp only [bind, ExceptT.bind, ExceptT.mk, StateT.bind, ExceptT.bindCont]
  cases code store with
  | mk outcome left => cases outcome <;> rfl

theorem exec_forM (f : α → MemoryStateStore V → MemoryStateStore V) (values : List α)
    (store : MemoryStateStore V) :
    exec (values.forM fun a => write (f a)) store =
      (.ok (), values.foldl (fun left a => f a left) store) := by
  induction values generalizing store with
  | nil => rfl
  | cons a values ih =>
    rw [foldl_cons, ← ih (f a store)]
    rfl

end StoreCode

/-! ## The commit, statement by statement -/

namespace MemoryStateStore

/-- The body of the loop over the journal entries. -/
def appendJournal (revision : Revision) (entry : OperationJournalEntry V)
    (store : MemoryStateStore V) : MemoryStateStore V :=
  let persisted : PersistedOperationJournalEntry V := { entry with revision := revision }
  { store with
    operationHistory := store.operationHistory ++ [persisted]
    operations := store.operations.insert entry.operationId persisted }

/-- The body of the loop over the new outbox messages. -/
def createEntry (message : OutboxMessage V) (store : MemoryStateStore V) : MemoryStateStore V :=
  { store with
    outboxSequence := store.outboxSequence + 1
    outbox := store.outbox.insert message.messageId (enqueued message (store.outboxSequence + 1)) }

/-- The body of the loop that logs the changes. -/
def logChange (revision : Revision) (entry : Sigma fun _ : StateKey => Mutation V)
    (store : MemoryStateStore V) : MemoryStateStore V :=
  { store with changes := store.changes ++ [change revision entry] }

/-- The writes of a commit, in the order of the source. -/
def publishStatements (nextRecords : Records V)
    (applied : List (Sigma fun _ : StateKey => Mutation V))
    (operations : List (OperationJournalEntry V)) (newOutbox : List (OutboxMessage V))
    (fencing : Option StateFencing) (advancesFence : Bool) : StoreCode V Unit := do
  let store ← get
  let revision := store.revision + 1
  StoreCode.write fun store =>
    { store with records := applied.foldl (putRecord revision) nextRecords }
  operations.forM fun entry => StoreCode.write (appendJournal revision entry)
  newOutbox.forM fun message => StoreCode.write (createEntry message)
  StoreCode.write fun store => if advancesFence then store.advanceFence fencing else store
  StoreCode.write fun store => { store with revision := store.revision + 1 }
  applied.forM fun entry => StoreCode.write (logChange revision entry)

def commitStatements [WireValue V] (fencing : Option StateFencing)
    (identity : Option IdempotencyIdentity) (staged : StagedTransaction V) (result : V) :
    StoreCode V V := do
  let store ← get
  StoreCode.check store.assertOpen
  let (nextRecords, applied) ← StoreCode.check (applyMutations store.records [] staged.mutations)
  let newOutbox ← StoreCode.check (stageOutbox store.outbox [] staged.outbox)
  let advancesFence ← StoreCode.check (store.assertFence fencing)
  let mutates := !applied.isEmpty || !staged.operations.isEmpty || !newOutbox.isEmpty ||
    advancesFence
  (if mutates then
    publishStatements nextRecords applied staged.operations newOutbox fencing advancesFence
  else pure ())
  StoreCode.write fun store => store.remember identity result
  pure result

theorem foldl_appendJournal (revision : Revision) (operations : List (OperationJournalEntry V))
    (store : MemoryStateStore V) :
    operations.foldl (fun left entry => appendJournal revision entry left) store =
      { store with
        operationHistory := store.operationHistory ++
          operations.map fun entry => { entry with revision := revision }
        operations := (operations.map fun entry =>
            ({ entry with revision := revision } : PersistedOperationJournalEntry V)).foldl
          (fun ops entry => ops.insert entry.operationId entry) store.operations } := by
  induction operations generalizing store with
  | nil => simp
  | cons entry operations ih =>
    rw [foldl_cons, ih]
    simp [appendJournal]

theorem foldl_createEntry (messages : List (OutboxMessage V)) (store : MemoryStateStore V) :
    messages.foldl (fun left message => createEntry message left) store =
      { store with
        outbox := insertOutbox store.outbox store.outboxSequence messages
        outboxSequence := store.outboxSequence + messages.length } := by
  induction messages generalizing store with
  | nil => rfl
  | cons message messages ih =>
    rw [foldl_cons, ih]
    simp [createEntry, insertOutbox, Nat.add_assoc, Nat.add_comm]

theorem foldl_logChange (revision : Revision)
    (applied : List (Sigma fun _ : StateKey => Mutation V)) (store : MemoryStateStore V) :
    applied.foldl (fun left entry => logChange revision entry left) store =
      { store with changes := store.changes ++ applied.map (change revision) } := by
  induction applied generalizing store with
  | nil => simp
  | cons entry applied ih =>
    rw [foldl_cons, ih]
    simp [logChange]

theorem exec_publishStatements (store : MemoryStateStore V) (nextRecords : Records V)
    (applied : List (Sigma fun _ : StateKey => Mutation V))
    (operations : List (OperationJournalEntry V)) (newOutbox : List (OutboxMessage V))
    (fencing : Option StateFencing) (advancesFence : Bool) :
    (publishStatements nextRecords applied operations newOutbox fencing advancesFence).exec store =
      (.ok (), store.publish nextRecords applied operations newOutbox fencing advancesFence) := by
  unfold publishStatements
  simp only [StoreCode.exec_bind, StoreCode.exec_get, StoreCode.exec_write, StoreCode.exec_forM,
    foldl_appendJournal, foldl_createEntry, foldl_logChange]
  cases advancesFence with
  | false => rfl
  | true => cases fencing <;> rfl

/-- **A commit throws before it writes.** -/
theorem exec_commitStatements [WireValue V] (store : MemoryStateStore V)
    (fencing : Option StateFencing) (identity : Option IdempotencyIdentity)
    (staged : StagedTransaction V) (result : V) :
    (commitStatements fencing identity staged result).exec store =
      match store.commit fencing identity staged result with
      | .error e => (.error e, store)
      | .ok left => (.ok result, left) := by
  unfold commitStatements commit
  simp only [StoreCode.exec_bind, StoreCode.exec_get, StoreCode.exec_check]
  cases store.assertOpen with
  | error e => rfl
  | ok _ =>
    cases applyMutations store.records [] staged.mutations with
    | error e => rfl
    | ok mutated =>
      obtain ⟨nextRecords, applied⟩ := mutated
      cases stageOutbox store.outbox [] staged.outbox with
      | error e => rfl
      | ok newOutbox =>
        cases store.assertFence fencing with
        | error e => rfl
        | ok advancesFence =>
          simp only [bind, Except.bind, pure, Except.pure]
          generalize (!applied.isEmpty || !staged.operations.isEmpty ||
            !newOutbox.isEmpty || advancesFence) = mutates
          cases mutates with
          | false => rfl
          | true =>
            rw [if_pos rfl, if_pos rfl, exec_publishStatements]
            rfl

end MemoryStateStore

/-! ## Claims that throw -/

/-- Nothing of the store has changed that a call may change. -/
structure Unchanged (before after : MemoryStateStore V) : Prop where
  records : ∀ key, after.records.lookup key = before.records.lookup key
  operations : ∀ id, after.operations.lookup id = before.operations.lookup id
  operationHistory : after.operationHistory = before.operationHistory
  outbox : ∀ id, after.outbox.lookup id = before.outbox.lookup id
  outboxSequence : after.outboxSequence = before.outboxSequence
  fences : ∀ resource, after.fences.lookup resource = before.fences.lookup resource
  changes : after.changes = before.changes
  idempotency : ∀ key, after.idempotency.lookup key = before.idempotency.lookup key
  revision : after.revision = before.revision

theorem Unchanged.refl (store : MemoryStateStore V) : Unchanged store store :=
  ⟨fun _ => rfl, fun _ => rfl, rfl, fun _ => rfl, rfl, fun _ => rfl, rfl, fun _ => rfl, rfl⟩

namespace MemoryStateStore

/-- The entry cannot be claimed though it is claimable: its attempts are used up, or the claim
would expire at no date. -/
def claimFails (request : OutboxClaimRequest) (now : JsDate.Instant)
    (record : StoredOutboxMessage V) : Bool :=
  decide (maxSafeInteger < record.attempt + 1) || (now.add? request.leaseDurationMs).isNone

def firstClaimable (store : MemoryStateStore V) (request : OutboxClaimRequest)
    (now : JsDate.Instant) : Option (Sigma fun _ : MessageId => StoredOutboxMessage V) :=
  store.sortedOutbox.find? fun entry => claimable request now entry.2

variable {request : OutboxClaimRequest} {now : JsDate.Instant}

theorem lookup_claimScan (outbox : Outbox V) (limit : Nat)
    (entries : List (Sigma fun _ : MessageId => StoredOutboxMessage V)) {id : MessageId}
    (h : id ∉ entries.map (·.1)) :
    (claimScan request now outbox limit entries).outbox.lookup id = outbox.lookup id := by
  induction entries generalizing outbox limit with
  | nil => rfl
  | cons entry rest ih =>
    obtain ⟨messageId, record⟩ := entry
    rw [map_cons, mem_cons, not_or] at h
    rw [claimScan]
    split
    · split
      · rfl
      · cases now.add? request.leaseDurationMs with
        | none => rfl
        | some expiresAt =>
          dsimp only
          split
          · exact lookup_insert_ne h.1
          · rw [ih _ _ h.2]
            exact lookup_insert_ne h.1
    · exact ih _ _ h.2

theorem lookup_claimScan_first (outbox : Outbox V) (limit : Nat) {id : MessageId}
    {record : StoredOutboxMessage V}
    {rest : List (Sigma fun _ : MessageId => StoredOutboxMessage V)}
    (hrest : id ∉ rest.map (·.1)) (hclaimable : claimable request now record = true)
    (hclaims : claimFails request now record = false) :
    ∃ claimed, (claimScan request now outbox limit (⟨id, record⟩ :: rest)).outbox.lookup id =
      some claimed ∧ claimed.attempt = record.attempt + 1 := by
  rw [claimFails, Bool.or_eq_false_iff, decide_eq_false_iff_not] at hclaims
  rw [claimScan, if_pos hclaimable, if_neg hclaims.1]
  cases hexpires : now.add? request.leaseDurationMs with
  | none => simp [hexpires] at hclaims
  | some expiresAt =>
    refine ⟨claimedRecord record (claimOf request now expiresAt record), ?_, rfl⟩
    dsimp only
    split
    · exact lookup_insert _
    · rw [lookup_claimScan _ _ _ hrest]
      exact lookup_insert _

/-- A scan of entries of the outbox leaves it as it was just if it claims nothing: there is
nothing to claim, or the first entry that can be claimed fails. -/
theorem claimScan_unchanged_iff (outbox : Outbox V) (limit : Nat)
    (entries : List (Sigma fun _ : MessageId => StoredOutboxMessage V))
    (hnodup : (entries.map (·.1)).Nodup)
    (hentries : ∀ entry ∈ entries, outbox.lookup entry.1 = some entry.2) :
    (∀ id, (claimScan request now outbox limit entries).outbox.lookup id = outbox.lookup id) ↔
      ((entries.find? fun entry => claimable request now entry.2).all fun entry =>
        claimFails request now entry.2) = true := by
  induction entries with
  | nil => simp [claimScan]
  | cons entry rest ih =>
    obtain ⟨messageId, record⟩ := entry
    rw [map_cons, nodup_cons] at hnodup
    have hrecord : outbox.lookup messageId = some record := hentries _ mem_cons_self
    rw [find?_cons]
    by_cases hclaimable : claimable request now record = true
    · rw [hclaimable, all_some]
      by_cases hfails : claimFails request now record = true
      · simp only [hfails, iff_true]
        intro id
        rw [claimScan, if_pos hclaimable]
        rw [claimFails, Bool.or_eq_true, decide_eq_true_eq, isNone_iff_eq_none] at hfails
        rcases hfails with hattempt | hexpires
        · rw [if_pos hattempt]
        · rw [hexpires]
          split <;> rfl
      · -- the entry is claimed, and its attempts tell
        simp only [hfails, Bool.false_eq_true, iff_false, not_forall]
        rw [Bool.not_eq_true] at hfails
        obtain ⟨claimed, hclaimed, hattempt⟩ :=
          lookup_claimScan_first outbox limit hnodup.1 hclaimable hfails
        refine ⟨messageId, ?_⟩
        rw [hclaimed, hrecord, some.injEq]
        rintro rfl
        omega
    · rw [Bool.not_eq_true] at hclaimable
      rw [hclaimable, claimScan, hclaimable]
      exact ih hnodup.2 fun entry hmem => hentries entry (mem_cons_of_mem _ hmem)

theorem nodup_sortedOutbox (store : MemoryStateStore V) : (store.sortedOutbox.map (·.1)).Nodup := by
  have hperm := (perm_insertionSort
    (fun left right : Sigma fun _ : MessageId => StoredOutboxMessage V =>
      claimOrder left.2 right.2) store.outbox.entries).map (·.1)
  exact hperm.nodup_iff.mpr store.outbox.nodupKeys

theorem lookup_of_mem_sortedOutbox {store : MemoryStateStore V}
    {entry : Sigma fun _ : MessageId => StoredOutboxMessage V} (h : entry ∈ store.sortedOutbox) :
    store.outbox.lookup entry.1 = some entry.2 := by
  rw [sortedOutbox, mem_insertionSort] at h
  exact mem_lookup_iff.mpr h

/-- The claim gets past its checks and claims an entry. -/
def claimsFirst (store : MemoryStateStore V) (request : OutboxClaimRequest)
    (now : JsDate.Instant) : Bool :=
  store.lifecycle = .open && (store.assertFence request.fencing).isOk &&
    (store.firstClaimable request now).any fun entry => !claimFails request now entry.2

/-- **A claim that throws** leaves the store as it was just if it fails at the first entry it
would claim, or before. -/
theorem claimOutbox_unchanged_iff {store : MemoryStateStore V} {limit : Nat} {e : Rejection}
    (h : (store.claimOutbox request limit now).1 = .error e) :
    Unchanged store (store.claimOutbox request limit now).2.1 ↔
      store.claimsFirst request now = false := by
  unfold claimOutbox at h ⊢
  unfold claimsFirst
  cases hopen : store.assertOpen with
  | error e =>
    have hclosed : ¬store.lifecycle = .open := fun hlifecycle => by
      rw [assertOpen, if_pos hlifecycle] at hopen
      cases hopen
    simp [hclosed, Unchanged.refl]
  | ok _ =>
    have hlifecycle : store.lifecycle = .open := by
      by_contra hclosed
      rw [assertOpen, if_neg hclosed] at hopen
      cases hopen
    cases hfence : store.assertFence request.fencing with
    | error e => simp [Except.isOk, Except.toBool, Unchanged.refl]
    | ok advancesFence =>
      simp only [hopen, hfence] at h ⊢
      cases hfailure : (store.claimRun request limit now).failure with
      | none => simp [hfailure] at h
      | some failure =>
        have hscan := @claimScan_unchanged_iff _ request now store.outbox
          limit store.sortedOutbox store.nodup_sortedOutbox
          fun entry hmem => lookup_of_mem_sortedOutbox hmem
        have houtbox : Unchanged store { store with
              outbox := (store.claimRun request limit now).outbox } ↔
            ∀ id, (store.claimRun request limit now).outbox.lookup id = store.outbox.lookup id :=
          ⟨fun hunchanged => hunchanged.outbox, fun houtbox =>
            { Unchanged.refl store with outbox := houtbox }⟩
        rw [houtbox, claimRun, hscan, firstClaimable]
        cases store.sortedOutbox.find? fun entry => claimable request now entry.2 <;>
          simp [hlifecycle, Except.isOk, Except.toBool]

end MemoryStateStore

/-! ## Calls that throw -/

namespace StoreWorld

/-- The step settles a call with an error: a transaction, a claim or an acknowledgement. -/
inductive Throws (w w' : StoreWorld V) : Prop
  | transact {i : Nat} {call : TransactCall V} {e : Rejection} (hcall : w'.calls[i]? = some call)
    (hphase : call.phase = .settled (.error e))
    (hbefore : ∀ before, w.calls[i]? = some before → ∀ outcome, before.phase ≠ .settled outcome)
  | claimed {request : OutboxClaimRequest} {e : Rejection}
    (hanswers : w'.answers = w.answers ++ [.claimed request (.error e)])
  | acknowledged {request : OutboxAcknowledgementRequest} {e : StateError}
    (hanswers : w'.answers = w.answers ++ [.acknowledged request (.error e)])

/-- The step is the job of a claim that claims an entry. -/
def claimsFirst (w : StoreWorld V) (event : StoreEvent V) : Bool :=
  match event, w.jobs with
  | .turn now, .claim request _ :: _ => w.store.claimsFirst request now
  | _, _ => false

theorem unchanged_of_same {before after : MemoryStateStore V} (h : before.SameState after) :
    Unchanged before after := by
  obtain ⟨hrecords, hoperations, hhistory, houtbox, hsequence, hfences, hchanges, hidempotency,
    hrevision⟩ := h
  refine ⟨?_, ?_, hhistory, ?_, hsequence, ?_, hchanges, ?_, hrevision⟩
  · rw [hrecords]
    exact fun _ => rfl
  · rw [hoperations]
    exact fun _ => rfl
  · rw [houtbox]
    exact fun _ => rfl
  · rw [hfences]
    exact fun _ => rfl
  · rw [hidempotency]
    exact fun _ => rfl

variable [WireValue V]

theorem unchanged_step {w w' : StoreWorld V} {event : StoreEvent V} (h : w.step event = some w')
    (hevent : ∀ now, event ≠ .turn now) : Unchanged w.store w'.store :=
  unchanged_of_same (rests_step h hevent).store

theorem unchanged_commitJob {w w' : StoreWorld V} {jobs : List (StoreJob V)} {i : Nat}
    {issued : List (StateKey × ExpectedRevision)} {staged : StagedTransaction V} {result : V}
    (h : { w with jobs := jobs }.commitJob i issued staged result = some w')
    (hthrows : w.Throws w') : Unchanged w.store w'.store := by
  obtain ⟨call, hcall, hw⟩ := map_eq_some_iff.mp h
  split at hw
  · rw [← hw]
    exact .refl _
  next store hcommit =>
  -- a commit that writes settles its call with the result
  exfalso
  rw [← hw] at hthrows
  rcases hthrows with ⟨hthrown, hphase, hbefore⟩ | hanswers | hanswers
  · rename_i j thrown e
    simp only [setCall, getElem?_set] at hthrown
    split at hthrown
    · split at hthrown
      · rw [← some.inj hthrown] at hphase
        simp at hphase
      · cases hthrown
    · exact hbefore _ hthrown _ hphase
  · simp [setCall] at hanswers
  · simp [setCall] at hanswers

/-- **Calls that throw** leave the store as it was, except where it is the job of a claim that has
claimed an entry by then. -/
theorem throws_unchanged_iff (w w' : StoreWorld V) (event : StoreEvent V)
    (h : w.step event = some w') :
    ((∀ now, event ≠ .turn now) → Unchanged w.store w'.store) ∧
    (w.Throws w' → (Unchanged w.store w'.store ↔ w.claimsFirst event = false)) ∧
    ∀ fencing identity staged result e left,
      (commitStatements fencing identity staged result).exec w.store = (.error e, left) →
        left = w.store := by
  refine ⟨unchanged_step h, fun hthrows => ?_, ?_⟩
  · by_cases hturn : ∃ now, event = .turn now
    · obtain ⟨now, rfl⟩ := hturn
      obtain ⟨job, jobs, hjobs, hjob⟩ := turn_cases h
      cases job with
      | commit i issued staged result =>
        simp only [claimsFirst, hjobs, iff_true]
        exact unchanged_commitJob hjob hthrows
      | claim request limit =>
        obtain rfl := some.inj hjob
        simp only [claimsFirst, hjobs]
        cases hclaim : (w.store.claimOutbox request limit now).1 with
        | error e => exact claimOutbox_unchanged_iff hclaim
        | ok claims =>
          exfalso
          rcases hthrows with ⟨hcall, hphase, hbefore⟩ | hanswers | hanswers
          · exact hbefore _ hcall _ hphase
          · simp [hclaim] at hanswers
          · simp at hanswers
      | acknowledge request =>
        obtain rfl := some.inj hjob
        simp only [claimsFirst, hjobs, iff_true]
        rcases acknowledgeOutbox_cases w.store request now with
          ⟨e, hcase⟩ | ⟨_, _, _, _, hcase, -⟩ | ⟨_, _, _, hcase, -⟩
        · rw [hcase]
          exact .refl _
        all_goals
          exfalso
          rcases hthrows with ⟨hcall, hphase, hbefore⟩ | hanswers | hanswers
          · exact hbefore _ hcall _ hphase
          · simp at hanswers
          · simp [hcase] at hanswers
    · rw [not_exists] at hturn
      have hclaims : w.claimsFirst event = false := by
        cases event with
        | turn now => exact absurd rfl (hturn now)
        | _ => rfl
      simp only [hclaims, iff_true]
      exact unchanged_step h hturn
  · intro fencing identity staged result e left hexec
    rw [exec_commitStatements] at hexec
    split at hexec
    · exact (Prod.mk.inj hexec).2.symm
    · cases (Prod.mk.inj hexec).1

/-! ## A claim that has claimed -/

/-- An entry that was claimed this often. -/
def entryOf (message : OutboxMessage Unit) (sequence attempt : Nat) : StoredOutboxMessage Unit :=
  { enqueued message sequence with attempt := attempt }

def secondMessage : OutboxMessage Unit := { sampleMessage with messageId := Text.js "n" }

/-- Two messages wait, and the attempts of the second are used up. -/
def usedUpStore : MemoryStateStore Unit :=
  { MemoryStateStore.new with
    outbox := ((∅ : Outbox Unit).insert secondMessage.messageId
      (entryOf secondMessage 2 maxSafeInteger)).insert sampleMessage.messageId
        (entryOf sampleMessage 1 0)
    outboxSequence := 2
    lifecycle := .open }

/-- A claim of both has reached the head of the queue. -/
def usedUpWorld (store : MemoryStateStore Unit) : StoreWorld Unit :=
  { StoreWorld.initial with
    store := store
    jobs := [.claim { sampleClaim with limit := some 2 } 2] }

/-- **The claim throws at the second message and keeps the first.** -/
theorem usedUpWorld_changes :
    ∃ w', (usedUpWorld usedUpStore).step (.turn JsDate.epochStart) = some w' ∧
      (usedUpWorld usedUpStore).Throws w' ∧ ¬Unchanged (usedUpWorld usedUpStore).store w'.store := by
  refine ⟨_, rfl, .claimed rfl, fun hunchanged => ?_⟩
  have hattempt := congrArg (Option.map (·.attempt)) (hunchanged.outbox sampleMessage.messageId)
  revert hattempt
  decide +kernel

/-- Were the used up message the only one, the store would be as it was. -/
theorem throws_unchanged_iff_usedUp :
    ∃ w w' : StoreWorld Unit, w.step (.turn JsDate.epochStart) = some w' ∧ w.Throws w' ∧
      Unchanged w.store w'.store := by
  let w := usedUpWorld
    { usedUpStore with outbox := usedUpStore.outbox.erase sampleMessage.messageId }
  let w' := (w.step (.turn JsDate.epochStart)).getD initial
  have hstep : w.step (.turn JsDate.epochStart) = some w' := rfl
  have hthrows : w.Throws w' := .claimed rfl
  have hclaims : w.claimsFirst (.turn JsDate.epochStart) = false := by decide +kernel
  exact ⟨w, w', hstep, hthrows, ((throws_unchanged_iff w w' _ hstep).2.1 hthrows).mpr hclaims⟩

end StoreWorld

end TegoNext
