/-
The outbox on the memory store and on SQLite.

The table of the database is the outbox of the memory store written as rows (`Mirrors`), and
a claim selects the same entries in the same order as long as texts and instants compare
alike. They do unless a year has a sign (`InForm`).

A claim also may stop halfway, at a message whose attempts are used up. The memory store
keeps what it has claimed until then, the database rolls back.
-/
import TegoNext.SqliteOutbox
import TegoNext.OutboxClaims

set_option autoImplicit false

namespace TegoNext

open List Option Except AList

variable {V : Type}

/-! ## The property -/

/-- A call on the outbox of a store, made when the calls before it are settled. -/
inductive OutboxCall (V : Type) where
  | enqueue (messages : List (OutboxMessage V)) (fencing : Option StateFencing) (result : V)
  | claim (request : OutboxClaimRequest) (now : JsDate.Instant)
  | acknowledge (request : OutboxAcknowledgementRequest) (now : JsDate.Instant)

/-- What a claim answers: its claims in order, or `none` where it is rejected. -/
abbrev ClaimAnswer (V : Type) : Type := Option (List (OutboxClaim V))

section Runs

variable [WireValue V]

namespace MemoryStateStore

def opened : MemoryStateStore V := { MemoryStateStore.new with lifecycle := .open }

/-- `transact` of a body that enqueues messages and returns `result`. -/
def transactMessages (store : MemoryStateStore V) (messages : List (OutboxMessage V))
    (fencing : Option StateFencing) (result : V) : Except StateError (MemoryStateStore V) := do
  store.assertOpen
  let tx ← messages.foldlM MemoryTransaction.enqueueOutbox (MemoryTransaction.start store.records)
  let (staged, _) ← tx.finish
  store.commit fencing none staged result

def outboxCall (store : MemoryStateStore V) :
    OutboxCall V → List (ClaimAnswer V) × MemoryStateStore V
  | .enqueue messages fencing result =>
    match store.transactMessages messages fencing result with
    | .error _ => ([], store)
    | .ok store => ([], store)
  | .claim request now =>
    match assertOutboxClaimRequest request with
    | .error _ => ([none], store)
    | .ok limit =>
      let job := store.claimOutbox request limit now
      ([job.1.toOption], job.2.1)
  | .acknowledge request now =>
    match assertOutboxAcknowledgementRequest request with
    | .error _ => ([], store)
    | .ok _ => ([], (store.acknowledgeOutbox request now).2)

/-- What the claims of a run answer. -/
def outboxCalls (store : MemoryStateStore V) : List (OutboxCall V) → List (ClaimAnswer V)
  | [] => []
  | call :: rest => (store.outboxCall call).1 ++ (store.outboxCall call).2.outboxCalls rest

end MemoryStateStore

namespace SqliteOutbox

/-- One call: the answer of a claim, and the database it leaves behind. -/
def outboxCall (db : SqliteOutbox V) : OutboxCall V → List (ClaimAnswer V) × SqliteOutbox V
  | .enqueue messages fencing _ =>
    match db.commit fencing messages with
    | .error _ => ([], db)
    | .ok db => ([], db)
  | .claim request now =>
    match assertOutboxClaimRequest request with
    | .error _ => ([none], db)
    | .ok limit =>
      let job := db.claimOutbox request limit now
      ([job.1.toOption], job.2)
  | .acknowledge request now =>
    match assertOutboxAcknowledgementRequest request with
    | .error _ => ([], db)
    | .ok _ => ([], (db.acknowledgeOutbox request now).2)

/-- What the claims of a run answer. -/
def outboxCalls (db : SqliteOutbox V) : List (OutboxCall V) → List (ClaimAnswer V)
  | [] => []
  | call :: rest => (db.outboxCall call).1 ++ (db.outboxCall call).2.outboxCalls rest

end SqliteOutbox

/-- On both stores the claims of a run answer alike: the same messages in the same order,
with the same attempts. -/
def ClaimsAgree (calls : List (OutboxCall V)) : Prop :=
  (MemoryStateStore.opened (V := V)).outboxCalls calls =
    (SqliteOutbox.migrated (V := V)).outboxCalls calls

/-! ## The condition -/

/-- A claim looks at the times of this message: it is not completed, and of the topic. -/
def OutboxClaimRequest.Considers (request : OutboxClaimRequest) (record : StoredOutboxMessage V) :
    Prop :=
  (∀ acknowledgement, record.acknowledgement = some acknowledgement →
    acknowledgement.outcome ≠ .completed) ∧
  ∀ topic, request.topic = some topic → record.message.topic = topic

/-- The times of a message have years of the same form as the clock reading. -/
def StoredOutboxMessage.SameForm (record : StoredOutboxMessage V) (now : JsDate.Instant) : Prop :=
  (∀ t, JsDate.parse record.message.availableAt = some t → JsDate.SameForm t now.ms) ∧
  ∀ claim, record.claim = some claim → JsDate.SameForm claim.expiresAt.ms now.ms

/-- The messages a claim finds claimable, up to its limit. -/
def MemoryStateStore.selected (store : MemoryStateStore V) (request : OutboxClaimRequest)
    (limit : Nat) (now : JsDate.Instant) : List (Sigma fun _ : MessageId => StoredOutboxMessage V) :=
  (store.sortedOutbox.filter fun entry => MemoryStateStore.claimable request now entry.2).take limit

/-- **The condition**, on a call and the store it finds: where a claim passes its guards,
every message it considers has times of the same form as the clock reading, and only the
first of the messages it selects may have its attempts used up. -/
def OutboxCall.InForm (store : MemoryStateStore V) : OutboxCall V → Prop
  | .claim request now =>
    ∀ limit advancesFence, assertOutboxClaimRequest request = .ok limit →
      store.assertFence request.fencing = .ok advancesFence →
        (∀ id record, store.outbox.lookup id = some record → request.Considers record →
          record.SameForm now) ∧
        ∀ entry ∈ (store.selected request limit now).tail, entry.2.attempt < maxSafeInteger
  | _ => True

/-- The condition along a run. -/
def CallsInForm (store : MemoryStateStore V) : List (OutboxCall V) → Prop
  | [] => True
  | call :: rest => call.InForm store ∧ CallsInForm (store.outboxCall call).2 rest

end Runs

/-! ## The outbox written as rows -/

/-- An entry of the memory store as a row: completing a message writes the time into
`available_at`. -/
def rowOf (record : StoredOutboxMessage V) : OutboxRow V where
  messageId := record.message.messageId
  operationId := record.message.operationId
  topic := record.message.topic
  payload := record.message.payload
  createdAt := record.message.createdAt
  availableAt :=
    match record.acknowledgement with
    | some acknowledgement =>
      if acknowledgement.outcome = .completed then
        JsDate.toISOString acknowledgement.acknowledgedAt.ms
      else record.message.availableAt
    | none => record.message.availableAt
  attempt := record.attempt
  claimOwner := record.claim.map (·.owner)
  claimEpoch := record.claim.map (·.claimEpoch)
  claimedAt := record.claim.map (·.claimedAt)
  claimExpiresAt := record.claim.map fun claim => JsDate.toISOString claim.expiresAt.ms
  acknowledgementOutcome := record.acknowledgement.map (·.outcome)
  acknowledgementOwner := record.acknowledgedClaim.map (·.owner)
  acknowledgementClaimEpoch := record.acknowledgedClaim.map (·.claimEpoch)
  acknowledgementRetryAt := record.acknowledgement.bind (·.retryAt)
  acknowledgedAt := record.acknowledgement.map (·.acknowledgedAt)
  enqueueSequence := record.enqueueSequence

theorem existingMessage_rowOf {record : StoredOutboxMessage V}
    (h : ∀ acknowledgement, record.acknowledgement = some acknowledgement →
      acknowledgement.outcome ≠ .completed) :
    (rowOf record).availableAt = record.message.availableAt ∧
      SqliteOutbox.existingMessage record.message.messageId (rowOf record) = record.message := by
  have havailable : (rowOf record).availableAt = record.message.availableAt := by
    unfold rowOf
    split
    · next acknowledgement hacked => exact if_neg (h acknowledgement hacked)
    · rfl
  refine ⟨havailable, ?_⟩
  unfold SqliteOutbox.existingMessage
  rw [havailable]
  rfl

def tableOf (outbox : Outbox V) : OutboxTable V where
  entries := outbox.entries.map fun entry => ⟨entry.1, rowOf entry.2⟩
  nodupKeys := by
    have hkeys : (outbox.entries.map fun entry =>
        (⟨entry.1, rowOf entry.2⟩ : Sigma fun _ : MessageId => OutboxRow V)).keys =
          outbox.entries.keys := by
      rw [List.keys, List.map_map]
      rfl
    rw [List.NodupKeys, hkeys]
    exact outbox.nodupKeys

theorem lookup_tableOf (outbox : Outbox V) (id : MessageId) :
    (tableOf outbox).lookup id = (outbox.lookup id).map rowOf :=
  dlookup_map₂ (l := outbox.entries) (f := fun _ => rowOf) id

theorem tableOf_insert (outbox : Outbox V) (id : MessageId) (record : StoredOutboxMessage V) :
    tableOf (outbox.insert id record) = (tableOf outbox).insert id (rowOf record) := by
  have hkerase : ∀ entries : List (Sigma fun _ : MessageId => StoredOutboxMessage V),
      (entries.kerase id).map (fun entry =>
        (⟨entry.1, rowOf entry.2⟩ : Sigma fun _ : MessageId => OutboxRow V)) =
      (entries.map fun entry => ⟨entry.1, rowOf entry.2⟩).kerase id := by
    intro entries
    induction entries with
    | nil => rfl
    | cons entry rest ih =>
      let row : Sigma fun _ : MessageId => OutboxRow V := ⟨entry.1, rowOf entry.2⟩
      by_cases hid : id = entry.1
      · rw [kerase_cons_eq hid, map_cons]
        exact (kerase_cons_eq (s := row) hid).symm
      · rw [kerase_cons_ne hid, map_cons, map_cons, ih]
        exact (kerase_cons_ne (s := row) hid).symm
  have hcons := congrArg (List.cons (⟨id, rowOf record⟩ : Sigma fun _ : MessageId => OutboxRow V))
    (hkerase outbox.entries)
  exact AList.ext hcons

/-! ## Sound outboxes -/

/-- An outbox of which `sequence` messages were enqueued: entries are kept under their
identity, with canonical times, distinct numbers and safe attempts. -/
structure OutboxSound (outbox : Outbox V) (sequence : Nat) : Prop where
  key : ∀ id record, outbox.lookup id = some record → record.message.messageId = id
  available : ∀ id record, outbox.lookup id = some record →
    JsDate.validTimestamp record.message.availableAt = true
  numbered : ∀ id record, outbox.lookup id = some record → record.enqueueSequence ≤ sequence
  distinct : ∀ id record id' record', outbox.lookup id = some record →
    outbox.lookup id' = some record' → record.enqueueSequence = record'.enqueueSequence → id = id'
  last : sequence = 0 ∨ ∃ id record, outbox.lookup id = some record ∧
    record.enqueueSequence = sequence
  attempts : ∀ id record, outbox.lookup id = some record → record.attempt ≤ maxSafeInteger
  claimed : ∀ id record claim, outbox.lookup id = some record → record.claim = some claim →
    0 < record.attempt

namespace OutboxSound

variable {outbox : Outbox V} {sequence : Nat} {id : MessageId} {record record' : StoredOutboxMessage V}

theorem empty : OutboxSound (∅ : Outbox V) 0 where
  key _ _ h := absurd h (by simp)
  available _ _ h := absurd h (by simp)
  numbered _ _ h := absurd h (by simp)
  distinct _ _ _ _ h := absurd h (by simp)
  last := .inl rfl
  attempts _ _ h := absurd h (by simp)
  claimed _ _ _ h := absurd h (by simp)

theorem rewrite (h : OutboxSound outbox sequence) (hrecord : outbox.lookup id = some record)
    (hkey : record'.message.messageId = record.message.messageId)
    (havailable : JsDate.validTimestamp record'.message.availableAt = true)
    (hnumber : record'.enqueueSequence = record.enqueueSequence)
    (hattempt : record'.attempt ≤ maxSafeInteger)
    (hclaimed : ∀ claim, record'.claim = some claim → 0 < record'.attempt) :
    OutboxSound (outbox.insert id record') sequence := by
  refine ⟨?_, ?_, ?_, ?_, ?_, ?_, ?_⟩
  · intro k r hlookup
    obtain ⟨rfl, rfl⟩ | ⟨-, hold⟩ := lookup_insert_cases hlookup
    · exact hkey.trans (h.key _ _ hrecord)
    · exact h.key k r hold
  · intro k r hlookup
    obtain ⟨rfl, rfl⟩ | ⟨-, hold⟩ := lookup_insert_cases hlookup
    · exact havailable
    · exact h.available k r hold
  · intro k r hlookup
    obtain ⟨rfl, rfl⟩ | ⟨-, hold⟩ := lookup_insert_cases hlookup
    · exact hnumber ▸ h.numbered _ _ hrecord
    · exact h.numbered k r hold
  · intro k r k' r' hlookup hlookup' heq
    obtain ⟨rfl, rfl⟩ | ⟨hk, hold⟩ := lookup_insert_cases hlookup
    · obtain ⟨rfl, rfl⟩ | ⟨-, hold'⟩ := lookup_insert_cases hlookup'
      · rfl
      · exact h.distinct _ _ _ _ hrecord hold' (hnumber.symm.trans heq)
    · obtain ⟨rfl, rfl⟩ | ⟨-, hold'⟩ := lookup_insert_cases hlookup'
      · exact h.distinct _ _ _ _ hold hrecord (heq.trans hnumber)
      · exact h.distinct _ _ _ _ hold hold' heq
  · obtain hzero | ⟨k, r, hlookup, hlast⟩ := h.last
    · exact .inl hzero
    · by_cases hk : k = id
      · subst hk
        rw [hrecord] at hlookup
        obtain rfl := some.inj hlookup
        exact .inr ⟨k, record', lookup_insert _, hnumber.trans hlast⟩
      · exact .inr ⟨k, r, (lookup_insert_ne hk).trans hlookup, hlast⟩
  · intro k r hlookup
    obtain ⟨rfl, rfl⟩ | ⟨-, hold⟩ := lookup_insert_cases hlookup
    · exact hattempt
    · exact h.attempts k r hold
  · intro k r claim hlookup hclaim
    obtain ⟨rfl, rfl⟩ | ⟨-, hold⟩ := lookup_insert_cases hlookup
    · exact hclaimed claim hclaim
    · exact h.claimed k r claim hold hclaim

theorem enqueue (h : OutboxSound outbox sequence) {message : OutboxMessage V}
    (havailable : JsDate.validTimestamp message.availableAt = true) :
    OutboxSound (outbox.insert message.messageId (MemoryStateStore.enqueued message (sequence + 1)))
      (sequence + 1) := by
  refine ⟨?_, ?_, ?_, ?_, .inr ⟨_, _, lookup_insert _, rfl⟩, ?_, ?_⟩
  · intro k r hlookup
    obtain ⟨rfl, rfl⟩ | ⟨-, hold⟩ := lookup_insert_cases hlookup
    · rfl
    · exact h.key k r hold
  · intro k r hlookup
    obtain ⟨rfl, rfl⟩ | ⟨-, hold⟩ := lookup_insert_cases hlookup
    · exact havailable
    · exact h.available k r hold
  · intro k r hlookup
    obtain ⟨rfl, rfl⟩ | ⟨-, hold⟩ := lookup_insert_cases hlookup
    · exact Nat.le_refl _
    · exact Nat.le_succ_of_le (h.numbered k r hold)
  · intro k r k' r' hlookup hlookup' heq
    obtain ⟨rfl, rfl⟩ | ⟨-, hold⟩ := lookup_insert_cases hlookup
    · obtain ⟨rfl, rfl⟩ | ⟨-, hold'⟩ := lookup_insert_cases hlookup'
      · rfl
      · exact absurd (h.numbered k' r' hold') (heq ▸ Nat.not_succ_le_self sequence)
    · obtain ⟨rfl, rfl⟩ | ⟨-, hold'⟩ := lookup_insert_cases hlookup'
      · exact absurd (h.numbered k r hold) (heq ▸ Nat.not_succ_le_self sequence)
      · exact h.distinct k r k' r' hold hold' heq
  · intro k r hlookup
    obtain ⟨rfl, rfl⟩ | ⟨-, hold⟩ := lookup_insert_cases hlookup
    · exact Nat.zero_le _
    · exact h.attempts k r hold
  · intro k r claim hlookup hclaim
    obtain ⟨rfl, rfl⟩ | ⟨-, hold⟩ := lookup_insert_cases hlookup
    · cases hclaim
    · exact h.claimed k r claim hold hclaim

end OutboxSound

/-! ## The two stores side by side -/

/-- The database keeps the outbox of an open memory store as rows, and the same fences. -/
structure Mirrors (store : MemoryStateStore V) (db : SqliteOutbox V) : Prop where
  isOpen : store.lifecycle = .open
  rows : db.outbox = tableOf store.outbox
  fences : ∀ resource, db.fences.lookup resource = store.fences.lookup resource
  sound : OutboxSound store.outbox store.outboxSequence

namespace Mirrors

open MemoryStateStore

variable {store : MemoryStateStore V} {db : SqliteOutbox V}

theorem opened [WireValue V] : Mirrors (MemoryStateStore.opened (V := V)) SqliteOutbox.migrated :=
  ⟨rfl, rfl, fun _ => rfl, .empty⟩

theorem assertOpen (h : Mirrors store db) : store.assertOpen = .ok () := if_pos h.isOpen

theorem assertFence (h : Mirrors store db) (fencing : Option StateFencing) :
    db.assertFence fencing = store.assertFence fencing := by
  cases fencing with
  | none => rfl
  | some fencing =>
    unfold SqliteOutbox.assertFence MemoryStateStore.assertFence
    dsimp only
    rw [h.fences] <;> rfl

theorem lookup_advanceFence (hfences : ∀ resource,
      db.fences.lookup resource = store.fences.lookup resource)
    (fencing : Option StateFencing) (resource : JsString) :
    (db.advanceFence fencing).fences.lookup resource =
      (store.advanceFence fencing).fences.lookup resource := by
  cases fencing with
  | none => exact hfences resource
  | some fencing =>
    unfold SqliteOutbox.advanceFence MemoryStateStore.advanceFence
    by_cases hr : resource = fencing.resource
    · rw [hr, lookup_insert, lookup_insert]
    · rw [lookup_insert_ne hr, lookup_insert_ne hr, hfences]

theorem lookup_advanceFence_of_current {fencing : Option StateFencing}
    (h : store.assertFence fencing = .ok false) (resource : JsString) :
    (store.advanceFence fencing).fences.lookup resource = store.fences.lookup resource := by
  cases fencing with
  | none => rfl
  | some fencing =>
    unfold MemoryStateStore.assertFence at h
    unfold MemoryStateStore.advanceFence
    dsimp only at h ⊢
    split at h
    · cases h
    next current hcurrent =>
    split at h
    · cases h
    next hle =>
    have hge := of_decide_eq_false (ok.inj h)
    by_cases hr : resource = fencing.resource
    · rw [hr, lookup_insert, hcurrent]
      exact congrArg some (Nat.le_antisymm (Nat.le_of_not_lt hge) (Nat.le_of_not_lt hle))
    · rw [lookup_insert_ne hr]

/-! ## Enqueuing -/

theorem maximumSequence (h : Mirrors store db) : db.maximumSequence = store.outboxSequence := by
  have hrows : db.maximumSequence =
      (store.outbox.entries.map fun entry => entry.2.enqueueSequence).foldr max 0 := by
    unfold SqliteOutbox.maximumSequence
    rw [h.rows, tableOf, List.map_map]
    rfl
  have hle : ∀ numbers : List Nat, (∀ n ∈ numbers, n ≤ store.outboxSequence) →
      numbers.foldr max 0 ≤ store.outboxSequence := by
    intro numbers
    induction numbers with
    | nil => exact fun _ => Nat.zero_le _
    | cons n rest ih =>
      intro hall
      exact Nat.max_le.mpr ⟨hall n mem_cons_self, ih fun m hm => hall m (mem_cons_of_mem _ hm)⟩
  have hge : ∀ numbers : List Nat, ∀ n ∈ numbers, n ≤ numbers.foldr max 0 := by
    intro numbers
    induction numbers with
    | nil => exact fun _ hn => absurd hn not_mem_nil
    | cons m rest ih =>
      intro n hn
      obtain rfl | hrest := mem_cons.mp hn
      · exact Nat.le_max_left _ _
      · exact Nat.le_trans (ih n hrest) (Nat.le_max_right _ _)
  rw [hrows]
  refine Nat.le_antisymm (hle _ fun n hn => ?_) ?_
  · obtain ⟨entry, hentry, rfl⟩ := List.mem_map.mp hn
    exact h.sound.numbered _ _ (mem_lookup_iff.mpr hentry)
  · obtain hzero | ⟨id, record, hlookup, hlast⟩ := h.sound.last
    · rw [hzero]
      exact Nat.zero_le _
    · exact hge _ _ (List.mem_map.mpr ⟨⟨id, record⟩, mem_lookup_iff.mp hlookup, hlast⟩)

section Messages

variable [WireValue V]

theorem stageOutbox (h : Mirrors store db) (newOutbox messages : List (OutboxMessage V)) :
    db.stageOutbox newOutbox messages =
      MemoryStateStore.stageOutbox store.outbox newOutbox messages := by
  induction messages generalizing newOutbox with
  | nil => rfl
  | cons message rest ih =>
    unfold SqliteOutbox.stageOutbox MemoryStateStore.stageOutbox
    simp only [ih, h.rows, lookup_tableOf]
    cases hrecord : store.outbox.lookup message.messageId with
    | none => rfl
    | some record =>
      have hkey := h.sound.key _ _ hrecord
      have hsame : sameOutboxMessage
          (SqliteOutbox.existingMessage message.messageId (rowOf record)) message =
            sameOutboxMessage record.message message := by
        unfold sameOutboxMessage SqliteOutbox.existingMessage
        rw [hkey]
        rfl
      have hretry : (rowOf record).acknowledgementOutcome = some .retry ↔
          (record.acknowledgement.any fun a => a.outcome == .retry) = true := by
        cases hacked : record.acknowledgement with
        | none => simp [rowOf, hacked]
        | some acknowledgement => simp [rowOf, hacked]
      simp only [map_some, hsame, hretry] <;> rfl

omit [WireValue V] in
theorem insertOutbox (outbox : Outbox V) (sequence : Nat) (messages : List (OutboxMessage V)) :
    SqliteOutbox.insertOutbox (tableOf outbox) sequence messages =
      tableOf (MemoryStateStore.insertOutbox outbox sequence messages) := by
  induction messages generalizing outbox sequence with
  | nil => rfl
  | cons message rest ih =>
    rw [SqliteOutbox.insertOutbox, MemoryStateStore.insertOutbox, ← ih, tableOf_insert]
    rfl

end Messages

end Mirrors

theorem validTimestamp_of_stageOutbox [WireValue V] {outbox : Outbox V}
    {acc staged result : List (OutboxMessage V)}
    (h : MemoryStateStore.stageOutbox outbox acc staged = .ok result)
    (hacc : ∀ message ∈ acc, JsDate.validTimestamp message.availableAt = true) :
    ∀ message ∈ result, JsDate.validTimestamp message.availableAt = true := by
  induction staged generalizing acc with
  | nil =>
    cases ok.inj h
    exact hacc
  | cons m rest ih =>
    simp only [MemoryStateStore.stageOutbox, bind, Except.bind] at h
    split at h
    · cases h
    split at h
    · cases h
    next htimes =>
    have hvalid : JsDate.validTimestamp m.availableAt = true := by
      unfold assertOutboxTimestamps at htimes
      split at htimes
      · cases htimes
      next hnot =>
      rw [Bool.or_eq_true, not_or, Bool.not_eq_true', Bool.not_eq_true'] at hnot
      exact Bool.not_eq_false _ ▸ hnot.2
    have hnew : ∀ message ∈ acc ++ [m], JsDate.validTimestamp message.availableAt = true := by
      intro message hmessage
      obtain hin | hin := mem_append.mp hmessage
      · exact hacc message hin
      · rw [mem_singleton.mp hin]
        exact hvalid
    split at h
    · split at h
      · exact ih h hacc
      · cases h
    split at h
    · exact ih h hnew
    split at h
    · exact ih h hnew
    split at h
    · exact ih h hacc
    · cases h

theorem OutboxSound.insertOutbox {outbox : Outbox V} {sequence : Nat}
    (h : OutboxSound outbox sequence) {messages : List (OutboxMessage V)}
    (hvalid : ∀ message ∈ messages, JsDate.validTimestamp message.availableAt = true) :
    OutboxSound (MemoryStateStore.insertOutbox outbox sequence messages)
      (sequence + messages.length) := by
  induction messages generalizing outbox sequence with
  | nil => exact h
  | cons message rest ih =>
    have hrest := ih (h.enqueue (hvalid message mem_cons_self)) fun m hm =>
      hvalid m (mem_cons_of_mem _ hm)
    rw [length_cons, Nat.add_comm rest.length 1, ← Nat.add_assoc]
    exact hrest

/-! ## Candidates -/

section Candidates

variable {request : OutboxClaimRequest} {now : JsDate.Instant} {outbox : Outbox V} {sequence : Nat}

def compareClaims (left right : StoredOutboxMessage V) : Ordering :=
  (Text.compareText left.message.availableAt right.message.availableAt).then
    ((compare left.enqueueSequence right.enqueueSequence).then
      (Text.compareText left.message.messageId right.message.messageId))

instance : Std.TransCmp (compareClaims (V := V)) :=
  have := transCmp_comap Text.compareText
    fun record : StoredOutboxMessage V => record.message.availableAt
  have := transCmp_comap (compare : Nat → Nat → Ordering)
    fun record : StoredOutboxMessage V => record.enqueueSequence
  have := transCmp_comap Text.compareText
    fun record : StoredOutboxMessage V => record.message.messageId
  inferInstanceAs (Std.TransCmp (compareLex
    (fun left right : StoredOutboxMessage V =>
      Text.compareText left.message.availableAt right.message.availableAt)
    (compareLex (fun left right : StoredOutboxMessage V =>
        compare left.enqueueSequence right.enqueueSequence)
      fun left right : StoredOutboxMessage V =>
        Text.compareText left.message.messageId right.message.messageId)))

theorem claimOrder_iff (left right : StoredOutboxMessage V) :
    MemoryStateStore.claimOrder left right = true ↔ compareClaims left right ≠ .gt :=
  decide_eq_true_iff

instance : Std.Total fun left right : Sigma fun _ : MessageId => StoredOutboxMessage V =>
    MemoryStateStore.claimOrder left.2 right.2 = true where
  total left right := by
    rw [claimOrder_iff, claimOrder_iff]
    exact Std.Total.total (r := fun a b : StoredOutboxMessage V => compareClaims a b ≠ .gt) left.2 right.2

instance : IsTrans (Sigma fun _ : MessageId => StoredOutboxMessage V) fun left right =>
    MemoryStateStore.claimOrder left.2 right.2 = true where
  trans a b c := by
    rw [claimOrder_iff, claimOrder_iff, claimOrder_iff]
    exact IsTrans.trans (r := fun a b : StoredOutboxMessage V => compareClaims a b ≠ .gt) a.2 b.2 c.2

theorem OutboxSound.eq_of_claimOrder (h : OutboxSound outbox sequence)
    {left right : Sigma fun _ : MessageId => StoredOutboxMessage V} (hleft : left ∈ outbox.entries)
    (hright : right ∈ outbox.entries)
    (hle : MemoryStateStore.claimOrder left.2 right.2 = true)
    (hge : MemoryStateStore.claimOrder right.2 left.2 = true) : left = right := by
  rw [claimOrder_iff] at hle hge
  have heq := Std.OrientedCmp.isLE_antisymm (Ordering.ne_gt_iff_isLE.mp hle)
    (Ordering.ne_gt_iff_isLE.mp hge)
  rw [compareClaims, Ordering.then_eq_eq, Ordering.then_eq_eq] at heq
  have hkey := h.distinct _ _ _ _ (mem_lookup_iff.mpr hleft) (mem_lookup_iff.mpr hright)
    (Nat.compare_eq_eq.mp heq.2.1)
  exact List.NodupKeys.eq_of_fst_eq outbox.nodupKeys hleft hright hkey

theorem considers_of_claimable {record : StoredOutboxMessage V}
    (h : MemoryStateStore.claimable request now record = true) : request.Considers record := by
  unfold MemoryStateStore.claimable at h
  simp only [Bool.not_eq_true', Bool.or_eq_false_iff] at h
  refine ⟨fun acknowledgement hacked hcompleted => ?_, fun topic htopic => ?_⟩
  · have hany := h.1.1.1
    rw [hacked, any_some, hcompleted] at hany
    cases hany
  · have hany := h.1.1.2
    rw [htopic, any_some, bne_eq_false_iff_eq] at hany
    exact hany

/-- **The query selects what the memory store finds claimable**, where the times it compares
have the form of the clock reading. -/
theorem isCandidate_rowOf {record : StoredOutboxMessage V}
    (hvalid : JsDate.validTimestamp record.message.availableAt = true)
    (hform : request.Considers record → record.SameForm now) :
    SqliteOutbox.isCandidate request (JsDate.toISOString now.ms) (rowOf record) =
      MemoryStateStore.claimable request now record := by
  by_cases hconsiders : request.Considers record
  · obtain ⟨havailable, hclaim⟩ := hform hconsiders
    obtain ⟨t, hparse, htext⟩ := JsDate.toISOString_of_validTimestamp hvalid
    have hoff : (record.acknowledgement.any fun a => a.outcome == .completed) = false := by
      cases hacked : record.acknowledgement with
      | none => rfl
      | some acknowledgement =>
        rw [any_some, beq_eq_false_iff_ne]
        exact hconsiders.1 acknowledgement hacked
    have htopic : (request.topic.any fun t => record.message.topic != t) = false := by
      cases htopic : request.topic with
      | none => rfl
      | some topic =>
        rw [any_some, bne_eq_false_iff_eq]
        exact hconsiders.2 topic htopic
    have houtcome : ((rowOf record).acknowledgementOutcome != some .completed) = true := by
      rw [bne_iff_ne]
      intro hcompleted
      obtain ⟨acknowledgement, hacked, houtcome⟩ := map_eq_some_iff.mp hcompleted
      exact hconsiders.1 acknowledgement hacked houtcome
    have htopicRow : (request.topic.all fun topic => (rowOf record).topic == topic) = true := by
      rw [Option.all_eq_true]
      exact fun topic htopic => beq_iff_eq.mpr (hconsiders.2 topic htopic)
    have havailableRow : (Text.compareColumns (rowOf record).availableAt
        (JsDate.toISOString now.ms) != .gt) = !decide (now.ms < t) := by
      rw [(existingMessage_rowOf hconsiders.1).1, Bool.eq_iff_iff, bne_iff_ne,
        JsDate.compareColumns_le_iff hparse htext (havailable t hparse), Bool.not_eq_true',
        decide_eq_false_iff_not, Int.not_lt]
    have hclaimRow : ((rowOf record).claimExpiresAt.all fun expiresAt =>
        Text.compareColumns expiresAt (JsDate.toISOString now.ms) != .gt) =
          !(record.claim.any fun claim => decide (now.ms < claim.expiresAt.ms)) := by
      cases hheld : record.claim with
      | none => simp [rowOf, hheld]
      | some claim =>
        have hle : Text.compareColumns (JsDate.toISOString claim.expiresAt.ms)
            (JsDate.toISOString now.ms) ≠ .gt ↔ claim.expiresAt.ms ≤ now.ms := by
          rw [Text.compareColumns_of_isAscii (JsDate.isAscii_toISOString _)
            (JsDate.isAscii_toISOString _)]
          exact JsDate.compareText_toISOString_iff.mpr (hclaim claim hheld)
        have hcolumn : (rowOf record).claimExpiresAt =
            some (JsDate.toISOString claim.expiresAt.ms) := by
          rw [rowOf, hheld]
          rfl
        rw [hcolumn, all_some, any_some, Bool.eq_iff_iff, bne_iff_ne, hle,
          Bool.not_eq_true', decide_eq_false_iff_not, Int.not_lt]
    unfold SqliteOutbox.isCandidate MemoryStateStore.claimable
    rw [houtcome, htopicRow, havailableRow, hclaimRow, hoff, htopic, hparse, any_some,
      Bool.true_and, Bool.true_and, Bool.false_or, Bool.false_or, Bool.not_or]
  · -- a message that is not considered is not selected by either
    have hneither : MemoryStateStore.claimable request now record = false :=
      Bool.eq_false_iff.mpr fun h => hconsiders (considers_of_claimable h)
    rw [hneither, Bool.eq_false_iff]
    intro hcandidate
    unfold SqliteOutbox.isCandidate at hcandidate
    simp only [Bool.and_eq_true, bne_iff_ne, Option.all_eq_true] at hcandidate
    refine hconsiders ⟨fun acknowledgement hacked hcompleted => ?_, fun topic htopic => ?_⟩
    · refine hcandidate.1.1.1 ?_
      rw [rowOf, hacked, map_some, hcompleted]
    · exact beq_iff_eq.mp (hcandidate.1.1.2 topic htopic)

theorem candidateOrder_rowOf (h : OutboxSound outbox sequence)
    {left right : Sigma fun _ : MessageId => StoredOutboxMessage V} (hleft : left ∈ outbox.entries)
    (hright : right ∈ outbox.entries) (hconsiders : request.Considers left.2)
    (hconsiders' : request.Considers right.2) :
    SqliteOutbox.candidateOrder (rowOf left.2) (rowOf right.2) =
      MemoryStateStore.claimOrder left.2 right.2 := by
  have hlookup := mem_lookup_iff.mpr hleft
  have hlookup' := mem_lookup_iff.mpr hright
  have hascii : ∀ record : StoredOutboxMessage V,
      JsDate.validTimestamp record.message.availableAt = true →
        Text.isAscii record.message.availableAt = true := by
    intro record hvalid
    obtain ⟨t, -, htext⟩ := JsDate.toISOString_of_validTimestamp hvalid
    exact htext ▸ JsDate.isAscii_toISOString t
  unfold SqliteOutbox.candidateOrder MemoryStateStore.claimOrder
  rw [(existingMessage_rowOf hconsiders.1).1, (existingMessage_rowOf hconsiders'.1).1,
    Text.compareColumns_of_isAscii (hascii _ (h.available _ _ hlookup))
      (hascii _ (h.available _ _ hlookup'))]
  have hnumber : ∀ record : StoredOutboxMessage V,
      (rowOf record).enqueueSequence = record.enqueueSequence := fun _ => rfl
  rw [hnumber, hnumber]
  by_cases heq : left.2.enqueueSequence = right.2.enqueueSequence
  · -- one number, one entry
    have hsame := List.NodupKeys.eq_of_fst_eq outbox.nodupKeys hleft hright
      (h.distinct _ _ _ _ hlookup hlookup' heq)
    have hself : ∀ bytes : List Nat, compareBytes bytes bytes = .eq := fun bytes => by
      induction bytes with
      | nil => rfl
      | cons byte rest ih =>
        rw [compareBytes, List.compareLex_cons_cons, Nat.compare_eq_eq.mpr rfl, Ordering.eq_then]
        exact ih
    rw [hsame, Text.compareColumns, hself, Text.compareText_self, Text.compareText_self]
  · have hne : ∀ last : Ordering,
        (compare left.2.enqueueSequence right.2.enqueueSequence).then last =
          compare left.2.enqueueSequence right.2.enqueueSequence := fun last => by
      obtain hlt | hgt := Nat.lt_or_gt_of_ne heq
      · rw [Nat.compare_eq_lt.mpr hlt, Ordering.lt_then]
      · rw [Nat.compare_eq_gt.mpr hgt, Ordering.gt_then]
    rw [hne, hne]

/-- **The candidates are the selected entries**, in the same order. -/
theorem Mirrors.candidates {store : MemoryStateStore V} {db : SqliteOutbox V}
    (h : Mirrors store db) (limit : Nat)
    (hform : ∀ id record, store.outbox.lookup id = some record → request.Considers record →
      record.SameForm now) :
    db.candidates request (JsDate.toISOString now.ms) limit =
      (store.selected request limit now).map fun entry => rowOf entry.2 := by
  have hfilter : ((db.outbox.entries.map (·.2)).filter
      (SqliteOutbox.isCandidate request (JsDate.toISOString now.ms))) =
      (store.outbox.entries.filter fun entry =>
        MemoryStateStore.claimable request now entry.2).map fun entry => rowOf entry.2 := by
    rw [h.rows, tableOf, List.map_map, List.filter_map]
    refine congrArg (List.map _) (filter_congr fun entry hentry => ?_)
    have hlookup := mem_lookup_iff.mpr hentry
    exact isCandidate_rowOf (h.sound.available _ _ hlookup) (hform _ _ hlookup)
  have hsort := map_insertionSort
    (fun left right : Sigma fun _ : MessageId => StoredOutboxMessage V =>
      MemoryStateStore.claimOrder left.2 right.2 = true)
    (fun left right : OutboxRow V => SqliteOutbox.candidateOrder left right = true)
    (fun entry => rowOf entry.2)
    (store.outbox.entries.filter fun entry => MemoryStateStore.claimable request now entry.2)
    fun left hleft right hright => by
      obtain ⟨hleft, hclaimable⟩ := mem_filter.mp hleft
      obtain ⟨hright, hclaimable'⟩ := mem_filter.mp hright
      rw [candidateOrder_rowOf h.sound hleft hright (considers_of_claimable hclaimable)
        (considers_of_claimable hclaimable')]
  unfold SqliteOutbox.candidates MemoryStateStore.selected MemoryStateStore.sortedOutbox
  rw [hfilter, ← hsort, insertionSort_filter _ fun left hleft right hright =>
    h.sound.eq_of_claimOrder hleft hright, map_take]

end Candidates

/-! ## Claims -/

section Claims

open MemoryStateStore

variable {request : OutboxClaimRequest} {now expiresAt : JsDate.Instant}

variable {limit : Nat}

theorem claimScan_selected (outbox : Outbox V) (hlimit : 0 < limit)
    (entries : List (Sigma fun _ : MessageId => StoredOutboxMessage V)) :
    claimScan request now outbox limit entries =
      claimScan request now outbox limit
        ((entries.filter fun entry => claimable request now entry.2).take limit) := by
  induction entries generalizing outbox limit with
  | nil => rw [filter_nil, take_nil]
  | cons entry rest ih =>
    obtain ⟨id, record⟩ := entry
    cases hclaimable : claimable request now record with
    | false =>
      rw [filter_cons_of_neg (by rw [hclaimable]; decide), claimScan, hclaimable,
        if_neg (by decide)]
      exact ih outbox hlimit
    | true =>
      obtain ⟨n, rfl⟩ := Nat.exists_eq_succ_of_ne_zero (Nat.ne_of_gt hlimit)
      have hkept : (⟨id, record⟩ :: rest).filter (fun entry => claimable request now entry.2) =
          ⟨id, record⟩ :: rest.filter fun entry => claimable request now entry.2 :=
        filter_cons_of_pos hclaimable
      rw [hkept, take_succ_cons, claimScan, claimScan, hclaimable, if_pos rfl, if_pos rfl,
        Nat.succ_eq_add_one, Nat.add_sub_cancel]
      split
      · rfl
      split
      · rfl
      dsimp only
      split
      · rfl
      · rw [ih _ (show 0 < n by omega)]

/-- What a scan leaves behind that claims every entry it visits. -/
def claimAll (request : OutboxClaimRequest) (now expiresAt : JsDate.Instant) (outbox : Outbox V)
    (entries : List (Sigma fun _ : MessageId => StoredOutboxMessage V)) : Outbox V :=
  entries.foldl (fun outbox entry =>
    outbox.insert entry.1 (claimedRecord entry.2 (claimOf request now expiresAt entry.2))) outbox

variable {entries : List (Sigma fun _ : MessageId => StoredOutboxMessage V)}

theorem claimScan_of_claimable (hexpires : now.add? request.leaseDurationMs = some expiresAt)
    (outbox : Outbox V)
    (hlen : entries.length ≤ limit) (hclaimable : ∀ entry ∈ entries, claimable request now entry.2 = true)
    (hattempt : ∀ entry ∈ entries, entry.2.attempt < maxSafeInteger) :
    claimScan request now outbox limit entries =
      ⟨claimAll request now expiresAt outbox entries,
        entries.map fun entry => claimOf request now expiresAt entry.2, none⟩ := by
  induction entries generalizing outbox limit with
  | nil => rw [claimScan]; rfl
  | cons entry rest ih =>
    have hhead := hattempt entry mem_cons_self
    rw [length_cons] at hlen
    rw [claimScan, hclaimable entry mem_cons_self, if_pos rfl,
      if_neg (Nat.not_lt.mpr hhead), hexpires]
    dsimp only
    split
    · have hnil : rest = [] := length_eq_zero_iff.mp (by omega)
      rw [hnil]
      rfl
    rw [ih _ (by omega) (fun e he => hclaimable e (mem_cons_of_mem _ he))
      fun e he => hattempt e (mem_cons_of_mem _ he)]
    rfl

theorem claimOfRow_rowOf {record : StoredOutboxMessage V} (hconsiders : request.Considers record)
    (hattempt : record.attempt < maxSafeInteger)
    (hexpires : now.add? request.leaseDurationMs = some expiresAt) :
    SqliteOutbox.claimOfRow request now (rowOf record) = .ok (claimOf request now expiresAt record) := by
  have hattempts : (rowOf record).attempt = record.attempt := rfl
  unfold SqliteOutbox.claimOfRow
  rw [hattempts, if_neg (Nat.not_le.mpr hattempt), hexpires]
  rw [show (rowOf record).messageId = record.message.messageId from rfl,
    (existingMessage_rowOf hconsiders.1).2]
  rfl

theorem mapM_map_ok {α β γ ε : Type} {f : β → Except ε γ} {r : α → β} {g : α → γ} {l : List α}
    (h : ∀ a ∈ l, f (r a) = .ok (g a)) : (l.map r).mapM f = .ok (l.map g) := by
  induction l with
  | nil => rfl
  | cons a l ih =>
    rw [map_cons, mapM_cons, h a mem_cons_self, ih fun b hb => h b (mem_cons_of_mem _ hb)]
    rfl

theorem writeClaims_tableOf (outbox : Outbox V) (hnodup : (entries.map (·.1)).Nodup)
    (hlookup : ∀ entry ∈ entries, outbox.lookup entry.1 = some entry.2)
    (hkey : ∀ entry ∈ entries, entry.2.message.messageId = entry.1)
    (hconsiders : ∀ entry ∈ entries, request.Considers entry.2) :
    SqliteOutbox.writeClaims (tableOf outbox)
        (entries.map fun entry => claimOf request now expiresAt entry.2) =
      tableOf (claimAll request now expiresAt outbox entries) := by
  induction entries generalizing outbox with
  | nil => rfl
  | cons entry rest ih =>
    rw [map_cons, nodup_cons] at hnodup
    have hrow : SqliteOutbox.claimedRow (claimOf request now expiresAt entry.2) (rowOf entry.2) =
        rowOf (claimedRecord entry.2 (claimOf request now expiresAt entry.2)) := by
      unfold SqliteOutbox.claimedRow
      rw [(existingMessage_rowOf (hconsiders entry mem_cons_self).1).1]
      rfl
    have hid : (claimOf request now expiresAt entry.2).message.messageId = entry.1 :=
      hkey entry mem_cons_self
    have hupdate : SqliteOutbox.updateRow (tableOf outbox) entry.1
        (SqliteOutbox.claimedRow (claimOf request now expiresAt entry.2)) =
          tableOf (outbox.insert entry.1
            (claimedRecord entry.2 (claimOf request now expiresAt entry.2))) := by
      unfold SqliteOutbox.updateRow
      rw [lookup_tableOf, hlookup entry mem_cons_self, map_some]
      dsimp only
      rw [hrow, tableOf_insert]
    have hrest : ∀ e ∈ rest, (outbox.insert entry.1
        (claimedRecord entry.2 (claimOf request now expiresAt entry.2))).lookup e.1 = some e.2 := by
      intro e he
      have hne : e.1 ≠ entry.1 := fun heq => hnodup.1 (List.mem_map.mpr ⟨e, he, heq⟩)
      rw [lookup_insert_ne hne, hlookup e (mem_cons_of_mem _ he)]
    unfold SqliteOutbox.writeClaims claimAll
    rw [map_cons, foldl_cons, foldl_cons, hid, hupdate]
    exact ih _ hnodup.2 hrest (fun e he => hkey e (mem_cons_of_mem _ he))
      fun e he => hconsiders e (mem_cons_of_mem _ he)

theorem OutboxSound.claimAll {outbox : Outbox V} {sequence : Nat} (h : OutboxSound outbox sequence)
    (hnodup : (entries.map (·.1)).Nodup)
    (hlookup : ∀ entry ∈ entries, outbox.lookup entry.1 = some entry.2)
    (hattempt : ∀ entry ∈ entries, entry.2.attempt < maxSafeInteger) :
    OutboxSound (claimAll request now expiresAt outbox entries) sequence := by
  induction entries generalizing outbox with
  | nil => exact h
  | cons entry rest ih =>
    rw [map_cons, nodup_cons] at hnodup
    have hentry := hlookup entry mem_cons_self
    have hclaimed : OutboxSound (outbox.insert entry.1
        (claimedRecord entry.2 (claimOf request now expiresAt entry.2))) sequence :=
      h.rewrite hentry rfl (h.available entry.1 entry.2 hentry) rfl
        (hattempt entry mem_cons_self) fun _ _ => Nat.succ_pos _
    refine ih hclaimed hnodup.2 (fun e he => ?_) fun e he => hattempt e (mem_cons_of_mem _ he)
    have hne : e.1 ≠ entry.1 := fun heq => hnodup.1 (List.mem_map.mpr ⟨e, he, heq⟩)
    rw [lookup_insert_ne hne, hlookup e (mem_cons_of_mem _ he)]

theorem limit_pos (h : assertOutboxClaimRequest request = .ok limit) : 0 < limit := by
  unfold assertOutboxClaimRequest at h
  split at h
  · cases h
  next hvalid =>
  simp only [Bool.or_eq_true, not_or] at hvalid
  rw [← ok.inj h]
  cases hlimit : request.limit with
  | none => exact Nat.one_pos
  | some l =>
    have hpos := hvalid.2
    rw [hlimit, any_some, Bool.or_eq_true, not_or, decide_eq_true_iff] at hpos
    exact Int.lt_toNat.mpr (Int.not_le.mp hpos.1)

theorem Mirrors.fenced {store : MemoryStateStore V} {db : SqliteOutbox V} (h : Mirrors store db)
    {fencing : Option StateFencing} {advances advancesOrClaims : Bool}
    (hfence : store.assertFence fencing = .ok advances)
    (hmemory : advances = true → advancesOrClaims = true) :
    Mirrors (if advancesOrClaims then { store with revision := store.revision + 1 }.advanceFence fencing
        else store)
      (if advances then db.advanceFence fencing else db) := by
  have hkept : ∀ store' : MemoryStateStore V,
      (store'.advanceFence fencing).lifecycle = store'.lifecycle ∧
        (store'.advanceFence fencing).outboxSequence = store'.outboxSequence := by
    intro store'
    cases fencing with
    | none | some fencing => exact ⟨rfl, rfl⟩
  have hdb : (db.advanceFence fencing).outbox = db.outbox := by
    cases fencing with
    | none => rfl
    | some fencing => rfl
  cases advancesOrClaims with
  | false =>
    cases advances with
    | false => exact h
    | true => exact absurd (hmemory rfl) (by decide)
  | true =>
    rw [if_pos rfl]
    let bumped := { store with revision := store.revision + 1 }
    refine ⟨(hkept _).1.trans h.isOpen, ?_, fun resource => ?_, ?_⟩
    · rw [advanceFence_outbox]
      cases advances with
      | false => exact h.rows
      | true => exact hdb.trans h.rows
    · cases advances with
      | false =>
        have hcurrent : bumped.assertFence fencing = .ok false := hfence
        rw [lookup_advanceFence_of_current hcurrent resource]
        exact h.fences resource
      | true =>
        have hfences : ∀ resource, db.fences.lookup resource = bumped.fences.lookup resource :=
          h.fences
        exact lookup_advanceFence hfences fencing resource
    · rw [advanceFence_outbox, (hkept _).2]
      exact h.sound

/-- **A claim** answers alike on both, and leaves them alike. -/
theorem Mirrors.claimOutbox {store : MemoryStateStore V} {db : SqliteOutbox V}
    (h : Mirrors store db) (hlimit : 0 < limit)
    (hform : ∀ advancesFence, store.assertFence request.fencing = .ok advancesFence →
      (∀ id record, store.outbox.lookup id = some record → request.Considers record →
        record.SameForm now) ∧
      ∀ entry ∈ (store.selected request limit now).tail, entry.2.attempt < maxSafeInteger) :
    (store.claimOutbox request limit now).1.toOption =
        (db.claimOutbox request limit now).1.toOption ∧
      Mirrors (store.claimOutbox request limit now).2.1 (db.claimOutbox request limit now).2 := by
  unfold MemoryStateStore.claimOutbox SqliteOutbox.claimOutbox
  rw [h.assertOpen, h.assertFence]
  cases hfence : store.assertFence request.fencing with
  | error e => exact ⟨rfl, h⟩
  | ok advances =>
    obtain ⟨htimes, hattempts⟩ := hform advances hfence
    have hscan : claimScan request now store.outbox limit store.sortedOutbox =
        claimScan request now store.outbox limit (store.selected request limit now) :=
      claimScan_selected store.outbox hlimit store.sortedOutbox
    have hsub : (store.selected request limit now).Sublist store.sortedOutbox :=
      (take_sublist _ _).trans filter_sublist
    have hperm := perm_insertionSort
      (fun left right : Sigma fun _ : MessageId => StoredOutboxMessage V =>
        claimOrder left.2 right.2 = true) store.outbox.entries
    have hlookup : ∀ entry ∈ store.selected request limit now,
        store.outbox.lookup entry.1 = some entry.2 := fun entry he =>
      mem_lookup_iff.mpr (hperm.mem_iff.mp (hsub.subset he))
    have hclaimable : ∀ entry ∈ store.selected request limit now,
        claimable request now entry.2 = true := fun entry he =>
      (mem_filter.mp (mem_of_mem_take he)).2
    have hnodup : ((store.selected request limit now).map (·.1)).Nodup :=
      ((hperm.map _).nodup_iff.mpr store.outbox.nodupKeys).sublist (hsub.map _)
    have hlen : (store.selected request limit now).length ≤ limit := length_take_le _ _
    rw [h.candidates limit htimes, claimRun, hscan]
    cases hselected : store.selected request limit now with
    | nil =>
      rw [claimScan, map_nil]
      exact ⟨rfl, h.fenced hfence id⟩
    | cons first rest =>
      rw [hselected] at hattempts hlookup hclaimable hnodup hlen
      by_cases hfirst : first.2.attempt < maxSafeInteger
      · cases hexpires : now.add? request.leaseDurationMs with
        | none =>
          -- the first claim already fails, on both
          have hrow : SqliteOutbox.claimOfRow request now (rowOf first.2) = .error .rangeError := by
            unfold SqliteOutbox.claimOfRow
            rw [if_neg (show ¬ maxSafeInteger ≤ (rowOf first.2).attempt from
              Nat.not_le.mpr hfirst), hexpires]
          rw [claimScan, hclaimable first mem_cons_self, if_pos rfl,
            if_neg (Nat.not_lt.mpr hfirst), hexpires, map_cons, mapM_cons, hrow]
          exact ⟨rfl, h⟩
        | some expiresAt =>
          have hall : ∀ entry ∈ first :: rest, entry.2.attempt < maxSafeInteger :=
            fun entry he => (mem_cons.mp he).elim (fun heq => heq ▸ hfirst) (hattempts entry)
          have hrows : ((first :: rest).map fun entry => rowOf entry.2).mapM
              (SqliteOutbox.claimOfRow request now) =
                .ok ((first :: rest).map fun entry => claimOf request now expiresAt entry.2) :=
            mapM_map_ok fun entry he => claimOfRow_rowOf
              (considers_of_claimable (hclaimable entry he)) (hall entry he) hexpires
          have hwritten : SqliteOutbox.writeClaims (tableOf store.outbox)
              ((first :: rest).map fun entry => claimOf request now expiresAt entry.2) =
                tableOf (claimAll request now expiresAt store.outbox (first :: rest)) :=
            writeClaims_tableOf store.outbox hnodup hlookup
              (fun entry he => h.sound.key _ _ (hlookup entry he))
              fun entry he => considers_of_claimable (hclaimable entry he)
          have hnext : Mirrors
              { store with outbox := claimAll request now expiresAt store.outbox (first :: rest) }
              { db with
                outbox := SqliteOutbox.writeClaims db.outbox
                  ((first :: rest).map fun entry => claimOf request now expiresAt entry.2) } :=
            ⟨h.isOpen, by rw [h.rows]; exact hwritten, h.fences,
              h.sound.claimAll hnodup hlookup hall⟩
          rw [claimScan_of_claimable hexpires store.outbox hlen hclaimable hall, hrows]
          exact ⟨rfl, hnext.fenced hfence fun _ => rfl⟩
      · have hrow : SqliteOutbox.claimOfRow request now (rowOf first.2) =
            .error (.state (SqliteOutbox.invalidAttempt first.2.message.messageId)) := by
          exact if_pos (Nat.not_lt.mp hfirst)
        rw [claimScan, hclaimable first mem_cons_self, if_pos rfl,
          if_pos (Nat.lt_succ_of_le (Nat.not_lt.mp hfirst)), map_cons, mapM_cons, hrow]
        exact ⟨rfl, h⟩

end Claims

/-! ## Acknowledgements -/

section Acknowledgements

open MemoryStateStore

variable {request : OutboxAcknowledgementRequest} {now : JsDate.Instant}

theorem retryAt_of_valid (h : assertOutboxAcknowledgementRequest request = .ok ()) :
    (request.outcome = .retry →
      ∃ retryAt, request.retryAt = some retryAt ∧ JsDate.validTimestamp retryAt = true) ∧
    (request.outcome = .completed → request.retryAt = none) := by
  unfold assertOutboxAcknowledgementRequest at h
  split at h
  · cases h
  next hvalid =>
  simp only [Bool.or_eq_true, Bool.and_eq_true, beq_iff_eq, not_or, not_and, Bool.not_eq_true',
    Bool.not_eq_false, Bool.not_eq_true] at hvalid
  refine ⟨fun hretry => ?_, fun hcompleted => ?_⟩
  · exact (Option.any_eq_true _ _).mp (hvalid.1.2 hretry)
  · exact isSome_eq_false_iff.mp (hvalid.2 hcompleted) |> isNone_iff_eq_none.mp

variable {record : StoredOutboxMessage V} {claim : OutboxClaim V}

theorem acknowledgedRow_rowOf (hvalid : assertOutboxAcknowledgementRequest request = .ok ())
    (hnames : namesClaim request claim = true) :
    SqliteOutbox.acknowledgedRow request now (rowOf record) =
      rowOf (acknowledgedRecord record request claim now) := by
  obtain ⟨howner, hepoch⟩ := Bool.and_eq_true_iff.mp hnames
  obtain ⟨hretry, hcompleted⟩ := retryAt_of_valid hvalid
  unfold SqliteOutbox.acknowledgedRow acknowledgedRecord acknowledgementOf rowOf
  cases houtcome : request.outcome with
  | completed =>
    rw [hcompleted houtcome, ← beq_iff_eq.mp howner, ← beq_iff_eq.mp hepoch]
    rfl
  | retry =>
    obtain ⟨retryAt, hretryAt, -⟩ := hretry houtcome
    rw [hretryAt, ← beq_iff_eq.mp howner, ← beq_iff_eq.mp hepoch]
    rfl

theorem OutboxSound.acknowledge {outbox : Outbox V} {sequence : Nat}
    (h : OutboxSound outbox sequence)
    (hvalid : assertOutboxAcknowledgementRequest request = .ok ())
    (hrecord : outbox.lookup request.messageId = some record) :
    OutboxSound (outbox.insert request.messageId (acknowledgedRecord record request claim now))
      sequence := by
  have hkept := h.available _ _ hrecord
  have hattempt := h.attempts _ _ hrecord
  refine h.rewrite hrecord ?_ ?_ rfl hattempt fun _ hclaim => by cases hclaim
  · unfold acknowledgedRecord
    split
    · rfl
    · rfl
  · unfold acknowledgedRecord
    split
    · next hretry =>
      obtain ⟨retryAt, hretryAt, htime⟩ := (retryAt_of_valid hvalid).1 hretry
      rw [hretryAt]
      exact htime
    · exact hkept

theorem acknowledgedOutcome_rowOf (record : StoredOutboxMessage V) :
    SqliteOutbox.acknowledgedOutcome request (rowOf record) =
      (repeatedAcknowledgement record request).map (·.outcome) := by
  unfold SqliteOutbox.acknowledgedOutcome repeatedAcknowledgement rowOf
  cases record.acknowledgedClaim with
  | none => rfl
  | some claim =>
    simp only [map_some, some.injEq, any_some, namesClaim, Bool.and_eq_true, beq_iff_eq]
    split
    · rfl
    · rfl

theorem names_rowOf (hclaim : record.claim = some claim) :
    ((rowOf record).claimOwner ≠ some request.owner ∨
      (rowOf record).claimEpoch ≠ some request.claimEpoch) ↔ ¬ namesClaim request claim = true := by
  have howner : (rowOf record).claimOwner = some claim.owner := by
    rw [rowOf, hclaim]
    rfl
  have hepoch : (rowOf record).claimEpoch = some claim.claimEpoch := by
    rw [rowOf, hclaim]
    rfl
  rw [howner, hepoch, namesClaim, Bool.and_eq_true, beq_iff_eq, beq_iff_eq, not_and_or,
    ne_eq, ne_eq, some.injEq, some.injEq]

/-- **An acknowledgement** leaves both alike. -/
theorem Mirrors.acknowledgeOutbox {store : MemoryStateStore V} {db : SqliteOutbox V}
    (h : Mirrors store db) (hvalid : assertOutboxAcknowledgementRequest request = .ok ()) :
    Mirrors (store.acknowledgeOutbox request now).2 (db.acknowledgeOutbox request now).2 := by
  unfold MemoryStateStore.acknowledgeOutbox SqliteOutbox.acknowledgeOutbox
  rw [h.assertOpen, h.assertFence]
  cases hfence : store.assertFence request.fencing with
  | error e => exact h
  | ok advances =>
    rw [h.rows, lookup_tableOf]
    cases hrecord : store.outbox.lookup request.messageId with
    | none => exact h
    | some record =>
      rw [map_some]
      dsimp only
      rw [acknowledgedOutcome_rowOf]
      have hattempt : ¬ maxSafeInteger < (rowOf record).attempt :=
        Nat.not_lt.mpr (h.sound.attempts _ _ hrecord)
      cases hrepeated : repeatedAcknowledgement record request with
      | some acknowledgement =>
        have hacked : record.acknowledgement = some acknowledgement :=
          (ite_none_right_eq_some.mp hrepeated).2
        have hretryAt : (rowOf record).acknowledgementRetryAt = acknowledgement.retryAt := by
          rw [rowOf, hacked]
          rfl
        have hat : (rowOf record).acknowledgedAt = some acknowledgement.acknowledgedAt := by
          rw [rowOf, hacked]
          rfl
        rw [map_some]
        dsimp only
        rw [hretryAt, if_neg hattempt, hat]
        split
        · exact h
        · exact h.fenced hfence id
      | none =>
        rw [map_none]
        dsimp only
        cases hclaim : record.claim with
        | none =>
          have howner : (rowOf record).claimOwner = none := by
            rw [rowOf, hclaim]
            rfl
          rw [if_pos (.inl (by rw [howner]; exact some_ne_none _ |>.symm))]
          exact h
        | some claim =>
          dsimp only
          by_cases hnames : namesClaim request claim = true
          · have hpos : ¬ ((rowOf record).attempt = 0 ∨ maxSafeInteger < (rowOf record).attempt) :=
              not_or.mpr ⟨Nat.ne_of_gt (h.sound.claimed _ _ _ hrecord hclaim), hattempt⟩
            rw [if_neg fun hnot => (names_rowOf hclaim).mp hnot hnames, if_neg hpos, if_pos hnames]
            have hupdate : SqliteOutbox.updateRow (tableOf store.outbox) request.messageId
                (SqliteOutbox.acknowledgedRow request now) =
                  tableOf (store.outbox.insert request.messageId
                    (acknowledgedRecord record request claim now)) := by
              unfold SqliteOutbox.updateRow
              rw [lookup_tableOf, hrecord, map_some]
              dsimp only
              rw [acknowledgedRow_rowOf hvalid hnames, tableOf_insert]
            have hnext : Mirrors
                { store with
                  outbox := store.outbox.insert request.messageId
                    (acknowledgedRecord record request claim now) }
                { db with
                  outbox := SqliteOutbox.updateRow (tableOf store.outbox) request.messageId
                    (SqliteOutbox.acknowledgedRow request now) } :=
              ⟨h.isOpen, hupdate, h.fences, h.sound.acknowledge hvalid hrecord⟩
            cases advances with
            | false => exact ⟨hnext.isOpen, hnext.rows, hnext.fences, hnext.sound⟩
            | true => exact hnext.fenced hfence id
          · rw [if_pos ((names_rowOf hclaim).mpr hnames), if_neg hnames]
            exact h

end Acknowledgements

/-! ## Runs -/

section Agreement

open MemoryStateStore

variable [WireValue V]

omit [WireValue V] in
theorem foldlM_enqueueOutbox {tx : MemoryTransaction V} (hactive : tx.active = true)
    (messages : List (OutboxMessage V)) :
    messages.foldlM MemoryTransaction.enqueueOutbox tx =
      .ok { tx with outbox := tx.outbox ++ messages } := by
  induction messages generalizing tx with
  | nil => rw [append_nil]; rfl
  | cons message rest ih =>
    have hstep : tx.enqueueOutbox message = .ok { tx with outbox := tx.outbox ++ [message] } := by
      unfold MemoryTransaction.enqueueOutbox MemoryTransaction.assertActive
      rw [if_pos hactive]
      rfl
    rw [foldlM_cons, hstep]
    have hrest := @ih { tx with outbox := tx.outbox ++ [message] } hactive
    rw [append_assoc, singleton_append] at hrest
    exact hrest

variable {store : MemoryStateStore V}

theorem transactMessages_eq (hopen : store.assertOpen = .ok ())
    (messages : List (OutboxMessage V)) (fencing : Option StateFencing) (result : V) :
    store.transactMessages messages fencing result =
      (do
        let newOutbox ← stageOutbox store.outbox [] messages
        let advancesFence ← store.assertFence fencing
        pure (if !newOutbox.isEmpty || advancesFence then
          store.publish store.records [] [] newOutbox fencing advancesFence else store)) := by
  unfold transactMessages
  rw [hopen, foldlM_enqueueOutbox rfl]
  simp only [bind, Except.bind]
  have hfinish : ({ MemoryTransaction.start store.records with
      outbox := (MemoryTransaction.start store.records).outbox ++ messages } :
        MemoryTransaction V).finish =
      .ok (⟨[], [], messages⟩, { MemoryTransaction.start store.records with
        outbox := messages, active := false }) := rfl
  rw [hfinish]
  unfold commit
  rw [hopen]
  rfl

variable {db : SqliteOutbox V}

/-- **Enqueuing** leaves both alike. -/
theorem Mirrors.transactMessages
    (h : Mirrors store db) (messages : List (OutboxMessage V)) (fencing : Option StateFencing)
    (result : V) :
    match store.transactMessages messages fencing result, db.commit fencing messages with
    | .error _, .error _ => True
    | .ok store', .ok db' => Mirrors store' db'
    | _, _ => False := by
  rw [transactMessages_eq h.assertOpen]
  unfold SqliteOutbox.commit
  rw [h.stageOutbox, h.assertFence, h.maximumSequence]
  cases hstage : MemoryStateStore.stageOutbox store.outbox [] messages with
  | error e => trivial
  | ok newOutbox =>
    cases hfence : store.assertFence fencing with
    | error e => trivial
    | ok advances =>
      have hvalid := validTimestamp_of_stageOutbox hstage fun _ hm => absurd hm not_mem_nil
      have hrows : SqliteOutbox.insertOutbox db.outbox store.outboxSequence newOutbox =
          tableOf (MemoryStateStore.insertOutbox store.outbox store.outboxSequence newOutbox) := by
        rw [h.rows, Mirrors.insertOutbox]
      have hnext : Mirrors
          { store with
            outbox := MemoryStateStore.insertOutbox store.outbox store.outboxSequence newOutbox
            outboxSequence := store.outboxSequence + newOutbox.length }
          { db with outbox := SqliteOutbox.insertOutbox db.outbox store.outboxSequence newOutbox } :=
        ⟨h.isOpen, hrows, h.fences, h.sound.insertOutbox hvalid⟩
      dsimp only [bind, Except.bind, pure, Except.pure]
      cases advances with
      | true =>
        rw [Bool.or_true, if_pos rfl, if_pos rfl]
        have hfenced := hnext.fenced hfence id
        refine ⟨h.isOpen, hfenced.rows.trans (congrArg tableOf (advanceFence_outbox _ _)), ?_,
          hnext.sound⟩
        cases fencing with
        | none => exact hfenced.fences
        | some fencing => exact hfenced.fences
      | false =>
        rw [Bool.or_false, if_neg Bool.false_ne_true]
        cases newOutbox with
        | nil => exact h
        | cons message rest => exact ⟨h.isOpen, hrows, h.fences, hnext.sound⟩

/-- **One call** answers alike on both stores and leaves them alike. -/
theorem Mirrors.outboxCall (h : Mirrors store db)
    {call : OutboxCall V} (hform : call.InForm store) :
    (store.outboxCall call).1 = (db.outboxCall call).1 ∧
      Mirrors (store.outboxCall call).2 (db.outboxCall call).2 := by
  cases call with
  | enqueue messages fencing result =>
    have hnext := h.transactMessages messages fencing result
    unfold MemoryStateStore.outboxCall SqliteOutbox.outboxCall
    dsimp only
    split at hnext
    · next hmemory hdb =>
      rw [hmemory, hdb]
      exact ⟨rfl, h⟩
    · next hmemory hdb =>
      rw [hmemory, hdb]
      exact ⟨rfl, hnext⟩
    · exact hnext.elim
  | claim request now =>
    unfold MemoryStateStore.outboxCall SqliteOutbox.outboxCall
    dsimp only
    cases hrequest : assertOutboxClaimRequest request with
    | error e => exact ⟨rfl, h⟩
    | ok limit =>
      obtain ⟨hanswer, hnext⟩ := h.claimOutbox (limit_pos hrequest) fun advancesFence hfence =>
        hform limit advancesFence hrequest hfence
      exact ⟨congrArg (fun answer => [answer]) hanswer, hnext⟩
  | acknowledge request now =>
    unfold MemoryStateStore.outboxCall SqliteOutbox.outboxCall
    dsimp only
    cases hrequest : assertOutboxAcknowledgementRequest request with
    | error e => exact ⟨rfl, h⟩
    | ok _ => exact ⟨rfl, h.acknowledgeOutbox hrequest⟩

theorem Mirrors.outboxCalls
    (h : Mirrors store db) {calls : List (OutboxCall V)} (hform : CallsInForm store calls) :
    store.outboxCalls calls = db.outboxCalls calls := by
  induction calls generalizing store db with
  | nil => rfl
  | cons call rest ih =>
    obtain ⟨hanswer, hnext⟩ := h.outboxCall hform.1
    rw [MemoryStateStore.outboxCalls, SqliteOutbox.outboxCalls, hanswer, ih hnext hform.2]

/-- **Claims agree** on the two stores along every run whose claims compare times of one
form and meet used-up attempts first. -/
theorem claims_agree (calls : List (OutboxCall V))
    (h : CallsInForm MemoryStateStore.opened calls) : ClaimsAgree calls :=
  Mirrors.opened.outboxCalls h

end Agreement

/-! ## A message for the year 10000 -/

open StoreWorld

/-- A message that is to wait until the year 10000. -/
def farMessage : OutboxMessage Unit :=
  { sampleMessage with availableAt := Text.js "+010000-01-01T00:00:00.000Z" }

/-- It is claimed right away on SQLite, and not on the memory store. -/
def farRun : List (OutboxCall Unit) := [.enqueue [farMessage] none (), .claim sampleClaim leaseOver]

theorem farRun_disagrees : ¬ ClaimsAgree farRun := by
  intro hagree
  have hlengths := congrArg (List.map (Option.map List.length)) hagree
  revert hlengths
  decide +kernel

def nearRun : List (OutboxCall Unit) :=
  [.enqueue [sampleMessage] none (), .claim sampleClaim leaseOver, .acknowledge sampleRetry leaseOver]

theorem claims_agree_nearRun : ClaimsAgree nearRun := by
  refine claims_agree nearRun ⟨trivial, ?_, trivial, trivial⟩
  have hentries : (MemoryStateStore.opened.outboxCall
      (.enqueue [sampleMessage] none ())).2.outbox.entries =
        [⟨Text.js "m", MemoryStateStore.enqueued sampleMessage 1⟩] := rfl
  intro limit advancesFence hlimit _
  have hone : 1 = limit := ok.inj hlimit
  refine ⟨fun id record hlookup _ => ?_, ?_⟩
  · have hmem := mem_lookup_iff.mp hlookup
    rw [hentries, mem_singleton] at hmem
    cases hmem
    refine ⟨fun t hparse => ?_, fun claim hclaim => by cases hclaim⟩
    have hzero : JsDate.parse sampleMessage.availableAt = some 0 := by decide +kernel
    cases hzero.symm.trans hparse
    decide +kernel
  · rw [← hone]
    have hnone : ((MemoryStateStore.opened.outboxCall
        (.enqueue [sampleMessage] none ())).2.selected sampleClaim 1 leaseOver).tail = [] := rfl
    rw [hnone]
    exact fun _ hmem => absurd hmem not_mem_nil

end TegoNext
