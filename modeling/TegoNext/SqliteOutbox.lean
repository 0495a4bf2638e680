/-
The outbox of `SqliteStateStore`: a table, and the three statements that work on it.

Every call runs in one database transaction. SQLite compares the columns `available_at` and
`claim_expires_at` with the text of the clock reading byte by byte. The other times are only
written and read back, so they are instants here; a JSON payload stands for itself. The checks of
requests and messages are the ones of the memory store.
-/
import TegoNext.DateOrder
import TegoNext.MemoryStateStore

set_option autoImplicit false

namespace TegoNext

open Option

/-! ## Comparing texts -/

namespace Text

/-- The UTF-8 bytes of a code unit on its own; half of a surrogate pair is written as
U+FFFD. -/
def utf8Unit (u : UInt16) : List Nat :=
  let n := u.toNat
  if n < 0x80 then [n]
  else if n < 0x800 then [0xc0 + n / 64, 0x80 + n % 64]
  else if 0xd800 ≤ n ∧ n ≤ 0xdfff then [0xef, 0xbf, 0xbd]
  else [0xe0 + n / 4096, 0x80 + n / 64 % 64, 0x80 + n % 64]

def utf8Pair (high low : UInt16) : List Nat :=
  let point := 0x10000 + (high.toNat - 0xd800) * 0x400 + (low.toNat - 0xdc00)
  [0xf0 + point / 262144, 0x80 + point / 4096 % 64, 0x80 + point / 64 % 64, 0x80 + point % 64]

def utf8 : JsString → List Nat
  | [] => []
  | [u] => utf8Unit u
  | u :: v :: rest =>
    if 0xd800 ≤ u ∧ u ≤ 0xdbff ∧ 0xdc00 ≤ v ∧ v ≤ 0xdfff then utf8Pair u v ++ utf8 rest
    else utf8Unit u ++ utf8 (v :: rest)

/-- How SQLite compares the values of two `TEXT` columns. -/
def compareColumns (left right : JsString) : Ordering := compareBytes (utf8 left) (utf8 right)

def isAscii (s : JsString) : Bool := s.all fun u => u < 128

theorem utf8Unit_of_lt {u : UInt16} (h : u < 128) : utf8Unit u = [u.toNat] :=
  if_pos (UInt16.lt_iff_toNat_lt.mp h)

theorem utf8_of_isAscii {s : JsString} (h : isAscii s = true) : utf8 s = s.map (·.toNat) := by
  induction s with
  | nil => rfl
  | cons u rest ih =>
    obtain ⟨hu, hrest⟩ := Bool.and_eq_true_iff.mp (List.all_cons.symm.trans h)
    have hlt := of_decide_eq_true hu
    cases rest with
    | nil => exact utf8Unit_of_lt hlt
    | cons v rest =>
      have hpair : ¬ (0xd800 ≤ u ∧ u ≤ 0xdbff ∧ 0xdc00 ≤ v ∧ v ≤ 0xdfff) := fun hsurrogates =>
        absurd (UInt16.lt_of_lt_of_le hlt (by decide)) (UInt16.not_lt.mpr hsurrogates.1)
      rw [utf8, if_neg hpair, ih hrest, utf8Unit_of_lt hlt]
      rfl

theorem compareColumns_of_isAscii {s t : JsString} (hs : isAscii s = true)
    (ht : isAscii t = true) : compareColumns s t = compareText s t := by
  rw [compareColumns, utf8_of_isAscii hs, utf8_of_isAscii ht, compareBytes]
  clear hs ht
  induction s generalizing t with
  | nil => cases t <;> rfl
  | cons u s ih =>
    cases t with
    | nil => rfl
    | cons v t =>
      rw [List.map_cons, List.map_cons, List.compareLex_cons_cons, ih, compareText_cons]

theorem isAscii_append (s t : JsString) : isAscii (s ++ t) = (isAscii s && isAscii t) :=
  List.all_append

end Text

namespace JsDate

open Text

theorem isAscii_pad (width n : Nat) : isAscii (pad width n) = true := by
  induction width generalizing n with
  | zero => rfl
  | succ w ih =>
    have hlt : UInt16.ofNat (48 + n % 10) < 128 := by
      rw [UInt16.lt_iff_toNat_lt, toNat_digit (Nat.mod_lt n (by decide))]
      exact Nat.lt_of_lt_of_le (Nat.add_lt_add_left (Nat.mod_lt n (by decide)) 48) (by decide)
    rw [pad, isAscii_append, ih, isAscii, List.all_cons, decide_eq_true hlt]
    rfl

theorem isAscii_toISOString (t : Int) : isAscii (toISOString t) = true := by
  have hyear : isAscii (yearText (yearOf t)) = true := by
    unfold yearText
    split
    · exact isAscii_pad 4 _
    split
    · rw [isAscii_append, isAscii_pad]
      rfl
    · rw [isAscii_append, isAscii_pad]
      rfl
  rw [toISOString_eq]
  unfold afterYear
  simp only [isAscii_append, hyear, isAscii_pad, Bool.and_true, Bool.true_and]
  rfl

/-- `Date.parse` answers with instants a `Date` can hold. -/
theorem parse_inRange {s : JsString} {t : Int} (h : parse s = some t) :
    -maxInstant ≤ t ∧ t ≤ maxInstant := by
  have hafter : ∀ year rest, parseAfterYear year rest = some t → -maxInstant ≤ t ∧ t ≤ maxInstant := by
    intro year rest hparse
    unfold parseAfterYear at hparse
    simp only [bind_eq_bind, bind_eq_some_iff, ite_none_right_eq_some] at hparse
    obtain ⟨_, -, _, -, _, -, _, -, _, -, _, -, hrange, heq⟩ := hparse
    exact some.inj heq ▸ hrange
  unfold parse at h
  split at h
  · cases h
  split at h
  · obtain ⟨year, -, hparse⟩ := bind_eq_some_iff.mp h
    exact hafter _ _ hparse
  split at h
  · obtain ⟨year, -, hparse⟩ := bind_eq_some_iff.mp h
    exact hafter _ _ hparse
  · obtain ⟨year, -, hparse⟩ := bind_eq_some_iff.mp h
    exact hafter _ _ hparse

/-- SQLite compares two canonical timestamps as the instants, where the years have the same
form. -/
theorem compareColumns_le_iff {s : JsString} {t : Int} (hparse : parse s = some t)
    (htext : toISOString t = s) {now : Instant} (hform : SameForm t now.ms) :
    compareColumns s (toISOString now.ms) ≠ .gt ↔ t ≤ now.ms := by
  rw [compareColumns_of_isAscii (htext ▸ isAscii_toISOString t) (isAscii_toISOString _), ← htext]
  exact (compareText_toISOString_iff (a := ⟨t, parse_inRange hparse⟩)).mpr hform

end JsDate

/-! ## The table -/

structure OutboxRow (V : Type) where
  messageId : MessageId
  operationId : OperationId
  topic : JsString
  payload : V
  createdAt : JsString
  availableAt : JsString
  attempt : Nat
  claimOwner : Option JsString
  claimEpoch : Option FencingEpoch
  claimedAt : Option JsDate.Instant
  claimExpiresAt : Option JsString
  acknowledgementOutcome : Option OutboxAcknowledgementOutcome
  acknowledgementOwner : Option JsString
  acknowledgementClaimEpoch : Option FencingEpoch
  acknowledgementRetryAt : Option JsString
  acknowledgedAt : Option JsDate.Instant
  enqueueSequence : Nat

abbrev OutboxTable (V : Type) : Type := AList fun _ : MessageId => OutboxRow V

/-- What the calls on the outbox read and write of the database. -/
structure SqliteOutbox (V : Type) where
  outbox : OutboxTable V
  fences : AList fun _ : JsString => FencingEpoch

namespace SqliteOutbox

variable {V : Type}

def migrated : SqliteOutbox V where
  outbox := ∅
  fences := ∅

/-! ## Fences -/

variable (db : SqliteOutbox V) (request : OutboxClaimRequest)

/-- `#assertFence`; the commit of a transaction has the same lines written out. -/
def assertFence : Option StateFencing → Except StateError Bool
  | none => .ok false
  | some fencing =>
    match db.fences.lookup fencing.resource with
    | none => .ok true
    | some currentEpoch =>
      if fencing.epoch < currentEpoch then
        .error
          { code := .STATE_FENCE_STALE
            message := "State transaction fencing epoch is stale"
            details := [("resource", .text fencing.resource),
              ("requestedEpoch", .number fencing.epoch), ("currentEpoch", .number currentEpoch)] }
      else .ok (decide (currentEpoch < fencing.epoch))

def advanceFence : Option StateFencing → SqliteOutbox V
  | none => db
  | some fencing => { db with fences := db.fences.insert fencing.resource fencing.epoch }

/-! ## The commit of a transaction that enqueues messages -/

def existingMessage (messageId : MessageId) (row : OutboxRow V) : OutboxMessage V where
  messageId := messageId
  operationId := row.operationId
  topic := row.topic
  payload := row.payload
  createdAt := row.createdAt
  availableAt := row.availableAt

/-- The loop over the staged outbox messages: the ones that are inserted, in order. -/
def stageOutbox [WireValue V] (db : SqliteOutbox V) (newOutbox : List (OutboxMessage V)) :
    List (OutboxMessage V) → Except StateError (List (OutboxMessage V))
  | [] => .ok newOutbox
  | message :: rest => do
    assertOutboxMessage message
    assertOutboxTimestamps message
    match newOutbox.find? fun staged => staged.messageId == message.messageId with
    | some stagedExisting =>
      if sameOutboxMessage stagedExisting message then stageOutbox db newOutbox rest
      else .error (outboxIdentityReused message.messageId)
    | none =>
      match db.outbox.lookup message.messageId with
      | none => stageOutbox db (newOutbox ++ [message]) rest
      | some row =>
        if row.acknowledgementOutcome = some .retry then
          stageOutbox db (newOutbox ++ [message]) rest
        else if sameOutboxMessage (existingMessage message.messageId row) message then
          stageOutbox db newOutbox rest
        else .error (outboxIdentityReused message.messageId)

/-- `SELECT MAX(enqueue_sequence) FROM outbox`, and 0 where that is null. -/
def maximumSequence : Nat :=
  (db.outbox.entries.map fun entry => entry.2.enqueueSequence).foldr max 0

/-- The row that is inserted, also where one with the identity exists. -/
def insertedRow (message : OutboxMessage V) (enqueueSequence : Nat) : OutboxRow V where
  messageId := message.messageId
  operationId := message.operationId
  topic := message.topic
  payload := message.payload
  createdAt := message.createdAt
  availableAt := message.availableAt
  attempt := 0
  claimOwner := none
  claimEpoch := none
  claimedAt := none
  claimExpiresAt := none
  acknowledgementOutcome := none
  acknowledgementOwner := none
  acknowledgementClaimEpoch := none
  acknowledgementRetryAt := none
  acknowledgedAt := none
  enqueueSequence := enqueueSequence

/-- `INSERT INTO outbox … ON CONFLICT(message_id) DO UPDATE` for every new message. -/
def insertOutbox (outbox : OutboxTable V) (enqueueSequence : Nat) :
    List (OutboxMessage V) → OutboxTable V
  | [] => outbox
  | message :: rest =>
    insertOutbox (outbox.insert message.messageId (insertedRow message (enqueueSequence + 1)))
      (enqueueSequence + 1) rest

/-- `#commit` of a transaction whose body only enqueues messages. -/
def commit [WireValue V] (db : SqliteOutbox V) (fencing : Option StateFencing)
    (messages : List (OutboxMessage V)) : Except StateError (SqliteOutbox V) := do
  let newOutbox ← db.stageOutbox [] messages
  let advancesFence ← db.assertFence fencing
  let inserted := { db with outbox := insertOutbox db.outbox db.maximumSequence newOutbox }
  pure (if advancesFence then inserted.advanceFence fencing else inserted)

/-! ## Claiming -/

def isCandidate (claimedAt : JsString) (row : OutboxRow V) : Bool :=
  row.acknowledgementOutcome != some .completed &&
    request.topic.all (fun topic => row.topic == topic) &&
    (Text.compareColumns row.availableAt claimedAt != .gt) &&
    row.claimExpiresAt.all fun expiresAt => Text.compareColumns expiresAt claimedAt != .gt

/-- `ORDER BY available_at, enqueue_sequence, message_id`. -/
def candidateOrder (left right : OutboxRow V) : Bool :=
  ((Text.compareColumns left.availableAt right.availableAt).then
    ((compare left.enqueueSequence right.enqueueSequence).then
      (Text.compareColumns left.messageId right.messageId))) ≠ .gt

def candidates (claimedAt : JsString) (limit : Nat) : List (OutboxRow V) :=
  (((db.outbox.entries.map (·.2)).filter (isCandidate request claimedAt)).insertionSort
    fun left right => candidateOrder left right).take limit

def invalidAttempt (messageId : MessageId) : StateError where
  code := .STATE_DATA_INVALID
  message := "SQLite outbox contains an invalid delivery attempt"
  details := [("messageId", .text messageId)]

def claimOfRow (now : JsDate.Instant) (row : OutboxRow V) : Except Rejection (OutboxClaim V) :=
  if maxSafeInteger ≤ row.attempt then .error (.state (invalidAttempt row.messageId))
  else
    match now.add? request.leaseDurationMs with
    | none => .error .rangeError
    | some expiresAt =>
      .ok
        { message := existingMessage row.messageId row
          owner := request.owner
          claimEpoch := row.attempt + 1
          attempt := row.attempt + 1
          claimedAt := now
          expiresAt := expiresAt }

/-- The columns a claim sets. -/
def claimedRow (claim : OutboxClaim V) (row : OutboxRow V) : OutboxRow V :=
  { row with
    attempt := claim.attempt
    claimOwner := some claim.owner
    claimEpoch := some claim.claimEpoch
    claimedAt := some claim.claimedAt
    claimExpiresAt := some (JsDate.toISOString claim.expiresAt.ms)
    acknowledgementOutcome := none
    acknowledgementOwner := none
    acknowledgementClaimEpoch := none
    acknowledgementRetryAt := none
    acknowledgedAt := none }

def updateRow (outbox : OutboxTable V) (messageId : MessageId)
    (update : OutboxRow V → OutboxRow V) : OutboxTable V :=
  match outbox.lookup messageId with
  | none => outbox
  | some row => outbox.insert messageId (update row)

def writeClaims (outbox : OutboxTable V) (claimed : List (OutboxClaim V)) : OutboxTable V :=
  claimed.foldl
    (fun outbox claim => updateRow outbox claim.message.messageId (claimedRow claim)) outbox

/-- The job of `claimOutbox`: the outcome, and the database it leaves behind. -/
def claimOutbox (limit : Nat)
    (now : JsDate.Instant) : Except Rejection (List (OutboxClaim V)) × SqliteOutbox V :=
  match db.assertFence request.fencing with
  | .error e => (.error (.state e), db)
  | .ok advancesFence =>
    match (db.candidates request (JsDate.toISOString now.ms) limit).mapM
        (claimOfRow request now) with
    | .error e => (.error e, db)
    | .ok claimed =>
      let updated := { db with outbox := writeClaims db.outbox claimed }
      (.ok claimed, if advancesFence then updated.advanceFence request.fencing else updated)

/-! ## Acknowledging -/

def acknowledgementStale (request : OutboxAcknowledgementRequest)
    (claimEpoch : Option FencingEpoch) : StateError where
  code := .STATE_FENCE_STALE
  message := "Outbox acknowledgement claim fence is stale"
  details := [("actualClaimEpoch", .ofNat claimEpoch), ("messageId", .text request.messageId),
    ("requestedClaimEpoch", .number request.claimEpoch)]

/-- `requiredText(row, "acknowledged_at")` of a row without one. -/
def notText : StateError where
  code := .STATE_DATA_INVALID
  message := "SQLite state contains a non-text value"
  details := [("column", .literal "acknowledged_at"), ("valueType", .literal "object")]

def acknowledgedOutcome (request : OutboxAcknowledgementRequest) (row : OutboxRow V) :
    Option OutboxAcknowledgementOutcome :=
  if row.acknowledgementOwner = some request.owner ∧
      row.acknowledgementClaimEpoch = some request.claimEpoch then row.acknowledgementOutcome
  else none

def acknowledgedRow (request : OutboxAcknowledgementRequest) (now : JsDate.Instant)
    (row : OutboxRow V) : OutboxRow V :=
  { row with
    availableAt := request.retryAt.getD (JsDate.toISOString now.ms)
    claimOwner := none
    claimEpoch := none
    claimedAt := none
    claimExpiresAt := none
    acknowledgementOutcome := some request.outcome
    acknowledgementOwner := some request.owner
    acknowledgementClaimEpoch := some request.claimEpoch
    acknowledgementRetryAt := request.retryAt
    acknowledgedAt := some now }

/-- The job of `acknowledgeOutbox`: the outcome, and the database it leaves behind. -/
def acknowledgeOutbox (db : SqliteOutbox V) (request : OutboxAcknowledgementRequest)
    (now : JsDate.Instant) : Except StateError OutboxAcknowledgement × SqliteOutbox V :=
  match db.assertFence request.fencing with
  | .error e => (.error e, db)
  | .ok advancesFence =>
    match db.outbox.lookup request.messageId with
    | none => (.error (MemoryStateStore.outboxMessageMissing request.messageId), db)
    | some row =>
      match acknowledgedOutcome request row with
      | some outcome =>
        if outcome ≠ request.outcome ∨ row.acknowledgementRetryAt ≠ request.retryAt then
          (.error (MemoryStateStore.acknowledgedDifferently request), db)
        else if maxSafeInteger < row.attempt then (.error (invalidAttempt request.messageId), db)
        else
          match row.acknowledgedAt with
          | none => (.error notText, db)
          | some acknowledgedAt =>
            (.ok
              { messageId := request.messageId
                outcome := outcome
                attempt := row.attempt
                acknowledgedAt := acknowledgedAt
                duplicate := true
                retryAt := row.acknowledgementRetryAt },
              if advancesFence then db.advanceFence request.fencing else db)
      | none =>
        if row.claimOwner ≠ some request.owner ∨ row.claimEpoch ≠ some request.claimEpoch then
          (.error (acknowledgementStale request row.claimEpoch), db)
        else if row.attempt = 0 ∨ maxSafeInteger < row.attempt then
          (.error (invalidAttempt request.messageId), db)
        else
          let updated :=
            { db with outbox := updateRow db.outbox request.messageId (acknowledgedRow request now) }
          (.ok
            { messageId := request.messageId
              outcome := request.outcome
              attempt := row.attempt
              acknowledgedAt := now
              duplicate := false
              retryAt := request.retryAt },
            if advancesFence then updated.advanceFence request.fencing else updated)

end SqliteOutbox

end TegoNext
