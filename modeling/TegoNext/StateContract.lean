/-
The data of the state-store contract: keys, expected revisions, fencing, journal entries, outbox
messages and claims, and the errors a store reports.

Revisions and epochs travel as canonical decimal texts and are the numbers these denote. A store
only clones JSON values, compares their canonical texts and measures those: `WireValue`.
-/
import TegoNext.JsDate

set_option autoImplicit false

namespace TegoNext

/-- Portable JSON values: equal when their canonical texts are, and with the
number of UTF-8 bytes of that text. -/
class WireValue (V : Type) where
  decEq : DecidableEq V
  byteLength : V → Nat

instance {V : Type} [WireValue V] : DecidableEq V := WireValue.decEq

/-- JSON `null` alone, whose text has four bytes. -/
instance : WireValue Unit where
  decEq := inferInstance
  byteLength _ := 4

abbrev Revision : Type := Nat
abbrev FencingEpoch : Type := Nat
abbrev MessageId : Type := JsString
abbrev OperationId : Type := JsString

/-- The revision of a key that only the transaction itself has written. -/
def zeroRevision : Revision := 0

def STATE_QUERY_MAX_LIMIT : Nat := 100
def OUTBOX_TOPIC_MAX_LENGTH : Nat := 128
def OUTBOX_PAYLOAD_MAX_BYTES : Nat := 1048576

structure StateKey where
  nspace : JsString
  collection : JsString
  id : JsString
  deriving DecidableEq

/-- `Revision | "absent" | undefined`. -/
inductive ExpectedRevision where
  | undefined
  | absent
  | revision (r : Revision)
  deriving DecidableEq

structure StateQuery where
  nspace : JsString
  collection : JsString
  idPrefix : Option JsString
  afterId : Option JsString
  limit : Option Int

structure StateFencing where
  resource : JsString
  epoch : FencingEpoch
  deriving DecidableEq

/-- Options of `transact`: both idempotency fields are optional at run time. -/
structure StateTransactionOptions where
  fencing : Option StateFencing
  idempotencyKey : Option JsString
  idempotencyFingerprint : Option JsString

inductive OperationStatus where
  | completed
  | executing
  | failed
  | planned
  deriving DecidableEq

structure OperationJournalEntry (V : Type) where
  operationId : OperationId
  kind : JsString
  status : OperationStatus
  state : V
  updatedAt : JsString

structure PersistedOperationJournalEntry (V : Type) extends OperationJournalEntry V where
  revision : Revision

structure OutboxMessage (V : Type) where
  messageId : MessageId
  operationId : OperationId
  topic : JsString
  payload : V
  createdAt : JsString
  availableAt : JsString

structure OutboxClaimRequest where
  owner : JsString
  leaseDurationMs : Int
  limit : Option Int
  topic : Option JsString
  fencing : Option StateFencing

structure OutboxClaim (V : Type) where
  message : OutboxMessage V
  owner : JsString
  claimEpoch : FencingEpoch
  attempt : Nat
  claimedAt : JsDate.Instant
  expiresAt : JsDate.Instant

inductive OutboxAcknowledgementOutcome where
  | completed
  | retry
  deriving DecidableEq

structure OutboxAcknowledgementRequest where
  messageId : MessageId
  owner : JsString
  claimEpoch : FencingEpoch
  outcome : OutboxAcknowledgementOutcome
  retryAt : Option JsString
  fencing : Option StateFencing

structure OutboxAcknowledgement where
  messageId : MessageId
  outcome : OutboxAcknowledgementOutcome
  attempt : Nat
  acknowledgedAt : JsDate.Instant
  duplicate : Bool
  retryAt : Option JsString
  deriving DecidableEq

structure ScannedState (V : Type) where
  key : StateKey
  value : V
  revision : Revision

/-- A committed change, as the change log keeps it; `none` is a deletion. -/
structure StateChange (V : Type) where
  revision : Revision
  key : StateKey
  value : Option V

/-! ## Errors -/

inductive StateErrorCode where
  | STATE_CLOSED
  | STATE_DATA_INVALID
  | STATE_FENCE_STALE
  | STATE_IDEMPOTENCY_CONFLICT
  | STATE_QUERY_INVALID
  | STATE_REVISION_CONFLICT
  deriving DecidableEq

/-- The value of one field of an error's details. -/
inductive Detail where
  | null
  | text (s : JsString)
  | literal (s : String)
  | number (n : Int)
  | key (k : StateKey)
  deriving DecidableEq

/-- A `DiagnosticError` raised by a state store. -/
structure StateError where
  code : StateErrorCode
  message : String
  details : List (String × Detail)
  deriving DecidableEq

namespace Detail

/-- `value ?? null`. -/
def ofText : Option JsString → Detail
  | some s => text s
  | none => null

/-- `value ?? null`. -/
def ofNumber : Option Int → Detail
  | some n => number n
  | none => null

/-- `value ?? null` of an optional revision or epoch. -/
def ofNat : Option Nat → Detail
  | some n => number n
  | none => null

/-- `expectedRevision ?? null`. -/
def ofExpected : ExpectedRevision → Detail
  | .undefined => null
  | .absent => literal "absent"
  | .revision r => number r

end Detail

/-- Why a promise of a store is rejected: with a diagnostic of the store, with
the `RangeError` of a date that does not exist, or with whatever the
transaction body threw. -/
inductive Rejection where
  | state (e : StateError)
  | rangeError
  | work
  deriving DecidableEq

/-! ## Orders on keys -/

/-- `compareKeys`: by namespace, then collection, then id. -/
def compareKeys (left right : StateKey) : Ordering :=
  (Text.compareText left.nspace right.nspace).then
    ((Text.compareText left.collection right.collection).then
      (Text.compareText left.id right.id))

end TegoNext
