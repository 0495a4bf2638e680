/-
Leadership, leases and fencing epochs of the PostgreSQL coordination provider.

A resource has three rows: its epoch, its fence and its lease. `campaign` and `nextEpoch` raise the
epoch and set the fence to it; `acquireLease` does the same when it grants a lease anew and touches
neither when it extends the lease of the owner that asks.

A transaction is one step. The time, in microseconds, never goes back; how a duration is added to
it is a parameter: `none` is a query that fails.
-/
import TegoNext.Machine
import TegoNext.StateContract

set_option autoImplicit false

namespace TegoNext

open List Option Function Except

/-- `durationMs`, a JavaScript number. -/
inductive DurationMs where
  | finite (ms : Rat)
  | notFinite
  deriving DecidableEq

structure LeaseRequest where
  resource : JsString
  owner : JsString
  durationMs : DurationMs

/-- A row of `tego_coordination_leases`; times are in microseconds. -/
structure LeaseRow where
  owner : JsString
  epoch : FencingEpoch
  acquiredAt : Nat
  expiresAt : Nat
  deriving DecidableEq

/-- Times are in milliseconds. -/
structure Lease where
  resource : JsString
  owner : JsString
  epoch : FencingEpoch
  acquiredAt : Nat
  expiresAt : Nat
  deriving DecidableEq

inductive CoordinationDetail where
  | text (s : JsString)
  | literal (s : String)
  | duration (d : DurationMs)
  | instant (ms : Nat)

/-- A `DiagnosticError` of the provider. -/
structure CoordinationError where
  code : String
  message : String
  details : List (String × CoordinationDetail)

/-- Why a call is rejected: with a diagnostic, or because a query failed. -/
inductive CoordinationFailure where
  | diagnostic (e : CoordinationError)
  | database

/-- `now` in milliseconds plus a duration, in microseconds. -/
structure CoordinationPlatform where
  expiry : Nat → Rat → Option Nat

namespace PostgresCoordination

/-! ## The tables -/

structure Tables where
  epochs : JsString → Option FencingEpoch
  fences : JsString → Option FencingEpoch
  leases : JsString → Option LeaseRow

def Tables.empty : Tables := ⟨fun _ => none, fun _ => none, fun _ => none⟩

/-- The epoch `#incrementEpoch` writes: `1` into a new row. -/
def incremented (db : Tables) (resource : JsString) : FencingEpoch :=
  match db.epochs resource with
  | none => 1
  | some epoch => epoch + 1

/-- `#incrementEpoch`; a `bigint` that overflows fails the query. -/
def incrementEpoch (db : Tables) (resource : JsString) : Option (FencingEpoch × Tables) :=
  let epoch := incremented db resource
  if epoch < 2 ^ 63 then
    some (epoch, { db with
      epochs := Function.update db.epochs resource (some epoch)
      fences := Function.update db.fences resource (some epoch) })
  else none

def lockEpochRow (db : Tables) (resource : JsString) : Tables :=
  match db.epochs resource with
  | none => { db with epochs := Function.update db.epochs resource (some 0) }
  | some _ => db

/-- `isoTimestamp`: the milliseconds of a timestamp, if a `Date` can hold them. -/
def isoTimestamp (microseconds : Nat) : Option Nat :=
  if (microseconds / 1000 : Nat) ≤ JsDate.maxInstant then some (microseconds / 1000) else none

def invalidTimestamp (field : String) : CoordinationError where
  code := "STATE_DATA_INVALID"
  message := "PostgreSQL returned an invalid " ++ field
  details := [("field", .literal field)]

/-- `#decodeLease`, for the timestamps a `Date` can hold. -/
def LeaseRow.toLease (row : LeaseRow) (resource : JsString) : Lease where
  resource := resource
  owner := row.owner
  epoch := row.epoch
  acquiredAt := row.acquiredAt / 1000
  expiresAt := row.expiresAt / 1000

def decodeLease (resource : JsString) (row : LeaseRow) : Except CoordinationError Lease :=
  match isoTimestamp row.acquiredAt with
  | none => .error (invalidTimestamp "lease acquisition")
  | some _ =>
    match isoTimestamp row.expiresAt with
    | none => .error (invalidTimestamp "lease expiry")
    | some _ => .ok (LeaseRow.toLease row resource)

/-! ## The transactions -/

inductive Transaction where
  | leadership (resource : JsString)
  | lease (request : LeaseRequest)
  | nextEpoch (resource : JsString)

def Transaction.resource : Transaction → JsString
  | .leadership resource => resource
  | .lease request => request.resource
  | .nextEpoch resource => resource

inductive Commit where
  | leadership (epoch : FencingEpoch)
  | lease (renewed : Bool) (row : LeaseRow)
  | nextEpoch (epoch : FencingEpoch)
  deriving DecidableEq

def Commit.issued? : Commit → Option FencingEpoch
  | .leadership epoch => some epoch
  | .lease false row => some row.epoch
  | .lease true _ => none
  | .nextEpoch epoch => some epoch

def leaseHeld (resource owner : JsString) (expiresAt : Nat) : CoordinationError where
  code := "COORDINATION_LEASE_HELD"
  message := "Coordination lease is held by another owner"
  details := [("resource", .text resource), ("owner", .text owner),
    ("expiresAt", .instant expiresAt)]

variable (platform : CoordinationPlatform)

/-- `$3::timestamptz + ($4::double precision * interval '1 millisecond')` -/
def expiresAt (now : Nat) : DurationMs → Option Nat
  | .finite ms => platform.expiry now ms
  | .notFinite => none

/-- The end of `acquireLease`: the lease is granted anew. -/
def grantLease (db : Tables) (request : LeaseRequest) (now : Nat) :
    Except CoordinationFailure (Commit × Tables) :=
  match incrementEpoch db request.resource with
  | none => .error .database
  | some (epoch, db) =>
    match expiresAt platform now request.durationMs with
    | none => .error .database
    | some expires =>
      let row : LeaseRow := ⟨request.owner, epoch, now * 1000, expires⟩
      .ok (.lease false row,
        { db with leases := Function.update db.leases request.resource (some row) })

/-- The lease of the owner that asks is extended. -/
def renewLease (db : Tables) (request : LeaseRequest) (active : LeaseRow) (now : Nat) :
    Except CoordinationFailure (Commit × Tables) :=
  match expiresAt platform now request.durationMs with
  | none => .error .database
  | some expires =>
    let row : LeaseRow := { active with expiresAt := expires }
    .ok (.lease true row,
      { db with leases := Function.update db.leases request.resource (some row) })

/-- `acquireLease`, inside its transaction; `clock` is the time in microseconds. -/
def acquireLease (db : Tables) (request : LeaseRequest) (clock : Nat) :
    Except CoordinationFailure (Commit × Tables) :=
  let db := lockEpochRow db request.resource
  -- a `Date` has milliseconds
  let now := clock / 1000
  match db.leases request.resource with
  | none => grantLease platform db request now
  | some active =>
    match isoTimestamp active.expiresAt with
    | none => .error (.diagnostic (invalidTimestamp "lease expiry"))
    | some activeExpiresAt =>
      if now < activeExpiresAt then
        if active.owner ≠ request.owner then
          .error (.diagnostic (leaseHeld request.resource active.owner activeExpiresAt))
        else renewLease platform db request active now
      else grantLease platform db request now

def transact (db : Tables) (clock : Nat) :
    Transaction → Except CoordinationFailure (Commit × Tables)
  | .leadership resource =>
    match incrementEpoch db resource with
    | none => .error .database
    | some (epoch, db) => .ok (.leadership epoch, db)
  | .lease request => acquireLease platform db request clock
  | .nextEpoch resource =>
    match incrementEpoch db resource with
    | none => .error .database
    | some (epoch, db) => .ok (.nextEpoch epoch, db)

/-! ## Providers and runs -/

inductive Lifecycle where
  | created
  | opened
  | closed
  deriving DecidableEq

/-- An entry of `#campaigns`: the promise, or what it is resolved with. -/
inductive Campaign where
  | acquiring
  | leading (epoch : FencingEpoch)

inductive Answer where
  | leadership (epoch : FencingEpoch)
  | lease (lease : Lease)
  | nextEpoch (epoch : FencingEpoch)

inductive Event where
  | committed (resource : JsString) (commit : Commit)
  | returned (provider : Nat) (resource : JsString) (answer : Answer)
  | rejected (provider : Nat) (failure : CoordinationFailure)

structure Call where
  provider : Nat
  transaction : Transaction

/-- `leader` is who has the advisory lock of a resource; `log` is what happened so far. -/
structure State where
  db : Tables
  clock : Nat
  lifecycle : Nat → Lifecycle
  campaigns : Nat → JsString → Option Campaign
  leader : JsString → Option Nat
  calls : List Call
  log : List Event

def initial : State where
  db := .empty
  clock := 0
  lifecycle := fun _ => .created
  campaigns := fun _ _ => none
  leader := fun _ => none
  calls := []
  log := []

/-- How a transaction may end: its work stands and is answered, is rolled back, or stands
although the connection is lost before the answer arrives. -/
inductive Ending where
  | answered
  | rolledBack
  | answerLost
  deriving DecidableEq

inductive Label where
  | open (provider : Nat)
  | close (provider : Nat)
  | campaign (provider : Nat) (resource : JsString)
  | acquireLease (provider : Nat) (request : LeaseRequest)
  | nextEpoch (provider : Nat) (resource : JsString)
  /-- The transaction of a call, at a time of the provider's clock. -/
  | transact (call : Nat) (clock : Nat) (ending : Ending)
  /-- `release`, or the loss of the connection as the provider sees it. -/
  | endLeadership (provider : Nat) (resource : JsString)
  /-- The database drops the lock of a connection it has lost. -/
  | dropLock (resource : JsString)

def requestError (message : String) (details : List (String × CoordinationDetail)) :
    CoordinationError where
  code := "COORDINATION_REQUEST_INVALID"
  message := message
  details := details

def Lifecycle.text : Lifecycle → String
  | .created => "created"
  | .opened => "open"
  | .closed => "closed"

def closedError (lifecycle : Lifecycle) : CoordinationError where
  code := "COORDINATION_CLOSED"
  message := "PostgreSQL coordination provider is closed"
  details := [("lifecycle", .literal lifecycle.text)]

/-- `#assertOpen` and `#assertResource` -/
def checkCall (lifecycle : Lifecycle) (resource : JsString) : Except CoordinationError Unit :=
  if lifecycle ≠ .opened then .error (closedError lifecycle)
  else if resource = [] then
    .error (requestError "Coordination resource must not be empty" [("resource", .text resource)])
  else .ok ()

/-- `!Number.isFinite(durationMs) || durationMs <= 0` -/
def invalidDuration : DurationMs → Bool
  | .finite ms => decide (ms ≤ 0)
  | .notFinite => true

/-- The checks of `acquireLease`. -/
def checkLease (lifecycle : Lifecycle) (request : LeaseRequest) : Except CoordinationError Unit :=
  match checkCall lifecycle request.resource with
  | .error e => .error e
  | .ok () =>
    if request.owner = [] then
      .error (requestError "Lease owner must not be empty" [("owner", .text request.owner)])
    else if invalidDuration request.durationMs then
      .error (requestError "Lease duration must be a positive finite number"
        [("durationMs", .duration request.durationMs)])
    else .ok ()

namespace State

variable (s : State) (call : Call)

def record (e : Event) : State := { s with log := s.log ++ [e] }

def submit (provider : Nat) (transaction : Transaction) : Except CoordinationError Unit → State
  | .error e => s.record (.rejected provider (.diagnostic e))
  | .ok () => { s with calls := s.calls ++ [⟨provider, transaction⟩] }

def setCampaign (provider : Nat) (resource : JsString) (campaign : Option Campaign) : State :=
  { s with
    campaigns := Function.update s.campaigns provider
      (Function.update (s.campaigns provider) resource campaign) }

def setLeader (resource : JsString) (leader : Option Nat) : State :=
  { s with leader := Function.update s.leader resource leader }

/-- `campaign`: one campaign for a resource at a time. -/
def campaign (provider : Nat) (resource : JsString) : State :=
  match checkCall (s.lifecycle provider) resource with
  | .error e => s.record (.rejected provider (.diagnostic e))
  | .ok () =>
    match s.campaigns provider resource with
    | some (.leading epoch) => s.record (.returned provider resource (.leadership epoch))
    | some .acquiring => s
    | none => (s.submit provider (.leadership resource) (.ok ())).setCampaign provider resource
        (some .acquiring)

def failCall (failure : CoordinationFailure) : State :=
  let s := s.record (.rejected call.provider failure)
  match call.transaction with
  | .leadership resource => s.setCampaign call.provider resource none
  | _ => s

def answer : Commit → State
  | .leadership epoch =>
    ((s.setCampaign call.provider call.transaction.resource (some (.leading epoch))).setLeader
      call.transaction.resource (some call.provider)).record
        (.returned call.provider call.transaction.resource (.leadership epoch))
  | .lease _ row =>
    match decodeLease call.transaction.resource row with
    | .error e => s.record (.rejected call.provider (.diagnostic e))
    | .ok lease => s.record (.returned call.provider call.transaction.resource (.lease lease))
  | .nextEpoch epoch =>
    s.record (.returned call.provider call.transaction.resource (.nextEpoch epoch))

/-- What a call finds before its transaction: `#acquireLeadership` waits for the lock and
then looks again whether the provider is open. -/
def admits : Option (Except CoordinationFailure Unit) :=
  match call.transaction with
  | .leadership resource =>
    if s.leader resource ≠ none then none
    else if s.lifecycle call.provider ≠ .opened then
      some (.error (.diagnostic (closedError (s.lifecycle call.provider))))
    else some (.ok ())
  | _ => some (.ok ())

def commit (committed : Commit) (db : Tables) : State :=
  { s with db := db }.record (.committed call.transaction.resource committed)

def runTransaction : Ending → State
  | .rolledBack => s.failCall call .database
  | ending =>
    match transact platform s.db s.clock call.transaction with
    | .error failure => s.failCall call failure
    | .ok (committed, db) =>
      match ending with
      | .answerLost => (s.commit call committed db).failCall call .database
      | _ => (s.commit call committed db).answer call committed

end State

def step (s : State) : Label → Option State
  | .open provider =>
    if s.lifecycle provider = .closed then
      some (s.record (.rejected provider (.diagnostic (closedError .closed))))
    else some { s with lifecycle := Function.update s.lifecycle provider .opened }
  | .close provider => some { s with
      lifecycle := Function.update s.lifecycle provider .closed
      campaigns := Function.update s.campaigns provider fun _ => none
      leader := fun resource =>
        if s.leader resource = some provider then none else s.leader resource }
  | .campaign provider resource => some (s.campaign provider resource)
  | .acquireLease provider request =>
    some (s.submit provider (.lease request) (checkLease (s.lifecycle provider) request))
  | .nextEpoch provider resource =>
    some (s.submit provider (.nextEpoch resource) (checkCall (s.lifecycle provider) resource))
  | .transact index clock ending =>
    if clock < s.clock then none
    else
      match s.calls[index]? with
      | none => none
      | some call =>
        let waiting := { s with clock := clock, calls := s.calls.eraseIdx index }
        match waiting.admits call with
        | none => none
        | some (.error failure) => some (waiting.failCall call failure)
        | some (.ok ()) => some (waiting.runTransaction platform call ending)
  | .endLeadership provider resource =>
    match s.campaigns provider resource with
    | some (.leading _) => some ((s.setCampaign provider resource none).setLeader resource
        (if s.leader resource = some provider then none else s.leader resource))
    | _ => none
  | .dropLock resource => some (s.setLeader resource none)

/-- The runs of any number of providers on one database. -/
def machine : Machine State Label where
  Init s := s = initial
  step := step platform

/-! ## What a history says -/

section

variable (log : List Event)

def issued (resource : JsString) : List FencingEpoch :=
  log.filterMap fun
    | .committed r committed => if r = resource then committed.issued? else none
    | _ => none

/-- The leases of a resource that were committed, in order. -/
def granted (resource : JsString) : List LeaseRow :=
  log.filterMap fun
    | .committed r (.lease _ row) => if r = resource then some row else none
    | _ => none

/-- The lease an owner holds: the last one it was given. -/
def heldBy (resource owner : JsString) : Option Lease :=
  (((granted log resource).filter fun row => row.owner = owner).getLast?).map
    (LeaseRow.toLease · resource)

def EpochsIncrease : Prop := ∀ resource, (issued log resource).Pairwise (· < ·)

/-- The fence of a resource is the last epoch issued. -/
def FenceIsLastIssued (s : State) : Prop :=
  ∀ resource, s.db.fences resource = (issued s.log resource).getLast?

/-- From now on, no two owners hold an unexpired lease of one resource. -/
def OneHolder (s : State) : Prop :=
  ∀ resource owner owner' lease lease' clock,
    heldBy s.log resource owner = some lease → heldBy s.log resource owner' = some lease' →
    s.clock ≤ clock → clock < lease.expiresAt * 1000 → clock < lease'.expiresAt * 1000 →
    owner = owner'

def LeasesCurrent : Prop :=
  ∀ before after provider resource lease,
    log = before ++ .returned provider resource (.lease lease) :: after →
    (issued before resource).getLast? = some lease.epoch

/-- The epoch of a committed lease: the current one if it was granted anew, else the one it was
granted with. -/
def EpochOfLease (resource : JsString) (row : LeaseRow) : Bool → Prop
  | false => (issued log resource).getLast? = some row.epoch
  | true => ∃ before first after,
      log = before ++ .committed resource (.lease false first) :: after ∧
      (∀ other, .committed resource (.lease false other) ∉ after) ∧
      first.owner = row.owner ∧ first.epoch = row.epoch ∧
      ((issued log resource).getLast? = some row.epoch ↔ issued after resource = [])

def LeaseEpochs : Prop :=
  ∀ before after provider resource lease,
    log = before ++ .returned provider resource (.lease lease) :: after →
    ∃ renewed row, before.getLast? = some (.committed resource (.lease renewed row)) ∧
      lease = LeaseRow.toLease row resource ∧ EpochOfLease before resource row renewed

end

/-! ## One transaction -/

section

variable {platform} {db db' : Tables} {resource : JsString} {epoch : FencingEpoch}
  {clock : Nat} {committed : Commit}

def epochOf (db : Tables) (resource : JsString) : FencingEpoch := (db.epochs resource).getD 0

/-- A new epoch is issued for a resource. -/
structure Raises (db db' : Tables) (resource : JsString) (epoch : FencingEpoch) : Prop where
  next : epoch = epochOf db resource + 1
  epochs : epochOf db' = Function.update (epochOf db) resource epoch
  fences : db'.fences = Function.update db.fences resource (some epoch)

theorem epochOf_update (db : Tables) (resource : JsString) (epoch : FencingEpoch) :
    (fun r => (Function.update db.epochs resource (some epoch) r).getD 0) =
      Function.update (epochOf db) resource epoch := by
  funext r
  by_cases h : r = resource
  · subst h
    rw [update_self, update_self, getD_some]
  · rw [update_of_ne h, update_of_ne h, epochOf]

theorem incremented_eq (db : Tables) (resource : JsString) :
    incremented db resource = epochOf db resource + 1 := by
  unfold incremented epochOf
  cases db.epochs resource with
  | none => rfl
  | some epoch => rfl

theorem incrementEpoch_spec (h : incrementEpoch db resource = some (epoch, db')) :
    Raises db db' resource epoch ∧ db'.leases = db.leases := by
  unfold incrementEpoch at h
  dsimp only at h
  split at h
  · obtain ⟨rfl, rfl⟩ := Prod.mk.inj (some.inj h)
    exact ⟨⟨incremented_eq db resource, epochOf_update db resource _, rfl⟩, rfl⟩
  · cases h

/-- Taking the lock adds at most a row with the epoch `0`. -/
theorem lockEpochRow_spec (db : Tables) (resource : JsString) :
    epochOf (lockEpochRow db resource) = epochOf db ∧
      (lockEpochRow db resource).fences = db.fences ∧
      (lockEpochRow db resource).leases = db.leases := by
  unfold lockEpochRow
  split
  · next hnone =>
    refine ⟨?_, rfl, rfl⟩
    refine (epochOf_update db resource 0).trans ?_
    have hzero : epochOf db resource = 0 := by rw [epochOf, hnone, getD_none]
    rw [← hzero, update_eq_self]
  · exact ⟨rfl, rfl, rfl⟩

inductive Commits (db db' : Tables) (clock : Nat) (resource : JsString) : Commit → Prop
  | issue {committed : Commit} {epoch : FencingEpoch} (hissued : committed.issued? = some epoch)
      (hother : ∀ renewed row, committed ≠ .lease renewed row)
      (hraises : Raises db db' resource epoch) (hleases : db'.leases = db.leases) :
      Commits db db' clock resource committed
  | grant {row : LeaseRow} (hraises : Raises db db' resource row.epoch)
      (hleases : db'.leases = Function.update db.leases resource (some row))
      (hfree : ∀ active, db.leases resource = some active →
        active.expiresAt / 1000 ≤ clock / 1000) :
      Commits db db' clock resource (.lease false row)
  | renew {row active : LeaseRow} (hactive : db.leases resource = some active)
      (howner : row.owner = active.owner) (hepoch : row.epoch = active.epoch)
      (hepochs : epochOf db' = epochOf db) (hfences : db'.fences = db.fences)
      (hleases : db'.leases = Function.update db.leases resource (some row)) :
      Commits db db' clock resource (.lease true row)

variable {request : LeaseRequest}

theorem grantLease_commits {now : Nat}
    (hfree : ∀ active, db.leases request.resource = some active →
      active.expiresAt / 1000 ≤ clock / 1000)
    (h : grantLease platform (lockEpochRow db request.resource) request now =
      .ok (committed, db')) :
    Commits db db' clock request.resource committed := by
  obtain ⟨hepochs, hfences, hleases⟩ := lockEpochRow_spec db request.resource
  unfold grantLease at h
  split at h
  · cases h
  next epoch raised hraise =>
  obtain ⟨hraises, hkept⟩ := incrementEpoch_spec hraise
  split at h
  · cases h
  next expires _ =>
  obtain ⟨rfl, rfl⟩ := Prod.mk.inj (ok.inj h)
  refine .grant ⟨?_, ?_, ?_⟩ ?_ hfree
  · rw [← hepochs]
    exact hraises.next
  · rw [← hepochs]
    exact hraises.epochs
  · rw [← hfences]
    exact hraises.fences
  · rw [← hleases, ← hkept]

theorem renewLease_commits {active : LeaseRow} {now : Nat}
    (hactive : db.leases request.resource = some active)
    (h : renewLease platform (lockEpochRow db request.resource) request active now =
      .ok (committed, db')) :
    Commits db db' clock request.resource committed := by
  obtain ⟨hepochs, hfences, hleases⟩ := lockEpochRow_spec db request.resource
  unfold renewLease at h
  split at h
  · cases h
  next expires _ =>
  obtain ⟨rfl, rfl⟩ := Prod.mk.inj (ok.inj h)
  refine .renew hactive rfl rfl hepochs hfences ?_
  rw [← hleases]

theorem eq_of_isoTimestamp {microseconds ms : Nat} (h : isoTimestamp microseconds = some ms) :
    ms = microseconds / 1000 := by
  unfold isoTimestamp at h
  split at h
  · exact (some.inj h).symm
  · cases h

theorem acquireLease_commits (h : acquireLease platform db request clock = .ok (committed, db')) :
    Commits db db' clock request.resource committed := by
  obtain ⟨-, -, hleases⟩ := lockEpochRow_spec db request.resource
  unfold acquireLease at h
  dsimp only at h
  rw [hleases] at h
  split at h
  · next hnone =>
    refine grantLease_commits (fun active hactive => ?_) h
    rw [hactive] at hnone
    cases hnone
  next active hactive =>
  split at h
  · cases h
  next expires hexpires =>
  split at h
  · split at h
    · cases h
    · exact renewLease_commits hactive h
  next hexpired =>
  refine grantLease_commits (fun other hother => ?_) h
  obtain rfl := some.inj (hother.symm.trans hactive)
  rw [← eq_of_isoTimestamp hexpires]
  exact Nat.le_of_not_lt hexpired

theorem transact_commits {transaction : Transaction}
    (h : transact platform db clock transaction = .ok (committed, db')) :
    Commits db db' clock transaction.resource committed := by
  cases transaction with
  | leadership resource =>
    rw [transact] at h
    split at h
    · cases h
    next hraise =>
    obtain ⟨rfl, rfl⟩ := Prod.mk.inj (ok.inj h)
    obtain ⟨hraises, hleases⟩ := incrementEpoch_spec hraise
    exact .issue rfl (fun _ _ h => by cases h) hraises hleases
  | lease request => exact acquireLease_commits h
  | nextEpoch resource =>
    rw [transact] at h
    split at h
    · cases h
    next hraise =>
    obtain ⟨rfl, rfl⟩ := Prod.mk.inj (ok.inj h)
    obtain ⟨hraises, hleases⟩ := incrementEpoch_spec hraise
    exact .issue rfl (fun _ _ h => by cases h) hraises hleases

end

/-! ## One step -/

/-- Events that neither change a row nor return a lease. -/
inductive Quiet : Event → Prop
  | rejected (provider : Nat) (failure : CoordinationFailure) : Quiet (.rejected provider failure)
  | leadership (provider : Nat) (resource : JsString) (epoch : FencingEpoch) :
      Quiet (.returned provider resource (.leadership epoch))
  | nextEpoch (provider : Nat) (resource : JsString) (epoch : FencingEpoch) :
      Quiet (.returned provider resource (.nextEpoch epoch))

/-- What follows a commit: its lease is returned, or nothing that matters. -/
def Reply (resource : JsString) (committed : Commit) (e : Event) : Prop :=
  Quiet e ∨ ∃ provider renewed row, committed = .lease renewed row ∧
    e = .returned provider resource (.lease (LeaseRow.toLease row resource))

/-- What a step does to the rows and the history. -/
inductive Records (s s' : State) : Prop
  | silent (hdb : s'.db = s.db) (hclock : s.clock ≤ s'.clock) (hlog : s'.log = s.log)
  | quiet {e : Event} (hdb : s'.db = s.db) (hclock : s.clock ≤ s'.clock) (hquiet : Quiet e)
      (hlog : s'.log = s.log ++ [e])
  | commit {resource : JsString} {committed : Commit} {e : Event}
      (hcommits : Commits s.db s'.db s'.clock resource committed) (hclock : s.clock ≤ s'.clock)
      (hreply : Reply resource committed e)
      (hlog : s'.log = s.log ++ [.committed resource committed, e])

section

variable {platform} {s s' : State} {call : Call} {committed : Commit}

theorem failCall_records (s : State) (call : Call) (failure : CoordinationFailure) :
    (s.failCall call failure).db = s.db ∧ (s.failCall call failure).clock = s.clock ∧
      (s.failCall call failure).log = s.log ++ [.rejected call.provider failure] := by
  unfold State.failCall
  split
  · exact ⟨rfl, rfl, rfl⟩
  · exact ⟨rfl, rfl, rfl⟩

theorem decodeLease_eq {resource : JsString} {row : LeaseRow} {lease : Lease}
    (h : decodeLease resource row = .ok lease) : lease = LeaseRow.toLease row resource := by
  unfold decodeLease at h
  split at h
  · cases h
  split at h
  · cases h
  · exact (ok.inj h).symm

theorem answer_records (s : State) (call : Call) (committed : Commit) :
    (s.answer call committed).db = s.db ∧ (s.answer call committed).clock = s.clock ∧
      ∃ e, Reply call.transaction.resource committed e ∧
        (s.answer call committed).log = s.log ++ [e] := by
  cases committed with
  | leadership epoch => exact ⟨rfl, rfl, _, .inl (.leadership _ _ _), rfl⟩
  | nextEpoch epoch => exact ⟨rfl, rfl, _, .inl (.nextEpoch _ _ _), rfl⟩
  | lease renewed row =>
    unfold State.answer
    dsimp only
    split
    · exact ⟨rfl, rfl, _, .inl (.rejected _ _), rfl⟩
    next lease hlease =>
    obtain rfl := decodeLease_eq hlease
    exact ⟨rfl, rfl, _, .inr ⟨_, _, _, rfl, rfl⟩, rfl⟩

theorem runTransaction_records (platform : CoordinationPlatform) (s : State) (call : Call)
    (ending : Ending) :
    Records s (s.runTransaction platform call ending) := by
  have hfail : ∀ failure, Records s (s.failCall call failure) := fun failure => by
    obtain ⟨hdb, hclock, hlog⟩ := failCall_records s call failure
    exact .quiet hdb hclock.ge (.rejected _ _) hlog
  unfold State.runTransaction
  split
  · exact hfail _
  next ending _ =>
  split
  · exact hfail _
  next committed db htransact =>
  have hcommits := transact_commits htransact
  have hlog : (s.commit call committed db).log =
      s.log ++ [.committed call.transaction.resource committed] := rfl
  split
  · obtain ⟨hdb, hclock, hfailed⟩ := failCall_records (s.commit call committed db) call .database
    rw [hlog, append_assoc] at hfailed
    refine .commit ?_ hclock.ge (.inl (.rejected _ _)) hfailed
    rw [hdb, hclock]
    exact hcommits
  · obtain ⟨hdb, hclock, e, hreply, hanswered⟩ :=
      answer_records (s.commit call committed db) call committed
    rw [hlog, append_assoc] at hanswered
    refine .commit ?_ hclock.ge hreply hanswered
    rw [hdb, hclock]
    exact hcommits

theorem submit_records (s : State) (provider : Nat) (transaction : Transaction)
    (check : Except CoordinationError Unit) : Records s (s.submit provider transaction check) := by
  cases check with
  | error e => exact .quiet rfl le_rfl (.rejected _ _) rfl
  | ok _ => exact .silent rfl le_rfl rfl

theorem campaign_records (s : State) (provider : Nat) (resource : JsString) :
    Records s (s.campaign provider resource) := by
  unfold State.campaign
  split
  · exact .quiet rfl le_rfl (.rejected _ _) rfl
  split
  · exact .quiet rfl le_rfl (.leadership _ _ _) rfl
  · exact .silent rfl le_rfl rfl
  · exact .silent rfl le_rfl rfl

theorem Records.of_waiting {waiting : State} (h : Records waiting s') (hdb : waiting.db = s.db)
    (hclock : s.clock ≤ waiting.clock) (hlog : waiting.log = s.log) : Records s s' := by
  cases h with
  | silent hdb' hclock' hlog' =>
    exact .silent (hdb'.trans hdb) (hclock.trans hclock') (hlog'.trans hlog)
  | quiet hdb' hclock' hquiet hlog' =>
    exact .quiet (hdb'.trans hdb) (hclock.trans hclock') hquiet (hlog ▸ hlog')
  | commit hcommits hclock' hreply hlog' =>
    exact .commit (hdb ▸ hcommits) (hclock.trans hclock') hreply (hlog ▸ hlog')

theorem step_records {label : Label} (h : step platform s label = some s') : Records s s' := by
  cases label with
  | «open» provider =>
    rw [step] at h
    split at h
    · obtain rfl := some.inj h
      exact .quiet rfl le_rfl (.rejected _ _) rfl
    · obtain rfl := some.inj h
      exact .silent rfl le_rfl rfl
  | close provider =>
    obtain rfl := some.inj h
    exact .silent rfl le_rfl rfl
  | campaign provider resource =>
    obtain rfl := some.inj h
    exact campaign_records s provider resource
  | acquireLease provider request =>
    obtain rfl := some.inj h
    exact submit_records s provider _ _
  | nextEpoch provider resource =>
    obtain rfl := some.inj h
    exact submit_records s provider _ _
  | transact index clock ending =>
    rw [step] at h
    split at h
    · cases h
    next hlater =>
    have hclock : s.clock ≤ clock := Nat.le_of_not_lt hlater
    split at h
    · cases h
    next call _ =>
    dsimp only at h
    split at h
    · cases h
    · next failure _ =>
      obtain rfl := some.inj h
      obtain ⟨hdb, hclock', hlog⟩ := failCall_records
        { s with clock := clock, calls := s.calls.eraseIdx index } call failure
      exact .quiet hdb (hclock.trans hclock'.ge) (.rejected _ _) hlog
    · obtain rfl := some.inj h
      have hwaiting := runTransaction_records platform { s with
          clock := clock
          calls := s.calls.eraseIdx index } call ending
      exact hwaiting.of_waiting rfl hclock rfl
  | endLeadership provider resource =>
    rw [step] at h
    split at h
    · obtain rfl := some.inj h
      exact .silent rfl le_rfl rfl
    · cases h
  | dropLock resource =>
    obtain rfl := some.inj h
    exact .silent rfl le_rfl rfl

end

/-! ## Histories -/

section

variable {log : List Event} {resource r owner : JsString} {committed : Commit} {e : Event}
  {row : LeaseRow} {renewed : Bool}

theorem issued_append (log log' : List Event) (r : JsString) :
    issued (log ++ log') r = issued log r ++ issued log' r := filterMap_append

theorem granted_append (log log' : List Event) (r : JsString) :
    granted (log ++ log') r = granted log r ++ granted log' r := filterMap_append

theorem issued_committed : issued [.committed resource committed] r =
    if resource = r then committed.issued?.toList else [] := by
  by_cases h : resource = r
  · rw [if_pos h, issued, filterMap_cons]
    dsimp only
    rw [if_pos h]
    cases committed.issued? with
    | none => rfl
    | some epoch => rfl
  · rw [if_neg h, issued, filterMap_cons]
    dsimp only
    rw [if_neg h, filterMap_nil]

theorem of_reply (h : Reply resource committed e) (r : JsString) :
    issued [e] r = [] ∧ granted [e] r = [] := by
  obtain (_ | _ | _) | ⟨_, _, _, _, rfl⟩ := h
  · exact ⟨rfl, rfl⟩
  · exact ⟨rfl, rfl⟩
  · exact ⟨rfl, rfl⟩
  · exact ⟨rfl, rfl⟩

theorem heldBy_lease : heldBy (log ++ [.committed resource (.lease renewed row)]) r owner =
    if resource = r ∧ row.owner = owner then some (LeaseRow.toLease row r)
    else heldBy log r owner := by
  have hgranted : granted [.committed resource (.lease renewed row)] r =
      if resource = r then [row] else [] := by
    by_cases h : resource = r
    · rw [if_pos h, granted, filterMap_cons]
      dsimp only
      rw [if_pos h, filterMap_nil]
    rw [if_neg h, granted, filterMap_cons]
    dsimp only
    rw [if_neg h, filterMap_nil]
  rw [heldBy, granted_append, hgranted, filter_append]
  by_cases h : resource = r
  · by_cases howner : row.owner = owner
    · rw [if_pos h, if_pos ⟨h, howner⟩, filter_singleton, decide_eq_true howner, cond_true,
        getLast?_append, getLast?_singleton, some_or, map_some]
    · rw [if_pos h, if_neg fun hall => howner hall.2, filter_singleton,
        decide_eq_false howner, cond_false, append_nil, heldBy]
  · rw [if_neg h, if_neg fun hall => h hall.1, filter_nil, append_nil, heldBy]

theorem heldBy_of_granted {log' : List Event} (h : granted log' r = []) :
    heldBy (log ++ log') r owner = heldBy log r owner := by
  rw [heldBy, granted_append, h, append_nil, heldBy]

theorem split_concat {before after : List Event} {e x : Event}
    (h : log ++ [e] = before ++ x :: after) :
    before = log ∧ x = e ∨ ∃ after', log = before ++ x :: after' := by
  obtain rfl | ⟨after', y, rfl⟩ := after.eq_nil_or_concat
  · obtain ⟨hlog, he⟩ := append_inj' h rfl
    exact .inl ⟨hlog.symm, (List.cons.inj he).1.symm⟩
  · rw [concat_eq_append, ← cons_append, ← append_assoc] at h
    exact .inr ⟨after', (append_inj' h rfl).1⟩

theorem ne_of_getLast? {before after : List Nat} {x : Nat}
    (h : (before ++ x :: after).Pairwise (· < ·)) (hafter : after ≠ []) :
    (before ++ x :: after).getLast? ≠ some x := by
  intro hlast
  rw [getLast?_append, getLast?_cons, some_or, some.injEq] at hlast
  obtain ⟨y, hy⟩ := ne_none_iff_exists'.mp (mt getLast?_eq_none_iff.mp hafter)
  rw [hy, getD_some] at hlast
  have hlt := (pairwise_cons.mp (pairwise_append.mp h).2.1).1 y (mem_of_getLast? hy)
  omega

end

/-! ## The invariant -/

/-- How the rows, the clock and the history belong together. -/
structure Inv (db : Tables) (clock : Nat) (log : List Event) : Prop where
  fences : ∀ resource, db.fences resource = (issued log resource).getLast?
  increase : EpochsIncrease log
  below : ∀ resource, ∀ epoch ∈ issued log resource, epoch ≤ epochOf db resource
  /-- Who is not in the lease's row holds nothing that is still valid. -/
  held : ∀ resource owner lease, heldBy log resource owner = some lease →
    (∃ row, db.leases resource = some row ∧ row.owner = owner ∧
      lease = LeaseRow.toLease row resource) ∨ lease.expiresAt * 1000 ≤ clock
  /-- The row of a lease has the epoch of the last one granted anew. -/
  first : ∀ resource row, db.leases resource = some row → ∃ before first after,
    log = before ++ .committed resource (.lease false first) :: after ∧
      (∀ other, .committed resource (.lease false other) ∉ after) ∧
      first.owner = row.owner ∧ first.epoch = row.epoch
  returned : LeaseEpochs log

namespace Inv

variable {db db' : Tables} {clock clock' : Nat} {log : List Event} {resource : JsString}
  {committed : Commit} {e : Event}

theorem initial : Inv .empty 0 [] where
  fences _ := rfl
  increase _ := List.Pairwise.nil
  below _ _ h := by cases h
  held _ _ _ h := by cases h
  first _ _ h := by cases h
  returned _ _ _ _ _ h := by cases nil_eq_append_iff.mp h |>.2

theorem later (h : Inv db clock log) (hclock : clock ≤ clock') : Inv db clock' log :=
  { h with held := fun resource owner lease hheld =>
      (h.held resource owner lease hheld).imp_right fun hle => hle.trans hclock }

theorem append (h : Inv db clock log) (hissued : ∀ r, issued [e] r = [])
    (hgranted : ∀ r, granted [e] r = []) (hcommit : ∀ r c, e ≠ .committed r c)
    (hreturned : LeaseEpochs (log ++ [e])) : Inv db clock (log ++ [e]) where
  fences r := by
    rw [issued_append, hissued, append_nil]
    exact h.fences r
  increase r := by
    rw [issued_append, hissued, append_nil]
    exact h.increase r
  below r := by
    rw [issued_append, hissued, append_nil]
    exact h.below r
  held r owner lease hheld := by
    rw [heldBy_of_granted (hgranted r)] at hheld
    exact h.held r owner lease hheld
  first r row hrow := by
    obtain ⟨before, first, after, rfl, hnone, howner, hepoch⟩ := h.first r row hrow
    refine ⟨before, first, after ++ [e], append_assoc .., fun other hother => ?_, howner, hepoch⟩
    obtain hother | hother := mem_append.mp hother
    · exact hnone other hother
    · exact hcommit _ _ (mem_singleton.mp hother).symm
  returned := hreturned

theorem returned_append (h : LeaseEpochs log)
    (hnot : ∀ provider resource lease, e ≠ .returned provider resource (.lease lease)) :
    LeaseEpochs (log ++ [e]) := by
  intro before after provider r lease hlog
  obtain ⟨-, he⟩ | ⟨after', hlog'⟩ := split_concat hlog
  · exact absurd he.symm (hnot provider r lease)
  · exact h before after' provider r lease hlog'

theorem raise (h : Inv db clock log) {epoch : FencingEpoch}
    (hraises : Raises db db' resource epoch) (hissued : committed.issued? = some epoch) :
    (∀ r, db'.fences r = (issued (log ++ [.committed resource committed]) r).getLast?) ∧
      EpochsIncrease (log ++ [.committed resource committed]) ∧
      ∀ r, ∀ epoch ∈ issued (log ++ [.committed resource committed]) r, epoch ≤ epochOf db' r := by
  have hcommitted : ∀ r, issued (log ++ [.committed resource committed]) r =
      issued log r ++ if resource = r then [epoch] else [] := fun r => by
    rw [issued_append, issued_committed, hissued, toList_some]
  refine ⟨fun r => ?_, fun r => ?_, fun r => ?_⟩
  · rw [hraises.fences, hcommitted]
    by_cases hr : resource = r
    · subst hr
      rw [if_pos rfl, update_self, getLast?_concat]
    · rw [if_neg hr, update_of_ne (Ne.symm hr), append_nil]
      exact h.fences r
  · rw [hcommitted]
    by_cases hr : resource = r
    · subst hr
      rw [if_pos rfl, pairwise_append]
      refine ⟨h.increase _, pairwise_singleton _ _, fun old hold new hnew => ?_⟩
      rw [mem_singleton.mp hnew, hraises.next]
      exact Nat.lt_succ_of_le (h.below _ old hold)
    · rw [if_neg hr, append_nil]
      exact h.increase r
  · rw [hcommitted, hraises.epochs]
    by_cases hr : resource = r
    · subst hr
      rw [if_pos rfl, update_self]
      intro old hold
      obtain hold | hold := mem_append.mp hold
      · rw [hraises.next]
        exact Nat.le_succ_of_le (h.below _ old hold)
      · exact (mem_singleton.mp hold).le
    · rw [if_neg hr, update_of_ne (Ne.symm hr), append_nil]
      exact h.below r

variable {row : LeaseRow}

theorem hold (h : Inv db clock log) {renewed : Bool}
    (hleases : db'.leases = Function.update db.leases resource (some row))
    (hover : ∀ active, db.leases resource = some active → active.owner ≠ row.owner →
      active.expiresAt / 1000 * 1000 ≤ clock) (r owner : JsString) (lease : Lease)
    (hheld : heldBy (log ++ [.committed resource (.lease renewed row)]) r owner = some lease) :
    (∃ row, db'.leases r = some row ∧ row.owner = owner ∧ lease = LeaseRow.toLease row r) ∨
      lease.expiresAt * 1000 ≤ clock := by
  rw [heldBy_lease] at hheld
  split at hheld
  · next hall =>
    obtain ⟨rfl, howner⟩ := hall
    refine .inl ⟨row, ?_, howner, (some.inj hheld).symm⟩
    rw [hleases, update_self]
  next hother =>
  obtain ⟨active, hactive, howner, rfl⟩ | hexpired := h.held r owner lease hheld
  · by_cases hr : resource = r
    · subst hr
      exact .inr (hover active hactive fun heq => hother ⟨rfl, heq.symm.trans howner⟩)
    · refine .inl ⟨active, ?_, howner, rfl⟩
      rw [hleases, update_of_ne (Ne.symm hr)]
      exact hactive
  · exact .inr hexpired

theorem first_append (h : Inv db clock log) {r : JsString}
    (hrow : db.leases r = some row) (hnot : ∀ other, committed = .lease false other → resource ≠ r) :
    ∃ before first after,
      log ++ [.committed resource committed] = before ++ .committed r (.lease false first) :: after ∧
      (∀ other, .committed r (.lease false other) ∉ after) ∧
      first.owner = row.owner ∧ first.epoch = row.epoch := by
  obtain ⟨before, first, after, rfl, hnone, howner, hepoch⟩ := h.first r row hrow
  refine ⟨before, first, after ++ [.committed resource committed], append_assoc ..,
    fun other hother => ?_, howner, hepoch⟩
  obtain hother | hother := mem_append.mp hother
  · exact hnone other hother
  · obtain ⟨rfl, rfl⟩ := Event.committed.inj (mem_singleton.mp hother)
    exact hnot other rfl rfl

/-- **A commit keeps the rows and the history together.** -/
theorem commit (h : Inv db clock log) (hcommits : Commits db db' clock resource committed) :
    Inv db' clock (log ++ [.committed resource committed]) := by
  have hreturned := returned_append (e := .committed resource committed) h.returned
    fun _ _ _ h => by cases h
  cases hcommits with
  | issue hissued hother hraises hleases =>
    obtain ⟨hfences, hincrease, hbelow⟩ := h.raise hraises hissued
    refine ⟨hfences, hincrease, hbelow, fun r owner lease hheld => ?_, fun r row hrow => ?_,
      hreturned⟩
    · have hnone : granted [.committed resource committed] r = [] := by
        cases committed with
        | leadership epoch => rfl
        | nextEpoch epoch => rfl
        | lease renewed row => exact absurd rfl (hother renewed row)
      rw [heldBy_of_granted hnone] at hheld
      rw [hleases]
      exact h.held r owner lease hheld
    · rw [hleases] at hrow
      exact h.first_append hrow fun other heq => absurd heq (hother false other)
  | @grant row hraises hleases hfree =>
    obtain ⟨hfences, hincrease, hbelow⟩ := @raise _ _ _ _ _ (.lease false row) h _ hraises rfl
    refine ⟨hfences, hincrease, hbelow, h.hold hleases fun active hactive _ => ?_,
      fun r other hrow => ?_, hreturned⟩
    · have hms := hfree active hactive
      omega
    · rw [hleases] at hrow
      by_cases hr : resource = r
      · subst hr
        rw [update_self] at hrow
        obtain rfl := some.inj hrow
        exact ⟨log, row, [], rfl, fun _ hmem => not_mem_nil hmem, rfl, rfl⟩
      · rw [update_of_ne (Ne.symm hr)] at hrow
        exact h.first_append hrow fun _ _ => hr
  | @renew row active hactive howner hepoch hepochs hfences hleases =>
    have hissued : ∀ r, issued (log ++ [.committed resource (.lease true row)]) r =
        issued log r := fun r => by
      rw [issued_append, issued_committed, Commit.issued?, toList_none, ite_self, append_nil]
    refine ⟨fun r => ?_, fun r => ?_, fun r => ?_, h.hold hleases fun other hother hne => ?_,
      fun r other hrow => ?_, hreturned⟩
    · rw [hissued, hfences]
      exact h.fences r
    · rw [hissued]
      exact h.increase r
    · rw [hissued, hepochs]
      exact h.below r
    · obtain rfl := some.inj (hother.symm.trans hactive)
      exact absurd howner.symm hne
    · rw [hleases] at hrow
      by_cases hr : resource = r
      · subst hr
        rw [update_self] at hrow
        obtain rfl := some.inj hrow
        rw [howner, hepoch]
        exact h.first_append hactive fun _ heq => by cases heq
      · rw [update_of_ne (Ne.symm hr)] at hrow
        exact h.first_append hrow fun _ heq => by cases heq

theorem epochOfLease (h : Inv db clock log) {renewed : Bool}
    (hcommits : Commits db db' clock resource (.lease renewed row)) :
    EpochOfLease (log ++ [.committed resource (.lease renewed row)]) resource row renewed := by
  have hinv := h.commit hcommits
  cases hcommits with
  | issue hissued hother => exact absurd rfl (hother _ _)
  | grant hraises hleases hfree =>
    rw [EpochOfLease, ← hinv.fences, hraises.fences, update_self]
  | renew hactive howner hepoch hepochs hfences hleases =>
    have hrow : db'.leases resource = some row := by rw [hleases, update_self]
    obtain ⟨before, first, after, hlog, hnone, hsame, hfirst⟩ := hinv.first resource row hrow
    refine ⟨before, first, after, hlog, hnone, hsame, hfirst, ?_⟩
    have hincrease := hinv.increase resource
    have hissued : issued (log ++ [.committed resource (.lease true row)]) resource =
        issued before resource ++ row.epoch :: issued after resource := by
      rw [hlog, ← singleton_append, issued_append, issued_append, issued_committed,
        if_pos rfl, Commit.issued?, hfirst, toList_some, singleton_append]
    rw [hissued] at hincrease ⊢
    refine ⟨fun hlast => ?_, fun hnil => ?_⟩
    · by_contra hafter
      exact ne_of_getLast? hincrease hafter hlast
    · rw [hnil, getLast?_concat]

theorem reply (h : Inv db clock log) (hcommits : Commits db db' clock resource committed)
    (hreply : Reply resource committed e) :
    Inv db' clock (log ++ [.committed resource committed, e]) := by
  have hinv := h.commit hcommits
  have hlog : log ++ [.committed resource committed, e] =
      log ++ [.committed resource committed] ++ [e] := by
    rw [append_assoc, singleton_append]
  rw [hlog]
  refine hinv.append (fun r => (of_reply hreply r).1) (fun r => (of_reply hreply r).2) ?_ ?_
  · rintro r c rfl
    obtain hquiet | ⟨_, _, _, _, heq⟩ := hreply
    · cases hquiet
    · cases heq
  obtain hquiet | ⟨provider, renewed, row, rfl, rfl⟩ := hreply
  · refine returned_append hinv.returned ?_
    rintro provider r lease rfl
    cases hquiet
  intro before after provider' r lease hreturned
  obtain ⟨rfl, heq⟩ | ⟨after', hbefore⟩ := split_concat hreturned
  · obtain ⟨-, rfl, hanswer⟩ := Event.returned.inj heq
    obtain rfl := Answer.lease.inj hanswer
    exact ⟨renewed, row, getLast?_concat, rfl, h.epochOfLease hcommits⟩
  · exact hinv.returned before after' provider' r lease hbefore

theorem oneHolder {s : State} (h : Inv s.db s.clock s.log) : OneHolder s := by
  intro resource owner owner' lease lease' clock hheld hheld' hnow hvalid hvalid'
  obtain ⟨row, hrow, howner, -⟩ | hexpired := h.held resource owner lease hheld
  · obtain ⟨row', hrow', howner', -⟩ | hexpired' := h.held resource owner' lease' hheld'
    · obtain rfl := some.inj (hrow.symm.trans hrow')
      exact howner.symm.trans howner'
    · exact absurd (hexpired'.trans hnow) (Nat.not_le_of_lt hvalid')
  · exact absurd (hexpired.trans hnow) (Nat.not_le_of_lt hvalid)

end Inv

section

variable {platform} {s s' : State}

theorem Inv.of_records (h : Inv s.db s.clock s.log) (hrecords : Records s s') :
    Inv s'.db s'.clock s'.log := by
  cases hrecords with
  | silent hdb hclock hlog =>
    rw [hdb, hlog]
    exact h.later hclock
  | @quiet e hdb hclock hquiet hlog =>
    rw [hdb, hlog]
    have hreply : Reply [] (.nextEpoch 0) e := .inl hquiet
    refine (h.later hclock).append (fun r => (of_reply hreply r).1)
      (fun r => (of_reply hreply r).2) ?_ (Inv.returned_append h.returned ?_)
    · rintro r c rfl
      cases hquiet
    · rintro provider r lease rfl
      cases hquiet
  | commit hcommits hclock hreply hlog =>
    rw [hlog]
    exact (h.later hclock).reply hcommits hreply

theorem inv_of_reachable (hr : (machine platform).Reachable s) : Inv s.db s.clock s.log :=
  Machine.ReachableVia.invariant (I := fun s => Inv s.db s.clock s.log)
    (fun _ h0 => by
      cases h0
      exact .initial)
    (fun _ _ _ _ hinv hstep _ => hinv.of_records (step_records hstep)) hr

end

/-- **Epochs and leases.** The epochs of a resource strictly increase, its fence is the last one
issued, and no two owners hold a lease that is still valid. A lease that was extended has the
epoch it was granted with, which is current exactly when none was issued since. -/
theorem epochs_and_leases {s : State} (hr : (machine platform).Reachable s) :
    EpochsIncrease s.log ∧ FenceIsLastIssued s ∧ OneHolder s ∧ LeaseEpochs s.log :=
  have hinv := inv_of_reachable hr
  ⟨hinv.increase, hinv.fences, hinv.oneHolder, hinv.returned⟩

/-- Half a second for one owner, an epoch for somebody else, half a second more. -/
def renewAfterEpoch : List Label :=
  let request : LeaseRequest := ⟨Text.js "task/renewed", Text.js "worker-a", .finite 500⟩
  [.open 0, .acquireLease 0 request, .transact 0 0 .answered,
    .nextEpoch 0 (Text.js "task/renewed"), .transact 0 0 .answered,
    .acquireLease 0 request, .transact 0 0 .answered]

def wholeMilliseconds : CoordinationPlatform where
  expiry now ms := some ((now + ms.num.toNat) * 1000)

/-- What happens until the renewed lease is returned. -/
def renewedHistory : List Event :=
  [.committed (Text.js "task/renewed") (.lease false ⟨Text.js "worker-a", 1, 0, 500000⟩),
    .returned 0 (Text.js "task/renewed")
      (.lease ⟨Text.js "task/renewed", Text.js "worker-a", 1, 0, 500⟩),
    .committed (Text.js "task/renewed") (.nextEpoch 2),
    .returned 0 (Text.js "task/renewed") (.nextEpoch 2),
    .committed (Text.js "task/renewed") (.lease true ⟨Text.js "worker-a", 1, 0, 500000⟩)]

/-- The lease of the renewal carries the epoch `1`, and `2` was issued before. -/
theorem renewedLease_not_current : ¬ ∀ platform s, (machine platform).Reachable s →
    EpochsIncrease s.log ∧ FenceIsLastIssued s ∧ OneHolder s ∧ LeasesCurrent s.log := by
  intro hall
  have hrun : ((machine wholeMilliseconds).run initial renewAfterEpoch).isSome := by decide +kernel
  obtain ⟨s, hs⟩ := isSome_iff_exists.mp hrun
  have hcurrent := (hall _ s (.of_init_run rfl hs)).2.2.2
  have hlog : ((machine wholeMilliseconds).run initial renewAfterEpoch).map (·.log) =
      some (renewedHistory ++ [.returned 0 (Text.js "task/renewed")
        (.lease ⟨Text.js "task/renewed", Text.js "worker-a", 1, 0, 500⟩)]) := rfl
  rw [hs, map_some, some.injEq] at hlog
  have hlast := hcurrent _ [] _ _ _ hlog
  have hsecond : (issued renewedHistory (Text.js "task/renewed")).getLast? = some 2 := by
    decide +kernel
  rw [hsecond] at hlast
  exact absurd hlast (by decide)

theorem epochs_and_leases_renewed : ∃ s : State,
    (machine wholeMilliseconds).run initial renewAfterEpoch = some s ∧
      EpochsIncrease s.log ∧ FenceIsLastIssued s ∧ OneHolder s ∧ LeaseEpochs s.log := by
  have hrun : ((machine wholeMilliseconds).run initial renewAfterEpoch).isSome := by decide +kernel
  obtain ⟨s, hs⟩ := isSome_iff_exists.mp hrun
  exact ⟨s, hs, epochs_and_leases wholeMilliseconds (Machine.Reachable.of_init_run rfl hs)⟩

end PostgresCoordination

end TegoNext
