/-
The endpoint of a main (`main-endpoint.ts`): which session speaks for a worker.

A session that has authenticated registers its worker. The registrations of one worker are
chained: each waits for the one before, has an epoch allocated, and publishes its session. The
session may close while the allocator works; an epoch that arrives too late is only noted.

Sessions and registrations are numbers, and a step is what runs between two `await`s.
-/
import TegoNext.StateContract
import TegoNext.WorkerSession

set_option autoImplicit false

namespace TegoNext

/-! ## The tables -/

structure EndpointSession where
  state : WorkerSessionState
  registrationPending : Bool

inductive RegistrationError where
  | endpointClosed
  | sessionClosed
  | staleEpoch
  /-- The allocator failed, or its answer is not an epoch. -/
  | allocation
  /-- `boundedUnsigned64` -/
  | epochLimit
  /-- `assertRegistrationPublishable` -/
  | unpublishable
  deriving DecidableEq

/-- The texts of the errors the endpoint throws itself. -/
def RegistrationError.message : RegistrationError → Option String
  | .endpointClosed => some "Main Worker endpoint is closed"
  | .sessionClosed => some "Worker session closed while allocating a session epoch"
  | .staleEpoch => some "Worker session epoch allocator returned a stale epoch"
  | .epochLimit => some "Worker epoch exceeds the unsigned 64-bit protocol limit"
  | .allocation | .unpublishable => none

abbrev EpochResult : Type := Except RegistrationError FencingEpoch

inductive RegistrationPhase where
  /-- Chained behind the registration before. -/
  | chained
  /-- `Promise.race([allocation, closed])`, and what it settled with. -/
  | racing (outcome : Option EpochResult)
  /-- `#allocateEpoch` has returned or thrown. -/
  | allocated (result : EpochResult)
  /-- `registrationAttempt` has settled. -/
  | settled (result : EpochResult)
  /-- The `finally` of `#register` has run. -/
  | finished (result : EpochResult)

/-- One call of `#register`. -/
structure RegistrationAttempt where
  session : Nat
  registration : WorkerRegistration
  /-- The registration whose tail it is chained behind, if any. -/
  predecessor : Option Nat
  phase : RegistrationPhase
  allocation : Option EpochResult
  /-- Is an epoch that arrives now still noted? -/
  late : Bool

namespace RegistrationAttempt

def workerId (a : RegistrationAttempt) : PortableId := a.registration.workerId

/-- Its tail has resolved. -/
def done (a : RegistrationAttempt) : Bool :=
  match a.phase with
  | .settled _ | .finished _ => true
  | _ => false

end RegistrationAttempt

/-- A session that was published, newest first in the history. -/
structure Publication where
  workerId : PortableId
  session : Nat
  epoch : FencingEpoch

structure MainEndpoint where
  closed : Bool
  objects : Nat → Option EndpointSession
  sessions : List Nat
  current : PortableId → Option Nat
  registrations : PortableId → Option WorkerRegistration
  registrationTails : PortableId → Option Nat
  lastEpochs : PortableId → Option FencingEpoch
  attempts : List RegistrationAttempt
  /-- The history of `#current`. -/
  published : List Publication

namespace MainEndpoint

/-! ## Sessions -/

def new : MainEndpoint where
  closed := false
  objects _ := none
  sessions := []
  current _ := none
  registrations _ := none
  registrationTails _ := none
  lastEpochs _ := none
  attempts := []
  published := []

section

variable (e : MainEndpoint) (i : Nat) (a : RegistrationAttempt)

section

variable (session : Nat)

def stateOf : Option WorkerSessionState := (e.objects session).map (·.state)

/-- Neither closed nor unavailable. -/
def isLive : Bool := e.stateOf session = some .authenticating || e.stateOf session = some .ready

def attach : Option MainEndpoint :=
  if e.closed || (e.objects session).isSome then none
  else some
    { e with
      objects := Function.update e.objects session (some ⟨.authenticating, false⟩)
      sessions := e.sessions ++ [session] }

def setState (state : WorkerSessionState) : MainEndpoint :=
  { e with
    objects := Function.update e.objects session
      ((e.objects session).map fun object => { object with state := state }) }

/-- The listener of `#allocateEpoch`: the race settles, unless it has. -/
def rejectClosed : RegistrationAttempt :=
  match a.phase with
  | .racing none => { a with phase := .racing (some (.error .sessionClosed)) }
  | _ => a

/-- `#notifyState`, of a session that is not authenticating any more. -/
def notifyState : MainEndpoint :=
  { e with attempts := e.attempts.map fun a => if a.session = session then rejectClosed a else a }

def release : MainEndpoint :=
  { e with
    sessions := e.sessions.erase session
    current := fun workerId => if e.current workerId = some session then none else e.current workerId
    registrations := fun workerId =>
      if e.current workerId = some session then none else e.registrations workerId }

/-- A live session is closed, replaced, or fails: its listeners are told, and then the
endpoint. -/
def endSession (state : WorkerSessionState) : MainEndpoint :=
  if e.isLive session then ((e.setState session state).notifyState session).release session else e

/-- `close`, as far as its `await`. -/
def close : MainEndpoint :=
  if e.closed then e
  else e.sessions.foldl (fun e session => e.endSession session .closed) { e with closed := true }

/-- The rest of `close`. -/
def closeTables : MainEndpoint :=
  { e with sessions := [], current := fun _ => none, registrations := fun _ => none }

/-! ## Registration -/

def setAttempt : MainEndpoint := { e with attempts := e.attempts.set i a }

/-- `#register`, of a session that has authenticated and not registered before. -/
def register (registration : WorkerRegistration) : Option MainEndpoint :=
  match e.objects session with
  | some ⟨.authenticating, false⟩ => some
      { e with
        objects := Function.update e.objects session (some ⟨.authenticating, true⟩)
        attempts := e.attempts ++
          [{ session := session
             registration := registration
             predecessor := e.registrationTails registration.workerId
             phase := .chained
             allocation := none
             late := false }]
        registrationTails :=
          Function.update e.registrationTails registration.workerId (some e.attempts.length) }
  | _ => none

def assertRegistrationCandidate : Except RegistrationError Unit :=
  if e.closed then .error .endpointClosed
  else if !e.sessions.contains session || e.stateOf session ≠ some .authenticating then
    .error .sessionClosed
  else .ok ()

end

/-- The tail a registration is chained behind has resolved. -/
def released : Bool :=
  match a.predecessor with
  | none => true
  | some p => (e.attempts[p]?).any (·.done)

/-- `#claimRegistration` as far as its `await`, and `#allocateEpoch` as far as its own. -/
def claimRegistration : RegistrationPhase :=
  match e.assertRegistrationCandidate a.session with
  | .error thrown => .settled (.error thrown)
  | .ok () =>
    .racing (if e.stateOf a.session ≠ some .authenticating then some (.error .sessionClosed)
      else none)

/-- The registration before is over. -/
def start : Option MainEndpoint :=
  match e.attempts[i]? with
  | some a =>
    match a.phase with
    | .chained =>
      if e.released a then some (e.setAttempt i { a with phase := e.claimRegistration a }) else none
    | _ => none
  | none => none

def settleRace (result : EpochResult) : RegistrationPhase → RegistrationPhase
  | .racing none => .racing (some result)
  | phase => phase

/-- The allocator answers, once the allocation was begun. -/
def allocationSettled (result : EpochResult) : Option MainEndpoint :=
  match e.attempts[i]? with
  | some a =>
    match a.phase, a.allocation with
    | .chained, _ => none
    | _, some _ => none
    | phase, none => some (e.setAttempt i
        { a with
          phase := settleRace result phase
          allocation := some result })
  | none => none

def recordAllocatedEpoch (workerId : PortableId) (nextEpoch : FencingEpoch) :
    Except RegistrationError (Bool × MainEndpoint) :=
  if WorkerSession.maximumUnsigned64 < nextEpoch then .error .epochLimit
  else if nextEpoch ≤ (e.lastEpochs workerId).getD 0 then .ok (false, e)
  else .ok (true,
    { e with lastEpochs := Function.update e.lastEpochs workerId (some nextEpoch) })

/-- The `try` of `#allocateEpoch`, once the race has settled. -/
def raceSettled (workerId : PortableId) : EpochResult → EpochResult × MainEndpoint
  | .error thrown => (.error thrown, e)
  | .ok nextEpoch =>
    match e.recordAllocatedEpoch workerId nextEpoch with
    | .error thrown => (.error thrown, e)
    | .ok (false, e) => (.error .staleEpoch, e)
    | .ok (true, e) => (.ok nextEpoch, e)

/-- The rest of `#allocateEpoch`: when it throws for a session that has closed, a late
epoch is still noted. -/
def allocateEpoch : Option MainEndpoint :=
  match e.attempts[i]? with
  | some a =>
    match a.phase with
    | .racing (some outcome) =>
      let (result, e) := e.raceSettled a.workerId outcome
      some (e.setAttempt i
        { a with
          phase := .allocated result
          late := !result.isOk && decide (e.stateOf a.session ≠ some .authenticating) })
    | _ => none
  | none => none

/-- An epoch that arrives after its session has closed. -/
def recordLate : Option MainEndpoint :=
  match e.attempts[i]? with
  | some a =>
    match a.late, a.allocation with
    | true, some (.ok lateEpoch) =>
      let e := match e.recordAllocatedEpoch a.workerId lateEpoch with
        | .ok (_, e) => e
        | .error _ => e
      some (e.setAttempt i { a with late := false })
    | _, _ => none
  | none => none

/-- The session becomes the current one, and the one before is replaced. -/
def publish (nextEpoch : FencingEpoch) : MainEndpoint :=
  let predecessor := e.current a.workerId
  let e :=
    { e with
      current := Function.update e.current a.workerId (some a.session)
      registrations := Function.update e.registrations a.workerId (some a.registration)
      published := ⟨a.workerId, a.session, nextEpoch⟩ :: e.published }
  match predecessor with
  | some session => e.endSession session .unavailable
  | none => e

/-- What `#claimRegistration` makes of the result of `#allocateEpoch`. -/
def claimResult (publishable : Bool) : EpochResult → EpochResult
  | .error thrown => .error thrown
  | .ok nextEpoch =>
    match e.assertRegistrationCandidate a.session with
    | .error thrown => .error thrown
    | .ok () => if publishable then .ok nextEpoch else .error .unpublishable

/-- The rest of `#claimRegistration`, which settles the registration. -/
def claim (publishable : Bool) : Option MainEndpoint :=
  match e.attempts[i]? with
  | some a =>
    match a.phase with
    | .allocated result =>
      let result := e.claimResult a publishable result
      let e := e.setAttempt i { a with phase := .settled result }
      match result with
      | .ok nextEpoch => some (e.publish a nextEpoch)
      | .error _ => some e
    | _ => none
  | none => none

/-- The `finally` of `#register`. -/
def finish : Option MainEndpoint :=
  match e.attempts[i]? with
  | some a =>
    match a.phase with
    | .settled result => some
        { e.setAttempt i { a with phase := .finished result } with
          registrationTails :=
            if e.registrationTails a.workerId = some i then
              Function.update e.registrationTails a.workerId none
            else e.registrationTails }
    | _ => none
  | none => none

/-- The session goes on with the epoch it was given. -/
def becomeReady : Option MainEndpoint :=
  match e.attempts[i]? with
  | some a =>
    match a.phase with
    | .finished (.ok _) =>
      if e.stateOf a.session = some .authenticating then
        some ((e.setState a.session .ready).notifyState a.session)
      else none
    | _ => none
  | none => none

end

/-! ## Steps -/

inductive EndpointLabel where
  | attach (session : Nat)
  | register (session : Nat) (registration : WorkerRegistration)
  | start (i : Nat)
  | allocationSettled (i : Nat) (result : EpochResult)
  | allocateEpoch (i : Nat)
  | recordLate (i : Nat)
  | claim (i : Nat) (publishable : Bool)
  | finish (i : Nat)
  | becomeReady (i : Nat)
  /-- A session closes or fails. -/
  | closeSession (session : Nat)
  /-- A session misses its heartbeat. -/
  | expire (session : Nat)
  | close
  | closeTables

/-- A promise callback: it runs before anything else happens. -/
def EndpointLabel.isMicrotask : EndpointLabel → Bool
  | .start _ | .allocateEpoch _ | .recordLate _ | .claim _ _ | .finish _ => true
  | _ => false

def step (e : MainEndpoint) : EndpointLabel → Option MainEndpoint
  | .attach session => e.attach session
  | .register session registration => e.register session registration
  | .start i => e.start i
  | .allocationSettled i result => e.allocationSettled i result
  | .allocateEpoch i => e.allocateEpoch i
  | .recordLate i => e.recordLate i
  | .claim i publishable => e.claim i publishable
  | .finish i => e.finish i
  | .becomeReady i => e.becomeReady i
  | .closeSession session => some (e.endSession session .closed)
  | .expire session => some (e.endSession session .unavailable)
  | .close => some e.close
  | .closeTables => if e.closed then some e.closeTables else none

def machine : Machine MainEndpoint EndpointLabel where
  Init e := e = new
  step := step

end MainEndpoint

end TegoNext
