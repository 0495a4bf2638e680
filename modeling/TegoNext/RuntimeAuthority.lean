/-
The runtime of one node: starting, stopping and leadership.

`runtime/src/create-runtime.ts`, with the loop of `leadership-controller.ts`, the transition table
of `runtime-state.ts` and the admission of `create-node-runtime-host.ts`. The methods are program
counters over one state: a step goes from one `await` to the next, and the awaited call succeeds or
fails as the label says. The background reconciliation may fail at any time.
-/
import TegoNext.Machine
import TegoNext.TaskRecord

set_option autoImplicit false

namespace TegoNext

/-! ## Lifecycles -/

inductive RuntimeLifecycleState where
  | created
  | opening
  | recovering
  | electing
  | running
  | draining
  | stopping
  | stopped
  | failed
  deriving DecidableEq

def runtimeTransitions : RuntimeLifecycleState → List RuntimeLifecycleState
  | .created => [.failed, .opening, .stopping]
  | .opening => [.failed, .recovering, .stopping]
  | .recovering => [.electing, .failed, .stopping]
  | .electing => [.failed, .running, .stopping]
  | .running => [.draining, .failed]
  | .draining => [.failed, .stopping]
  | .stopping => [.failed, .stopped]
  | .stopped => []
  | .failed => [.stopping]

/-- `transitionRuntimeState`, which throws where there is no transition. -/
def transitionRuntimeState (current next : RuntimeLifecycleState) : Option RuntimeLifecycleState :=
  if next ∈ runtimeTransitions current then some next else none

/-! ## The state -/

/-- `parseRuntimeConfiguration`, and what there is of drivers and services. -/
structure RuntimeSetup where
  singleMain : Bool
  /-- Does `#assertCoordinationScope` find the scopes of this mode? -/
  scopesMatch : Bool
  managed : Bool

/-- A reconciler that was created. The last two are only written. -/
structure CreatedReconciler where
  authority : RuntimeAuthority
  /-- Its start was rejected, or its background work has failed. -/
  failed : Bool
  /-- Its `stop` has been called. -/
  stopped : Bool
  deriving DecidableEq

inductive FirstAuthority where
  | pending
  | resolved
  | rejected
  deriving DecidableEq

/-- `#resolveFirstAuthority` and `#rejectFirstAuthority`: it is settled once. -/
def FirstAuthority.settle (first answer : FirstAuthority) : FirstAuthority :=
  if first = .pending then answer else first

inductive CallOutcome where
  | ok
  | error
  deriving DecidableEq

def CallOutcome.failed : CallOutcome → Bool
  | .ok => false
  | .error => true

inductive StartPhase where
  | idle
  | openingDrivers
  | recoveringState
  | recoveringTasks
  | checkingHealth
  | startingController
  | waitingForAuthority
  /-- In its `catch`: the leadership controller stops. -/
  | stoppingController
  | stoppingReconciler (i : Nat)
  | observingStatus
  | closingTasks
  | closingWorkers
  | closingDrivers
  | settled (ok : Bool)
  deriving DecidableEq

inductive StopResult where
  | ok
  /-- Some resources failed to close. -/
  | failed
  | illegalTransition
  deriving DecidableEq

/-- What `#stop` waits for; whether there are errors already. -/
inductive StopPhase where
  | idle
  | stoppingController
  | awaitingStart (errors : Bool)
  | stoppingReconciler (i : Nat) (errors : Bool)
  | revokingWorkers (errors : Bool)
  | observingStatus (errors : Bool)
  | closingTasks (errors : Bool)
  | closingWorkers (errors : Bool)
  | closingDrivers (errors : Bool)
  | settled (result : StopResult)
  deriving DecidableEq

inductive DeactivationReason where
  | activationFailed
  | shutdown
  | lost
  deriving DecidableEq

/-- What the loop of the leadership controller waits for. -/
inductive LoopPhase where
  | absent
  | campaigning
  | backoff
  | releasingInvalid
  | settingWorkers (authority : RuntimeAuthority)
  | startingReconciler (authority : RuntimeAuthority) (i : Nat)
  | settingTasks (authority : RuntimeAuthority)
  | activationFailed (authority : RuntimeAuthority)
  | activated (authority : RuntimeAuthority)
  /-- The loss of leadership, or the end. -/
  | leading (authority : RuntimeAuthority)
  /-- In `#deactivateAuthority`. -/
  | clearingTasks (reason : DeactivationReason)
  | stoppingReconciler (i : Nat) (reason : DeactivationReason) (errors : Bool)
  | revokingWorkers (reason : DeactivationReason) (errors : Bool)
  | deactivated (reason : DeactivationReason) (errors : Bool)
  | releasing (reason : DeactivationReason) (errors : Bool)
  | ended
  deriving DecidableEq

/-- `changes` is only written: the changes of `lifecycle`. -/
structure TegoRuntime where
  lifecycle : RuntimeLifecycleState
  changes : List (RuntimeLifecycleState × RuntimeLifecycleState)
  available : Bool
  acceptingMutations : Bool
  leadership : Option RuntimeAuthority
  reconciler : Option Nat
  reconcilerAuthority : Option RuntimeAuthority
  workerAuthorityActive : Bool
  servicesClosed : Bool
  driversOpened : Bool
  terminalObserved : Bool
  stopRequested : Bool
  /-- The lease of the capability admission. -/
  admission : Option RuntimeAuthority
  controllerRunning : Bool
  firstAuthority : FirstAuthority
  backgroundError : Bool
  reconcilers : List CreatedReconciler
  starting : StartPhase
  stopping : StopPhase
  loop : LoopPhase

namespace TegoRuntime

def new : TegoRuntime where
  lifecycle := .created
  changes := []
  available := false
  acceptingMutations := false
  leadership := none
  reconciler := none
  reconcilerAuthority := none
  workerAuthorityActive := false
  servicesClosed := false
  driversOpened := false
  terminalObserved := false
  stopRequested := false
  admission := none
  controllerRunning := false
  firstAuthority := .pending
  backgroundError := false
  reconcilers := []
  starting := .idle
  stopping := .idle
  loop := .absent

/-! ## Parts of the methods -/

section

variable (setup : RuntimeSetup) (s : TegoRuntime) (authority : RuntimeAuthority)

def setLifecycle (next : RuntimeLifecycleState) : Option TegoRuntime :=
  (transitionRuntimeState s.lifecycle next).map fun lifecycle =>
    { s with lifecycle := lifecycle, changes := s.changes ++ [(s.lifecycle, lifecycle)] }

/-- `operations.close` -/
def closeOperations : TegoRuntime :=
  { s with available := false, acceptingMutations := false }

def openMutations : TegoRuntime := { s with acceptingMutations := true }

/-- `open` of the admission. -/
def openAdmission : TegoRuntime := { s with admission := some authority }

/-- `close` of the admission, which leaves the lease of another authority. -/
def closeAdmission : TegoRuntime :=
  { s with admission := if s.admission = some authority then none else s.admission }

/-- `stop` of the leadership controller, up to its `await`. -/
def stopController : TegoRuntime :=
  { s with
    controllerRunning := false
    firstAuthority :=
      if s.controllerRunning then s.firstAuthority.settle .resolved else s.firstAuthority }

def loopOver : Bool := s.loop = .absent || s.loop = .ended

def endLoop (error : Bool) : TegoRuntime :=
  { s with
    loop := .ended
    controllerRunning := false
    backgroundError := error
    firstAuthority := if error then s.firstAuthority.settle .rejected else s.firstAuthority }

section

variable (i : Nat) (outcome : CallOutcome)

/-- `stop` of a reconciler is called. -/
def callReconcilerStop : TegoRuntime :=
  { s with reconcilers := s.reconcilers.modify i fun r => { r with stopped := true } }

def failReconciler : TegoRuntime :=
  { s with reconcilers := s.reconcilers.modify i fun r => { r with failed := true } }

/-- The rest of `#stopReconciler`. -/
def reconcilerStopped : TegoRuntime :=
  let forgets := outcome = .ok && s.reconciler = some i
  { s with
    reconciler := if forgets then none else s.reconciler
    reconcilerAuthority := if forgets then none else s.reconcilerAuthority }

/-- The rest of `#revokeWorkerAuthority`. -/
def workersRevoked : TegoRuntime :=
  { s with workerAuthorityActive := s.workerAuthorityActive && outcome.failed }

/-! ## `#stop` -/

/-- `stop`, up to the first `await` of `#stop`. -/
def stop : TegoRuntime :=
  if s.stopping = .idle then
    { s.stopController with stopRequested := true, stopping := .stoppingController }
  else s

/-- `#closeServices` begins. -/
def stopServices (errors : Bool) : TegoRuntime :=
  if setup.managed && !s.servicesClosed then
    { s with servicesClosed := true, stopping := .closingTasks errors }
  else { s with stopping := .closingDrivers errors }

def stopObserving (errors : Bool) : TegoRuntime :=
  if s.terminalObserved then s.stopServices setup errors
  else { s with stopping := .observingStatus errors }

/-- `#revokeWorkerAuthority` begins. -/
def stopWorkers (errors : Bool) : TegoRuntime :=
  if setup.managed && s.workerAuthorityActive then { s with stopping := .revokingWorkers errors }
  else s.stopObserving setup errors

def beginStopping : Option TegoRuntime := do
  let s ← if s.lifecycle = .running then s.setLifecycle .draining else some s
  if s.lifecycle = .stopping then some s else s.setLifecycle .stopping

def stopStarted (errors : Bool) : TegoRuntime :=
  if s.lifecycle = .stopped then { s with stopping := .settled .ok }
  else
    match s.closeOperations.beginStopping with
    | none => { s.closeOperations with stopping := .settled .illegalTransition }
    | some s =>
      match s.reconciler with
      | none => s.stopWorkers setup errors
      | some i => { s.callReconcilerStop i with stopping := .stoppingReconciler i errors }

def stepStop : Option TegoRuntime :=
  match s.stopping with
  | .idle | .settled _ => none
  | .stoppingController =>
    if s.loopOver then some { s with stopping := .awaitingStart s.backgroundError } else none
  | .awaitingStart errors =>
    match s.starting with
    | .idle | .settled _ => some (s.stopStarted setup errors)
    | _ => none
  | .stoppingReconciler i errors =>
    let s := s.reconcilerStopped i outcome
    -- an error skips `#revokeWorkerAuthority`
    if outcome.failed then some (s.stopObserving setup true) else some (s.stopWorkers setup errors)
  | .revokingWorkers errors =>
    some ((s.workersRevoked outcome).stopObserving setup (errors || outcome.failed))
  | .observingStatus errors =>
    some ({ s with terminalObserved := true }.stopServices setup (errors || outcome.failed))
  | .closingTasks errors => some { s with stopping := .closingWorkers (errors || outcome.failed) }
  | .closingWorkers errors => some { s with stopping := .closingDrivers (errors || outcome.failed) }
  | .closingDrivers errors =>
    let errors := errors || outcome.failed
    let s := { s with driversOpened := false }
    match s.setLifecycle (if errors then .failed else .stopped) with
    | none => some { s with stopping := .settled .illegalTransition }
    | some s => some { s with stopping := .settled (if errors then .failed else .ok) }

/-! ## `#start` -/

/-- The `catch` of `#start` begins. -/
def failStart : TegoRuntime :=
  { s.closeOperations.stopController with starting := .stoppingController }

/-- `#setLifecycle` in `#start`. -/
def advance (next : RuntimeLifecycleState) (rest : TegoRuntime → TegoRuntime) : TegoRuntime :=
  match s.setLifecycle next with
  | none => s.failStart
  | some s => rest s

/-- `start`, up to the first `await` of `#start`. -/
def start : TegoRuntime :=
  if s.lifecycle = .stopped || s.lifecycle = .stopping || s.stopRequested || s.starting ≠ .idle then s
  else if !setup.scopesMatch then s.failStart
  else s.advance .opening fun s => { s with starting := .openingDrivers }

def finishStart : TegoRuntime :=
  if s.stopRequested then { s with starting := .settled true }
  else s.advance .running fun s =>
    let s := { s with starting := .settled true }
    if s.leadership.isSome then s.openMutations else s

/-- The `catch` of `#start`: `#closeServices` begins. -/
def startServices : TegoRuntime :=
  if setup.managed && !s.servicesClosed then
    { s with servicesClosed := true, starting := .closingTasks }
  else { s with starting := .closingDrivers }

def startObserving : TegoRuntime :=
  if s.driversOpened && !s.terminalObserved then { s with starting := .observingStatus }
  else { s with terminalObserved := true }.startServices setup

/-- The `catch` of `#start` comes to its end. -/
def startFailed : TegoRuntime :=
  let s := { s with driversOpened := false, starting := .settled false }
  if s.lifecycle = .failed || s.lifecycle = .stopped || s.lifecycle = .stopping then s
  else (s.setLifecycle .failed).getD s

def stepStart : Option TegoRuntime :=
  match s.starting with
  | .idle | .settled _ => none
  | .openingDrivers =>
    if outcome.failed then some s.failStart
    else
      let s := { s with driversOpened := true }
      if s.stopRequested then some { s with starting := .settled true }
      else some (s.advance .recovering fun s => { s with starting := .recoveringState })
  | .recoveringState =>
    if outcome.failed then some s.failStart else some { s with starting := .recoveringTasks }
  | .recoveringTasks =>
    if outcome.failed then some s.failStart
    else if s.stopRequested then some { s with starting := .settled true }
    else some { s with starting := .checkingHealth }
  | .checkingHealth =>
    -- a driver that fails is unhealthy
    if s.stopRequested then some { s with starting := .settled true }
    else
      some ({ s with available := true }.advance .electing fun s =>
        { s with
          controllerRunning := true
          loop := .campaigning
          starting := .startingController })
  | .startingController =>
    if setup.singleMain then some { s with starting := .waitingForAuthority } else some s.finishStart
  | .waitingForAuthority =>
    match s.firstAuthority with
    | .pending => none
    | .resolved => some s.finishStart
    | .rejected => some s.failStart
  | .stoppingController =>
    if s.loopOver then
      match s.reconciler with
      | none => some (s.startObserving setup)
      | some i => some { s.callReconcilerStop i with starting := .stoppingReconciler i }
    else none
  | .stoppingReconciler i => some ((s.reconcilerStopped i outcome).startObserving setup)
  | .observingStatus => some ({ s with terminalObserved := true }.startServices setup)
  | .closingTasks => some { s with starting := .closingWorkers }
  | .closingWorkers => some { s with starting := .closingDrivers }
  | .closingDrivers => some s.startFailed

/-! ## The loop of the leadership controller -/

inductive LeadershipEvent where
  /-- `campaign` resolves, with leadership for the resource. -/
  | acquired (authority : RuntimeAuthority)
  | acquiredInvalid
  | campaignFailed
  | stopped
  | lost
  /-- `createReconciler` throws, once the workers have their authority. -/
  | createFailed
  | settled (outcome : CallOutcome)
  deriving DecidableEq

/-- Another round, or the end. -/
def nextCampaign : TegoRuntime :=
  { s with loop := if s.controllerRunning then .campaigning else .ended }

def beginBackoff : TegoRuntime :=
  { s with loop := if s.controllerRunning then .backoff else .ended }

/-- The end of `#activateAuthority`. -/
def becomeLeader : TegoRuntime :=
  let s := { s with leadership := some authority, loop := .activated authority }
  if s.lifecycle = .running && !s.stopRequested then s.openMutations else s

/-- `#activateAuthority`, up to its first `await`. -/
def activateAuthority : TegoRuntime :=
  if s.stopRequested then { s with loop := .activated authority }
  else if setup.managed then
    { s with workerAuthorityActive := true, loop := .settingWorkers authority }
  else s.becomeLeader authority

/-- `#activateAuthority`, once the workers have their authority. -/
def createReconciler : TegoRuntime :=
  { s with
    reconcilers := s.reconcilers ++ [⟨authority, false, false⟩]
    reconciler := some s.reconcilers.length
    reconcilerAuthority := some authority
    loop := .startingReconciler authority s.reconcilers.length }

/-- `#deactivateAuthority`, up to its first `await`. -/
def deactivateAuthority (reason : DeactivationReason) : TegoRuntime :=
  if s.leadership.any (· ≠ authority) then { s with loop := .deactivated reason false }
  else
    let s := { s with acceptingMutations := false, leadership := none }
    if setup.managed then { s.closeAdmission authority with loop := .clearingTasks reason }
    else { s with loop := .deactivated reason false }

/-- `#deactivateAuthority`: `#revokeWorkerAuthority` begins. -/
def deactivateWorkers (reason : DeactivationReason) (errors : Bool) : TegoRuntime :=
  if s.workerAuthorityActive then { s with loop := .revokingWorkers reason errors }
  else { s with loop := .deactivated reason errors }

def stepLoop (event : LeadershipEvent) : Option TegoRuntime :=
  match s.loop, event with
  | .campaigning, .acquired authority => some (s.activateAuthority setup authority)
  | .campaigning, .acquiredInvalid =>
    some { s with firstAuthority := s.firstAuthority.settle .rejected, loop := .releasingInvalid }
  | .campaigning, .campaignFailed => some s.beginBackoff
  | .campaigning, .stopped => if s.controllerRunning then none else some { s with loop := .ended }
  | .backoff, .settled outcome =>
    if s.controllerRunning && outcome.failed then some (s.endLoop true) else some s.nextCampaign
  | .releasingInvalid, .settled outcome => some (s.endLoop outcome.failed)
  | .settingWorkers authority, .settled outcome =>
    if outcome.failed then some { s with loop := .activationFailed authority }
    else some (s.createReconciler authority)
  | .settingWorkers authority, .createFailed => some { s with loop := .activationFailed authority }
  | .startingReconciler authority i, .settled outcome =>
    if outcome.failed then some { s.failReconciler i with loop := .activationFailed authority }
    else some { s with loop := .settingTasks authority }
  | .settingTasks authority, .settled outcome =>
    if outcome.failed then some { s with loop := .activationFailed authority }
    else some ((s.openAdmission authority).becomeLeader authority)
  | .activationFailed authority, .settled _ =>
    some (s.deactivateAuthority setup authority .activationFailed)
  | .activated authority, .settled _ =>
    let s := { s with firstAuthority := s.firstAuthority.settle .resolved }
    if s.controllerRunning then some { s with loop := .leading authority }
    else some (s.deactivateAuthority setup authority .shutdown)
  | .leading authority, .lost => some (s.deactivateAuthority setup authority .lost)
  | .leading authority, .stopped =>
    if s.controllerRunning then none else some (s.deactivateAuthority setup authority .shutdown)
  | .clearingTasks reason, .settled outcome =>
    match s.reconciler with
    | none => some (s.deactivateWorkers reason outcome.failed)
    | some i =>
      some { s.callReconcilerStop i with loop := .stoppingReconciler i reason outcome.failed }
  | .stoppingReconciler i reason errors, .settled outcome =>
    some ((s.reconcilerStopped i outcome).deactivateWorkers reason (errors || outcome.failed))
  | .revokingWorkers reason errors, .settled outcome =>
    some { s.workersRevoked outcome with loop := .deactivated reason (errors || outcome.failed) }
  | .deactivated .lost errors, .settled _ =>
    if errors then some (s.endLoop true) else some s.nextCampaign
  | .deactivated reason errors, .settled _ => some { s with loop := .releasing reason errors }
  | .releasing reason errors, .settled outcome =>
    if errors || outcome.failed then some (s.endLoop true)
    else if reason = .activationFailed then some s.beginBackoff
    else some { s with loop := .ended }
  | _, _ => none

/-! ## The machine -/

/-- `#handleReconcilerBackgroundFailure` -/
def backgroundFailure : Option TegoRuntime :=
  s.reconcilers[i]?.map fun r =>
    let s := s.failReconciler i
    if s.reconciler ≠ some i || s.reconcilerAuthority ≠ some r.authority then s
    else
      let s := { s with acceptingMutations := false, leadership := none }.closeAdmission r.authority
      if s.lifecycle = .failed || s.lifecycle = .stopped || s.lifecycle = .stopping then s.stop
      else
        match s.setLifecycle .failed with
        | none => s
        | some s => s.stop

end

inductive RuntimeLabel where
  | start
  | stop
  | starting (outcome : CallOutcome)
  | stopping (outcome : CallOutcome)
  | leadership (event : LeadershipEvent)
  /-- A reconciler reports that its background work has failed. -/
  | backgroundFailure (i : Nat)
  deriving DecidableEq

def step : RuntimeLabel → Option TegoRuntime
  | .start => some (s.start setup)
  | .stop => some s.stop
  | .starting outcome => s.stepStart setup outcome
  | .stopping outcome => s.stepStop setup outcome
  | .leadership event => s.stepLoop setup event
  | .backgroundFailure i => s.backgroundFailure i

end

def machine (setup : RuntimeSetup) : Machine TegoRuntime RuntimeLabel where
  Init s := s = new
  step := step setup

end TegoRuntime

end TegoNext
