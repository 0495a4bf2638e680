/-
What a rejected capability invocation leaves of the tables (`remote-executor.ts`,
`worker-runtime.ts`, `capability-dedupe.ts`).

The main keeps a table of the invocations it has sent to a worker, the worker one of those it has
sent to the main, with tombstones beside it. Both admit an invocation in one order of checks; making
room takes settled entries out, and the checks behind it may still reject the call.
-/
import TegoNext.CapabilityTombstones

set_option autoImplicit false

namespace TegoNext

open Text RemoteExecutor Option

/-! ## The admission of either side -/

/-- What one side holds against a call: the error of its own checks, its limits, the session
it would use, and what it says. -/
structure Admission where
  refused : Option RemoteError
  maximum : Nat
  maxIndeterminate : Nat
  session : Option Nat
  full : RemoteError
  tombstonesFull : RemoteError
  unavailable : RemoteError

namespace Admission

/-- Room is made for an invocation that is not known. -/
def reserve (a : Admission) (entries : JsMap JsString RemoteInvocationEntry)
    (tombstones : JsMap JsString IndeterminateEntry) :
    JsMap JsString RemoteInvocationEntry × Except RemoteError (Option Nat) :=
  let (reserved, entries) := reserveCapabilityEntry a.maximum entries.size entries
  (entries,
    if !reserved then .error a.full
    else if a.maxIndeterminate ≤ tombstones.size + countPendingCapabilityEntries entries then
      .error a.tombstonesFull
    else
      match a.session with
      | none => .error a.unavailable
      | some session => .ok (some session))

/-- The entries that are left, and what becomes of the call: it is rejected, it is known, or it
is sent on a session. -/
def admitCall (a : Admission) (entries : JsMap JsString RemoteInvocationEntry)
    (tombstones : JsMap JsString IndeterminateEntry) (invocationId fingerprint : JsString) :
    JsMap JsString RemoteInvocationEntry × Except RemoteError (Option Nat) :=
  match a.refused with
  | some thrown => (entries, .error thrown)
  | none =>
    let (existing, entries) := getCapabilityEntry entries invocationId
    match existing with
    | some existing =>
      (entries, if existing.fingerprint ≠ fingerprint then .error capabilityConflict else .ok none)
    | none =>
      match tombstones.get invocationId with
      | some indeterminate =>
        (entries, .error (if indeterminate.fingerprint ≠ fingerprint then capabilityConflict
          else indeterminate.error))
      | none => a.reserve entries tombstones

/-- No entry is taken out to make room: the call does not come so far, there is room, or no
entry is settled. -/
def Spares (a : Admission) (entries : JsMap JsString RemoteInvocationEntry)
    (tombstones : JsMap JsString IndeterminateEntry) (invocationId : JsString) : Prop :=
  a.refused.isSome ∨ (entries.get invocationId).isSome ∨ (tombstones.get invocationId).isSome ∨
    entries.size < a.maximum ∨ ∀ key entry, entries.get key = some entry → entry.settled = false

variable {a : Admission} {entries : JsMap JsString RemoteInvocationEntry}
  {tombstones : JsMap JsString IndeterminateEntry} {invocationId fingerprint : JsString}

/-! ## Making room -/

theorem get_reserveCapabilityEntry (maximum turns : Nat)
    (entries : JsMap JsString RemoteInvocationEntry) {key : JsString}
    {entry : RemoteInvocationEntry}
    (h : (reserveCapabilityEntry maximum turns entries).2.get key = some entry) :
    entries.get key = some entry := by
  induction turns generalizing entries with
  | zero => exact h
  | succ turns ih =>
    unfold reserveCapabilityEntry at h
    split at h
    · exact h
    split at h
    · exact h
    next oldest _ =>
    have hleft := ih _ h
    rw [JsMap.get_delete] at hleft
    split at hleft
    · cases hleft
    · exact hleft

theorem reserveCapabilityEntry_spared {maximum : Nat} (turns : Nat)
    (h : entries.size < maximum ∨
      ∀ key entry, entries.get key = some entry → entry.settled = false) :
    (reserveCapabilityEntry maximum turns entries).2 = entries := by
  cases turns with
  | zero => rfl
  | succ turns =>
    unfold reserveCapabilityEntry
    by_cases hroom : entries.size < maximum
    · rw [if_pos hroom]
    rw [if_neg hroom]
    have hnone : entries.entries.find? (·.2.settled) = none := by
      rw [List.find?_eq_none]
      intro entry hentry hsettled
      have hpending := h.resolve_left hroom entry.1 entry.2 (JsMap.get_eq_some_iff.mpr hentry)
      rw [hpending] at hsettled
      cases hsettled
    rw [hnone]

theorem reserveCapabilityEntry_takes {maximum : Nat} (hfull : maximum ≤ entries.size)
    {key : JsString} {entry : RemoteInvocationEntry} (hentry : entries.get key = some entry)
    (hsettled : entry.settled = true) :
    ∃ key' entry', entries.get key' = some entry' ∧
      (reserveCapabilityEntry maximum entries.size entries).2.get key' = none := by
  have hmem := JsMap.get_eq_some_iff.mp hentry
  obtain ⟨turns, hturns⟩ : ∃ turns, entries.size = turns + 1 :=
    Nat.exists_eq_succ_of_ne_zero (List.length_pos_of_mem hmem).ne'
  obtain ⟨oldest, holdest⟩ : ∃ oldest, entries.entries.find? (·.2.settled) = some oldest :=
    isSome_iff_exists.mp (List.find?_isSome.mpr ⟨_, hmem, hsettled⟩)
  refine ⟨oldest.1, oldest.2, JsMap.get_eq_some_iff.mpr (List.mem_of_find?_eq_some holdest), ?_⟩
  rw [hturns]
  unfold reserveCapabilityEntry
  rw [if_neg (Nat.not_lt.mpr hfull), holdest]
  rw [eq_none_iff_forall_ne_some]
  intro other hother
  have hleft := get_reserveCapabilityEntry maximum turns _ hother
  rw [JsMap.get_delete, if_pos rfl] at hleft
  cases hleft

/-! ## A call that is rejected -/

theorem admit_known (h : (entries.get invocationId).isSome) (session : Nat) :
    (a.admitCall entries tombstones invocationId fingerprint).2 ≠ .ok (some session) := by
  obtain ⟨hexisting, _⟩ := getCapabilityEntry_spec entries invocationId
  unfold admitCall
  cases a.refused with
  | some thrown => exact nofun
  | none =>
    dsimp only
    rw [hexisting]
    obtain ⟨existing, hget⟩ := isSome_iff_exists.mp h
    rw [hget]
    dsimp only
    split <;> exact nofun

theorem get_admit_of_spares (h : a.Spares entries tombstones invocationId) (key : JsString) :
    (a.admitCall entries tombstones invocationId fingerprint).1.get key = entries.get key := by
  obtain ⟨hexisting, hget⟩ := getCapabilityEntry_spec entries invocationId
  unfold admitCall
  cases hrefused : a.refused with
  | some thrown => rfl
  | none =>
    dsimp only
    rw [hexisting]
    cases hentry : entries.get invocationId with
    | some existing => exact hget key
    | none =>
      -- the entry is not there, and so looking it up has moved nothing
      have hsame : (getCapabilityEntry entries invocationId).2 = entries := by
        unfold getCapabilityEntry
        rw [hentry]
      rw [hsame]
      cases htombstone : tombstones.get invocationId with
      | some indeterminate => rfl
      | none =>
        rcases h with h | h | h | hspared
        · rw [hrefused] at h
          cases h
        · rw [hentry] at h
          cases h
        · rw [htombstone] at h
          cases h
        · exact congrArg (·.get key) (reserveCapabilityEntry_spared entries.size hspared)

/-- **A call leaves the entries as they were just when it spares them.** -/
theorem get_admit_iff :
    (∀ key, (a.admitCall entries tombstones invocationId fingerprint).1.get key = entries.get key) ↔
      a.Spares entries tombstones invocationId := by
  refine ⟨fun hsame => ?_, fun h key => get_admit_of_spares h key⟩
  by_contra hnot
  simp only [Spares, not_or, not_isSome_iff_eq_none, Nat.not_lt, not_forall,
    Bool.not_eq_false] at hnot
  obtain ⟨hrefused, hentry, htombstone, hfull, key, entry, hget, hsettled⟩ := hnot
  obtain ⟨key', entry', hbefore, hafter⟩ := reserveCapabilityEntry_takes hfull hget hsettled
  have hleft := hsame key'
  unfold admitCall getCapabilityEntry at hleft
  rw [hrefused, hentry] at hleft
  rw [htombstone, hbefore] at hleft
  cases hafter.symm.trans hleft

end Admission

/-! ## The main's side -/

namespace RemoteExecutor

/-- The checks of `invokeCapability` before it looks at the tables. -/
def invocationRefused (options : RemoteExecutorOptions) (e : RemoteExecutor)
    (request : RemoteCapabilityInvocation) : Option RemoteError :=
  if !ownTarget options request.target then
    some (remoteError "PROTOCOL_CAPABILITY_TARGET_INVALID"
      "Capability invocation target does not match this authenticated RemoteExecutor")
  else if !e.assertCapabilityActivation request then
    some (remoteError "CAPABILITY_PROVIDER_NOT_READY"
      "Capability invocation does not match an active exact remote component binding")
  else if options.maxCapabilityInvocationBytes < options.invocationBytes request then
    some (exhausted "Remote capability invocation exceeds maxCapabilityInvocationBytes")
  else none

/-- The admission of `invokeCapability`. -/
def admission (options : RemoteExecutorOptions) (e : RemoteExecutor)
    (request : RemoteCapabilityInvocation) : Admission where
  refused := e.invocationRefused options request
  maximum := options.maxCapabilityInvocations
  maxIndeterminate := options.maxIndeterminateCapabilityInvocations
  session := e.usableSession
  full := exhausted "Remote capability invocation capacity is exhausted"
  tombstonesFull := exhausted
    "Remote indeterminate capability tombstone capacity is exhausted until component stop"
  unavailable := remoteError "CAPABILITY_REMOTE_NOT_AVAILABLE"
    "Remote capability invocation requires an authenticated ready Worker session"

/-- What the executor does with the decision on a call. -/
def admitted (e : RemoteExecutor) (request : RemoteCapabilityInvocation) (fingerprint : JsString)
    (decision : JsMap JsString RemoteInvocationEntry × Except RemoteError (Option Nat)) :
    RemoteOutcome :=
  let e := { e with capabilityInvocations := decision.1 }
  match decision.2 with
  | .error thrown => (e, some thrown)
  | .ok none => (e, none)
  | .ok (some session) => (e.sendInvocation request fingerprint session, none)

variable {options : RemoteExecutorOptions} {e : RemoteExecutor}
  {request : RemoteCapabilityInvocation}

theorem admitInvocation_eq (fingerprint : JsString) :
    e.admitInvocation options request fingerprint =
      e.admitted request fingerprint ((e.admission options request).reserve
        e.capabilityInvocations e.indeterminateCapabilityInvocations) := by
  unfold admitInvocation Admission.reserve admitted
  dsimp only [admission]
  generalize reserveCapabilityEntry options.maxCapabilityInvocations _ _ = room
  obtain ⟨reserved, left⟩ := room
  cases reserved with
  | false => rfl
  | true =>
    have husable : { e with capabilityInvocations := left }.usableSession = e.usableSession := rfl
    by_cases hfull : options.maxIndeterminateCapabilityInvocations ≤
        e.indeterminateCapabilityInvocations.size + countPendingCapabilityEntries left
    · simp only [Bool.not_true, Bool.false_eq_true, hfull, ↓reduceIte]
    · simp only [Bool.not_true, Bool.false_eq_true, hfull, ↓reduceIte, husable]
      cases e.usableSession <;> rfl

theorem invokeCapability_eq :
    e.invokeCapability options request =
      e.admitted request (options.invocationFingerprint request)
        ((e.admission options request).admitCall e.capabilityInvocations
          e.indeterminateCapabilityInvocations request.invocationId
          (options.invocationFingerprint request)) := by
  unfold invokeCapability Admission.admitCall
  dsimp only [admission]
  unfold invocationRefused
  split
  · rfl
  split
  · rfl
  split
  · rfl
  cases hentry : e.capabilityInvocations.get request.invocationId with
  | some existing =>
    unfold getCapabilityEntry
    rw [hentry]
    dsimp only
    unfold admitted
    by_cases hsame : existing.fingerprint = options.invocationFingerprint request
    · rw [if_neg (not_not_intro hsame), if_neg (not_not_intro hsame)]
    · rw [if_pos hsame, if_pos hsame]
  | none =>
    unfold getCapabilityEntry
    rw [hentry]
    cases e.indeterminateCapabilityInvocations.get request.invocationId with
    | some indeterminate => rfl
    | none => exact admitInvocation_eq _

/-- The tables hold what they held before, and repeating a call that was answered sends
nothing. -/
structure Untouched (options : RemoteExecutorOptions) (e e' : RemoteExecutor) : Prop where
  entries : ∀ key, e'.capabilityInvocations.get key = e.capabilityInvocations.get key
  tombstones : ∀ key,
    e'.indeterminateCapabilityInvocations.get key = e.indeterminateCapabilityInvocations.get key
  notSentAgain : ∀ (again : RemoteCapabilityInvocation) (entry : RemoteInvocationEntry),
    e.capabilityInvocations.get again.invocationId = some entry → entry.settled = true →
      (e'.invokeCapability options again).1.invocations = e'.invocations

theorem invocations_invokeCapability
    (h : (e.capabilityInvocations.get request.invocationId).isSome) :
    (e.invokeCapability options request).1.invocations = e.invocations := by
  rw [invokeCapability_eq]
  have hknown := @Admission.admit_known (e.admission options request) e.capabilityInvocations
    e.indeterminateCapabilityInvocations request.invocationId
    (options.invocationFingerprint request) h
  unfold admitted
  split
  · rfl
  · rfl
  · next session hsent => exact absurd hsent (hknown session)

theorem invokeCapability_of_rejected {thrown : RemoteError}
    (h : (e.invokeCapability options request).2 = some thrown) :
    (e.invokeCapability options request).1 =
      { e with
        capabilityInvocations := ((e.admission options request).admitCall e.capabilityInvocations
          e.indeterminateCapabilityInvocations request.invocationId
          (options.invocationFingerprint request)).1 } := by
  rw [invokeCapability_eq] at h ⊢
  unfold admitted at h ⊢
  split at h
  · rfl
  · cases h
  · cases h

theorem untouched_iff {thrown : RemoteError}
    (h : (e.invokeCapability options request).2 = some thrown) :
    Untouched options e (e.invokeCapability options request).1 ↔
      (e.admission options request).Spares e.capabilityInvocations
        e.indeterminateCapabilityInvocations request.invocationId := by
  rw [← @Admission.get_admit_iff _ _ _ _ (options.invocationFingerprint request)]
  have hrejected := invokeCapability_of_rejected h
  refine ⟨fun huntouched key => ?_, fun hsame => ⟨fun key => ?_, fun key => ?_, ?_⟩⟩
  · have hentries := huntouched.entries key
    rw [hrejected] at hentries
    exact hentries
  · rw [hrejected]
    exact hsame key
  · rw [hrejected]
  · intro again entry hentry _
    refine invocations_invokeCapability ?_
    rw [hrejected]
    exact isSome_iff_exists.mpr ⟨entry, (hsame _).trans hentry⟩

end RemoteExecutor

/-! ## The worker's side -/

structure WorkerActivation where
  activation : RemoteComponentActivation
  state : RemoteComponentState

structure MainCapabilityOptions where
  workerId : PortableId
  /-- There is a `validateActivation`. -/
  validateActivation : Bool
  maxCapabilityInvocations : Nat
  maxIndeterminateCapabilityInvocations : Nat
  invocationFingerprint : RemoteCapabilityInvocation → JsString

/-- What a worker runtime keeps for its calls to the main. -/
structure MainCapabilities where
  sessions : Nat → RemoteSession
  session : Option Nat
  activations : JsMap TaskExecutionTarget WorkerActivation
  mainCapabilityInvocations : JsMap JsString RemoteInvocationEntry
  indeterminateMainCapabilityInvocations : JsMap JsString IndeterminateEntry
  invocations : List SentInvocation

namespace MainCapabilities

/-- The checks of `invokeMainCapability` before it looks at the tables. -/
def invocationRefused (options : MainCapabilityOptions) (w : MainCapabilities)
    (request : RemoteCapabilityInvocation) : Option RemoteError :=
  if request.target.executor.type ≠ .remote ||
      request.target.executor.workerId ≠ some options.workerId then
    some (remoteError "PROTOCOL_CAPABILITY_TARGET_INVALID"
      "Capability invocation target does not match this authenticated Worker")
  else if options.validateActivation &&
      !(w.activations.get request.target).any (fun activation =>
        activation.state = .active &&
          activation.activation.bindingFingerprint = request.bindingFingerprint) then
    some (remoteError "CAPABILITY_CONSUMER_NOT_READY"
      "Capability invocation does not match an active exact remote consumer binding")
  else none

def usableSession (w : MainCapabilities) : Option Nat :=
  w.session.filter fun x => decide ((w.sessions x).state = .ready) && (w.sessions x).available

/-- The admission of `invokeMainCapability`. -/
def admission (options : MainCapabilityOptions) (w : MainCapabilities)
    (request : RemoteCapabilityInvocation) : Admission where
  refused := w.invocationRefused options request
  maximum := options.maxCapabilityInvocations
  maxIndeterminate := options.maxIndeterminateCapabilityInvocations
  session := w.usableSession
  full := exhausted "Worker to Main capability invocation capacity is exhausted"
  tombstonesFull := exhausted
    "Worker indeterminate capability tombstone capacity is exhausted until component stop"
  unavailable := remoteError "CAPABILITY_REMOTE_NOT_AVAILABLE"
    "Main capability invocation requires an authenticated ready session"

def sendInvocation (w : MainCapabilities) (request : RemoteCapabilityInvocation)
    (fingerprint : JsString) (session : Nat) : MainCapabilities :=
  { w with
    mainCapabilityInvocations := w.mainCapabilityInvocations.set request.invocationId
      { fingerprint := fingerprint
        invocation := w.invocations.length
        target := request.target
        settled := false }
    invocations := w.invocations ++
      [{ request := request
         fingerprint := fingerprint
         session := session
         result := none
         handled := false
         stopped := false }] }

/-- `invokeMainCapability`, as far as its request. -/
def invokeMainCapability (options : MainCapabilityOptions) (w : MainCapabilities)
    (request : RemoteCapabilityInvocation) : MainCapabilities × Option RemoteError :=
  let fingerprint := options.invocationFingerprint request
  let (entries, decision) := (w.admission options request).admitCall w.mainCapabilityInvocations
    w.indeterminateMainCapabilityInvocations request.invocationId fingerprint
  let w := { w with mainCapabilityInvocations := entries }
  match decision with
  | .error thrown => (w, some thrown)
  | .ok none => (w, none)
  | .ok (some session) => (w.sendInvocation request fingerprint session, none)

/-- The tables hold what they held before, and repeating a call that was answered sends
nothing. -/
structure Untouched (options : MainCapabilityOptions) (w w' : MainCapabilities) : Prop where
  entries : ∀ key, w'.mainCapabilityInvocations.get key = w.mainCapabilityInvocations.get key
  tombstones : ∀ key, w'.indeterminateMainCapabilityInvocations.get key =
    w.indeterminateMainCapabilityInvocations.get key
  notSentAgain : ∀ (again : RemoteCapabilityInvocation) (entry : RemoteInvocationEntry),
    w.mainCapabilityInvocations.get again.invocationId = some entry → entry.settled = true →
      (w'.invokeMainCapability options again).1.invocations = w'.invocations

variable {options : MainCapabilityOptions} {w : MainCapabilities}
  {request : RemoteCapabilityInvocation}

theorem invocations_invokeMainCapability
    (h : (w.mainCapabilityInvocations.get request.invocationId).isSome) :
    (w.invokeMainCapability options request).1.invocations = w.invocations := by
  have hknown := @Admission.admit_known (w.admission options request) w.mainCapabilityInvocations
    w.indeterminateMainCapabilityInvocations request.invocationId
    (options.invocationFingerprint request) h
  unfold invokeMainCapability
  dsimp only
  split
  · rfl
  · rfl
  · next session hsent => exact absurd hsent (hknown session)

theorem invokeMainCapability_of_rejected {thrown : RemoteError}
    (h : (w.invokeMainCapability options request).2 = some thrown) :
    (w.invokeMainCapability options request).1 =
      { w with
        mainCapabilityInvocations := ((w.admission options request).admitCall
          w.mainCapabilityInvocations w.indeterminateMainCapabilityInvocations
          request.invocationId (options.invocationFingerprint request)).1 } := by
  unfold invokeMainCapability at h ⊢
  dsimp only at h ⊢
  split at h
  · rfl
  · cases h
  · cases h

theorem untouched_iff {thrown : RemoteError}
    (h : (w.invokeMainCapability options request).2 = some thrown) :
    Untouched options w (w.invokeMainCapability options request).1 ↔
      (w.admission options request).Spares w.mainCapabilityInvocations
        w.indeterminateMainCapabilityInvocations request.invocationId := by
  rw [← @Admission.get_admit_iff _ _ _ _ (options.invocationFingerprint request)]
  have hrejected := invokeMainCapability_of_rejected h
  refine ⟨fun huntouched key => ?_, fun hsame => ⟨fun key => ?_, fun key => ?_, ?_⟩⟩
  · have hentries := huntouched.entries key
    rw [hrejected] at hentries
    exact hentries
  · rw [hrejected]
    exact hsame key
  · rw [hrejected]
  · intro again entry hentry _
    refine invocations_invokeMainCapability ?_
    rw [hrejected]
    exact isSome_iff_exists.mpr ⟨entry, (hsame _).trans hentry⟩

end MainCapabilities

/-! ## The law -/

/-- **A rejected call leaves the tables as they were**, on either side, just when no room had to
be made for it at the cost of a settled entry. -/
theorem rejected_untouched (options : RemoteExecutorOptions) (e : RemoteExecutor)
    (mainOptions : MainCapabilityOptions) (w : MainCapabilities)
    (request : RemoteCapabilityInvocation) (thrown : RemoteError) :
    ((e.invokeCapability options request).2 = some thrown →
      (RemoteExecutor.Untouched options e (e.invokeCapability options request).1 ↔
        (e.admission options request).Spares e.capabilityInvocations
          e.indeterminateCapabilityInvocations request.invocationId)) ∧
    ((w.invokeMainCapability mainOptions request).2 = some thrown →
      (MainCapabilities.Untouched mainOptions w (w.invokeMainCapability mainOptions request).1 ↔
        (w.admission mainOptions request).Spares w.mainCapabilityInvocations
          w.indeterminateMainCapabilityInvocations request.invocationId)) :=
  ⟨RemoteExecutor.untouched_iff, MainCapabilities.untouched_iff⟩

/-! ## A table of one entry -/

def oneInvocation : RemoteExecutorOptions := { sampleOptions with maxCapabilityInvocations := 1 }

def answeredInvocation : CapabilityAnswer :=
  ⟨.capabilityInvoke, some
    { invocationId := js "first"
      fingerprint := js "first"
      ok := true
      error := none }⟩

def answeredBeforeOutage : List RemoteLabel :=
  firstInvocation ++
    [.capabilityAnswered 0 (some answeredInvocation), .capabilityHandled 0,
      .sessionChanged 0 ⟨.ready, false⟩]

def unavailableSession : RemoteError :=
  remoteError "CAPABILITY_REMOTE_NOT_AVAILABLE"
    "Remote capability invocation requires an authenticated ready Worker session"

/-- A worker that has no session yet. -/
def idleMainCapabilities : MainCapabilities where
  sessions _ := ⟨.authenticating, false⟩
  session := none
  activations := .empty
  mainCapabilityInvocations := .empty
  indeterminateMainCapabilityInvocations := .empty
  invocations := []

def sampleMainOptions : MainCapabilityOptions where
  workerId := sampleWorker
  validateActivation := false
  maxCapabilityInvocations := 1
  maxIndeterminateCapabilityInvocations := 1
  invocationFingerprint request := request.invocationId

/-- With sixteen places the first answer outlasts the rejection of the second call. -/
theorem rejected_untouched_answered :
    (∃ e, (machine sampleOptions).Reachable e ∧
      e.capabilityInvocations.size = 1 ∧
      (e.invokeCapability sampleOptions (sampleInvocationRequest "second")).2 =
        some unavailableSession ∧
      RemoteExecutor.Untouched sampleOptions e
        (e.invokeCapability sampleOptions (sampleInvocationRequest "second")).1) ∧
    MainCapabilities.Untouched sampleMainOptions idleMainCapabilities
      (idleMainCapabilities.invokeMainCapability sampleMainOptions
        (sampleInvocationRequest "second")).1 := by
  constructor
  · have hrun : ((machine sampleOptions).run new answeredBeforeOutage).map (fun e =>
        (e.capabilityInvocations.size,
          (e.invokeCapability sampleOptions (sampleInvocationRequest "second")).2)) =
        some (1, some unavailableSession) := by decide +kernel
    obtain ⟨e, he, hvalues⟩ := map_eq_some_iff.mp hrun
    obtain ⟨hsize, hthrown⟩ := Prod.mk.inj hvalues
    refine ⟨e, .of_init_run rfl he, hsize, hthrown, ?_⟩
    refine ((rejected_untouched sampleOptions e sampleMainOptions idleMainCapabilities _ _).1
      hthrown).mpr (.inr (.inr (.inr (.inl ?_))))
    show e.capabilityInvocations.size < 16
    rw [hsize]
    decide
  · refine ((rejected_untouched sampleOptions .new sampleMainOptions idleMainCapabilities _
      (remoteError "CAPABILITY_REMOTE_NOT_AVAILABLE"
        "Main capability invocation requires an authenticated ready session")).2
      (by decide +kernel)).mpr (.inr (.inr (.inr (.inl ?_))))
    decide

def repeatedAfterRejection : List RemoteLabel :=
  [.invokeCapability (sampleInvocationRequest "second"), .sessionChanged 0 ⟨.ready, true⟩,
    .invokeCapability (sampleInvocationRequest "first")]

/-- With one place the answer to the first invocation is gone after the rejection, and it is
sent a second time. -/
theorem rejected_forgets :
    ∃ e thrown e', (machine oneInvocation).Reachable e ∧
      (e.invokeCapability oneInvocation (sampleInvocationRequest "second")).2 = some thrown ∧
      ¬RemoteExecutor.Untouched oneInvocation e
        (e.invokeCapability oneInvocation (sampleInvocationRequest "second")).1 ∧
      (machine oneInvocation).run e repeatedAfterRejection = some e' ∧
      e'.invocations.map (·.request.invocationId) = [js "first", js "first"] := by
  have hrun : ((machine oneInvocation).run new answeredBeforeOutage).map (fun e =>
      ((e.capabilityInvocations.get (js "first")).isSome,
        (e.invokeCapability oneInvocation (sampleInvocationRequest "second")).2,
        ((e.invokeCapability oneInvocation
          (sampleInvocationRequest "second")).1.capabilityInvocations.get (js "first")).isSome)) =
      some (true, some unavailableSession, false) := by decide +kernel
  have hagain : ((machine oneInvocation).run new answeredBeforeOutage).bind (fun e =>
      ((machine oneInvocation).run e repeatedAfterRejection).map fun e' =>
        e'.invocations.map (·.request.invocationId)) = some [js "first", js "first"] := by
    decide +kernel
  obtain ⟨e, he, hvalues⟩ := map_eq_some_iff.mp hrun
  rw [he, bind_some] at hagain
  obtain ⟨e', he', hsent⟩ := map_eq_some_iff.mp hagain
  simp only [Prod.mk.injEq] at hvalues
  obtain ⟨hbefore, hthrown, hafter⟩ := hvalues
  refine ⟨e, unavailableSession, e', .of_init_run rfl he, hthrown, fun huntouched => ?_, he',
    hsent⟩
  rw [huntouched.entries, hbefore] at hafter
  cases hafter

end TegoNext
