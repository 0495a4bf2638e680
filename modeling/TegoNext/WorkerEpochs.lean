/-
The session epochs of workers, allocated by optimistic transactions.

`transport-websocket/src/state-worker-epoch-allocator.ts`: `next` reads the record of the worker,
and puts an epoch one above under the condition that the record is still the one it has read. The
record may hold more than the protocol can carry, or no epoch at all.

Any number of calls, with different fences, are under way over the abstract store; what others
commit leaves the epoch records alone. A commit may take place although its reply is lost.
-/
import TegoNext.CanonicalJson
import TegoNext.CasStore
import TegoNext.DecimalText
import TegoNext.Machine
import TegoNext.StateContract

set_option autoImplicit false

namespace TegoNext

open Text List Option Function

namespace WorkerEpochs

/-! ## What the allocator reads and writes -/

def maximumUnsigned64 : Nat := 2 ^ 64 - 1

/-- A text `DECIMAL_PATTERN` accepts. -/
structure FencingEpoch where
  text : JsString
  numeric : isNumeric text = true
  deriving DecidableEq

/-- `BigInt(epoch)`. -/
def FencingEpoch.number (epoch : FencingEpoch) : Nat := (digits epoch.text).getD 0

inductive EpochErrorCode where
  | PROTOCOL_IDENTITY_INVALID
  | WORKER_EPOCH_LIMIT_EXCEEDED
  | WORKER_EPOCH_RECORD_INVALID
  deriving DecidableEq

/-- The diagnostic of an error; the source is a kind and an id. -/
structure EpochDiagnostic where
  code : EpochErrorCode
  message : String
  source : String × JsString
  details : List (String × JsString)
  deriving DecidableEq

/-- `typeof`, of a property that may be missing. -/
def typeOf : Option JsonValue → JsString
  | none => js "undefined"
  | some (.bool _) => js "boolean"
  | some (.number _) => js "number"
  | some (.string _) => js "string"
  | some _ => js "object"

def invalidIdentity (name : String) (value : Option JsonValue) : EpochDiagnostic where
  code := .PROTOCOL_IDENTITY_INVALID
  message := name ++ " must be a non-empty portable identifier"
  source := ("protocol", js name)
  details := [("name", js name), ("value", match value with
    | some (.string s) => s
    | _ => typeOf value)]

def parseWorkerId : Option JsonValue → Except EpochDiagnostic PortableId
  | some (.string s) =>
    if h : isPortableName s = true then .ok ⟨s, h⟩
    else .error (invalidIdentity "WorkerId" (some (.string s)))
  | value => .error (invalidIdentity "WorkerId" value)

def parseFencingEpoch : Option JsonValue → Except EpochDiagnostic FencingEpoch
  | some (.string s) =>
    if h : isNumeric s = true then .ok ⟨s, h⟩
    else .error (invalidIdentity "FencingEpoch" (some (.string s)))
  | value => .error (invalidIdentity "FencingEpoch" value)

section

variable (workerId : PortableId)

def epochKey : StateKey where
  nspace := js "tego"
  collection := js "worker-session-epochs"
  id := workerId.text

/-- `invalidRecord`; `cause` is the message of what was thrown. -/
def invalidRecord (cause : String) : EpochDiagnostic where
  code := .WORKER_EPOCH_RECORD_INVALID
  message := "Persisted Worker session epoch is invalid"
  source := ("worker", workerId.text)
  details := [("workerId", workerId.text), ("cause", js cause)]

def exhaustedEpochs : EpochDiagnostic where
  code := .WORKER_EPOCH_LIMIT_EXCEEDED
  message := "Worker session epoch exceeds the unsigned 64-bit protocol limit"
  source := ("worker", workerId.text)
  details := [("workerId", workerId.text)]

/-- `value.name`; a property of `null` throws. -/
def property (name : String) : JsonValue → Except String (Option JsonValue)
  | .null => .error ("Cannot read properties of null (reading '" ++ name ++ "')")
  | .object fields => .ok (fields.lookup (js name))
  | _ => .ok none

/-- Is it this text, by `===`? -/
def isText (s : JsString) : Option JsonValue → Bool
  | some (.string t) => t == s
  | _ => false

/-- What the `try` around the record computes, or the message of what it throws. -/
def previousEpoch (value : JsonValue) : Except String Nat := do
  let stored ← property "workerId" value
  if isText workerId.text stored then
    let _ ← (parseWorkerId stored).mapError EpochDiagnostic.message
    let epoch ← property "epoch" value
    let epoch ← (parseFencingEpoch epoch).mapError EpochDiagnostic.message
    pure epoch.number
  else throw "Worker epoch record identity does not match its key"

/-- The epoch that `next` allocates after it has read `current`. -/
def nextEpoch (current : Option (Versioned JsonValue)) :
    Except EpochDiagnostic FencingEpoch := do
  let previous ← match current with
    | none => pure 0
    | some c => (previousEpoch workerId c.value).mapError (invalidRecord workerId)
  if maximumUnsigned64 ≤ previous then throw (exhaustedEpochs workerId)
  (parseFencingEpoch (some (.string (decimal (previous + 1))))).mapError
    fun cause => invalidRecord workerId cause.message

/-- The record `next` puts. -/
def epochRecord (epoch : FencingEpoch) : JsonValue :=
  .object [(js "workerId", .string workerId.text), (js "epoch", .string epoch.text)]

/-- The write of the transaction, `current?.revision ?? "absent"`. -/
def epochWrite (current : Option (Versioned JsonValue))
    (epoch : FencingEpoch) : CasWrite StateKey JsonValue where
  key := epochKey workerId
  value := some (epochRecord workerId epoch)
  expected := match current with
    | none => .absent
    | some c => .at c.revision

end

/-! ## Calls -/

inductive EpochFailure where
  | diagnostic (d : EpochDiagnostic)
  | commit (e : CasError)
  /-- The store fails by itself, before it commits. -/
  | unavailable
  deriving DecidableEq

inductive EpochPhase where
  | opened (workerId : PortableId)
  | staged (workerId : PortableId) (current : Option (Versioned JsonValue)) (epoch : FencingEpoch)
  | committed (workerId : PortableId) (epoch : FencingEpoch)
  | returned (workerId : PortableId) (epoch : FencingEpoch)
  /-- Committed, but the call rejects as the reply is lost. -/
  | lost (workerId : PortableId) (epoch : FencingEpoch)
  | failed (failure : EpochFailure)

def EpochPhase.allocation : EpochPhase → Option (PortableId × FencingEpoch)
  | .committed workerId epoch | .returned workerId epoch | .lost workerId epoch =>
    some (workerId, epoch)
  | _ => none

/-- A call of `next`, with the fence of its allocator. -/
structure EpochCall where
  fencing : Option (JsString × Nat)
  phase : EpochPhase

/-- An epoch, and the call whose commit has written it. -/
structure Allocation where
  call : Nat
  workerId : PortableId
  epoch : FencingEpoch
  deriving DecidableEq

/-- The store, all calls so far, and the epochs in the order of the commits. -/
structure EpochWorld where
  store : CasStore StateKey JsonValue JsString
  calls : List EpochCall
  allocated : List Allocation

namespace EpochWorld

variable (s : EpochWorld) (i : Nat)

def phase : Option EpochPhase := s.calls[i]?.map EpochCall.phase

def setPhase (phase : EpochPhase) : EpochWorld :=
  { s with calls := s.calls.modify i fun call => { call with phase := phase } }

/-- `next`, as far as the transaction. -/
def startCall (workerIdValue : Option JsonValue) (fencing : Option (JsString × Nat)) : EpochWorld :=
  { s with calls := s.calls ++ [⟨fencing, match parseWorkerId workerIdValue with
    | .ok workerId => .opened workerId
    | .error d => .failed (.diagnostic d)⟩] }

/-- The transaction reads, and its work comes to its end. -/
def read : Option EpochWorld :=
  match s.calls[i]? with
  | some ⟨_, .opened workerId⟩ =>
    let current := s.store.record (epochKey workerId)
    some (s.setPhase i (match nextEpoch workerId current with
      | .ok epoch => .staged workerId current epoch
      | .error d => .failed (.diagnostic d)))
  | _ => none

def commit : Option EpochWorld :=
  match s.calls[i]? with
  | some ⟨fencing, .staged workerId current epoch⟩ =>
    match s.store.commit [epochWrite workerId current epoch] fencing false with
    | .ok store => some
        { s.setPhase i (.committed workerId epoch) with
          store := store
          allocated := s.allocated ++ [⟨i, workerId, epoch⟩] }
    | .error e => some (s.setPhase i (.failed (.commit e)))
  | _ => none

def failStore : Option EpochWorld :=
  match s.calls[i]? with
  | some ⟨_, .opened _⟩ | some ⟨_, .staged _ _ _⟩ => some (s.setPhase i (.failed .unavailable))
  | _ => none

/-- What comes of a commit that took place. -/
def reply (arrives : Bool) : Option EpochWorld :=
  match s.calls[i]? with
  | some ⟨_, .committed workerId epoch⟩ =>
    some (s.setPhase i (if arrives then .returned workerId epoch else .lost workerId epoch))
  | _ => none

/-- Does a write leave all epoch records alone? -/
def spares (write : CasWrite StateKey JsonValue) : Bool :=
  write.key.nspace != js "tego" || write.key.collection != js "worker-session-epochs"

def commitOther (writes : List (CasWrite StateKey JsonValue))
    (fencing : Option (JsString × Nat)) (other : Bool) : Option EpochWorld :=
  if writes.all spares then
    match s.store.commit writes fencing other with
    | .ok store => some { s with store := store }
    | .error _ => none
  else none

end EpochWorld

inductive EpochLabel where
  | call (workerIdValue : Option JsonValue) (fencing : Option (JsString × Nat))
  | read (i : Nat)
  | commit (i : Nat)
  | failStore (i : Nat)
  | reply (i : Nat) (arrives : Bool)
  | other (writes : List (CasWrite StateKey JsonValue)) (fencing : Option (JsString × Nat))
    (other : Bool)

open EpochWorld in
def step (s : EpochWorld) : EpochLabel → Option EpochWorld
  | .call workerIdValue fencing => some (s.startCall workerIdValue fencing)
  | .read i => s.read i
  | .commit i => s.commit i
  | .failStore i => s.failStore i
  | .reply i arrives => s.reply i arrives
  | .other writes fencing other => s.commitOther writes fencing other

/-- Runs start with any records, well formed or not. -/
def machine : Machine EpochWorld EpochLabel where
  Init s := s.store.WellFormed ∧ s.calls = [] ∧ s.allocated = []
  step := step

/-! ## The law -/

def EpochWorld.epochs (s : EpochWorld) (workerId : PortableId) : List FencingEpoch :=
  (s.allocated.filter (·.workerId = workerId)).map Allocation.epoch

/-- The call a label is a step of. -/
def EpochLabel.actor : EpochLabel → Option Nat
  | .read i | .commit i | .failStore i | .reply i _ => some i
  | _ => none

/-- A worker's epochs strictly increase in the order of the commits, within the bound; a call
that fails has allocated none. A step changes what is stored only if it allocates. -/
structure EpochLaw (s : EpochWorld) : Prop where
  increasing : ∀ w : PortableId,
    (s.epochs w).Pairwise fun earlier later => earlier.number < later.number
  bounded : ∀ a ∈ s.allocated, a.epoch.number ≤ maximumUnsigned64
  once : (s.allocated.map Allocation.call).Nodup
  returned : ∀ i w epoch, s.phase i = some (.returned w epoch) → ⟨i, w, epoch⟩ ∈ s.allocated
  distinct : ∀ i j w epoch epoch', i ≠ j → s.phase i = some (.returned w epoch) →
    s.phase j = some (.returned w epoch') → epoch ≠ epoch'
  failed : ∀ i failure, s.phase i = some (.failed failure) → ∀ a ∈ s.allocated, a.call ≠ i
  stored : ∀ w epoch, (s.epochs w).getLast? = some epoch →
    (s.store.record (epochKey w)).map Versioned.value = some (epochRecord w epoch)
  changes : ∀ l s' w, step s l = some s' →
    s'.store.record (epochKey w) ≠ s.store.record (epochKey w) →
      ∃ i epoch, l = .commit i ∧ s'.allocated = s.allocated ++ [⟨i, w, epoch⟩]
  settles : ∀ l s' i, step s l = some s' → l.actor = some i →
    (∃ w epoch, s'.allocated = s.allocated ++ [⟨i, w, epoch⟩] ∧
      s'.phase i = some (.committed w epoch)) ∨
    s'.store = s.store ∧ s'.allocated = s.allocated
  /-- No epoch to go on from, no one left, a record that has changed, or a fence. -/
  rejects : ∀ i s' w, (∃ d, s.phase i = some (.opened w) ∧ step s (.read i) = some s' ∧
      nextEpoch w (s.store.record (epochKey w)) = .error d) ∨
    (∃ current epoch fencing e, s.calls[i]? = some ⟨fencing, .staged w current epoch⟩ ∧
      step s (.commit i) = some s' ∧
      s.store.commit [epochWrite w current epoch] fencing false = .error e) →
    (∃ failure, s'.phase i = some (.failed failure)) ∧ s'.store = s.store

/-! ## The epoch after the one that is stored -/

theorem number_of_text {epoch : FencingEpoch} {n : Nat} (h : epoch.text = decimal n) :
    epoch.number = n := by
  rw [FencingEpoch.number, h, digits_decimal, getD_some]

theorem parseFencingEpoch_decimal (n : Nat) :
    parseFencingEpoch (some (.string (decimal n))) = .ok ⟨decimal n, isNumeric_decimal n⟩ :=
  dif_pos (isNumeric_decimal n)

theorem parseWorkerId_text (workerId : PortableId) :
    parseWorkerId (some (.string workerId.text)) = .ok workerId :=
  dif_pos workerId.portable

theorem parseFencingEpoch_of_text (epoch : FencingEpoch) :
    parseFencingEpoch (some (.string epoch.text)) = .ok epoch :=
  dif_pos epoch.numeric

theorem previousEpoch_epochRecord (workerId : PortableId) (epoch : FencingEpoch) :
    previousEpoch workerId (epochRecord workerId epoch) = .ok epoch.number := by
  have hother : (js "epoch" == js "workerId") = false := by decide
  have hworker : property "workerId" (epochRecord workerId epoch) =
      .ok (some (.string workerId.text)) := by
    simp [property, epochRecord]
  have hepoch : property "epoch" (epochRecord workerId epoch) =
      .ok (some (.string epoch.text)) := by
    simp [property, epochRecord, lookup_cons, hother]
  simp [previousEpoch, hworker, hepoch, isText, parseWorkerId_text, parseFencingEpoch_of_text,
    bind, Except.bind, Except.mapError, pure, Except.pure]

theorem nextEpoch_spec {workerId : PortableId} {current : Option (Versioned JsonValue)}
    {epoch : FencingEpoch} (h : nextEpoch workerId current = .ok epoch) :
    epoch.number ≤ maximumUnsigned64 ∧ ∀ c, current = some c →
      previousEpoch workerId c.value = .ok (epoch.number - 1) ∧ 0 < epoch.number := by
  have hbounded : ∀ {previous : Nat}, ¬maximumUnsigned64 ≤ previous →
      ((parseFencingEpoch (some (.string (decimal (previous + 1))))).mapError
        fun cause => invalidRecord workerId cause.message) = .ok epoch →
      epoch.number = previous + 1 ∧ epoch.number ≤ maximumUnsigned64 := by
    intro previous hle hparse
    rw [parseFencingEpoch_decimal] at hparse
    have hnumber : epoch.number = previous + 1 := by
      cases hparse
      exact number_of_text rfl
    omega
  unfold nextEpoch at h
  cases current with
  | none =>
    have hle : ¬maximumUnsigned64 ≤ 0 := by decide
    exact ⟨(hbounded hle h).2, fun c hc => nomatch hc⟩
  | some c =>
    cases hprevious : previousEpoch workerId c.value with
    | error cause =>
      simp [hprevious, Except.mapError, bind, Except.bind] at h
    | ok previous =>
      by_cases hle : maximumUnsigned64 ≤ previous
      · simp [hprevious, Except.mapError, bind, Except.bind, hle, throw, throwThe,
          MonadExceptOf.throw] at h
      simp only [hprevious, Except.mapError, bind, Except.bind, if_neg hle] at h
      obtain ⟨hnumber, hle'⟩ := hbounded hle h
      refine ⟨hle', fun c' hc => ?_⟩
      cases hc
      rw [hprevious, hnumber]
      exact ⟨rfl, Nat.succ_pos _⟩

/-! ## The invariant -/

theorem epochKey_injective {w w' : PortableId} (h : epochKey w = epochKey w') : w = w' :=
  PortableId.ext (congrArg StateKey.id h)

namespace EpochWorld

variable {s s' : EpochWorld}

/-- What a transaction has staged comes from a copy of the record. -/
def Staged (s : EpochWorld) : EpochPhase → Prop
  | .staged workerId current epoch => nextEpoch workerId current = .ok epoch ∧
      ∀ c, current = some c → s.store.IsCopy (epochKey workerId) c
  | _ => True

/-- The record of a worker that has an epoch is the last one that was allocated. -/
structure Invariant (s : EpochWorld) : Prop where
  wellFormed : s.store.WellFormed
  staged : ∀ i phase, s.phase i = some phase → s.Staged phase
  allocated : ∀ i w epoch, ⟨i, w, epoch⟩ ∈ s.allocated ↔
    s.phase i >>= EpochPhase.allocation = some (w, epoch)
  once : (s.allocated.map Allocation.call).Nodup
  bounded : ∀ a ∈ s.allocated, a.epoch.number ≤ maximumUnsigned64
  stored : ∀ w epoch, (s.epochs w).getLast? = some epoch →
    (s.store.record (epochKey w)).map Versioned.value = some (epochRecord w epoch)
  increasing : ∀ w : PortableId,
    (s.epochs w).Pairwise fun earlier later => earlier.number < later.number

theorem phase_setPhase (i j : Nat) (p : EpochPhase) :
    (s.setPhase i p).phase j = if i = j then (s.phase j).map fun _ => p else s.phase j := by
  unfold phase setPhase
  rw [getElem?_modify]
  by_cases h : i = j
  · simp [h, comp_def]
  · simp [h]

variable {i : Nat} {p : EpochPhase}

theorem phase_setPhase_self {p' : EpochPhase} (h : s.phase i = some p) :
    (s.setPhase i p').phase i = some p' := by
  rw [phase_setPhase, if_pos rfl, h, map_some]

theorem Invariant.setPhase (h : Invariant s) {p' : EpochPhase}
    (hphase : s.phase i = some p) (hallocation : p'.allocation = p.allocation)
    (hstaged : s.Staged p') : Invariant (s.setPhase i p') where
  wellFormed := h.wellFormed
  staged j q hq := by
    rw [phase_setPhase] at hq
    by_cases hij : i = j
    · subst hij
      rw [if_pos rfl, hphase, map_some, some.injEq] at hq
      exact hq ▸ hstaged
    · rw [if_neg hij] at hq
      exact h.staged j q hq
  allocated j w epoch := by
    show _ ∈ s.allocated ↔ _
    rw [h.allocated, phase_setPhase]
    by_cases hij : i = j
    · subst hij
      rw [if_pos rfl, hphase, map_some]
      show p.allocation = _ ↔ p'.allocation = _
      rw [hallocation]
    · rw [if_neg hij]
  once := h.once
  bounded := h.bounded
  stored := h.stored
  increasing := h.increasing

theorem Invariant.startCall (h : Invariant s) (value : Option JsonValue)
    (fencing : Option (JsString × Nat)) : Invariant (s.startCall value fencing) := by
  have hnew : ∃ p : EpochPhase, p.allocation = none ∧ s.Staged p ∧
      s.startCall value fencing = { s with calls := s.calls ++ [⟨fencing, p⟩] } := by
    unfold EpochWorld.startCall
    cases parseWorkerId value with
    | ok w => exact ⟨.opened w, rfl, trivial, rfl⟩
    | error d => exact ⟨.failed (.diagnostic d), rfl, trivial, rfl⟩
  obtain ⟨p, hnone, hstaged, heq⟩ := hnew
  have hphase : ∀ i q, ({ s with calls := s.calls ++ [⟨fencing, p⟩] } : EpochWorld).phase i =
      some q → s.phase i = some q ∨ s.phase i = none ∧ q = p := by
    intro i q hq
    obtain ⟨call, hcall, rfl⟩ := map_eq_some_iff.mp hq
    rcases getElem?_concat_cases hcall with hold | ⟨rfl, rfl⟩
    · exact .inl (map_eq_some_iff.mpr ⟨call, hold, rfl⟩)
    · exact .inr ⟨by simp [phase], rfl⟩
  rw [heq]
  exact
    { wellFormed := h.wellFormed
      staged := by
        intro i q hq
        rcases hphase i q hq with hold | ⟨-, rfl⟩
        · exact h.staged i q hold
        · exact hstaged
      allocated := by
        intro i w epoch
        rw [h.allocated]
        constructor
        · intro hsome
          obtain ⟨q, hq, hq'⟩ := bind_eq_some_iff.mp hsome
          obtain ⟨call, hcall, rfl⟩ := map_eq_some_iff.mp hq
          exact bind_eq_some_iff.mpr
            ⟨_, map_eq_some_iff.mpr ⟨call, getElem?_append_of_some hcall, rfl⟩, hq'⟩
        · intro hsome
          obtain ⟨q, hq, hq'⟩ := bind_eq_some_iff.mp hsome
          rcases hphase i q hq with hold | ⟨-, rfl⟩
          · exact bind_eq_some_iff.mpr ⟨q, hold, hq'⟩
          · rw [hnone] at hq'
            cases hq'
      once := h.once
      bounded := h.bounded
      stored := h.stored
      increasing := h.increasing }

variable {store : CasStore StateKey JsonValue JsString}

theorem Invariant.setStore (h : Invariant s)
    (hwf : store.WellFormed) (hevolves : CasStore.Evolves s.store store)
    (hsame : ∀ w, store.record (epochKey w) = s.store.record (epochKey w)) :
    Invariant { s with store := store } where
  wellFormed := hwf
  staged i p hp := by
    have hold : s.Staged p := h.staged i p hp
    cases p with
    | staged w current epoch => exact ⟨hold.1, fun c hc => (hold.2 c hc).mono hevolves⟩
    | _ => trivial
  allocated := h.allocated
  once := h.once
  bounded := h.bounded
  stored w epoch hlast := by
    rw [hsame]
    exact h.stored w epoch hlast
  increasing := h.increasing

variable {fencing : Option (JsString × Nat)}

theorem phase_of_call (h : s.calls[i]? = some ⟨fencing, p⟩) : s.phase i = some p := by
  rw [phase, h, map_some]

theorem epochs_append (s : EpochWorld) (a : Allocation) (w : PortableId) :
    ({ s with allocated := s.allocated ++ [a] } : EpochWorld).epochs w =
      if a.workerId = w then s.epochs w ++ [a.epoch] else s.epochs w := by
  unfold epochs
  by_cases h : a.workerId = w
  · simp [h]
  · simp [h]

variable {w : PortableId} {current : Option (Versioned JsonValue)} {epoch : FencingEpoch}

theorem commit_epochWrite (h : Invariant s)

    (hcall : s.calls[i]? = some ⟨fencing, .staged w current epoch⟩)
    (hcommit : s.store.commit [epochWrite w current epoch] fencing false = .ok store) :
    s.store.record (epochKey w) = current ∧
      store.record = Function.update s.store.record (epochKey w)
        (some ⟨epochRecord w epoch, s.store.revision + 1⟩) := by
  obtain ⟨-, hcopy⟩ := h.staged i _ (phase_of_call hcall)
  cases current with
  | none =>
    obtain ⟨hmatches, -, hrecord⟩ := CasStore.commit_put hcommit
    refine ⟨?_, hrecord⟩
    rw [Expected.matches, isNone_iff_eq_none] at hmatches
    exact hmatches
  | some c => exact CasStore.commit_put_of_isCopy (hcopy c rfl) hcommit

theorem epochs_lt (h : Invariant s) (hnext : nextEpoch w current = .ok epoch)
    (hrecord : s.store.record (epochKey w) = current) :
    ∀ earlier ∈ s.epochs w, earlier.number < epoch.number := by
  intro earlier hmem
  obtain ⟨last, hlast⟩ : ∃ last, (s.epochs w).getLast? = some last := by
    rw [← isSome_iff_exists, getLast?_isSome]
    exact ne_nil_of_mem hmem
  have hstored := h.stored w last hlast
  rw [hrecord] at hstored
  obtain ⟨c, rfl, hvalue⟩ := map_eq_some_iff.mp hstored
  obtain ⟨hprevious, hpos⟩ := (nextEpoch_spec hnext).2 c rfl
  -- what is stored is the last epoch, and the others are below it
  have hnumber : last.number = epoch.number - 1 := by
    rw [hvalue, previousEpoch_epochRecord, Except.ok.injEq] at hprevious
    exact hprevious
  obtain ⟨front, hfront⟩ := getLast?_eq_some_iff.mp hlast
  have hle : earlier.number ≤ last.number := by
    have hincreasing := h.increasing w
    rw [hfront] at hmem hincreasing
    rcases mem_append.mp hmem with hmem | hmem
    · exact Nat.le_of_lt ((pairwise_append.mp hincreasing).2.2 earlier hmem last mem_cons_self)
    · rw [mem_singleton] at hmem
      rw [hmem]
  omega

theorem Invariant.commit (h : Invariant s) {i : Nat} {fencing : Option (JsString × Nat)}
    {w : PortableId} {current : Option (Versioned JsonValue)} {epoch : FencingEpoch}
    (hcall : s.calls[i]? = some ⟨fencing, .staged w current epoch⟩)
    {store : CasStore StateKey JsonValue JsString}
    (hcommit : s.store.commit [epochWrite w current epoch] fencing false = .ok store) :
    Invariant { s.setPhase i (.committed w epoch) with
      store := store
      allocated := s.allocated ++ [⟨i, w, epoch⟩] } := by
  obtain ⟨hrecord, hput⟩ := commit_epochWrite h hcall hcommit
  have hphase : s.phase i = some (.staged w current epoch) := phase_of_call hcall
  have hnext : nextEpoch w current = .ok epoch := (h.staged i _ hphase).1
  have hfresh : ∀ a ∈ s.allocated, a.call ≠ i := by
    rintro ⟨j, w', epoch'⟩ hmem rfl
    rw [h.allocated, hphase] at hmem
    cases hmem
  have hepochs : ∀ w' : PortableId, EpochWorld.epochs { s.setPhase i (.committed w epoch) with
      store := store
      allocated := s.allocated ++ [⟨i, w, epoch⟩] } w' =
        if w = w' then s.epochs w' ++ [epoch] else s.epochs w' :=
    fun w' => epochs_append s ⟨i, w, epoch⟩ w'
  refine
    { wellFormed := CasStore.wellFormed_commit h.wellFormed hcommit
      staged := ?_, allocated := ?_, once := ?_, bounded := ?_, stored := ?_, increasing := ?_ }
  · intro j p hp
    have hp' : (s.setPhase i (.committed w epoch)).phase j = some p := hp
    rw [phase_setPhase] at hp'
    have hold : j ≠ i → s.Staged p := by
      intro hij
      rw [if_neg (Ne.symm hij)] at hp'
      exact h.staged j p hp'
    cases p with
    | staged w' current' epoch' =>
      by_cases hij : i = j
      · rw [if_pos hij, ← hij, hphase] at hp'
        cases hp'
      · obtain ⟨hnext', hcopy⟩ := hold (Ne.symm hij)
        exact ⟨hnext', fun c hc => (hcopy c hc).mono (CasStore.evolves_commit hcommit)⟩
    | _ => trivial
  · intro j w' epoch'
    show _ ∈ s.allocated ++ [_] ↔ (s.setPhase i _).phase j >>= _ = _
    rw [mem_append, mem_singleton, h.allocated, phase_setPhase]
    by_cases hij : i = j
    · subst hij
      rw [if_pos rfl, hphase]
      simp [EpochPhase.allocation, eq_comm]
    · rw [if_neg hij]
      simp [Ne.symm hij]
  · show ((s.allocated ++ [_]).map _).Nodup
    rw [map_append, nodup_append]
    refine ⟨h.once, nodup_singleton _, ?_⟩
    intro j hj j' hj'
    obtain ⟨a, ha, rfl⟩ := List.mem_map.mp hj
    obtain rfl : j' = i := mem_singleton.mp hj'
    exact hfresh a ha
  · intro a ha
    rcases mem_append.mp ha with ha | ha
    · exact h.bounded a ha
    · rw [mem_singleton] at ha
      rw [ha]
      exact (nextEpoch_spec hnext).1
  · intro w' last hlast
    rw [hepochs] at hlast
    by_cases hw : w = w'
    · subst hw
      rw [if_pos rfl, getLast?_concat, some.injEq] at hlast
      rw [hput, update_self, hlast]
      rfl
    · rw [if_neg hw] at hlast
      rw [hput, update_of_ne fun heq => hw (epochKey_injective heq).symm]
      exact h.stored w' last hlast
  · intro w'
    rw [hepochs]
    by_cases hw : w = w'
    · subst hw
      rw [if_pos rfl, pairwise_append]
      refine ⟨h.increasing w, pairwise_singleton _ _, ?_⟩
      intro earlier hearlier later hlater
      obtain rfl : later = epoch := mem_singleton.mp hlater
      exact epochs_lt h hnext hrecord earlier hearlier
    · rw [if_neg hw]
      exact h.increasing w'

/-! ## What a step does -/

def afterCommit (s : EpochWorld) (i : Nat) (w : PortableId) (epoch : FencingEpoch)
    (store : CasStore StateKey JsonValue JsString) : EpochWorld :=
  { s.setPhase i (.committed w epoch) with
    store := store
    allocated := s.allocated ++ [⟨i, w, epoch⟩] }

theorem record_of_spares
    {writes : List (CasWrite StateKey JsonValue)}
    {other : Bool} (hspares : writes.all spares = true)
    (h : s.store.commit writes fencing other = .ok store) (w : PortableId) :
    store.record (epochKey w) = s.store.record (epochKey w) := by
  obtain ⟨-, -, ⟨rfl, -, -⟩ | rfl⟩ := CasStore.commit_ok_cases h
  · rfl
  · apply CasStore.foldl_write_of_forall_ne
    intro write hwrite heq
    have hspared := List.all_eq_true.mp hspares write hwrite
    simp [spares, ← heq, epochKey] at hspared

variable {l : EpochLabel}

theorem step_cases (hwf : s.store.WellFormed) (h : step s l = some s') :
    (l.actor = none ∧ ∃ value fencing, s' = s.startCall value fencing) ∨
    (∃ i p p', l.actor = some i ∧ s.phase i = some p ∧ p'.allocation = p.allocation ∧
      s.Staged p' ∧ s' = s.setPhase i p') ∨
    (∃ i fencing w current epoch store, l = .commit i ∧
      s.calls[i]? = some ⟨fencing, .staged w current epoch⟩ ∧
      s.store.commit [epochWrite w current epoch] fencing false = .ok store ∧
      s' = s.afterCommit i w epoch store) ∨
    l.actor = none ∧ ∃ store : CasStore StateKey JsonValue JsString, store.WellFormed ∧
      CasStore.Evolves s.store store ∧
      (∀ w, store.record (epochKey w) = s.store.record (epochKey w)) ∧
      s' = { s with store := store } := by
  cases l with
  | call value fencing => exact .inl ⟨rfl, value, fencing, (some.inj h).symm⟩
  | read i =>
    right; left
    simp only [step, read] at h
    split at h
    · next fencing w hcall =>
      have hphase := phase_of_call hcall
      cases hnext : nextEpoch w (s.store.record (epochKey w)) with
      | ok epoch =>
        rw [hnext, some.injEq] at h
        exact ⟨i, _, .staged w _ epoch, rfl, hphase, rfl,
          ⟨hnext, fun c hc => CasStore.IsCopy.of_record hwf hc⟩, h.symm⟩
      | error d =>
        rw [hnext, some.injEq] at h
        exact ⟨i, _, .failed _, rfl, hphase, rfl, trivial, h.symm⟩
    · cases h
  | commit i =>
    simp only [step, commit] at h
    split at h
    · next fencing w current epoch hcall =>
      split at h
      · next store hcommit =>
        right; right; left
        exact ⟨i, fencing, w, current, epoch, store, rfl, hcall, hcommit, (some.inj h).symm⟩
      · right; left
        exact ⟨i, _, .failed _, rfl, phase_of_call hcall, rfl, trivial, (some.inj h).symm⟩
    · cases h
  | failStore i =>
    right; left
    simp only [step, failStore] at h
    split at h
    · next hcall =>
      exact ⟨i, _, .failed _, rfl, phase_of_call hcall, rfl, trivial, (some.inj h).symm⟩
    · next hcall =>
      exact ⟨i, _, .failed _, rfl, phase_of_call hcall, rfl, trivial, (some.inj h).symm⟩
    · cases h
  | reply i arrives =>
    right; left
    simp only [step, reply] at h
    split at h
    · next hcall =>
      refine ⟨i, _, _, rfl, phase_of_call hcall, ?_, ?_, (some.inj h).symm⟩
      · cases arrives <;> rfl
      · cases arrives <;> trivial
    · cases h
  | other writes fencing other =>
    right; right; right
    simp only [step, commitOther] at h
    split at h
    · next hspares =>
      split at h
      · next store hcommit =>
        exact ⟨rfl, store, CasStore.wellFormed_commit hwf hcommit,
          CasStore.evolves_commit hcommit, record_of_spares hspares hcommit,
          (some.inj h).symm⟩
      · cases h
    · cases h

theorem Invariant.step {l : EpochLabel} (h : Invariant s) (hs : step s l = some s') :
    Invariant s' := by
  rcases step_cases h.wellFormed hs with ⟨-, value, fencing, rfl⟩ |
    ⟨i, p, p', -, hphase, hallocation, hstaged, rfl⟩ |
    ⟨i, fencing, w, current, epoch, store, -, hcall, hcommit, rfl⟩ |
    ⟨-, store, hwf, hevolves, hsame, rfl⟩
  · exact h.startCall value fencing
  · exact h.setPhase hphase hallocation hstaged
  · exact h.commit hcall hcommit
  · exact h.setStore hwf hevolves hsame

theorem invariant (hr : machine.Reachable s) : Invariant s := by
  refine hr.invariant ?_ fun _ _ _ _ h hs _ => h.step hs
  rintro s ⟨hwf, hcalls, hallocated⟩
  have hnobody : ∀ i, s.phase i = none := by
    intro i
    rw [phase, hcalls]
    rfl
  have hepochs : ∀ w, s.epochs w = [] := by
    intro w
    rw [epochs, hallocated]
    rfl
  exact
    { wellFormed := hwf
      staged := fun i p hp => nomatch (hnobody i).symm.trans hp
      allocated := fun i w epoch => by
        rw [hallocated, hnobody]
        simp
      once := by
        rw [hallocated]
        exact .nil
      bounded := by
        rw [hallocated]
        exact fun _ h => absurd h not_mem_nil
      stored := fun w epoch h => by
        rw [hepochs] at h
        cases h
      increasing := fun w => by
        rw [hepochs]
        exact .nil }

/-! ## The law in every run -/

theorem record_changes (h : Invariant s) (hs : WorkerEpochs.step s l = some s')
    (hne : s'.store.record (epochKey w) ≠ s.store.record (epochKey w)) :
    ∃ i epoch, l = .commit i ∧ s'.allocated = s.allocated ++ [⟨i, w, epoch⟩] := by
  rcases step_cases h.wellFormed hs with ⟨-, value, fencing, rfl⟩ | ⟨i, p, p', -, -, -, -, rfl⟩ |
    ⟨i, fencing, w', current, epoch, store, rfl, hcall, hcommit, rfl⟩ |
    ⟨-, store, -, -, hsame, rfl⟩
  · exact absurd rfl hne
  · exact absurd rfl hne
  · refine ⟨i, epoch, rfl, ?_⟩
    by_cases hw : w' = w
    · rw [hw]
      rfl
    obtain ⟨-, hput⟩ := commit_epochWrite h hcall hcommit
    refine absurd ?_ hne
    show store.record _ = _
    rw [hput, update_of_ne fun heq => hw (epochKey_injective heq).symm]
  · exact absurd (hsame w) hne

theorem step_settles (h : Invariant s) (hs : WorkerEpochs.step s l = some s')
    (hactor : l.actor = some i) :
    (∃ w epoch, s'.allocated = s.allocated ++ [⟨i, w, epoch⟩] ∧
      s'.phase i = some (.committed w epoch)) ∨
    s'.store = s.store ∧ s'.allocated = s.allocated := by
  rcases step_cases h.wellFormed hs with ⟨hnone, -⟩ | ⟨j, p, p', -, -, -, -, rfl⟩ |
    ⟨j, fencing, w, current, epoch, store, rfl, hcall, -, rfl⟩ | ⟨hnone, -⟩
  · rw [hnone] at hactor
    cases hactor
  · exact .inr ⟨rfl, rfl⟩
  · cases hactor
    exact .inl ⟨w, epoch, rfl, phase_setPhase_self (phase_of_call hcall)⟩
  · rw [hnone] at hactor
    cases hactor

theorem read_rejects {d : EpochDiagnostic}
    (hphase : s.phase i = some (.opened w)) (hs : WorkerEpochs.step s (.read i) = some s')
    (hnext : nextEpoch w (s.store.record (epochKey w)) = .error d) :
    s'.phase i = some (.failed (.diagnostic d)) ∧ s'.store = s.store := by
  obtain ⟨⟨fencing, p⟩, hcall, rfl⟩ := map_eq_some_iff.mp hphase
  have hread : s.setPhase i (.failed (.diagnostic d)) = s' := by
    simpa [WorkerEpochs.step, read, hcall, hnext] using hs
  subst hread
  exact ⟨phase_setPhase_self hphase, rfl⟩

theorem commit_rejects {e : CasError}
    (hcall : s.calls[i]? = some ⟨fencing, .staged w current epoch⟩)
    (hs : WorkerEpochs.step s (.commit i) = some s')
    (hrefused : s.store.commit [epochWrite w current epoch] fencing false = .error e) :
    s'.phase i = some (.failed (.commit e)) ∧ s'.store = s.store := by
  have hcommit : s.setPhase i (.failed (.commit e)) = s' := by
    simpa [WorkerEpochs.step, commit, hcall, hrefused] using hs
  subst hcommit
  exact ⟨phase_setPhase_self (phase_of_call hcall), rfl⟩

end EpochWorld

open EpochWorld in
theorem epochs_allocated {s : EpochWorld} (hr : machine.Reachable s) : EpochLaw s := by
  have h := invariant hr
  have hreturned : ∀ i w epoch, s.phase i = some (.returned w epoch) →
      ⟨i, w, epoch⟩ ∈ s.allocated := by
    intro i w epoch hphase
    rw [h.allocated, hphase]
    rfl
  exact
    { increasing := h.increasing
      bounded := h.bounded
      once := h.once
      returned := hreturned
      distinct := by
        rintro i j w epoch epoch' hij hi hj rfl
        -- both would be entries of the list that increases
        have hnodup : (s.epochs w).Nodup := (h.increasing w).imp fun hlt heq => by
          rw [heq] at hlt
          exact Nat.lt_irrefl _ hlt
        have hmem : ∀ k, s.phase k = some (.returned w epoch) →
            (⟨k, w, epoch⟩ : Allocation) ∈ s.allocated.filter (·.workerId = w) :=
          fun k hk => mem_filter.mpr ⟨hreturned k w epoch hk, by simp⟩
        have heq := inj_on_of_nodup_map hnodup (hmem i hi) (hmem j hj) rfl
        exact hij (congrArg Allocation.call heq)
      failed := by
        rintro i failure hphase ⟨j, w, epoch⟩ hmem rfl
        rw [h.allocated, hphase] at hmem
        cases hmem
      stored := h.stored
      changes := fun _ _ _ hs hne => record_changes h hs hne
      settles := fun _ _ _ hs hactor => step_settles h hs hactor
      rejects := by
        rintro i s' w (⟨d, hphase, hs, hnext⟩ | ⟨current, epoch, fencing, e, hcall, hs, hrefused⟩)
        · obtain ⟨hfailed, hstore⟩ := read_rejects hphase hs hnext
          exact ⟨⟨_, hfailed⟩, hstore⟩
        · obtain ⟨hfailed, hstore⟩ := commit_rejects hcall hs hrefused
          exact ⟨⟨_, hfailed⟩, hstore⟩ }

/-- Two calls read the same record; the second is late, the reply of a third is lost. -/
def overlappingRun : List EpochLabel :=
  let worker := some (.string (js "edge-1"))
  [.call worker none, .call worker none, .read 0, .read 1, .commit 0, .reply 0 true, .commit 1,
    .call worker none, .read 2, .commit 2, .reply 2 false]

theorem epochs_allocated_overlapping :
    ∃ s, machine.run ⟨.empty, [], []⟩ overlappingRun = some s ∧
      s.allocated.map (fun a => (a.call, a.epoch.number)) = [(0, 1), (2, 2)] ∧ EpochLaw s :=
  ⟨_, rfl, rfl, epochs_allocated
    (@Machine.Reachable.of_init_run _ _ machine ⟨.empty, [], []⟩ _ overlappingRun
      ⟨CasStore.wellFormed_empty, rfl, rfl⟩ rfl)⟩

end WorkerEpochs

end TegoNext
