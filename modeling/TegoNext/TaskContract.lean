/-
What the activities of task services agree on.

`TaskInv` is the invariant of the shared memory, `Grows` what a suspended activity may rely on, and
`TaskLaw` what every turn does to the stored records and the dispatches.

`Seen` is what is known of a record that was read some time ago: the task is still stored, with the
same identity, and the authority in the copy is one the store has been fenced with.
-/
import TegoNext.TaskService

set_option autoImplicit false

namespace TegoNext

/-! ## Tasks and their changes -/

/-- What stays the same about a task whatever happens to its record. -/
structure SameTask (r r' : TaskRecord) : Prop where
  taskId : r'.taskId = r.taskId
  attemptId : r'.attemptId = r.attemptId
  request : r'.request = r.request
  target : r'.target = r.target
  binding : r'.binding = r.binding
  createdAt : r'.createdAt = r.createdAt

namespace SameTask

theorem refl (r : TaskRecord) : SameTask r r := ⟨rfl, rfl, rfl, rfl, rfl, rfl⟩

theorem symm {r r' : TaskRecord} (h : SameTask r r') : SameTask r' r :=
  ⟨h.taskId.symm, h.attemptId.symm, h.request.symm, h.target.symm, h.binding.symm, h.createdAt.symm⟩

theorem trans {r r' r'' : TaskRecord} (h : SameTask r r') (h' : SameTask r' r'') : SameTask r r'' :=
  ⟨h'.taskId.trans h.taskId, h'.attemptId.trans h.attemptId, h'.request.trans h.request,
    h'.target.trans h.target, h'.binding.trans h.binding, h'.createdAt.trans h.createdAt⟩

end SameTask

def TaskRecordState.rank : TaskRecordState → Nat
  | .accepted => 0
  | .running => 1
  | .terminal => 2

theorem TaskRecordState.rank_le_terminal (state : TaskRecordState) :
    state.rank ≤ TaskRecordState.terminal.rank := by
  cases state <;> decide

def KeepsCancellation (r r' : TaskRecord) : Prop :=
  r.cancellation.isSome = true → r'.cancellation.isSome = true

/-- The authority of a record has not gone back. -/
def KeepsEpoch (r r' : TaskRecord) : Prop :=
  ∀ a, r.authority = some a → ∃ a', r'.authority = some a' ∧ a.epoch ≤ a'.epoch

/-- How a transaction rewrites a record. An update is computed from the record it
replaces; a settlement writes a copy made before, and says so in its note. -/
inductive Rewrites (note : List TaskEvent) (r r' : TaskRecord) : Prop
  | updated (hnote : note = []) (cancellation : KeepsCancellation r r') (epoch : KeepsEpoch r r')
  | settled (copy : TaskRecord) (hnote : note = [.settled copy]) (same : copy.taskId = r.taskId)
      (cancellation : r'.cancellation = copy.cancellation)
      (authority : r'.authority = copy.authority)

inductive RecordStep (s t : TaskWorld) (r r' : TaskRecord) : Prop
  | kept (h : r' = r)
  | rewritten (open_ : r.state ≠ .terminal) (same : SameTask r r')
      (rank : r.state.rank ≤ r'.state.rank) (note : List TaskEvent)
      (events : t.events = note ++ s.events) (how : Rewrites note r r')

def TaskEvent.isDispatch : TaskEvent → Bool
  | dispatchStarted .. => true
  | submitted .. => true
  | dispatchEnded .. => true
  | _ => false

inductive DispatchStep (s t : TaskWorld) : Prop
  | idle (dispatches : ∀ me, (t.services me).dispatches = (s.services me).dispatches)
      (events : t.events.filter TaskEvent.isDispatch = s.events.filter TaskEvent.isDispatch)
  | started (me : Nat) (id : PortableId) (free : (s.services me).dispatches id = none)
      (dispatches : ∀ me' id', (t.services me').dispatches id' =
        if me' = me ∧ id' = id then some s.promises.length else (s.services me').dispatches id')
      (events : t.events = .dispatchStarted me id s.promises.length :: s.events)
  | submitted (me : Nat) (request : ExecutionRequest) (p : Nat)
      (mine : (s.services me).dispatches request.taskId = some p)
      (first : ∀ me' request', .submitted me' request' p ∉ s.events)
      (dispatches : ∀ me, (t.services me).dispatches = (s.services me).dispatches)
      (events : t.events = .submitted me request p :: s.events)
  | ended (me : Nat) (id : PortableId) (p : Nat)
      (dispatches : ∀ me' id', (t.services me').dispatches id' =
        if me' = me ∧ id' = id ∧ (s.services me).dispatches id = some p then none
        else (s.services me').dispatches id')
      (events : t.events = .dispatchEnded me id p :: s.events)

/-! ## What others may have done -/

/-- What a suspended activity may rely on. -/
structure Grows (s t : TaskWorld) : Prop where
  store : s.store.Evolves t.store
  task : ∀ id r, s.taskRecord id = some r → ∃ r', t.taskRecord id = some r' ∧ SameTask r r'
  operation : ∀ o i, s.operationIdentity o = some i → t.operationIdentity o = some i
  promise : ∀ (p : Nat) (pr : TaskPromise), s.promises[p]? = some pr →
    ∃ pr' : TaskPromise, t.promises[p]? = some pr' ∧ pr'.taskId = pr.taskId

namespace Grows

theorem refl (s : TaskWorld) : Grows s s :=
  ⟨.refl _, fun _ r h => ⟨r, h, .refl r⟩, fun _ _ h => h, fun _ pr h => ⟨pr, h, rfl⟩⟩

theorem trans {s t u : TaskWorld} (hst : Grows s t) (htu : Grows t u) : Grows s u where
  store := hst.store.trans htu.store
  task id r h := by
    obtain ⟨r₁, h₁, hsame₁⟩ := hst.task id r h
    obtain ⟨r₂, h₂, hsame₂⟩ := htu.task id r₁ h₁
    exact ⟨r₂, h₂, hsame₁.trans hsame₂⟩
  operation o i h := htu.operation o i (hst.operation o i h)
  promise p pr h := by
    obtain ⟨pr₁, h₁, htag₁⟩ := hst.promise p pr h
    obtain ⟨pr₂, h₂, htag₂⟩ := htu.promise p pr₁ h₁
    exact ⟨pr₂, h₂, htag₂.trans htag₁⟩

theorem promises_length {s t : TaskWorld} (h : Grows s t) :
    s.promises.length ≤ t.promises.length := by
  by_contra hlt
  rw [Nat.not_le] at hlt
  obtain ⟨_, h', -⟩ := h.promise t.promises.length _ (List.getElem?_eq_getElem hlt)
  rw [List.getElem?_eq_none (Nat.le_refl _)] at h'
  cases h'

end Grows

/-! ## Knowledge -/

section Knowledge

variable (leadership : JsString)

def Fenced (s : TaskWorld) (r : TaskRecord) : Prop :=
  ∀ a, r.authority = some a → a.resource = leadership ∧
    ∃ epoch, s.store.fence leadership = some epoch ∧ a.epoch ≤ epoch

/-- `r` is a copy of a stored task, of whatever age. -/
def Seen (s : TaskWorld) (r : TaskRecord) : Prop :=
  (∃ r', s.taskRecord r.taskId = some r' ∧ SameTask r' r) ∧ Fenced leadership s r

end Knowledge

def Bound (s : TaskWorld) (o : PortableId) (fingerprint : JsString) (id : PortableId) : Prop :=
  ∃ i, s.operationIdentity o = some i ∧ i.fingerprint = fingerprint ∧ i.taskId = id

def PromiseFor (s : TaskWorld) (p : Nat) (id : PortableId) : Prop :=
  ∃ pr : TaskPromise, s.promises[p]? = some pr ∧ pr.taskId = id

variable {s t : TaskWorld} {r : TaskRecord}

theorem Fenced.mono {leadership : JsString}
    (h : Fenced leadership s r) (hst : Grows s t) : Fenced leadership t r := by
  intro a ha
  obtain ⟨hres, epoch, hfence, hle⟩ := h a ha
  obtain ⟨epoch', hfence', hle'⟩ := hst.store.fence leadership epoch hfence
  exact ⟨hres, epoch', hfence', Nat.le_trans hle hle'⟩

theorem Seen.mono {leadership : JsString}
    (h : Seen leadership s r) (hst : Grows s t) : Seen leadership t r := by
  obtain ⟨⟨r₁, h₁, hsame₁⟩, hfenced⟩ := h
  obtain ⟨r₂, h₂, hsame₂⟩ := hst.task _ r₁ h₁
  exact ⟨⟨r₂, h₂, hsame₂.symm.trans hsame₁⟩, hfenced.mono hst⟩

/-- A record with the identity of one that was seen was seen too, if its authority
is in order. -/
theorem Seen.congr {leadership : JsString} {r' : TaskRecord}
    (h : Seen leadership s r) (hsame : SameTask r r') (hfenced : Fenced leadership s r') :
    Seen leadership s r' := by
  obtain ⟨⟨r₁, h₁, hsame₁⟩, -⟩ := h
  exact ⟨⟨r₁, by rw [hsame.taskId, h₁], hsame₁.trans hsame⟩, hfenced⟩

variable {id : PortableId}

theorem Bound.mono {o : PortableId} {fingerprint : JsString}
    (h : Bound s o fingerprint id) (hst : Grows s t) : Bound t o fingerprint id := by
  obtain ⟨i, hi, hf, hid⟩ := h
  exact ⟨i, hst.operation o i hi, hf, hid⟩

theorem Bound.unique {o id' : PortableId} {f f' : JsString}
    (h : Bound s o f id) (h' : Bound s o f' id') : f = f' ∧ id = id' := by
  obtain ⟨i, hi, rfl, rfl⟩ := h
  obtain ⟨i', hi', rfl, rfl⟩ := h'
  obtain rfl := Option.some.inj (hi.symm.trans hi')
  exact ⟨rfl, rfl⟩

theorem PromiseFor.mono {p : Nat} (h : PromiseFor s p id)
    (hst : Grows s t) : PromiseFor t p id := by
  obtain ⟨pr, hpr, rfl⟩ := h
  exact hst.promise p pr hpr

/-! ## The invariant -/

/-- The refusals of a call of `run` that names an operation bound to another
fingerprint: the conflict, or what stopped the call before it could look. -/
inductive Refused (o : PortableId) : TaskFailure → Prop
  | conflict (now : JsDate.Instant) : Refused o (idempotencyConflict o now)
  | stopped (now : JsDate.Instant) : Refused o (stoppedError now)
  | notLeader (now : JsDate.Instant) : Refused o (notLeaderError now)
  | storeFailed (d : Option RuntimeDiagnostic) : Refused o (.outside .store d)

section Invariant

variable (platform : TaskPlatform) (leadership : JsString)

structure ServiceInv (s : TaskWorld) (service : TaskServiceState) : Prop where
  authority : ∀ a, service.authority = some a → a.resource = leadership
  records : ∀ entry ∈ service.records.entries, Seen leadership s entry.2.record
  ephemeral : ∀ id r, service.ephemeralTerminal id = some r → r.taskId = id ∧ Seen leadership s r
  dispatches : ∀ id p, service.dispatches id = some p → PromiseFor s p id
  cancellations : ∀ id p, service.cancellations id = some p → PromiseFor s p id
  waiters : ∀ id, ∀ p ∈ service.waiters id, PromiseFor s p id

/-- What an event says about the memory. -/
def EventInv (s : TaskWorld) : TaskEvent → Prop
  | .admitted r => ∀ o, r.request.operationId = some o →
      Bound s o (fingerprintOf platform.numberText r.request) r.taskId
  | .joined r => ∀ o, r.request.operationId = some o →
      ∃ id, Bound s o (fingerprintOf platform.numberText r.request) id
  | .continued o fingerprint id => Bound s o fingerprint id
  | .returned o fingerprint bound outcome =>
    (∀ r, outcome = .ok r → Bound s o fingerprint r.taskId) ∧
    ∀ f, bound = some f → f ≠ fingerprint → ∃ e, outcome = .error e ∧ Refused o e
  | .submitted _ request p => PromiseFor s p request.taskId
  | _ => True

def Creates (o : PortableId) (e : TaskEvent) : Prop :=
  ∃ r, e = .admitted r ∧ r.request.operationId = some o

structure TaskInv (s : TaskWorld) : Prop where
  wellFormed : s.store.WellFormed
  task : ∀ id c, s.store.record (.task id) = some c →
    ∃ r, c.value = .task r ∧ r.taskId = id ∧ Fenced leadership s r
  operation : ∀ o c, s.store.record (.operation o) = some c →
    ∃ i, c.value = .operation i ∧ ∃ r, s.taskRecord i.taskId = some r ∧
      r.request.operationId = some o ∧
      fingerprintOf platform.numberText r.request = i.fingerprint
  bound : ∀ id r o, s.taskRecord id = some r → r.request.operationId = some o →
    ∃ i, s.operationIdentity o = some i ∧ i.taskId = id
  receipt : ∀ o receipt, s.receipts o = some receipt →
    Bound s o receipt.fingerprint receipt.result.taskId ∧ Seen leadership s receipt.result
  service : ∀ me, ServiceInv leadership s (s.services me)
  outcome : ∀ (p : Nat) (pr : TaskPromise) r, s.promises[p]? = some pr → pr.outcome = some (.ok r) →
    r.taskId = pr.taskId
  event : ∀ e ∈ s.events, EventInv platform s e
  createdOnce : s.events.Pairwise fun e e' => ∀ o, Creates o e → ¬ Creates o e'

end Invariant

theorem ServiceInv.mono {leadership : JsString} {service : TaskServiceState}
    (h : ServiceInv leadership s service) (hst : Grows s t) : ServiceInv leadership t service where
  authority := h.authority
  records entry hentry := (h.records entry hentry).mono hst
  ephemeral id r hr := ⟨(h.ephemeral id r hr).1, (h.ephemeral id r hr).2.mono hst⟩
  dispatches id p hp := (h.dispatches id p hp).mono hst
  cancellations id p hp := (h.cancellations id p hp).mono hst
  waiters id p hp := (h.waiters id p hp).mono hst

theorem EventInv.mono {platform : TaskPlatform} {e : TaskEvent}
    (h : EventInv platform s e) (hst : Grows s t) : EventInv platform t e := by
  cases e with
  | admitted r => exact fun o ho => (h o ho).mono hst
  | joined r =>
    intro o ho
    obtain ⟨id, hid⟩ := h o ho
    exact ⟨id, hid.mono hst⟩
  | continued o fingerprint id => exact Bound.mono h hst
  | returned o fingerprint bound outcome => exact ⟨fun r hr => (h.1 r hr).mono hst, h.2⟩
  | settled _ => trivial
  | dispatchStarted _ _ _ => trivial
  | submitted _ _ _ => exact PromiseFor.mono h hst
  | dispatchEnded _ _ _ => trivial

/-! ## The contract -/

structure TaskLaw (s t : TaskWorld) : Prop where
  grows : Grows s t
  task : ∀ id r, s.taskRecord id = some r → ∃ r', t.taskRecord id = some r' ∧ RecordStep s t r r'
  dispatch : DispatchStep s t

/-- What only the activity of the dispatch `p` changes. -/
structure SameDispatch (p : Nat) (s t : TaskWorld) : Prop where
  entry : ∀ me id, (s.services me).dispatches id = some p ↔ (t.services me).dispatches id = some p
  submitted : ∀ me request, .submitted me request p ∈ s.events ↔ .submitted me request p ∈ t.events

theorem SameDispatch.refl (p : Nat) (s : TaskWorld) : SameDispatch p s s :=
  ⟨fun _ _ => Iff.rfl, fun _ _ => Iff.rfl⟩

theorem SameDispatch.trans {p : Nat} {u : TaskWorld} (hst : SameDispatch p s t)
    (htu : SameDispatch p t u) : SameDispatch p s u :=
  ⟨fun me id => (hst.entry me id).trans (htu.entry me id),
    fun me request => (hst.submitted me request).trans (htu.submitted me request)⟩

def taskContract (platform : TaskPlatform) (leadership : JsString) : Contract TaskWorld Nat where
  inv := TaskInv platform leadership
  cond _ _ := True
  law := TaskLaw
  rely := Grows
  rely_refl := Grows.refl
  rely_trans := Grows.trans
  rely_of_law _ h := h.grows
  allocated s p := p < s.promises.length
  allocated_of_law h hp := Nat.lt_of_lt_of_le hp h.grows.promises_length
  frame := SameDispatch
  frame_refl := SameDispatch.refl
  frame_trans := SameDispatch.trans

end TegoNext
