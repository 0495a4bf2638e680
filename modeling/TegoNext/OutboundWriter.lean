/-
The outbound writer of a process: a queue of frames, and one loop that writes them.

A send is admitted as long as the frames that are pending, queued or being written, stay within
two limits. The loop takes the first frame, and goes on when its write has ended; a frame that
cannot be encoded is refused at once. All that the callers see hangs on one list, the frame that
is being written and those behind it.
-/
import TegoNext.ProcessChannel

set_option autoImplicit false

namespace TegoNext

open List Option
open ProcessChannel (maxFrameBytes)

inductive OutboundPriority where
  | diagnostic
  | required

/-- `send` says which of the sends it comes from. -/
structure PendingWrite (Value : Type) where
  send : Nat
  value : Value
  retainedBytes : Nat

structure OutboundWriter (Value : Type) where
  queue : List (PendingWrite Value)
  /-- The `pending` of the loop, while it awaits the write. -/
  writing : Option (PendingWrite Value)
  active : Bool
  pendingCount : Int
  pendingBytes : Int
  droppedDiagnostics : Nat
  flushWaiters : List Nat
  sends : Nat
  accepted : List (PendingWrite Value)
  /-- The frames the loop took, and whether they were encoded and handed to `write`. -/
  taken : List (PendingWrite Value × Bool)
  /-- The sends that were settled, and whether they were resolved. -/
  settled : List (Nat × Bool)
  flushes : Nat
  flushed : List Nat

/-- `admitted` is what `snapshot` returns, if it does; `encodes` says which frames `encode` and
`write` do not throw for. -/
inductive OutboundLabel (Value : Type) where
  | send (admitted : Option (Value × Nat)) (priority : OutboundPriority) (encodes : Value → Bool)
  | flush
  | written (success : Bool) (encodes : Value → Bool)

namespace OutboundWriter

variable {Value : Type}

def new : OutboundWriter Value := ⟨[], none, false, 0, 0, 0, [], 0, [], [], [], 0, []⟩

def maxQueuedFrames : Nat := 64

def maxQueuedBytes : Nat := maxFrameBytes * 2

variable (w : OutboundWriter Value) (encodes : Value → Bool) (frame : PendingWrite Value)
  (success : Bool)

/-- `resolve` or `reject`, and the `finally` of a frame. -/
def release : OutboundWriter Value :=
  { w with
    settled := w.settled ++ [(frame.send, success)]
    pendingCount := w.pendingCount - 1
    pendingBytes := w.pendingBytes - frame.retainedBytes }

/-- `#drain` with this queue. When it ends with frames that are pending, it is started again on
an empty queue, and again: `none`. -/
def drain (w : OutboundWriter Value) : List (PendingWrite Value) → Option (OutboundWriter Value)
  | [] =>
    if w.pendingCount = 0 then
      some { w with active := false, flushWaiters := [], flushed := w.flushed ++ w.flushWaiters }
    else none
  | frame :: queue =>
    if encodes frame.value then
      some { w with queue := queue, writing := some frame, taken := w.taken ++ [(frame, true)] }
    else
      drain
        { w.release frame false with queue := queue, taken := w.taken ++ [(frame, false)] }
        queue

def start : Option (OutboundWriter Value) :=
  if w.active then some w else drain encodes { w with active := true } w.queue

def settle : OutboundWriter Value :=
  { w with sends := w.sends + 1, settled := w.settled ++ [(w.sends, success)] }

def accept (value : Value) (bytes : Nat) : OutboundWriter Value :=
  { w with
    sends := w.sends + 1
    pendingCount := w.pendingCount + 1
    pendingBytes := w.pendingBytes + bytes
    queue := w.queue ++ [⟨w.sends, value, bytes⟩]
    accepted := w.accepted ++ [⟨w.sends, value, bytes⟩] }

def step : OutboundLabel Value → Option (OutboundWriter Value)
  | .send none _ _ => some (w.settle false)
  | .send (some (value, bytes)) priority encodes =>
    if w.pendingCount ≥ maxQueuedFrames ∨ bytes > maxQueuedBytes - w.pendingBytes then
      match priority with
      | .diagnostic => some { w.settle true with droppedDiagnostics := w.droppedDiagnostics + 1 }
      | .required => some (w.settle false)
    else (w.accept value bytes).start encodes
  | .flush =>
    if w.pendingCount = 0 then
      some { w with flushes := w.flushes + 1, flushed := w.flushed ++ [w.flushes] }
    else some { w with flushes := w.flushes + 1, flushWaiters := w.flushWaiters ++ [w.flushes] }
  | .written success encodes =>
    match w.writing with
    | none => none
    | some frame => drain encodes ({ w with writing := none }.release frame success) w.queue

def machine : Machine (OutboundWriter Value) (OutboundLabel Value) where
  Init w := w = new
  step := step

/-! ## The pending frames -/

def pending : List (PendingWrite Value) := w.writing.toList ++ w.queue

/-- What holds whenever the loop looks at its queue. -/
structure Ledger : Prop where
  count : w.pendingCount = w.pending.length
  bytes : w.pendingBytes = ((w.pending.map (·.retainedBytes)).sum : Nat)
  countLimit : w.pending.length ≤ maxQueuedFrames
  bytesLimit : (w.pending.map (·.retainedBytes)).sum ≤ maxQueuedBytes
  /-- The frames are taken in the order of the sends, each once. -/
  order : w.taken.map (·.1) ++ w.queue = w.accepted
  ascending : (w.accepted.map (·.send)).Pairwise (· < ·)
  known : ∀ frame ∈ w.accepted, frame.send < w.sends
  /-- A send is settled once, or pending. -/
  once : (w.settled.map (·.1) ++ w.pending.map (·.send)).Perm (range w.sends)
  refused : ∀ frame, (frame, false) ∈ w.taken → (frame.send, false) ∈ w.settled

/-- What holds between the steps. -/
structure Inv : Prop extends Ledger w where
  active : w.active = w.writing.isSome
  idle : w.writing = none → w.queue = []

variable {w encodes frame success}

theorem Ledger.release {w' : OutboundWriter Value} (h : w.Ledger)
    (hpending : w.pending = frame :: w'.pending) (hcount : w'.pendingCount = w.pendingCount - 1)
    (hbytes : w'.pendingBytes = w.pendingBytes - frame.retainedBytes)
    (hsettled : w'.settled = w.settled ++ [(frame.send, success)]) (hsends : w'.sends = w.sends)
    (haccepted : w'.accepted = w.accepted) (horder : w'.taken.map (·.1) ++ w'.queue = w.accepted)
    (hrefused : ∀ other, (other, false) ∈ w'.taken →
      (other, false) ∈ w.taken ∨ other = frame ∧ success = false) : w'.Ledger := by
  obtain ⟨hcount', hbytes', hcountLimit, hbytesLimit, -, hascending, hknown, honce, hold⟩ := h
  rw [hpending, length_cons] at hcount' hcountLimit
  rw [hpending, map_cons, sum_cons] at hbytes' hbytesLimit
  refine ⟨by omega, by omega, by omega, by omega, by rw [horder, haccepted], by rwa [haccepted],
    by rwa [haccepted, hsends], ?_, fun other hother => ?_⟩
  · rw [hpending, map_cons, append_cons] at honce
    rw [hsettled, hsends, map_append]
    exact honce
  · rw [hsettled]
    rcases hrefused other hother with hin | ⟨rfl, rfl⟩
    · exact mem_append_left _ (hold other hin)
    · exact mem_append_right _ mem_cons_self

/-- **The loop** ends, or awaits a write; it answers the flushes only when nothing is pending. -/
theorem drain_spec {queue : List (PendingWrite Value)} (h : w.Ledger) (hactive : w.active = true)
    (hwriting : w.writing = none) (hqueue : w.queue = queue) :
    ∃ w', drain encodes w queue = some w' ∧ w'.Inv ∧
      (w'.flushed ≠ w.flushed → w'.pending = []) := by
  induction queue generalizing w with
  | nil =>
    have hpending : w.pending = [] := by rw [pending, hwriting, hqueue]; rfl
    have hcount := h.count
    rw [hpending] at hcount
    rw [drain, if_pos (show w.pendingCount = 0 from hcount)]
    refine ⟨_, rfl, { h with active := ?_, idle := fun _ => hqueue }, fun _ => hpending⟩
    rw [hwriting]
    rfl
  | cons frame queue ih =>
    have hpending : w.pending = frame :: queue := by rw [pending, hwriting, hqueue]; rfl
    have horder := h.order
    rw [hqueue, append_cons] at horder
    rw [drain]
    by_cases hencodes : encodes frame.value = true
    · rw [if_pos hencodes]
      have hsame : pending { w with
          queue := queue
          writing := some frame
          taken := w.taken ++ [(frame, true)] } = w.pending := hpending.symm
      refine ⟨_, rfl, ⟨⟨?_, ?_, ?_, ?_, ?_, h.ascending, h.known, ?_, fun other hother => ?_⟩,
        hactive, nofun⟩, fun hne => absurd rfl hne⟩
      · rw [hsame]
        exact h.count
      · rw [hsame]
        exact h.bytes
      · rw [hsame]
        exact h.countLimit
      · rw [hsame]
        exact h.bytesLimit
      · rw [map_append]
        exact horder
      · rw [hsame]
        exact h.once
      · rcases mem_append.mp hother with hin | hin
        · exact h.refused other hin
        · cases mem_singleton.mp hin
    · rw [if_neg hencodes]
      refine ih (h.release (hpending.trans ?_) rfl rfl rfl rfl rfl ?_ fun other hother => ?_)
        hactive hwriting rfl
      · rw [pending, OutboundWriter.release, hwriting]
        rfl
      · rw [map_append]
        exact horder
      · rcases mem_append.mp hother with hin | hin
        · exact .inl hin
        · cases mem_singleton.mp hin
          exact .inr ⟨rfl, rfl⟩

/-! ## A step -/

theorem Inv.settle (h : w.Inv) : (w.settle success).Inv := by
  refine ⟨⟨h.count, h.bytes, h.countLimit, h.bytesLimit, h.order, h.ascending,
    fun frame hframe => Nat.lt_succ_of_lt (h.known frame hframe), ?_,
    fun frame hframe => mem_append_left _ (h.refused frame hframe)⟩, h.active, h.idle⟩
  show ((w.settled ++ [(w.sends, success)]).map (·.1) ++ w.pending.map (·.send)).Perm
    (range (w.sends + 1))
  rw [map_append, append_assoc, range_succ]
  refine (perm_append_comm.append_left _).trans ?_
  rw [← append_assoc]
  exact h.once.append_right _

theorem Ledger.accept {value : Value} {bytes : Nat} (h : w.Ledger)
    (hcount : w.pendingCount < maxQueuedFrames)
    (hbytes : (bytes : Int) ≤ maxQueuedBytes - w.pendingBytes) : (w.accept value bytes).Ledger := by
  have hpending : (w.accept value bytes).pending = w.pending ++ [⟨w.sends, value, bytes⟩] := by
    rw [pending, pending, append_assoc]
    rfl
  have hlength := h.count
  have hsum := h.bytes
  refine ⟨?_, ?_, ?_, ?_, ?_, ?_, fun frame hframe => ?_, ?_, h.refused⟩
  · show w.pendingCount + 1 = _
    rw [hpending, length_append, length_singleton]
    omega
  · show w.pendingBytes + bytes = _
    rw [hpending, map_append, sum_append, map_singleton, sum_singleton]
    dsimp only
    omega
  · rw [hpending, length_append, length_singleton]
    omega
  · rw [hpending, map_append, sum_append, map_singleton, sum_singleton]
    dsimp only
    omega
  · rw [OutboundWriter.accept, ← append_assoc, h.order]
  · rw [OutboundWriter.accept, map_append, pairwise_append]
    refine ⟨h.ascending, pairwise_singleton _ _, fun a ha b hb => ?_⟩
    obtain ⟨frame, hframe, rfl⟩ := mem_map.mp ha
    rw [mem_singleton.mp hb]
    exact h.known frame hframe
  · rcases mem_append.mp hframe with hframe | hframe
    · exact Nat.lt_succ_of_lt (h.known frame hframe)
    · rw [mem_singleton.mp hframe]
      exact Nat.lt_succ_self _
  · rw [hpending, map_append, ← append_assoc]
    show _ ~ range (w.sends + 1)
    rw [range_succ]
    exact h.once.append_right _

/-- **A step** keeps the invariant, and answers a flush only when nothing is pending. -/
theorem step_spec (h : w.Inv) (l : OutboundLabel Value) :
    (∃ w', w.step l = some w' ∧ w'.Inv ∧ (w'.flushed ≠ w.flushed → w'.pending = [])) ∨
      ∃ success encodes, l = .written success encodes ∧ w.writing = none := by
  cases l with
  | send admitted priority encodes =>
    refine .inl ?_
    cases admitted with
    | none => exact ⟨_, rfl, h.settle, fun hne => absurd rfl hne⟩
    | some admitted =>
      obtain ⟨value, bytes⟩ := admitted
      unfold step
      dsimp only
      split
      · cases priority with
        | diagnostic =>
          have hsettled := @Inv.settle _ _ true h
          exact ⟨_, rfl, { hsettled with }, fun hne => absurd rfl hne⟩
        | required => exact ⟨_, rfl, h.settle, fun hne => absurd rfl hne⟩
      · next hroom =>
        rw [not_or] at hroom
        have haccept := @Ledger.accept _ _ value bytes h.toLedger (by omega) (by omega)
        unfold start
        split
        · next hactive =>
          refine ⟨_, rfl, ⟨haccept, h.active, fun hnone => ?_⟩, fun hne => absurd rfl hne⟩
          have hwriting := h.active.symm.trans hactive
          rw [show w.writing = none from hnone] at hwriting
          cases hwriting
        · next hactive =>
          refine drain_spec { haccept with } rfl ?_ rfl
          have hwriting := h.active.symm.trans (Bool.eq_false_iff.mpr hactive)
          rwa [isSome_eq_false_iff, isNone_iff_eq_none] at hwriting
  | flush =>
    refine .inl ?_
    rw [step]
    split
    · next hzero =>
      refine ⟨_, rfl, { h with }, fun _ => ?_⟩
      have hcount := h.count
      rw [hzero] at hcount
      show w.pending = []
      exact eq_nil_of_length_eq_zero (by omega)
    · exact ⟨_, rfl, { h with }, fun hne => absurd rfl hne⟩
  | written success encodes =>
    cases hwriting : w.writing with
    | none => exact .inr ⟨success, encodes, rfl, rfl⟩
    | some frame =>
      refine .inl ?_
      rw [step, hwriting]
      refine drain_spec (h.release ?_ rfl rfl rfl rfl rfl h.order fun _ hin => .inl hin) ?_ rfl rfl
      · rw [pending, hwriting]
        rfl
      · exact h.active.trans (by rw [hwriting]; rfl)

/-- **The writer.** The counters are those of the pending frames and within the limits, the frames
are taken in the order they were accepted in, every send is settled once or pending, and a flush
is answered only when nothing is pending. -/
theorem outboundWriter_inv (h : (@machine Value).Reachable w) :
    w.Inv ∧ ∀ l, (∃ w', w.step l = some w' ∧ (w'.flushed ≠ w.flushed → w'.pending = [])) ∨
      ∃ success encodes, l = .written success encodes ∧ w.writing = none := by
  have hinv : w.Inv := by
    refine h.invariant (fun w hinit => ?_) fun w l w' _ hw hstep _ => ?_
    · rw [show w = new from hinit]
      refine ⟨⟨rfl, rfl, ?_, ?_, rfl, List.Pairwise.nil, nofun, .refl _, nofun⟩, rfl, fun _ => rfl⟩
      · exact Nat.zero_le _
      · exact Nat.zero_le _
    · rcases step_spec hw l with ⟨next, hnext, hinv, _⟩ | ⟨success, encodes, rfl, hnone⟩
      · rw [some.inj (hstep.symm.trans hnext)]
        exact hinv
      · replace hstep : w.step (.written success encodes) = some w' := hstep
        unfold step at hstep
        rw [hnone] at hstep
        cases hstep
  refine ⟨hinv, fun l => (step_spec hinv l).imp_left ?_⟩
  rintro ⟨w', hstep, -, hflushed⟩
  exact ⟨w', hstep, hflushed⟩

/-- A frame is written while another waits, which is not encoded, and a flush. -/
def flushedRun : List (OutboundLabel Nat) :=
  [.send (some (0, 5)) .required fun _ => true, .send (some (1, 5)) .required fun _ => true,
    .flush, .written true (· = 0)]

theorem outboundWriter_inv_flushed :
    ∃ w, machine.run new flushedRun = some w ∧ w.flushed = [0] ∧
      w.settled = [(0, true), (1, false)] ∧ w.Inv := by
  have hreached := @Machine.Reachable.of_init_run _ _ machine new _ flushedRun rfl rfl
  exact ⟨_, rfl, rfl, rfl, (outboundWriter_inv hreached).1⟩

end OutboundWriter

end TegoNext
