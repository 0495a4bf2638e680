/-
What a session passes on to the application.

Control frames are taken under the numbers `0`, `1`, `2`, … and a message without a binary part
is passed on at once. A message with a binary part is passed on with its last chunk, and any
number of messages may come before that: binary parts are matched by the id of their message.
-/
import TegoNext.SessionAuthentication

set_option autoImplicit false

namespace TegoNext

open Text CanonicalJson List Option AList

namespace WorkerSession

variable {platform : SessionPlatform} {options : WorkerSessionOptions} {s s' : WorkerSession}
  {i i' : SessionInbound}

/-! ## The property -/

def retained (options : WorkerSessionOptions) (s : WorkerSession) : List WorkerControlEnvelope :=
  s.inbound.accepted.drop (s.inbound.accepted.length - options.limits.replayRetention)

/-- Only answers to requests are dropped. -/
def LateAnswers (i : SessionInbound) : Prop :=
  ∀ e ∈ i.late, e.correlationId ≠ e.messageId ∧ e.correlationId ∈ i.requested

/-- What is passed on: every message once, and those without a binary part in order. An answer
to a request that no longer waits is dropped. -/
structure DeliveryLaw (s : WorkerSession) : Prop where
  contiguous : s.inbound.accepted.map (·.sequence) = List.range s.inbound.received.expectedSequence
  passed : ∀ m ∈ s.inbound.messages, m.envelope ∈ s.inbound.accepted ∧
    m.envelope.type.reserved = false ∧ m.binary.map List.length = m.envelope.binaryBytes
  once : (s.inbound.messages.map (·.envelope.sequence)).Nodup
  increasing : ((s.inbound.messages.filter (·.binary.isNone)).map
    (·.envelope.sequence)).Pairwise (· < ·)
  complete : s.live = true → ∀ e ∈ s.inbound.accepted, e.type.reserved = false →
    e.binaryBytes = none → ⟨e, none⟩ ∈ s.inbound.messages ∨ e ∈ s.inbound.late
  late : LateAnswers s.inbound

/-- A frame that is neither the next one nor one that is remembered. -/
inductive Foreign (platform : SessionPlatform) (options : WorkerSessionOptions) (s : WorkerSession)
    (e : WorkerControlEnvelope) : Prop
  | past (hpast : e.sequence < s.inbound.received.expectedSequence)
      (hother : ∀ r ∈ retained options s, replayOf platform r ≠ replayOf platform e)
  | gap (hgap : s.inbound.received.expectedSequence < e.sequence)
  | identity (hnext : e.sequence = s.inbound.received.expectedSequence)
      (hid : ∃ r ∈ retained options s, r.messageId = e.messageId)

/-! ## Numbers -/

/-- What is accepted is numbered from zero on, and the last frames are remembered. -/
structure Numbering (platform : SessionPlatform) (options : WorkerSessionOptions)
    (i : SessionInbound) : Prop where
  contiguous : i.accepted.map (·.sequence) = List.range i.received.expectedSequence
  remembers : ReplayWindow.Remembers options.limits.replayRetention i.received
    (i.accepted.map (replayOf platform))

theorem Numbering.congr (h : Numbering platform options i) (hreceived : i'.received = i.received)
    (haccepted : i'.accepted = i.accepted) : Numbering platform options i' := by
  obtain ⟨hcontiguous, hremembers⟩ := h
  rw [← hreceived, ← haccepted] at hcontiguous hremembers
  exact ⟨hcontiguous, hremembers⟩

variable {e : WorkerControlEnvelope}

theorem Numbering.numbered (h : Numbering platform options i)
    (hnext : IsNext platform i e) : Numbering platform options (numbered platform options i e) := by
  obtain ⟨hsequence, hnew⟩ := ReplayWindow.judge_next.mp hnext
  refine ⟨?_, ?_⟩
  · change (i.accepted ++ [e]).map _ = List.range (i.received.expectedSequence + 1)
    rw [map_append, map_singleton, h.contiguous, hsequence, range_succ]
  · change ReplayWindow.Remembers _ _ ((i.accepted ++ [e]).map _)
    rw [map_append, map_singleton]
    exact h.remembers.retain hnew

theorem Numbering.lt (h : Numbering platform options i)
    (he : e ∈ i.accepted) : e.sequence < i.received.expectedSequence := by
  rw [← mem_range, ← h.contiguous]
  exact List.mem_map_of_mem he

/-! ## What is passed on -/

/-- Messages that are passed on, and those that wait for a binary part. -/
structure Passing (i : SessionInbound) : Prop where
  passed : ∀ m ∈ i.messages, m.envelope ∈ i.accepted ∧ m.envelope.type.reserved = false ∧
    m.binary.map List.length = m.envelope.binaryBytes
  once : (i.messages.map (·.envelope.sequence)).Nodup
  increasing : ((i.messages.filter (·.binary.isNone)).map (·.envelope.sequence)).Pairwise (· < ·)
  waiting : ∀ id pending, i.pendingBinary.lookup id = some pending →
    pending.envelope ∈ i.accepted ∧ pending.envelope.sequence ∉ i.messages.map (·.envelope.sequence)
  apart : ∀ id id' pending pending', i.pendingBinary.lookup id = some pending →
    i.pendingBinary.lookup id' = some pending' →
    pending.envelope.sequence = pending'.envelope.sequence → id = id'

theorem Passing.mono (h : Passing i) (haccepted : i.accepted ⊆ i'.accepted)
    (hpending : ∀ id pending, i'.pendingBinary.lookup id = some pending →
      ∃ pending', i.pendingBinary.lookup id = some pending' ∧ pending'.envelope = pending.envelope)
    (hmessages : i'.messages = i.messages) : Passing i' where
  passed m hm := by
    rw [hmessages] at hm
    obtain ⟨hmem, hrest⟩ := h.passed m hm
    exact ⟨haccepted hmem, hrest⟩
  once := hmessages ▸ h.once
  increasing := hmessages ▸ h.increasing
  waiting id pending hlookup := by
    obtain ⟨pending', hlookup', henvelope⟩ := hpending id pending hlookup
    obtain ⟨hmem, hnew⟩ := h.waiting id pending' hlookup'
    rw [hmessages, ← henvelope]
    exact ⟨haccepted hmem, hnew⟩
  apart id id' pending pending' hlookup hlookup' heq := by
    obtain ⟨before, hbefore, henvelope⟩ := hpending id pending hlookup
    obtain ⟨before', hbefore', henvelope'⟩ := hpending id' pending' hlookup'
    exact h.apart id id' before before' hbefore hbefore' (by rw [henvelope, henvelope', heq])

variable {m : WorkerSessionMessage}

theorem Passing.append (h : Passing i)
    (hmem : m.envelope ∈ i.accepted) (happlication : m.envelope.type.reserved = false)
    (hbinary : m.binary.map List.length = m.envelope.binaryBytes)
    (hnew : m.envelope.sequence ∉ i.messages.map (·.envelope.sequence))
    (hlast : m.binary = none → ∀ m' ∈ i.messages, m'.envelope.sequence < m.envelope.sequence)
    (hwaiting : ∀ id pending, i.pendingBinary.lookup id = some pending →
      pending.envelope.sequence ≠ m.envelope.sequence)
    (haccepted : i'.accepted = i.accepted) (hpending : i'.pendingBinary = i.pendingBinary)
    (hmessages : i'.messages = i.messages ++ [m]) : Passing i' where
  passed m' hm' := by
    rw [haccepted]
    rw [hmessages] at hm'
    rcases mem_append.mp hm' with hold | hlast
    · exact h.passed m' hold
    · obtain rfl := mem_singleton.mp hlast
      exact ⟨hmem, happlication, hbinary⟩
  once := by
    rw [hmessages, map_append, map_singleton]
    exact h.once.append (nodup_singleton _) (disjoint_singleton.mpr hnew)
  increasing := by
    rw [hmessages, filter_append, map_append, pairwise_append]
    refine ⟨h.increasing, ?_, fun a ha b hb => ?_⟩
    · exact (pairwise_singleton _ _).sublist (filter_sublist.map _)
    · obtain ⟨m₁, hm₁, rfl⟩ := List.mem_map.mp ha
      obtain ⟨m₂, hm₂, rfl⟩ := List.mem_map.mp hb
      obtain ⟨hsingle, hnone⟩ := mem_filter.mp hm₂
      obtain rfl := mem_singleton.mp hsingle
      exact hlast (isNone_iff_eq_none.mp hnone) m₁ (mem_filter.mp hm₁).1
  waiting id pending hlookup := by
    rw [hpending] at hlookup
    obtain ⟨hin, hnot⟩ := h.waiting id pending hlookup
    rw [haccepted, hmessages, map_append, map_singleton, mem_append, mem_singleton]
    exact ⟨hin, fun hor => hor.elim hnot (hwaiting id pending hlookup)⟩
  apart id id' pending pending' hlookup hlookup' := by
    rw [hpending] at hlookup hlookup'
    exact h.apart id id' pending pending' hlookup hlookup'

theorem Passing.announced (h : Passing i) (hnew : ∀ e' ∈ i.accepted, e'.sequence < e.sequence)
    (haccepted : i'.accepted = i.accepted ++ [e])
    (hpending : i'.pendingBinary = i.pendingBinary.insert e.messageId (announcement e))
    (hmessages : i'.messages = i.messages) : Passing i' := by
  have hcases : ∀ id pending, i'.pendingBinary.lookup id = some pending →
      (id = e.messageId ∧ pending.envelope = e) ∨
        i.pendingBinary.lookup id = some pending := fun id pending hlookup => by
    rw [hpending] at hlookup
    rcases lookup_insert_cases hlookup with ⟨rfl, rfl⟩ | ⟨-, hlookup⟩
    · exact .inl ⟨rfl, rfl⟩
    · exact .inr hlookup
  refine ⟨fun m hm => ?_, hmessages ▸ h.once, hmessages ▸ h.increasing, fun id pending hlookup => ?_,
    fun id id' pending pending' hlookup hlookup' heq => ?_⟩
  · rw [hmessages] at hm
    obtain ⟨hmem, hrest⟩ := h.passed m hm
    exact ⟨haccepted ▸ mem_append_left _ hmem, hrest⟩
  · rw [haccepted, hmessages]
    rcases hcases id pending hlookup with ⟨-, rfl⟩ | hbefore
    · refine ⟨mem_append_right _ (mem_singleton_self _), fun hmem => ?_⟩
      obtain ⟨m, hm, heq⟩ := List.mem_map.mp hmem
      exact absurd heq (Nat.ne_of_lt (hnew _ (h.passed m hm).1))
    · obtain ⟨hmem, hnot⟩ := h.waiting id pending hbefore
      exact ⟨mem_append_left _ hmem, hnot⟩
  · rcases hcases id pending hlookup with ⟨hid, rfl⟩ | hbefore
    · rcases hcases id' pending' hlookup' with ⟨hid', -⟩ | hbefore'
      · exact hid.trans hid'.symm
      · exact absurd heq.symm (Nat.ne_of_lt (hnew _ (h.waiting id' pending' hbefore').1))
    · rcases hcases id' pending' hlookup' with ⟨-, rfl⟩ | hbefore'
      · exact absurd heq (Nat.ne_of_lt (hnew _ (h.waiting id pending hbefore).1))
      · exact h.apart id id' pending pending' hbefore hbefore' heq

/-! ## Steps -/

/-- The law, with what holds of the messages that wait and of the requests. -/
structure DeliveryInv (platform : SessionPlatform) (options : WorkerSessionOptions)
    (s : WorkerSession) : Prop where
  numbering : Numbering platform options s.inbound
  passing : Passing s.inbound
  complete : s.live = true → ∀ e ∈ s.inbound.accepted, e.type.reserved = false →
    e.binaryBytes = none → ⟨e, none⟩ ∈ s.inbound.messages ∨ e ∈ s.inbound.late
  counted : s.live = true → ∀ id pending, s.inbound.pendingBinary.lookup id = some pending →
    pending.chunks.flatten.length = pending.receivedBytes
  issued : s.inbound.issuedRequestIds ⊆ s.inbound.requested
  late : LateAnswers s.inbound

/-- What is done with a message that is passed to `#dispatch`. -/
theorem Passes.passing (hpass : Passes i m s s') (h : Passing i) (hmem : m.envelope ∈ i.accepted)
    (hbinary : s.live = true → m.binary.map List.length = m.envelope.binaryBytes)
    (hnew : m.envelope.sequence ∉ i.messages.map (·.envelope.sequence))
    (hlast : m.binary = none → ∀ m' ∈ i.messages, m'.envelope.sequence < m.envelope.sequence)
    (hwaiting : ∀ id pending, i.pendingBinary.lookup id = some pending →
      pending.envelope.sequence ≠ m.envelope.sequence) : Passing s'.inbound := by
  have hsame : Untouched { i with dispatched := i.dispatched ++ [m] } s'.inbound →
      Passing s'.inbound := fun hsame =>
    h.mono (hsame.accepted ▸ List.Subset.refl _)
      (fun id pending hlookup => ⟨pending, hsame.pendingBinary ▸ hlookup, rfl⟩) hsame.messages
  cases hpass with
  | handshake hreserved hs | refused hdead hs => exact hsame hs
  | message happlication hready hs =>
    have hlive : s.live = true := by
      rw [live, hready]
      rfl
    exact h.append hmem happlication (hbinary hlive) hnew hlast hwaiting hs.accepted
      hs.pendingBinary hs.messages
  | late happlication hanswer hissued hs =>
    exact h.mono (hs.accepted ▸ List.Subset.refl _)
      (fun id pending hlookup => ⟨pending, hs.pendingBinary ▸ hlookup, rfl⟩) hs.messages

theorem Passes.complete (hpass : Passes i m s s') (hlive : s'.live = true) :
    i.messages ⊆ s'.inbound.messages ∧ i.late ⊆ s'.inbound.late ∧
      (m.envelope.type.reserved = false →
        m ∈ s'.inbound.messages ∨ m.envelope ∈ s'.inbound.late) := by
  cases hpass with
  | handshake hreserved hs =>
    refine ⟨hs.messages ▸ List.Subset.refl _, hs.late ▸ List.Subset.refl _, fun happlication => ?_⟩
    rw [hreserved] at happlication
    cases happlication
  | refused hdead hs =>
    rw [hdead] at hlive
    cases hlive
  | message happlication hready hs =>
    rw [hs.messages, hs.late]
    exact ⟨subset_append_left _ _, List.Subset.refl _,
      fun _ => .inl (mem_append_right _ (mem_singleton_self _))⟩
  | late happlication hanswer hissued hs =>
    rw [hs.messages, hs.late]
    exact ⟨List.Subset.refl _, subset_append_left _ _,
      fun _ => .inr (mem_append_right _ (mem_singleton_self _))⟩

theorem LateAnswers.mono (h : LateAnswers i) (hlate : i'.late = i.late)
    (hrequested : i.requested ⊆ i'.requested) : LateAnswers i' := fun e he =>
  (h e (hlate ▸ he)).imp_right fun hmem => hrequested hmem

theorem Passes.late_answers (hpass : Passes i m s s')
    (hissued : i.issuedRequestIds ⊆ i.requested) (h : LateAnswers i) : LateAnswers s'.inbound := by
  cases hpass with
  | handshake hreserved hs | refused hdead hs | message happlication hready hs =>
    exact h.mono hs.late hs.requested
  | late happlication hanswer hid hs =>
    intro e he
    rw [hs.late] at he
    rcases mem_append.mp he with hold | hnew
    · exact (h e hold).imp_right fun hmem => hs.requested hmem
    · obtain rfl := mem_singleton.mp hnew
      exact ⟨hanswer, hs.requested (hissued hid)⟩

theorem DeliveryInv.of_untouched (h : DeliveryInv platform options s)
    (hsame : Untouched s.inbound s'.inbound) (hlive : s'.live = true → s.live = true) :
    DeliveryInv platform options s' where
  numbering := h.numbering.congr hsame.received hsame.accepted
  passing := h.passing.mono (hsame.accepted ▸ List.Subset.refl _)
    (fun id pending hlookup => ⟨pending, hsame.pendingBinary ▸ hlookup, rfl⟩) hsame.messages
  complete hl := by
    rw [hsame.accepted, hsame.messages, hsame.late]
    exact h.complete (hlive hl)
  counted hl := by
    rw [hsame.pendingBinary]
    exact h.counted (hlive hl)
  issued := hsame.issued h.issued
  late := h.late.mono hsame.late hsame.requested

/-- **What one step preserves.** -/
theorem DeliveryInv.step {frame : Option WorkerControlEnvelope} (h : DeliveryInv platform options s)
    (hs : InboundStep platform options frame s s') (hlive : s'.live = true → s.live = true) :
    DeliveryInv platform options s' := by
  cases hs with
  | untouched hsame => exact h.of_untouched hsame hlive
  | ended hends hsame =>
    have hempty : ∀ id, s'.inbound.pendingBinary.lookup id = none := fun id => by
      rw [hsame.pendingBinary]
      rfl
    refine ⟨h.numbering.congr hsame.received hsame.accepted,
      h.passing.mono (hsame.accepted ▸ List.Subset.refl _) (fun id pending hlookup => ?_)
        hsame.messages, fun hl => ?_, fun hl id pending hlookup => ?_, hsame.issued h.issued,
      h.late.mono hsame.late hsame.requested⟩
    · rw [hempty id] at hlookup
      cases hlookup
    · rw [hsame.accepted, hsame.messages, hsame.late]
      exact h.complete (hlive hl)
    · rw [hempty id] at hlookup
      cases hlookup
  | refused e hframe hnext hdead hsame =>
    have hgone : ∀ {P : Prop}, s'.live = true → P := fun hl => by
      rw [hdead] at hl
      cases hl
    exact ⟨(h.numbering.numbered hnext).congr hsame.received hsame.accepted,
      h.passing.mono (hsame.accepted ▸ subset_append_left _ _)
        (fun id pending hlookup => ⟨pending, hsame.pendingBinary ▸ hlookup, rfl⟩) hsame.messages,
      hgone, hgone, hsame.issued h.issued,
      h.late.mono hsame.late hsame.requested⟩
  | announced e bytes hframe hnext hbytes hregisters hlimit hsame =>
    have hsequence := (ReplayWindow.judge_next.mp hnext).1
    refine ⟨(h.numbering.numbered hnext).congr hsame.received hsame.accepted,
      h.passing.announced (fun e' he' => hsequence ▸ h.numbering.lt he') hsame.accepted
        hsame.pendingBinary hsame.messages, fun hl e' he' happlication hnone => ?_,
      fun hl id pending hlookup => ?_, hsame.issued h.issued,
      h.late.mono hsame.late hsame.requested⟩
    · rw [hsame.accepted] at he'
      rw [hsame.messages, hsame.late]
      rcases mem_append.mp he' with hold | hnew
      · exact h.complete (hlive hl) e' hold happlication hnone
      · rw [mem_singleton.mp hnew, hbytes] at hnone
        cases hnone
    · rw [hsame.pendingBinary] at hlookup
      rcases lookup_insert_cases hlookup with ⟨rfl, rfl⟩ | ⟨-, hlookup⟩
      · rfl
      · exact h.counted (hlive hl) id pending hlookup
  | passed e hframe hnext hbytes hpass =>
    have hsequence := (ReplayWindow.judge_next.mp hnext).1
    have hframe := hpass.frame
    have hbefore : ∀ m ∈ s.inbound.messages, m.envelope.sequence < e.sequence := fun m hm =>
      hsequence ▸ h.numbering.lt (h.passing.passed m hm).1
    have hnumbered : Passing (numbered platform options s.inbound e) :=
      h.passing.mono (subset_append_left _ _) (fun id pending hlookup => ⟨pending, hlookup, rfl⟩)
        rfl
    refine ⟨(h.numbering.numbered hnext).congr hframe.received hframe.accepted,
      hpass.passing hnumbered (mem_append_right _ (mem_singleton_self _))
        (fun _ => by rw [hbytes]; rfl) (fun hmem => ?_) (fun _ => hbefore)
        (fun id pending hlookup => ?_), fun hl e' he' happlication hnone => ?_,
      fun hl => ?_, hframe.issued h.issued, hpass.late_answers h.issued h.late⟩
    · obtain ⟨m, hm, heq⟩ := List.mem_map.mp hmem
      exact Nat.ne_of_lt (hbefore m hm) heq
    · exact Nat.ne_of_lt (hsequence ▸ h.numbering.lt (h.passing.waiting id pending hlookup).1)
    · obtain ⟨hmessages, hlate, hdone⟩ := hpass.complete hl
      rw [hframe.accepted] at he'
      rcases mem_append.mp he' with hold | hnew
      · exact (h.complete (hlive hl) e' hold happlication hnone).imp (fun hmem => hmessages hmem)
          fun hmem => hlate hmem
      · obtain rfl := mem_singleton.mp hnew
        exact hdone happlication
    · rw [hframe.pendingBinary]
      exact h.counted (hlive hl)
  | part id pending pending' hlookup henvelope hchunks hsame =>
    refine ⟨h.numbering.congr hsame.received hsame.accepted,
      h.passing.mono (hsame.accepted ▸ List.Subset.refl _) (fun id' found hfound => ?_)
        hsame.messages, fun hl => ?_, fun hl id' found hfound => ?_, hsame.issued h.issued,
      h.late.mono hsame.late hsame.requested⟩
    · rw [hsame.pendingBinary] at hfound
      rcases lookup_insert_cases hfound with ⟨rfl, rfl⟩ | ⟨-, hfound⟩
      · exact ⟨pending, hlookup, henvelope.symm⟩
      · exact ⟨found, hfound, rfl⟩
    · rw [hsame.accepted, hsame.messages, hsame.late]
      exact h.complete (hlive hl)
    · rw [hsame.pendingBinary] at hfound
      rcases lookup_insert_cases hfound with ⟨rfl, rfl⟩ | ⟨-, hfound⟩
      · obtain ⟨payload, hpayload, hreceived⟩ := hchunks hl
        rw [hpayload, hreceived, flatten_append, length_append,
          h.counted (hlive hl) _ pending hlookup, flatten_singleton]
      · exact h.counted (hlive hl) id' found hfound
  | assembled id pending payload hlookup hbytes hpass =>
    have hframe := hpass.frame
    obtain ⟨hmem, hnew⟩ := h.passing.waiting id pending hlookup
    have herased : ∀ id' found, (s.inbound.pendingBinary.erase id).lookup id' = some found →
        id' ≠ id ∧ s.inbound.pendingBinary.lookup id' = some found := fun id' found hfound => by
      have hne : id' ≠ id := by
        rintro rfl
        rw [lookup_erase] at hfound
        cases hfound
      exact ⟨hne, (lookup_erase_ne hne).symm.trans hfound⟩
    have hbefore : Passing { s.inbound with
        pendingBinary := s.inbound.pendingBinary.erase id
        pendingBinaryBytes := s.inbound.pendingBinaryBytes -
          (pending.receivedBytes + payload.length : Nat) } :=
      h.passing.mono (List.Subset.refl _)
        (fun id' found hfound => ⟨found, (herased id' found hfound).2, rfl⟩) rfl
    refine ⟨h.numbering.congr hframe.received hframe.accepted,
      hpass.passing hbefore hmem (fun hl => ?_) hnew (fun hnone => ?_)
        (fun id' found hfound heq => ?_), fun hl e he happlication hnone => ?_,
      fun hl id' found hfound => ?_, hframe.issued h.issued,
      hpass.late_answers h.issued h.late⟩
    · rw [map_some, flatten_append, length_append,
        h.counted hl id pending hlookup, flatten_singleton, hbytes]
    · cases hnone
    · obtain ⟨hne, hfound⟩ := herased id' found hfound
      exact hne (h.passing.apart id' id found pending hfound hlookup heq)
    · obtain ⟨hmessages, hlate, -⟩ := hpass.complete hl
      rw [hframe.accepted] at he
      exact (h.complete (hlive hl) e he happlication hnone).imp (fun hmem => hmessages hmem)
        fun hmem => hlate hmem
    · rw [hframe.pendingBinary] at hfound
      exact h.counted (hlive hl) id' found (herased id' found hfound).2

theorem deliveryInv_new (platform : SessionPlatform) (options : WorkerSessionOptions) :
    DeliveryInv platform options (new options) where
  numbering := ⟨rfl, ReplayWindow.remembers_empty _⟩
  passing := ⟨fun m hm => absurd hm not_mem_nil, nodup_nil, List.Pairwise.nil,
    fun id pending hlookup => (by cases hlookup), fun id id' pending pending' hlookup => by
      cases hlookup⟩
  complete _ e he := absurd he not_mem_nil
  counted _ id pending hlookup := by cases hlookup
  issued := nil_subset _
  late e he := absurd he not_mem_nil

theorem deliveryInv_of_reachable (hr : (machine platform options).Reachable s) :
    DeliveryInv platform options s :=
  hr.invariant (fun _ h0 => h0 ▸ deliveryInv_new platform options) fun _ _ _ _ hinv hs _ =>
    hinv.step (inboundStep_of_step hs) (handshakeStep_of_step hs).live

theorem DeliveryInv.law (h : DeliveryInv platform options s) : DeliveryLaw s where
  contiguous := h.numbering.contiguous
  passed := h.passing.passed
  once := h.passing.once
  increasing := h.passing.increasing
  complete := h.complete
  late := h.late

/-! ## Frames that are not the next one -/

theorem DeliveryInv.order (h : DeliveryInv platform options s) :
    s.inbound.received.receivedReplayOrder = (retained options s).map (replayOf platform) := by
  rw [h.numbering.remembers.order, length_map, retained, map_drop]

theorem DeliveryInv.judge_retained (h : DeliveryInv platform options s)
    (he : e ∈ retained options s) :
    s.inbound.received.judge e.sequence (replayOf platform e) = .replayed := by
  refine ReplayWindow.judge_replayed.mpr ⟨h.numbering.lt (mem_of_mem_drop he), ?_⟩
  rw [h.numbering.remembers.indexes.lookup, h.order]
  exact List.mem_map_of_mem he

theorem DeliveryInv.judge_foreign (h : DeliveryInv platform options s)
    (he : Foreign platform options s e) :
    s.inbound.received.judge e.sequence (replayOf platform e) ≠ .replayed ∧
      s.inbound.received.judge e.sequence (replayOf platform e) ≠ .next := by
  rw [Ne, Ne, ReplayWindow.judge_replayed, ReplayWindow.judge_next,
    h.numbering.remembers.indexes.lookup, h.order]
  cases he with
  | past hpast hother =>
    refine ⟨fun hreplayed => ?_, fun hnext => ?_⟩
    · obtain ⟨r, hr, heq⟩ := List.mem_map.mp hreplayed.2
      exact hother r hr heq
    · exact Nat.ne_of_lt hpast hnext.1
  | gap hgap =>
    exact ⟨fun hreplayed => Nat.lt_asymm hgap hreplayed.1, fun hnext => Nat.ne_of_gt hgap hnext.1⟩
  | identity hnext hid =>
    refine ⟨fun hreplayed => Nat.ne_of_lt hreplayed.1 hnext, fun hnew => ?_⟩
    obtain ⟨r, hr, hid⟩ := hid
    refine h.numbering.remembers.indexes.lookup_eq_none.mp hnew.2 ?_
    rw [h.order, List.map_map]
    exact List.mem_map.mpr ⟨r, hr, hid⟩

theorem DeliveryInv.replay (h : DeliveryInv platform options s)
    (he : e ∈ retained options s) (answer : SessionAnswer) :
    s.receiveText platform options (.ok e) answer = s := by
  unfold receiveText
  split
  · rfl
  dsimp only
  unfold receiveControl
  rw [h.judge_retained he]
  rfl

theorem DeliveryInv.foreign (h : DeliveryInv platform options s)
    (he : Foreign platform options s e) (hlive : s.live = true) (hlistens : s.detached = false)
    (answer : SessionAnswer) :
    (s.receiveText platform options (.ok e) answer).state = .closed ∧
      (s.receiveText platform options (.ok e) answer).inbound = s.inbound := by
  obtain ⟨hreplayed, hnext⟩ := h.judge_foreign he
  have hthrown : ∃ thrown, s.receiveControl platform options e answer = (s, some thrown) := by
    unfold receiveControl
    split
    · next hverdict => exact absurd hverdict hreplayed
    · next hverdict => exact absurd hverdict hnext
    · exact ⟨_, rfl⟩
  obtain ⟨thrown, hthrown⟩ := hthrown
  have hopen : s.state ≠ .closed := fun hclosed => by
    rw [live_closed hclosed] at hlive
    cases hlive
  have hreceive : s.receiveText platform options (.ok e) answer = s.fail (receiveFailure thrown) := by
    unfold receiveText
    rw [if_neg (by rw [hlistens, decide_eq_false hopen]; decide)]
    dsimp only
    rw [hthrown]
    rfl
  rw [hreceive]
  exact ⟨fail_state _ _ hlive, fail_inbound _ _⟩

/-! ## Runs -/

theorem messages_of_closed {labels : List SessionLabel} {t : WorkerSession}
    (hrun : (machine platform options).run s labels = some t) (hclosed : s.state = .closed) :
    t.state = .closed ∧ t.inbound.messages = s.inbound.messages := by
  induction labels generalizing s with
  | nil =>
    obtain rfl := some.inj hrun
    exact ⟨hclosed, rfl⟩
  | cons label labels ih =>
    rw [Machine.run_cons, bind_eq_some_iff] at hrun
    obtain ⟨s', hs, hrun⟩ := hrun
    obtain ⟨hstate, hmessages⟩ := ih hrun ((handshakeStep_of_step hs).closed hclosed)
    refine ⟨hstate, hmessages.trans ?_⟩
    refine (inboundStep_of_step hs).messages.resolve_right fun hready => ?_
    rw [hclosed] at hready
    cases hready

/-- **Sessions deliver.** What a session passes on are messages it has accepted, each once; a frame
that is remembered changes nothing, another one that is not the next ends the session, and a
closed session passes nothing on. -/
theorem session_delivers (hr : (machine platform options).Reachable s) :
    DeliveryLaw s ∧
    (∀ e answer, e ∈ retained options s → s.receiveText platform options (.ok e) answer = s) ∧
    (∀ e answer, Foreign platform options s e → s.live = true → s.detached = false →
      (s.receiveText platform options (.ok e) answer).state = .closed ∧
      (s.receiveText platform options (.ok e) answer).inbound = s.inbound) ∧
    (s.state = .closed → ∀ labels t, (machine platform options).run s labels = some t →
      t.state = .closed ∧ t.inbound.messages = s.inbound.messages) := by
  have hinv := deliveryInv_of_reachable hr
  exact ⟨hinv.law, fun e answer he => hinv.replay he answer,
    fun e answer he hlive hlistens => hinv.foreign he hlive hlistens answer,
    fun hclosed labels t hrun => messages_of_closed hrun hclosed⟩

/-! ## A message that overtakes another -/

/-- A result with a binary part of one byte, the next result, and the byte. -/
def overtaking : List SessionLabel :=
  sampleHandshake ++
    [sampleText (sampleFrame 3 .taskResult [] (some 1)), sampleText (sampleFrame 4 .taskResult [] none),
      .binary (.ok ⟨js "m3", 0, 1, [7]⟩) sampleAnswer]

theorem overtaking_run : ((machine samplePlatform sampleOptions).run (new sampleOptions)
    overtaking).map (fun s => s.inbound.messages.map (·.envelope.sequence)) = some [4, 3] := by
  decide +kernel

theorem session_delivers_overtaking :
    ∃ s : WorkerSession,
      (machine samplePlatform sampleOptions).run (new sampleOptions) overtaking = some s ∧
      s.inbound.messages.map (·.envelope.sequence) = [4, 3] ∧ DeliveryLaw s := by
  obtain ⟨s, hs, hmessages⟩ := map_eq_some_iff.mp overtaking_run
  exact ⟨s, hs, hmessages, (session_delivers (.of_init_run rfl hs)).1⟩

/-- Messages are not passed on in the order of their numbers. -/
theorem messages_not_increasing :
    ¬ ∀ (platform : SessionPlatform) (options : WorkerSessionOptions) (s : WorkerSession),
      (machine platform options).Reachable s →
        (s.inbound.messages.map (·.envelope.sequence)).Pairwise (· < ·) := by
  intro hincreasing
  obtain ⟨s, hs, hmessages⟩ := map_eq_some_iff.mp overtaking_run
  have h := hincreasing _ _ s (.of_init_run rfl hs)
  rw [hmessages] at h
  exact absurd h (by decide)

end WorkerSession

end TegoNext
