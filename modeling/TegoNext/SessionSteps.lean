/-
What one step of a `WorkerSession` can do.

The handshake never touches what belongs to arriving messages, and arriving messages change
in few ways: a control frame gets its number and is announced, passed to `#dispatch` or
refused; a binary part arrives, or completes a message; the end of a session clears what is
pending. `inboundStep_of_step` says so once, and the properties of sessions follow from it.
-/
import TegoNext.WorkerSession

set_option autoImplicit false

namespace TegoNext

open List Option

namespace WorkerSession

variable {platform : SessionPlatform} {options : WorkerSessionOptions} {s s' s'' t : WorkerSession}
  {c : SessionContinuation}

/-! ## The end of a session -/

@[simp] theorem fail_inbound (s : WorkerSession) (d : SessionDiagnostic) :
    (s.fail d).inbound = s.inbound := by
  unfold fail
  split
  · rfl
  · rfl

@[simp] theorem fail_live (s : WorkerSession) (d : SessionDiagnostic) : (s.fail d).live = false := by
  unfold fail
  split
  · rfl
  · next h => exact Bool.eq_false_iff.mpr h

theorem fail_state (s : WorkerSession) (d : SessionDiagnostic) (h : s.live = true) :
    (s.fail d).state = .closed := by
  unfold fail
  rw [if_pos h]

@[simp] theorem orFail_inbound (outcome : SessionOutcome) :
    (orFail outcome).inbound = outcome.1.inbound := by
  obtain ⟨t, thrown⟩ := outcome
  cases thrown with
  | none => rfl
  | some thrown => exact fail_inbound _ _

/-- Is the session about to drop what is pending? -/
def Ends (s : WorkerSession) : Prop := SessionContinuation.rejectPending ∈ s.continuations

/-! ## The handshake stays as it is -/

/-- The flags of what has been sent aside. -/
structure SameHandshake (h h' : SessionHandshake) : Prop where
  credential : h'.credential = h.credential
  remoteNonce : h'.remoteNonce = h.remoteNonce
  remoteRole : h'.remoteRole = h.remoteRole
  remoteHelloSessionId : h'.remoteHelloSessionId = h.remoteHelloSessionId
  principalWorkerId : h'.principalWorkerId = h.principalWorkerId
  principalAuthorized : h'.principalAuthorized = h.principalAuthorized
  peerAuthenticated : h'.peerAuthenticated = h.peerAuthenticated
  registrationPending : h'.registrationPending = h.registrationPending
  events : h'.events = h.events

theorem SameHandshake.refl (h : SessionHandshake) : SameHandshake h h :=
  ⟨rfl, rfl, rfl, rfl, rfl, rfl, rfl, rfl, rfl⟩

theorem SameHandshake.trans {h h' h'' : SessionHandshake} (hfirst : SameHandshake h h')
    (hsecond : SameHandshake h' h'') : SameHandshake h h'' :=
  ⟨hsecond.1.trans hfirst.1, hsecond.2.trans hfirst.2, hsecond.3.trans hfirst.3,
    hsecond.4.trans hfirst.4, hsecond.5.trans hfirst.5, hsecond.6.trans hfirst.6,
    hsecond.7.trans hfirst.7, hsecond.8.trans hfirst.8, hsecond.9.trans hfirst.9⟩

/-- Does `#receiveRegistration` wait for an epoch? -/
def Awaits (s : WorkerSession) : Prop := SessionContinuation.registration ∈ s.continuations

/-- Neither the wait for an epoch nor the end of the session. -/
def harmless : SessionContinuation → Bool
  | .registration | .rejectPending => false
  | _ => true

theorem mem_continuations_push {c' : SessionContinuation} (hc : c ≠ c')
    (h : c ∈ (s.push c').continuations) : c ∈ s.continuations :=
  (mem_append.mp h).resolve_right fun hmem => hc (mem_singleton.mp hmem)

theorem live_closed (h : s.state = .closed) : s.live = false := by
  rw [live, h]
  rfl

/-- Nothing happens to the handshake, except that the session may be closed. -/
structure Quiet (s s' : WorkerSession) : Prop where
  handshake : SameHandshake s.handshake s'.handshake
  state : s'.state = s.state ∨ s'.state = .closed
  awaits : s'.Awaits → s.Awaits
  ends : s'.Ends → s.Ends ∨ s'.live = false

namespace Quiet

theorem refl (s : WorkerSession) : Quiet s s := ⟨.refl _, .inl rfl, id, .inl⟩

theorem trans (h : Quiet s s') (h' : Quiet s' s'') : Quiet s s'' := by
  refine ⟨h.handshake.trans h'.handshake, ?_, h.awaits ∘ h'.awaits, fun hends => ?_⟩
  · rcases h'.state with heq | hclosed
    · rw [heq]
      exact h.state
    · exact .inr hclosed
  · rcases h'.ends hends with hends' | hdead
    · rcases h.ends hends' with hbefore | hdead
      · exact .inl hbefore
      · refine .inr ?_
        rcases h'.state with heq | hclosed
        · rwa [live, heq]
        · exact live_closed hclosed
    · exact .inr hdead

theorem push (h : Quiet s s') {c : SessionContinuation} (hc : harmless c = true) :
    Quiet s (s'.push c) := by
  refine ⟨h.handshake, h.state, fun hawaits => h.awaits ?_, fun hends => h.ends ?_⟩
  · refine mem_continuations_push ?_ hawaits
    rintro rfl
    cases hc
  · refine mem_continuations_push ?_ hends
    rintro rfl
    cases hc

theorem fail (h : Quiet s s') (d : SessionDiagnostic) : Quiet s (s'.fail d) := by
  refine h.trans ⟨?_, ?_, fun hawaits => ?_, fun _ => .inr (fail_live _ _)⟩
  · unfold WorkerSession.fail
    split
    · exact .refl _
    · exact .refl _
  · unfold WorkerSession.fail
    split
    · exact .inr rfl
    · exact .inl rfl
  · unfold WorkerSession.fail at hawaits
    split at hawaits
    · exact mem_continuations_push (by intro h; cases h) hawaits
    · exact hawaits

theorem orFail {outcome : SessionOutcome} (h : Quiet s outcome.1) :
    Quiet s (WorkerSession.orFail outcome) := by
  obtain ⟨t, thrown⟩ := outcome
  cases thrown with
  | none => exact h
  | some thrown => exact h.fail _

theorem detach (s : WorkerSession) : Quiet s s.detach := by
  unfold WorkerSession.detach
  split
  · exact .refl _
  · exact ⟨.refl _, .inl rfl, id, .inl⟩

theorem of_eq (hhandshake : t.handshake = s.handshake)
    (hstate : t.state = s.state) (hcontinuations : t.continuations = s.continuations) :
    Quiet s t :=
  ⟨hhandshake ▸ .refl _, .inl hstate, fun h => (by rwa [Awaits, ← hcontinuations]),
    fun h => .inl (by rwa [Ends, ← hcontinuations])⟩

end Quiet

/-! ## The end of a session stays to be done -/

/-- Continuations are added only, and a session that is over has its end to do. -/
structure Winds (s s' : WorkerSession) : Prop where
  continues : s.continuations ⊆ s'.continuations
  ends : s'.live = false → s.live = false ∨ s'.Ends

namespace Winds

theorem refl (s : WorkerSession) : Winds s s := ⟨List.Subset.refl _, .inl⟩

theorem trans (h : Winds s s') (h' : Winds s' s'') : Winds s s'' := by
  refine ⟨List.Subset.trans h.continues h'.continues, fun hdead => ?_⟩
  rcases h'.ends hdead with hdead' | hends
  · exact (h.ends hdead').imp_right fun hends => h'.continues hends
  · exact .inr hends

theorem of_eq (hstate : s'.state = s.state) (hcontinuations : s'.continuations = s.continuations) :
    Winds s s' := by
  refine ⟨hcontinuations ▸ List.Subset.refl _, fun hdead => .inl ?_⟩
  rwa [live, ← hstate]

theorem push (h : Winds s s') (c : SessionContinuation) : Winds s (s'.push c) :=
  h.trans ⟨subset_append_left _ _, .inl⟩

theorem fail (h : Winds s s') (d : SessionDiagnostic) : Winds s (s'.fail d) := by
  apply h.trans
  unfold WorkerSession.fail
  split
  · exact ⟨subset_append_left _ _, fun _ => .inr (mem_append_right _ (mem_singleton_self _))⟩
  · exact refl _

theorem orFail {outcome : SessionOutcome} (h : Winds s outcome.1) :
    Winds s (WorkerSession.orFail outcome) := by
  obtain ⟨t, thrown⟩ := outcome
  cases thrown with
  | none => exact h
  | some thrown => exact h.fail _

theorem detach (s : WorkerSession) : Winds s s.detach := by
  unfold WorkerSession.detach
  split
  · exact refl _
  · exact of_eq rfl rfl

end Winds

/-! ## Arriving messages stay as they are -/

structure Mild (s s' : WorkerSession) : Prop where
  inbound : s'.inbound = s.inbound
  winds : Winds s s'

namespace Mild

theorem refl (s : WorkerSession) : Mild s s := ⟨rfl, .refl s⟩

theorem trans (h : Mild s s') (h' : Mild s' s'') : Mild s s'' :=
  ⟨h'.inbound.trans h.inbound, h.winds.trans h'.winds⟩

theorem of_eq (hinbound : s'.inbound = s.inbound) (hstate : s'.state = s.state)
    (hcontinuations : s'.continuations = s.continuations) : Mild s s' :=
  ⟨hinbound, .of_eq hstate hcontinuations⟩

theorem push (h : Mild s s') (c : SessionContinuation) : Mild s (s'.push c) :=
  ⟨h.inbound, h.winds.push c⟩

end Mild

/-- The handshake stays as it is as well. -/
structure Minor (s s' : WorkerSession) : Prop extends Mild s s' where
  quiet : Quiet s s'

namespace Minor

theorem refl (s : WorkerSession) : Minor s s := ⟨.refl s, .refl s⟩

theorem trans (h : Minor s s') (h' : Minor s' s'') : Minor s s'' :=
  ⟨h.toMild.trans h'.toMild, h.quiet.trans h'.quiet⟩

theorem of_eq (hinbound : s'.inbound = s.inbound) (hstate : s'.state = s.state)
    (hcontinuations : s'.continuations = s.continuations)
    (hhandshake : SameHandshake s.handshake s'.handshake) : Minor s s' :=
  ⟨.of_eq hinbound hstate hcontinuations, hhandshake, .inl hstate,
    fun h => (by rwa [Awaits, ← hcontinuations]), fun h => .inl (by rwa [Ends, ← hcontinuations])⟩

theorem push (h : Minor s s') (hc : harmless c = true) : Minor s (s'.push c) :=
  ⟨h.toMild.push c, h.quiet.push hc⟩

theorem fail (h : Minor s s') (d : SessionDiagnostic) : Minor s (s'.fail d) :=
  ⟨⟨(fail_inbound _ _).trans h.inbound, h.winds.fail d⟩, h.quiet.fail d⟩

theorem orFail {outcome : SessionOutcome} (h : Minor s outcome.1) :
    Minor s (WorkerSession.orFail outcome) :=
  ⟨⟨(orFail_inbound _).trans h.inbound, h.winds.orFail⟩, h.quiet.orFail⟩

end Minor

section

variable (s : WorkerSession) (envelope : WorkerControlEnvelope) (answer : SessionAnswer)
  (socket : SocketAnswer)

theorem sendEnvelope_minor : Minor s (s.sendEnvelope socket).1 := by
  have hnumbered : Minor s { s with nextSequence := s.nextSequence + 1 } :=
    .of_eq rfl rfl rfl (.refl _)
  unfold sendEnvelope
  split
  · exact .refl _
  split
  · exact .refl _
  split
  · exact hnumbered
  · exact hnumbered.fail _

theorem sendHello_minor : Minor s (s.sendHello socket).1 := by
  unfold sendHello
  split
  · exact .refl _
  have hset : Minor s { s with handshake := { s.handshake with helloSent := true } } :=
    .of_eq rfl rfl rfl ⟨rfl, rfl, rfl, rfl, rfl, rfl, rfl, rfl, rfl⟩
  have hsend := hset.trans (sendEnvelope_minor _ socket)
  split
  · next heq =>
    rw [heq] at hsend
    exact hsend
  next heq =>
  rw [heq] at hsend
  exact hsend.trans (.of_eq rfl rfl rfl ⟨rfl, rfl, rfl, rfl, rfl, rfl, rfl, rfl, rfl⟩)

theorem sendAuthentication_minor : Minor s (s.sendAuthentication socket).1 := by
  unfold sendAuthentication
  split
  · exact .refl _
  have hset : Minor s { s with handshake := { s.handshake with authenticationSent := true } } :=
    .of_eq rfl rfl rfl ⟨rfl, rfl, rfl, rfl, rfl, rfl, rfl, rfl, rfl⟩
  exact hset.trans (sendEnvelope_minor _ socket)

theorem sendRegistration_minor : Minor s (s.sendRegistration options socket).1 := by
  unfold sendRegistration
  split
  · exact .refl _
  have hset : Minor s { s with handshake := { s.handshake with registrationSent := true } } :=
    .of_eq rfl rfl rfl ⟨rfl, rfl, rfl, rfl, rfl, rfl, rfl, rfl, rfl⟩
  exact hset.trans (sendEnvelope_minor _ socket)

theorem claimPrincipal_mild (payload : JsonFields) (nonce : JsString)
    (resolved : Except SessionThrown (Option JsString)) :
    Mild s (s.claimPrincipal options envelope payload nonce resolved).1 := by
  unfold claimPrincipal
  split
  · exact .refl _
  split
  · split
    · exact .refl _
    · exact .refl _
    · exact .of_eq rfl rfl rfl
    · split
      · exact .of_eq rfl rfl rfl
      · exact .of_eq rfl rfl rfl
  · exact .refl _

theorem receiveHello_mild : Mild s (s.receiveHello options envelope answer).1 := by
  unfold receiveHello
  split
  · exact .refl _
  split
  · exact .refl _
  next payload _ =>
  split
  · exact .refl _
  next role nonce _ =>
  have hset : Mild s { s with
      handshake :=
        { s.handshake with
          remoteRole := some role
          remoteNonce := some nonce
          remoteHelloSessionId := some envelope.sessionId } } := .of_eq rfl rfl rfl
  have hclaim := hset.trans (@claimPrincipal_mild options _ envelope payload nonce answer.credential)
  dsimp only
  split
  · next heq =>
    rw [heq] at hclaim
    exact hclaim
  next heq =>
  rw [heq] at hclaim
  have hhello := hclaim.trans (sendHello_minor _ answer.socket).toMild
  split
  · next hsend =>
    rw [hsend] at hhello
    exact hhello
  next hsend =>
  rw [hsend] at hhello
  exact hhello.push _

theorem receiveAuthentication_mild :
    Mild s (s.receiveAuthentication platform options envelope answer).1 := by
  unfold receiveAuthentication
  split
  · split
    · exact .refl _
    · split
      · exact .refl _
      · dsimp only
        split
        · split
          · refine Mild.trans ?_ (sendRegistration_minor _ _).toMild
            exact .of_eq rfl rfl rfl
          · exact .of_eq rfl rfl rfl
        · exact .refl _
      · exact .refl _
  · exact .refl _

theorem receiveRegistration_mild : Mild s (s.receiveRegistration options envelope).1 := by
  unfold receiveRegistration
  split
  · exact .refl _
  split
  · exact .refl _
  split
  · exact .refl _
  · exact .refl _
  · split
    · exact .refl _
    · refine Mild.push ?_ _
      exact .of_eq rfl rfl rfl

theorem becomeReady_mild (epoch : Nat) (rest : SessionContinuation) :
    Mild s (s.becomeReady epoch rest).1 := by
  unfold becomeReady
  split
  · exact .refl _
  · refine ⟨rfl, subset_append_left _ _, fun hdead => ?_⟩
    cases hdead

theorem finishRegistration_mild (epoch : Except SessionThrown Nat) :
    Mild s (s.finishRegistration epoch).1 := by
  unfold finishRegistration
  split
  · exact .refl _
  split
  · exact .refl _
  · exact becomeReady_mild _ _ _

theorem receiveReady_mild : Mild s (s.receiveReady options envelope).1 := by
  unfold receiveReady
  split
  · exact .refl _
  split
  · exact .refl _
  split
  · exact .refl _
  · exact becomeReady_mild _ _ _

/-- A continuation that sends a frame, or fails. -/
def speaks : SessionContinuation → Bool
  | .registration | .rejectPending | .detach | .flush => false
  | _ => true

theorem resume_minor (hc : speaks c = true) : Minor s (resume platform s answer c) := by
  have havailable : Minor s s.becomeAvailable := .of_eq rfl rfl rfl (.refl _)
  cases c with
  | hello =>
    have hsend := sendHello_minor s answer.socket
    rw [resume]
    split
    · split
      · next heq =>
        rw [heq] at hsend
        exact hsend
      · next heq =>
        rw [heq] at hsend
        exact hsend.fail _
    · exact .refl _
  | authentication => exact (sendAuthentication_minor _ _).orFail
  | registered =>
    have hsend := havailable.trans (sendEnvelope_minor _ answer.socket)
    rw [resume]
    split
    · next heq =>
      rw [heq] at hsend
      exact hsend
    next heq =>
    rw [heq] at hsend
    exact hsend.push rfl
  | ready => exact havailable.push rfl
  | heartbeat =>
    have hsend := sendEnvelope_minor s answer.socket
    rw [resume]
    split
    · split
      · next heq =>
        rw [heq] at hsend
        exact hsend.push rfl
      · next heq =>
        rw [heq] at hsend
        exact hsend
    · exact .refl _
  | rejected thrown => exact (Minor.refl s).fail _
  | registration | rejectPending | detach | flush => cases hc

theorem resume_registration : Mild s (resume platform s answer .registration) := by
  have hfinish := finishRegistration_mild s answer.epoch
  rw [resume]
  split
  · next heq =>
    rw [heq] at hfinish
    exact hfinish
  next heq =>
  rw [heq] at hfinish
  exact hfinish.push _

end

/-! ## What becomes of arriving messages -/

/-- Listeners and the backlog aside, and of requests no more than that they are known. -/
structure Untouched (i i' : SessionInbound) : Prop where
  received : i'.received = i.received
  pendingBinary : i'.pendingBinary = i.pendingBinary
  pendingBinaryBytes : i'.pendingBinaryBytes = i.pendingBinaryBytes
  accepted : i'.accepted = i.accepted
  dispatched : i'.dispatched = i.dispatched
  messages : i'.messages = i.messages
  late : i'.late = i.late
  requested : i.requested ⊆ i'.requested
  issued : i.issuedRequestIds ⊆ i.requested → i'.issuedRequestIds ⊆ i'.requested

theorem Untouched.refl (i : SessionInbound) : Untouched i i :=
  ⟨rfl, rfl, rfl, rfl, rfl, rfl, rfl, List.Subset.refl _, id⟩

/-- Listeners and the backlog. -/
structure Aside (i i' : SessionInbound) : Prop where
  rest : i' = { i with
    listeners := i'.listeners
    pendingMessages := i'.pendingMessages
    pendingMessageBytes := i'.pendingMessageBytes
    flushingPendingMessages := i'.flushingPendingMessages }

theorem Aside.of_eq {i i' : SessionInbound} (h : i' = i) : Aside i i' := by
  rw [h]
  exact ⟨rfl⟩

theorem Aside.untouched {i i' : SessionInbound} (h : Aside i i') : Untouched i i' := by
  rw [h.rest]
  exact ⟨rfl, rfl, rfl, rfl, rfl, rfl, rfl, List.Subset.refl _, id⟩

variable {i : SessionInbound}

theorem Untouched.of_eq {i' : SessionInbound} (h : i' = i) : Untouched i i' := h ▸ .refl i

/-- `#dispatch` of a message, in a session with these arriving messages. -/
inductive Passes (i : SessionInbound) (m : WorkerSessionMessage) (s s' : WorkerSession) : Prop
  | handshake (hreserved : m.envelope.type.reserved = true)
      (h : Untouched { i with dispatched := i.dispatched ++ [m] } s'.inbound)
  | refused (hdead : s'.live = false)
      (h : Untouched { i with dispatched := i.dispatched ++ [m] } s'.inbound)
  | message (happlication : m.envelope.type.reserved = false) (hready : s.state = .ready)
      (h : Untouched { i with
        dispatched := i.dispatched ++ [m]
        messages := i.messages ++ [m] } s'.inbound)
  /-- An answer that comes too late. -/
  | late (happlication : m.envelope.type.reserved = false)
      (hanswer : m.envelope.correlationId ≠ m.envelope.messageId)
      (hissued : m.envelope.correlationId ∈ i.issuedRequestIds)
      (h : Untouched { i with
        dispatched := i.dispatched ++ [m]
        late := i.late ++ [m.envelope] } s'.inbound)

/-- What a message that is passed to `#dispatch` leaves alone. -/
structure DispatchFrame (i : SessionInbound) (m : WorkerSessionMessage) (i' : SessionInbound) :
    Prop where
  received : i'.received = i.received
  pendingBinary : i'.pendingBinary = i.pendingBinary
  pendingBinaryBytes : i'.pendingBinaryBytes = i.pendingBinaryBytes
  accepted : i'.accepted = i.accepted
  dispatched : i'.dispatched = i.dispatched ++ [m]
  requested : i.requested ⊆ i'.requested
  issued : i.issuedRequestIds ⊆ i.requested → i'.issuedRequestIds ⊆ i'.requested

theorem Passes.frame {m : WorkerSessionMessage} (h : Passes i m s s') :
    DispatchFrame i m s'.inbound := by
  cases h with
  | handshake hreserved h | refused hdead h | message happlication hready h
  | late happlication hanswer hissued h =>
    exact ⟨h.received, h.pendingBinary, h.pendingBinaryBytes, h.accepted, h.dispatched,
      h.requested, h.issued⟩

/-- A control frame has got its number. -/
def numbered (platform : SessionPlatform) (options : WorkerSessionOptions) (i : SessionInbound)
    (e : WorkerControlEnvelope) : SessionInbound :=
  { i with
    received := i.received.retain options.limits.replayRetention (replayOf platform e)
    accepted := i.accepted ++ [e] }

def IsNext (platform : SessionPlatform) (i : SessionInbound) (e : WorkerControlEnvelope) : Prop :=
  i.received.judge e.sequence (replayOf platform e) = .next

/-- An entry that waits for its first chunk. -/
def announcement (e : WorkerControlEnvelope) : PendingBinary where
  envelope := e
  chunks := []
  nextChunk := 0
  receivedBytes := 0

def receiving (s : WorkerSession) : Bool := s.state ≠ .closed && !s.detached

/-- Is this frame registered as one with a binary part to come? -/
def registers (platform : SessionPlatform) (options : WorkerSessionOptions) (s : WorkerSession)
    (e : WorkerControlEnvelope) : Bool :=
  s.receiving && s.inbound.received.judge e.sequence (replayOf platform e) = .next &&
    !s.stale e && e.binaryBytes.any fun bytes => !exceedsBinaryLimit options s.inbound bytes

/-- What a step does to arriving messages; `frame` is its control frame, if it has one. -/
inductive InboundStep (platform : SessionPlatform) (options : WorkerSessionOptions)
    (frame : Option WorkerControlEnvelope) (s s' : WorkerSession) : Prop
  | untouched (h : Untouched s.inbound s'.inbound)
  /-- The session is over and drops what is pending. -/
  | ended (hends : s.Ends) (h : Untouched { s.inbound with
      pendingBinary := ∅
      pendingBinaryBytes := 0 } s'.inbound)
  /-- A control frame is numbered, and ends the session. -/
  | refused (e : WorkerControlEnvelope) (hframe : frame = some e)
      (hnext : IsNext platform s.inbound e)
      (hdead : s'.live = false) (h : Untouched (numbered platform options s.inbound e) s'.inbound)
  | announced (e : WorkerControlEnvelope) (bytes : Nat) (hframe : frame = some e)
      (hnext : IsNext platform s.inbound e) (hbytes : e.binaryBytes = some bytes)
      (hregisters : registers platform options s e = true)
      (hlimit : s.inbound.pendingBinaryBytes + bytes ≤ options.limits.maxBinaryBytes)
      (h : Untouched { numbered platform options s.inbound e with
        pendingBinary := s.inbound.pendingBinary.insert e.messageId (announcement e)
        pendingBinaryBytes := s.inbound.pendingBinaryBytes + bytes } s'.inbound)
  | passed (e : WorkerControlEnvelope) (hframe : frame = some e)
      (hnext : IsNext platform s.inbound e) (hbytes : e.binaryBytes = none)
      (h : Passes (numbered platform options s.inbound e) ⟨e, none⟩ s s')
  | part (id : JsString) (pending pending' : PendingBinary)
      (hlookup : s.inbound.pendingBinary.lookup id = some pending)
      (henvelope : pending'.envelope = pending.envelope)
      (hchunks : s'.live = true → ∃ payload : List UInt8,
        pending'.chunks = pending.chunks ++ [payload] ∧
          pending'.receivedBytes = pending.receivedBytes + payload.length)
      (h : Untouched { s.inbound with
        pendingBinary := s.inbound.pendingBinary.insert id pending' } s'.inbound)
  | assembled (id : JsString) (pending : PendingBinary) (payload : List UInt8)
      (hlookup : s.inbound.pendingBinary.lookup id = some pending)
      (hbytes : pending.envelope.binaryBytes = some (pending.receivedBytes + payload.length))
      (h : Passes { s.inbound with
          pendingBinary := s.inbound.pendingBinary.erase id
          pendingBinaryBytes := s.inbound.pendingBinaryBytes -
            (pending.receivedBytes + payload.length : Nat) }
        ⟨pending.envelope, some (pending.chunks ++ [payload]).flatten⟩ s s')

/-! ## Frames -/

theorem addId_subset (ids : List JsString) (id : JsString) : addId ids id ⊆ ids ++ [id] := by
  unfold addId
  split
  · exact subset_append_left _ _
  · exact List.Subset.refl _

theorem pruneIssued_subset (retention : Nat) (pending ids order kept : List JsString) :
    (pruneIssued retention pending ids order kept).1 ⊆ ids := by
  induction order generalizing ids kept with
  | nil => exact List.Subset.refl _
  | cons removed order ih =>
    rw [pruneIssued]
    split
    · exact List.Subset.refl _
    split
    · exact ih ids _
    · exact List.Subset.trans (ih _ kept) erase_subset

theorem untouched_settleRequest (i : SessionInbound) (id : JsString) :
    Untouched i (settleRequest options i id) :=
  ⟨rfl, rfl, rfl, rfl, rfl, rfl, rfl, List.Subset.refl _, List.Subset.trans (pruneIssued_subset _ _ _ _ _)⟩

theorem retainIssuedRequest_subset {id : JsString}
    (h : i.issuedRequestIds ⊆ i.requested) (pending : List JsString) :
    (retainIssuedRequest options
      { i with
        pendingRequests := pending
        requested := i.requested ++ [id] } id).issuedRequestIds ⊆ i.requested ++ [id] :=
  List.Subset.trans (pruneIssued_subset _ _ _ _ _) (List.Subset.trans (addId_subset _ _)
    (append_subset.mpr ⟨List.Subset.trans h (subset_append_left _ _), subset_append_right _ _⟩))

theorem dispatchMessage_passes {m : WorkerSessionMessage}
    (ht : t.inbound = { i with dispatched := i.dispatched ++ [m] }) (hready : s.state = .ready)
    (happlication : m.envelope.type.reserved = false) :
    Passes i m s (orFail (t.dispatchMessage platform options m)) := by
  have hmessages : t.inbound.messages = i.messages := congrArg (·.messages) ht
  have hlate : t.inbound.late = i.late := congrArg (·.late) ht
  have hissuedIds : t.inbound.issuedRequestIds = i.issuedRequestIds :=
    congrArg (·.issuedRequestIds) ht
  unfold dispatchMessage
  dsimp only
  split
  · next hanswer =>
    split
    · refine .message happlication hready ?_
      rw [orFail, hmessages, ht]
      exact ⟨rfl, rfl, rfl, rfl, rfl, rfl, rfl, List.Subset.refl _,
        List.Subset.trans (pruneIssued_subset _ _ _ _ _)⟩
    · split
      · next hissued =>
        refine .late happlication hanswer (hissuedIds ▸ hissued) ?_
        rw [orFail, hlate, ht]
        exact ⟨rfl, rfl, rfl, rfl, rfl, rfl, rfl, List.Subset.refl _, id⟩
      · refine .refused (fail_live _ _) (.of_eq ?_)
        rw [orFail, fail_inbound, ht]
  · split
    · split
      · refine .refused (fail_live _ _) (.of_eq ?_)
        rw [orFail, fail_inbound, ht]
      · refine .message happlication hready ?_
        rw [orFail, hmessages, ht]
        exact ⟨rfl, rfl, rfl, rfl, rfl, rfl, rfl, List.Subset.refl _, id⟩
    · refine .message happlication hready ?_
      rw [orFail, hmessages, ht]
      exact ⟨rfl, rfl, rfl, rfl, rfl, rfl, rfl, List.Subset.refl _, id⟩

theorem dispatch_passes (ht : t.inbound = i)
    (hstate : t.state = s.state) (m : WorkerSessionMessage) (answer : SessionAnswer) :
    Passes i m s (orFail (t.dispatch platform options m answer)) := by
  subst ht
  unfold dispatch
  dsimp only
  split
  · next htype =>
    refine .handshake (by rw [htype]; rfl) (.of_eq ?_)
    exact (orFail_inbound _).trans (receiveHello_mild _ _ _).inbound
  · next htype =>
    refine .handshake (by rw [htype]; rfl) (.of_eq ?_)
    exact (orFail_inbound _).trans (receiveAuthentication_mild _ _ _).inbound
  · next htype =>
    refine .handshake (by rw [htype]; rfl) (.of_eq ?_)
    split
    · next hregister =>
      exact (congrArg (·.1.inbound) hregister).symm.trans (receiveRegistration_mild _ _).inbound
    · next hregister =>
      exact (congrArg (·.1.inbound) hregister).symm.trans (receiveRegistration_mild _ _).inbound
  · next htype =>
    refine .handshake (by rw [htype]; rfl) (.of_eq ?_)
    exact (orFail_inbound _).trans (receiveReady_mild _ _).inbound
  · next htype => exact .handshake (by rw [htype]; rfl) (.refl _)
  · next hhello hauthenticate hregister hready hheartbeat =>
    have happlication : m.envelope.type.reserved = false := by
      cases htype : m.envelope.type with
      | hello => exact absurd htype hhello
      | authenticate => exact absurd htype hauthenticate
      | workerRegister => exact absurd htype hregister
      | sessionReady => exact absurd htype hready
      | heartbeat => exact absurd htype hheartbeat
      | _ => rfl
    split
    · exact .refused (fail_live _ _) (.of_eq (fail_inbound _ _))
    · next hstate' =>
      exact dispatchMessage_passes rfl (hstate ▸ not_not.mp hstate') happlication

theorem inboundStep_text (hreceiving : s.receiving = true) (e : WorkerControlEnvelope)
    (answer : SessionAnswer) :
    InboundStep platform options (some e) s
      (orFail (s.receiveControl platform options e answer)) := by
  unfold receiveControl
  split
  · exact .untouched (.refl _)
  · next hnext =>
    unfold acceptControl
    dsimp only
    split
    · exact .refused e rfl hnext (fail_live _ _) (.of_eq (fail_inbound _ _))
    next hcurrent =>
    split
    · next hbytes => exact .passed e rfl hnext hbytes (by apply dispatch_passes <;> rfl)
    next bytes hbytes =>
    split
    · exact .refused e rfl hnext (fail_live _ _) (.of_eq (fail_inbound _ _))
    next hroom =>
    have hlimit := hroom
    rw [exceedsBinaryLimit, Bool.or_eq_true, not_or, decide_eq_true_eq, decide_eq_true_eq,
      not_lt] at hlimit
    have hregisters : registers platform options s e = true := by
      have hstale : s.stale e = false := Bool.eq_false_iff.mpr hcurrent
      have hfits : exceedsBinaryLimit options s.inbound bytes = false := Bool.eq_false_iff.mpr hroom
      rw [registers, hreceiving, hnext, hstale, hbytes, any_some, hfits]
      rfl
    exact .announced e bytes rfl hnext hbytes hregisters hlimit.2 (.refl _)
  · exact .untouched (.of_eq (fail_inbound _ _))

theorem inboundStep_binary (chunk : WorkerBinaryChunk) (answer : SessionAnswer) :
    InboundStep platform options none s (orFail (s.receiveBinary platform options chunk answer)) := by
  unfold receiveBinary
  split
  · exact .untouched (.of_eq (fail_inbound _ _))
  next pending hlookup =>
  let arrived : PendingBinary :=
    { pending with
      chunks := pending.chunks ++ [chunk.payload]
      nextChunk := pending.nextChunk + 1
      receivedBytes := pending.receivedBytes + chunk.payload.length }
  split
  · exact .untouched (.of_eq (fail_inbound _ _))
  dsimp only
  split
  · refine .part chunk.correlationId pending
      { pending with receivedBytes := pending.receivedBytes + chunk.payload.length } hlookup rfl
      (fun hlive => ?_) (.of_eq (fail_inbound _ _))
    rw [orFail, fail_live] at hlive
    cases hlive
  · split
    · exact .part chunk.correlationId pending arrived hlookup rfl
        (fun _ => ⟨chunk.payload, rfl, rfl⟩) (.refl _)
    · split
      · refine .part chunk.correlationId pending arrived hlookup rfl (fun hlive => ?_)
          (.of_eq (fail_inbound _ _))
        rw [orFail, fail_live] at hlive
        cases hlive
      · next hbytes =>
        rw [not_not] at hbytes
        refine .assembled chunk.correlationId pending chunk.payload hlookup hbytes.symm ?_
        rw [← hbytes, getD_some]
        apply dispatch_passes <;> rfl

/-! ## Steps -/

theorem aside_detach (s : WorkerSession) : Aside s.inbound s.detach.inbound := by
  unfold detach
  split
  · exact ⟨rfl⟩
  · exact ⟨rfl⟩

theorem aside_flush (s : WorkerSession) : Aside s.inbound (s.flush platform).inbound := by
  unfold flush
  split
  · exact ⟨rfl⟩
  · exact ⟨rfl⟩

/-- A step that is no business of requests, nor of arriving messages. -/
def SessionLabel.quiet : SessionLabel → Bool
  | .text _ _ | .binary _ _ | .request _ _ _ _ | .requestTimeout _ | .resume _ _ => false
  | _ => true

theorem aside_of_quiet {label : SessionLabel}
    (hs : step platform options s label = some s') (hquiet : label.quiet = true) :
    Aside s.inbound s'.inbound := by
  cases label with
  | onMessage listener =>
    rw [← some.inj hs]
    unfold onMessage
    dsimp only
    split
    · exact ⟨rfl⟩
    · exact ⟨rfl⟩
  | removeListener listener =>
    rw [← some.inj hs]
    exact ⟨rfl⟩
  | send type socket =>
    rw [← some.inj hs]
    unfold send
    split
    · exact ⟨rfl⟩
    split
    · exact ⟨rfl⟩
    · exact .of_eq (sendEnvelope_minor s socket).inbound
  | close =>
    rw [← some.inj hs]
    unfold close
    split
    · exact ⟨rfl⟩
    · exact ⟨rfl⟩
  | replace =>
    rw [← some.inj hs]
    unfold replace
    split
    · exact ⟨rfl⟩
    · exact ⟨rfl⟩
  | transportClosed endpointUnavailable =>
    rw [← some.inj hs]
    unfold transportClosed
    split
    · exact .of_eq (fail_inbound _ _)
    · exact aside_detach s
  | transportError =>
    rw [← some.inj hs]
    exact .of_eq (fail_inbound _ _)
  | handshakeTimeout =>
    rw [step] at hs
    split at hs
    · rw [← some.inj hs]
      exact .of_eq (fail_inbound _ _)
    · rw [← some.inj hs]
      exact ⟨rfl⟩
  | heartbeatExpired =>
    rw [← some.inj hs]
    unfold expire
    split
    · exact ⟨rfl⟩
    · exact ⟨rfl⟩
  | text frame answer | binary frame answer | request type messageId timeoutMs socket
  | requestTimeout messageId | resume index answer => cases hquiet

theorem untouched_request (s : WorkerSession) (type : WorkerMessageType) (messageId : JsString)
    (timeoutMs : Int) (socket : SocketAnswer) :
    Untouched s.inbound (s.request options type messageId timeoutMs socket).1.inbound := by
  have hwaiting : Untouched s.inbound (retainIssuedRequest options
      { s.inbound with
        pendingRequests := addId s.inbound.pendingRequests messageId
        requested := s.inbound.requested ++ [messageId] } messageId) :=
    ⟨rfl, rfl, rfl, rfl, rfl, rfl, rfl, subset_append_left _ _,
      fun h => retainIssuedRequest_subset h _⟩
  unfold request
  dsimp only
  split
  · exact .refl _
  split
  · exact .refl _
  split
  · exact .refl _
  split
  · exact hwaiting
  split
  · next hsend =>
    have hinbound := (congrArg (·.1.inbound) hsend).symm.trans (sendEnvelope_minor _ _).inbound
    rw [hinbound]
    exact hwaiting
  · next hsend =>
    have hinbound := (congrArg (·.1.inbound) hsend).symm.trans (sendEnvelope_minor _ _).inbound
    rw [hinbound]
    exact ⟨rfl, rfl, rfl, rfl, rfl, rfl, rfl, hwaiting.requested,
      fun h => List.Subset.trans erase_subset (hwaiting.issued h)⟩

theorem inboundStep_resume (ht : t.inbound = s.inbound)
    (answer : SessionAnswer) (hc : c ∈ s.continuations) :
    InboundStep platform options none s (resume platform t answer c) := by
  cases c with
  | hello | authentication | registered | ready | heartbeat | rejected thrown =>
    exact .untouched (.of_eq ((resume_minor t answer rfl).inbound.trans ht))
  | registration => exact .untouched (.of_eq ((resume_registration t answer).inbound.trans ht))
  | rejectPending =>
    refine .ended hc ?_
    rw [← ht]
    exact ⟨rfl, rfl, rfl, rfl, rfl, rfl, rfl, List.Subset.refl _, fun _ => nil_subset _⟩
  | detach =>
    refine .untouched ?_
    rw [← ht]
    exact (aside_detach t).untouched
  | flush =>
    refine .untouched ?_
    rw [← ht]
    exact (aside_flush t).untouched

/-- **One step.** -/
theorem inboundStep_of_step {label : SessionLabel} (hs : step platform options s label = some s') :
    InboundStep platform options label.envelope s s' := by
  cases label with
  | text frame answer =>
    obtain rfl := some.inj hs
    unfold receiveText
    split
    · exact .untouched (.refl _)
    next hreceives =>
    split
    · exact .untouched (.of_eq (fail_inbound _ _))
    refine inboundStep_text ?_ _ _
    rw [Bool.or_eq_true, not_or, decide_eq_true_eq, Bool.not_eq_true] at hreceives
    rw [receiving, hreceives.2, decide_eq_true hreceives.1]
    rfl
  | binary frame answer =>
    obtain rfl := some.inj hs
    unfold receiveBytes
    split
    · exact .untouched (.refl _)
    split
    · exact .untouched (.of_eq (fail_inbound _ _))
    · exact inboundStep_binary _ _
  | request type messageId timeoutMs socket =>
    obtain rfl := some.inj hs
    exact .untouched (untouched_request s type messageId timeoutMs socket)
  | requestTimeout messageId =>
    obtain rfl := some.inj hs
    unfold requestTimeout
    split
    · exact .untouched (untouched_settleRequest _ _)
    · exact .untouched (.refl _)
  | onMessage listener | removeListener listener | send type socket | close | replace
  | transportClosed endpointUnavailable | transportError | handshakeTimeout | heartbeatExpired =>
    exact .untouched (aside_of_quiet hs rfl).untouched
  | resume index answer =>
    obtain ⟨c, hc, rfl⟩ := map_eq_some_iff.mp hs
    apply inboundStep_resume
    · rfl
    · exact mem_of_getElem? hc

/-! ## What becomes of the handshake -/

inductive HandshakeStep (platform : SessionPlatform) (options : WorkerSessionOptions)
    (s s' : WorkerSession) : Prop
  | quiet (h : Quiet s s')
  /-- The session is replaced, or has expired. -/
  | unavailable (hlive : s.live = true) (h : s'.state = .unavailable)
      (hsame : SameHandshake s.handshake s'.handshake) (hawaits : s'.Awaits → s.Awaits)
  /-- A hello that goes wrong after the nonce is taken. -/
  | spoiled (hopen : s.state = .authenticating) (hfresh : s.handshake.remoteNonce = none)
      (h : s'.state = .closed)
      (hevents : s'.handshake.events = s.handshake.events)
  /-- A hello. A worker knows the principal already. -/
  | greeted (hopen : s.state = .authenticating) (hfresh : s.handshake.remoteNonce = none)
      (role : WorkerSessionRole) (nonce : JsString) (t : WorkerSession) (hrole : role ≠ options.role)
      (hnonce : t.handshake.remoteNonce = some nonce) (hremote : t.handshake.remoteRole = some role)
      (hpeer : t.handshake.peerAuthenticated = s.handshake.peerAuthenticated)
      (hpending : t.handshake.registrationPending = s.handshake.registrationPending)
      (hstate : t.state = s.state) (hawaits : t.Awaits → s.Awaits) (hends : t.Ends → s.Ends)
      (hclaim : options.role = .main → ∃ (workerId : JsString) (credential : Option JsString),
        t.handshake.principalWorkerId = some workerId ∧
        t.handshake.principalAuthorized = credential.isSome ∧
        (∀ c, credential = some c → t.handshake.credential = c) ∧
        t.handshake.events = s.handshake.events ++ [.claimed workerId nonce credential])
      (h : Quiet t s')
  | proved (hopen : s.state ≠ .closed) (workerId nonce proof : JsString) (role : WorkerSessionRole)
      (t : WorkerSession) (hpeer : s.handshake.peerAuthenticated = false)
      (hnonce : s.handshake.remoteNonce = some nonce)
      (hrole : s.handshake.remoteRole = some role)
      (hprincipal : s.handshake.principalWorkerId = some workerId)
      (hauthorized : s.handshake.principalAuthorized = true)
      (hverify : verifyAuthenticationProof platform (proofInput options s workerId nonce role)
        proof = true)
      (ht : t = { s with
        handshake :=
          { s.handshake with
            peerAuthenticated := true
            events := s.handshake.events ++
              [.proved (proofInput options s workerId nonce role) proof] } })
      (h : Quiet t s')
  | registered (registration : WorkerRegistration) (hstate : s.state = .authenticating)
      (hpeer : s.handshake.peerAuthenticated = true)
      (hpending : s.handshake.registrationPending = false)
      (hprincipal : s.handshake.principalWorkerId = some registration.workerId.text)
      (h : s'.state = .authenticating) (hends : s'.Ends → s.Ends)
      (hhandshake : s'.handshake = { s.handshake with
        registrationPending := true
        events := s.handshake.events ++ [.registered registration] })
  | ready (epoch : Nat) (hstate : s.state = .authenticating)
      (hcause : options.role = .worker ∨ s.Awaits) (h : s'.state = .ready)
      (hhandshake : s'.handshake = { s.handshake with
        events := s.handshake.events ++ [.ready epoch] })
      (hawaits : s'.Awaits → s.Awaits) (hends : s'.Ends → s.Ends)

theorem HandshakeStep.of_eq (h : HandshakeStep platform options t s')
    (hhandshake : t.handshake = s.handshake) (hstate : t.state = s.state)
    (hcontinuations : t.continuations = s.continuations) :
    HandshakeStep platform options s s' := by
  have hbefore : Quiet s t := .of_eq hhandshake hstate hcontinuations
  have hlive : t.live = s.live := by
    unfold live
    rw [hstate]
  have hends : ∀ u : WorkerSession, (u.Ends → t.Ends) → u.Ends → s.Ends := fun u h hu => by
    rw [Ends, ← hcontinuations]
    exact h hu
  have hinput : ∀ w n r, proofInput options t w n r = proofInput options s w n r := fun w n r => by
    unfold proofInput
    rw [hhandshake]
  cases h with
  | quiet h => exact .quiet (hbefore.trans h)
  | unavailable hl h hsame hawaits =>
    exact .unavailable (hlive ▸ hl) h (hhandshake ▸ hsame) (hbefore.awaits ∘ hawaits)
  | spoiled hopen hfresh h hevents =>
    exact .spoiled (hstate ▸ hopen) (hhandshake ▸ hfresh) h (hhandshake ▸ hevents)
  | greeted hopen hfresh role nonce u hrole hnonce hremote hpeer hpending hs hawaits hu hclaim h =>
    rw [hhandshake] at hfresh hpeer hpending hclaim
    exact .greeted (hstate ▸ hopen) hfresh role nonce u hrole hnonce hremote hpeer hpending
      (hs.trans hstate) (hbefore.awaits ∘ hawaits) (hends u hu) hclaim h
  | proved hopen workerId nonce proof role u hpeer hnonce hrole hprincipal hauthorized hverify hu h =>
    rw [hhandshake] at hpeer hnonce hrole hprincipal hauthorized hu
    rw [hinput] at hverify hu
    refine .proved (hstate ▸ hopen) workerId nonce proof role _ hpeer hnonce hrole hprincipal
      hauthorized hverify rfl (.trans ?_ h)
    subst hu
    exact .of_eq rfl hstate hcontinuations
  | registered registration hs hpeer hpending hprincipal h hs' heq =>
    rw [hhandshake] at hpeer hpending hprincipal heq
    exact .registered registration (hstate ▸ hs) hpeer hpending hprincipal h (hends s' hs') heq
  | ready epoch hs hcause h heq hawaits hs' =>
    rw [hhandshake] at heq
    exact .ready epoch (hstate ▸ hs) (hcause.imp_right hbefore.awaits) h heq
      (hbefore.awaits ∘ hawaits) (hends s' hs')

/-! ## Frames of the handshake -/

theorem helloClaim_role {payload : JsonFields} {role : WorkerSessionRole} {nonce : JsString}
    (h : helloClaim options payload = .ok (role, nonce)) : role ≠ options.role := by
  unfold helloClaim at h
  dsimp only [bind, Except.bind] at h
  split at h
  · cases h
  split at h
  · split at h
    · cases h
    · next hvalid =>
      obtain ⟨rfl, rfl⟩ := Prod.mk.inj (Except.ok.inj h)
      rw [Bool.or_eq_true, Bool.or_eq_true, not_or, not_or, decide_eq_true_eq] at hvalid
      exact hvalid.1.1
  · cases h

/-- What looking up the principal changes. -/
structure ClaimsPrincipal (options : WorkerSessionOptions) (nonce : JsString) (t : WorkerSession)
    (outcome : SessionOutcome) : Prop where
  state : outcome.1.state = t.state
  continuations : outcome.1.continuations = t.continuations
  remoteNonce : outcome.1.handshake.remoteNonce = t.handshake.remoteNonce
  remoteRole : outcome.1.handshake.remoteRole = t.handshake.remoteRole
  peerAuthenticated : outcome.1.handshake.peerAuthenticated = t.handshake.peerAuthenticated
  registrationPending : outcome.1.handshake.registrationPending = t.handshake.registrationPending
  thrown : ∀ thrown, outcome.2 = some thrown → outcome.1.handshake.events = t.handshake.events
  claimed : outcome.2 = none → options.role = .main →
    ∃ (workerId : JsString) (credential : Option JsString),
      outcome.1.handshake.principalWorkerId = some workerId ∧
      outcome.1.handshake.principalAuthorized = credential.isSome ∧
      (∀ c, credential = some c → outcome.1.handshake.credential = c) ∧
      outcome.1.handshake.events = t.handshake.events ++ [.claimed workerId nonce credential]

theorem claimPrincipal_claims (t : WorkerSession) (e : WorkerControlEnvelope)
    (payload : JsonFields) (nonce : JsString)
    (resolved : Except SessionThrown (Option JsString)) :
    ClaimsPrincipal options nonce t (t.claimPrincipal options e payload nonce resolved) := by
  have hthrown : ∀ thrown : SessionThrown, ClaimsPrincipal options nonce t (t, some thrown) :=
    fun thrown => ⟨rfl, rfl, rfl, rfl, rfl, rfl, fun _ _ => rfl, fun h => by cases h⟩
  unfold claimPrincipal
  split
  · next hworker =>
    exact ⟨rfl, rfl, rfl, rfl, rfl, rfl, fun _ h => (by cases h), fun _ h => absurd h hworker⟩
  split
  · next workerId _ =>
    split
    · exact hthrown _
    · exact hthrown _
    · exact ⟨rfl, rfl, rfl, rfl, rfl, rfl, fun _ h => (by cases h),
        fun _ _ => ⟨workerId, none, rfl, rfl, fun _ h => (by cases h), rfl⟩⟩
    · next credential _ =>
      split
      · exact ⟨rfl, rfl, rfl, rfl, rfl, rfl, fun _ _ => rfl, fun h => by cases h⟩
      next normalized _ =>
      exact ⟨rfl, rfl, rfl, rfl, rfl, rfl, fun _ h => (by cases h),
        fun _ _ => ⟨workerId, some normalized, rfl, rfl, fun _ h => some.inj h, rfl⟩⟩
  · exact hthrown _

theorem handshakeStep_hello (e : WorkerControlEnvelope) (answer : SessionAnswer) :
    HandshakeStep platform options s (orFail (s.receiveHello options e answer)) := by
  unfold receiveHello
  split
  · exact .quiet ((Quiet.refl s).fail _)
  next hopen =>
  rw [Bool.or_eq_true, not_or, decide_eq_true_eq, not_not] at hopen
  obtain ⟨hnonce, hstate⟩ := hopen
  have hfresh : s.handshake.remoteNonce = none := not_isSome_iff_eq_none.mp hnonce
  split
  · exact .quiet ((Quiet.refl s).fail _)
  next payload _ =>
  split
  · exact .quiet ((Quiet.refl s).fail _)
  next role nonce hclaim =>
  dsimp only
  let t : WorkerSession := { s with
    handshake :=
      { s.handshake with
        remoteRole := some role
        remoteNonce := some nonce
        remoteHelloSessionId := some e.sessionId } }
  have hclaims : ClaimsPrincipal options nonce t
      (t.claimPrincipal options e payload nonce answer.credential) :=
    claimPrincipal_claims t e payload nonce answer.credential
  have hgreeted : ∀ u : WorkerSession,
      t.claimPrincipal options e payload nonce answer.credential = (u, none) →
      ∀ u' : WorkerSession, Quiet u u' → HandshakeStep platform options s u' := by
    intro u hu u' hquiet
    rw [hu] at hclaims
    exact .greeted hstate hfresh role nonce u (helloClaim_role hclaim) hclaims.remoteNonce
      hclaims.remoteRole hclaims.peerAuthenticated hclaims.registrationPending hclaims.state
      (fun h => by rwa [Awaits, hclaims.continuations] at h)
      (fun h => by rwa [Ends, hclaims.continuations] at h) (hclaims.claimed rfl) hquiet
  split
  · next u thrown hu =>
    rw [show t.claimPrincipal options e payload nonce answer.credential = _ from hu] at hclaims
    refine .spoiled hstate hfresh (fail_state _ _ ?_) ?_
    · unfold live
      rw [hclaims.state, show t.state = _ from hstate]
      rfl
    · have hsame : (u.fail (receiveFailure thrown)).handshake = u.handshake := by
        unfold WorkerSession.fail
        split
        · rfl
        · rfl
      rw [orFail, hsame]
      exact hclaims.thrown thrown rfl
  · next u hu =>
    have hsend := (sendHello_minor u answer.socket).quiet
    split
    · next v thrown hv =>
      rw [hv] at hsend
      exact hgreeted u hu _ (hsend.fail _)
    next v hv =>
    rw [hv] at hsend
    exact hgreeted u hu _ (hsend.push rfl)

theorem handshakeStep_authentication (hopen : s.state ≠ .closed) (e : WorkerControlEnvelope)
    (answer : SessionAnswer) :
    HandshakeStep platform options s
      (orFail (s.receiveAuthentication platform options e answer)) := by
  unfold receiveAuthentication
  split
  · next hpeer hnonce hrole hprincipal =>
    split
    · exact .quiet ((Quiet.refl s).fail _)
    split
    · exact .quiet ((Quiet.refl s).fail _)
    · next proof _ _ =>
      dsimp only
      split
      · next hverify =>
        rw [Bool.and_eq_true] at hverify
        refine .proved hopen _ _ proof _ _ hpeer hnonce hrole hprincipal hverify.2 hverify.1 rfl ?_
        split
        · exact (sendRegistration_minor _ _).quiet.orFail
        · exact .refl _
      · exact .quiet ((Quiet.refl s).fail _)
    · exact .quiet ((Quiet.refl s).fail _)
  · exact .quiet ((Quiet.refl s).fail _)

/-- `#receiveRegistration` throws, or the registration is accepted. -/
theorem receiveRegistration_cases (options : WorkerSessionOptions) (s : WorkerSession)
    (e : WorkerControlEnvelope) :
    (∃ thrown, s.receiveRegistration options e = (s, some thrown)) ∨
      ∃ registration : WorkerRegistration,
        s.state = .authenticating ∧ s.handshake.peerAuthenticated = true ∧
        s.handshake.registrationPending = false ∧
        s.handshake.principalWorkerId = some registration.workerId.text ∧
        s.receiveRegistration options e = ({ s with
          handshake :=
            { s.handshake with
              registrationPending := true
              events := s.handshake.events ++ [HandshakeEvent.registered registration] } }.push
          .registration, none) := by
  unfold receiveRegistration
  split
  · exact .inl ⟨_, rfl⟩
  next hopen =>
  simp only [Bool.or_eq_true, not_or, decide_eq_true_eq, not_not, Bool.not_eq_true',
    Bool.not_eq_false, Bool.not_eq_true] at hopen
  obtain ⟨⟨⟨⟨⟨⟨-, hstate⟩, hpending⟩, hpeer⟩, -⟩, -⟩, -⟩ := hopen
  split
  · exact .inl ⟨_, rfl⟩
  split
  · exact .inl ⟨_, rfl⟩
  · exact .inl ⟨_, rfl⟩
  · next registration _ _ =>
    split
    · exact .inl ⟨_, rfl⟩
    · next hprincipal =>
      exact .inr ⟨registration, hstate, hpeer, hpending, (not_not.mp hprincipal).symm, rfl⟩

theorem becomeReady_ready {epoch : Nat} {rest : SessionContinuation}
    (hstate : s.state = .authenticating) (hcause : options.role = .worker ∨ s.Awaits)
    (hrest : harmless rest = true) (hnone : (s.becomeReady epoch rest) = (t, none)) :
    HandshakeStep platform options s t := by
  unfold becomeReady at hnone
  split at hnone
  · cases hnone
  obtain rfl := (Prod.mk.inj hnone).1
  refine .ready epoch hstate hcause rfl rfl (fun hawaits => ?_) fun hends => ?_
  · refine mem_continuations_push ?_ hawaits
    rintro rfl
    cases hrest
  · refine mem_continuations_push ?_ hends
    rintro rfl
    cases hrest

theorem becomeReady_thrown {epoch : Nat} {rest : SessionContinuation}
    {thrown : SessionThrown} (h : (s.becomeReady epoch rest) = (t, some thrown)) : t = s := by
  unfold becomeReady at h
  split at h
  · exact (Prod.mk.inj h).1.symm
  · cases h

theorem handshakeStep_ready (e : WorkerControlEnvelope) :
    HandshakeStep platform options s (orFail (s.receiveReady options e)) := by
  unfold receiveReady
  split
  · exact .quiet ((Quiet.refl s).fail _)
  next hopen =>
  simp only [Bool.or_eq_true, not_or, decide_eq_true_eq, not_not] at hopen
  obtain ⟨⟨⟨hrole, hstate⟩, -⟩, -⟩ := hopen
  split
  · exact .quiet ((Quiet.refl s).fail _)
  split
  · exact .quiet ((Quiet.refl s).fail _)
  next epoch _ =>
  cases hready : s.becomeReady epoch .ready with
  | mk t thrown =>
    cases thrown with
    | none => exact becomeReady_ready hstate (.inl hrole) rfl hready
    | some thrown =>
      obtain rfl := becomeReady_thrown hready
      exact .quiet ((Quiet.refl _).fail _)

theorem dispatchMessage_calm (s : WorkerSession) (m : WorkerSessionMessage) :
    Quiet s (s.dispatchMessage platform options m).1 ∧
      Winds s (s.dispatchMessage platform options m).1 := by
  have hset : ∀ i, Quiet s { s with inbound := i } ∧ Winds s { s with inbound := i } := fun i =>
    ⟨.of_eq rfl rfl rfl, .of_eq rfl rfl⟩
  unfold dispatchMessage
  dsimp only
  split
  · split
    · exact hset _
    · split
      · exact hset _
      · exact hset _
  · split
    · split
      · exact hset _
      · exact hset _
    · exact hset _

theorem handshakeStep_dispatch (hopen : s.state ≠ .closed) (m : WorkerSessionMessage) (answer : SessionAnswer) :
    HandshakeStep platform options s (orFail (s.dispatch platform options m answer)) := by
  unfold dispatch
  dsimp only
  split
  · exact (handshakeStep_hello _ _).of_eq rfl rfl rfl
  · refine (handshakeStep_authentication ?_ _ _).of_eq rfl rfl rfl
    exact hopen
  · refine HandshakeStep.of_eq (t := { s with
      inbound := { s.inbound with dispatched := s.inbound.dispatched ++ [m] } }) ?_ rfl rfl rfl
    rcases receiveRegistration_cases options { s with
      inbound := { s.inbound with dispatched := s.inbound.dispatched ++ [m] } } m.envelope with
      ⟨thrown, heq⟩ | ⟨registration, hstate, hpeer, hpending, hprincipal, heq⟩
    · rw [heq]
      exact .quiet ((Quiet.refl _).push rfl)
    · rw [heq]
      exact .registered registration hstate hpeer hpending hprincipal hstate
        (mem_continuations_push (by intro h; cases h)) rfl
  · exact (handshakeStep_ready _).of_eq rfl rfl rfl
  · exact .quiet (.of_eq rfl rfl rfl)
  · split
    · refine .quiet (Quiet.fail ?_ _)
      exact .of_eq rfl rfl rfl
    · have hbefore : Quiet s { s with
          inbound := { s.inbound with dispatched := s.inbound.dispatched ++ [m] } } :=
        .of_eq rfl rfl rfl
      exact .quiet (hbefore.trans (dispatchMessage_calm _ m).1).orFail

theorem handshakeStep_text (hopen : s.state ≠ .closed) (e : WorkerControlEnvelope) (answer : SessionAnswer) :
    HandshakeStep platform options s (orFail (s.receiveControl platform options e answer)) := by
  unfold receiveControl
  split
  · exact .quiet (.refl s)
  · unfold acceptControl
    dsimp only
    split
    · refine .quiet (Quiet.fail ?_ _)
      exact .of_eq rfl rfl rfl
    split
    · refine (handshakeStep_dispatch ?_ _ _).of_eq rfl rfl rfl
      exact hopen
    split
    · refine .quiet (Quiet.fail ?_ _)
      exact .of_eq rfl rfl rfl
    · exact .quiet (.of_eq rfl rfl rfl)
  · exact .quiet ((Quiet.refl s).fail _)

theorem handshakeStep_binary (hopen : s.state ≠ .closed) (chunk : WorkerBinaryChunk) (answer : SessionAnswer) :
    HandshakeStep platform options s (orFail (s.receiveBinary platform options chunk answer)) := by
  unfold receiveBinary
  split
  · exact .quiet ((Quiet.refl s).fail _)
  split
  · exact .quiet ((Quiet.refl s).fail _)
  dsimp only
  split
  · refine .quiet (Quiet.fail ?_ _)
    exact .of_eq rfl rfl rfl
  split
  · exact .quiet (.of_eq rfl rfl rfl)
  split
  · refine .quiet (Quiet.fail ?_ _)
    exact .of_eq rfl rfl rfl
  · refine (handshakeStep_dispatch ?_ _ _).of_eq rfl rfl rfl
    exact hopen

/-! ## Steps and the handshake -/

theorem handshakeStep_resume {answer : SessionAnswer}
    (hhandshake : t.handshake = s.handshake) (hstate : t.state = s.state)
    (hcontinuations : ∀ c', c' ∈ t.continuations → c' ∈ s.continuations)
    (hc : c ∈ s.continuations) :
    HandshakeStep platform options s (resume platform t answer c) := by
  have hbefore : Quiet s t := ⟨hhandshake ▸ .refl _, .inl hstate, hcontinuations _,
    fun h => .inl (hcontinuations _ h)⟩
  cases c with
  | hello | authentication | registered | ready | heartbeat | rejected thrown =>
    exact .quiet (hbefore.trans (resume_minor t answer rfl).quiet)
  | registration =>
    have hrejected : ∀ thrown, HandshakeStep platform options s (t.push (.rejected thrown)) :=
      fun thrown => .quiet (hbefore.push rfl)
    rw [resume]
    unfold finishRegistration
    cases answer.epoch with
    | error thrown => exact hrejected thrown
    | ok epoch =>
      dsimp only
      by_cases hopen : t.state = .authenticating
      · rw [if_neg (not_not.mpr hopen)]
        cases hready : t.becomeReady epoch .registered with
        | mk u thrown =>
          cases thrown with
          | some thrown =>
            obtain rfl := becomeReady_thrown hready
            exact hrejected thrown
          | none =>
            unfold becomeReady at hready
            split at hready
            · cases hready
            obtain rfl := (Prod.mk.inj hready).1
            refine .ready epoch (hstate ▸ hopen) (.inr hc) rfl ?_ (fun hawaits => ?_)
              fun hends => ?_
            · rw [← hhandshake]
              rfl
            · exact hcontinuations _ (mem_continuations_push (by intro h; cases h) hawaits)
            · exact hcontinuations _ (mem_continuations_push (by intro h; cases h) hends)
      · rw [if_pos hopen]
        exact .quiet hbefore
  | rejectPending =>
    have hreject : Quiet t t.rejectPending := .of_eq rfl rfl rfl
    exact .quiet ((hbefore.trans hreject).push rfl)
  | detach => exact .quiet (hbefore.trans (.detach t))
  | flush =>
    rw [resume, flush]
    split
    · exact .quiet (hbefore.trans (.of_eq rfl rfl rfl))
    · refine .quiet (Quiet.push ?_ rfl)
      exact hbefore.trans (.of_eq rfl rfl rfl)

/-- A step that leaves the handshake alone, and may fail. -/
def SessionLabel.calm : SessionLabel → Bool
  | .text _ _ | .binary _ _ | .close | .replace | .heartbeatExpired | .resume _ _ => false
  | _ => true

theorem request_calm (type : WorkerMessageType) (messageId : JsString) (timeoutMs : Int)
    (socket : SocketAnswer) :
    Quiet s (s.request options type messageId timeoutMs socket).1 ∧
      Winds s (s.request options type messageId timeoutMs socket).1 := by
  unfold request
  dsimp only
  split
  · exact ⟨.refl s, .refl s⟩
  split
  · exact ⟨.refl s, .refl s⟩
  split
  · exact ⟨.refl s, .refl s⟩
  split
  · exact ⟨.of_eq rfl rfl rfl, .of_eq rfl rfl⟩
  let waiting : WorkerSession := { s with
    inbound := retainIssuedRequest options
      { s.inbound with
        pendingRequests := addId s.inbound.pendingRequests messageId
        requested := s.inbound.requested ++ [messageId] } messageId }
  have hsend := sendEnvelope_minor waiting socket
  have hquiet : Quiet s (waiting.sendEnvelope socket).1 :=
    (Quiet.of_eq rfl rfl rfl : Quiet s waiting).trans hsend.quiet
  have hwinds : Winds s (waiting.sendEnvelope socket).1 :=
    (Winds.of_eq rfl rfl : Winds s waiting).trans hsend.winds
  split
  · next heq =>
    rw [heq] at hquiet hwinds
    exact ⟨hquiet, hwinds⟩
  next heq =>
  rw [heq] at hquiet hwinds
  exact ⟨hquiet.trans (.of_eq rfl rfl rfl), hwinds.trans (.of_eq rfl rfl)⟩

theorem calm_of_step {label : SessionLabel} (hs : step platform options s label = some s')
    (hcalm : label.calm = true) : Quiet s s' ∧ Winds s s' := by
  have hfail : ∀ d, Quiet s (s.fail d) ∧ Winds s (s.fail d) := fun d =>
    ⟨(Quiet.refl s).fail d, (Winds.refl s).fail d⟩
  cases label with
  | onMessage listener =>
    rw [← some.inj hs, onMessage]
    dsimp only
    split
    · refine ⟨Quiet.push ?_ rfl, Winds.push ?_ _⟩
      · exact .of_eq rfl rfl rfl
      · exact .of_eq rfl rfl
    · exact ⟨.of_eq rfl rfl rfl, .of_eq rfl rfl⟩
  | removeListener listener =>
    rw [← some.inj hs]
    exact ⟨.of_eq rfl rfl rfl, .of_eq rfl rfl⟩
  | send type socket =>
    rw [← some.inj hs, send]
    split
    · exact ⟨.refl s, .refl s⟩
    split
    · exact ⟨.refl s, .refl s⟩
    · exact ⟨(sendEnvelope_minor s socket).quiet, (sendEnvelope_minor s socket).winds⟩
  | request type messageId timeoutMs socket =>
    rw [← some.inj hs]
    exact request_calm type messageId timeoutMs socket
  | requestTimeout messageId =>
    rw [← some.inj hs, requestTimeout]
    split
    · exact ⟨.of_eq rfl rfl rfl, .of_eq rfl rfl⟩
    · exact ⟨.refl s, .refl s⟩
  | transportClosed endpointUnavailable =>
    rw [← some.inj hs, transportClosed]
    split
    · exact hfail _
    · exact ⟨.detach s, .detach s⟩
  | transportError =>
    rw [← some.inj hs]
    exact hfail _
  | handshakeTimeout =>
    rw [step] at hs
    split at hs
    · rw [← some.inj hs]
      exact hfail _
    · rw [← some.inj hs]
      exact ⟨.refl s, .refl s⟩
  | text frame answer | binary frame answer | close | replace | heartbeatExpired
  | resume index answer => cases hcalm

/-- **One step**, seen from the handshake. -/
theorem handshakeStep_of_step {label : SessionLabel}
    (hs : step platform options s label = some s') : HandshakeStep platform options s s' := by
  cases label with
  | text frame answer =>
    obtain rfl := some.inj hs
    unfold receiveText
    split
    · exact .quiet (.refl s)
    next hreceives =>
    rw [Bool.or_eq_true, not_or, decide_eq_true_eq] at hreceives
    have hopen := hreceives.1
    split
    · exact .quiet ((Quiet.refl s).fail _)
    · exact handshakeStep_text hopen _ _
  | binary frame answer =>
    obtain rfl := some.inj hs
    unfold receiveBytes
    split
    · exact .quiet (.refl s)
    next hreceives =>
    rw [Bool.or_eq_true, not_or, decide_eq_true_eq] at hreceives
    have hopen := hreceives.1
    split
    · exact .quiet ((Quiet.refl s).fail _)
    · exact handshakeStep_binary hopen _ _
  | onMessage listener | removeListener listener | send type socket
  | request type messageId timeoutMs socket | requestTimeout messageId
  | transportClosed endpointUnavailable | transportError | handshakeTimeout =>
    exact .quiet (calm_of_step hs rfl).1
  | close =>
    obtain rfl := some.inj hs
    unfold close
    split
    · exact .quiet (.refl s)
    · exact .quiet ⟨.refl _, .inr rfl, mem_continuations_push (by intro h; cases h),
        fun _ => .inr rfl⟩
  | replace =>
    obtain rfl := some.inj hs
    unfold replace
    split
    · next hlive =>
      refine .unavailable hlive rfl (.refl _) fun hawaits => ?_
      exact (mem_append.mp hawaits).resolve_right fun hmem => by
        cases mem_singleton.mp hmem
    · exact .quiet (.refl s)
  | heartbeatExpired =>
    obtain rfl := some.inj hs
    unfold expire
    split
    · next hready =>
      refine .unavailable ?_ rfl (.refl _) fun hawaits => ?_
      · rw [live, hready]
        rfl
      · exact (mem_append.mp hawaits).resolve_right fun hmem => by
          cases mem_singleton.mp hmem
    · exact .quiet (.refl s)
  | resume index answer =>
    obtain ⟨c, hc, rfl⟩ := map_eq_some_iff.mp hs
    have hsub : s.continuations.eraseIdx index ⊆ s.continuations := (eraseIdx_sublist _ _).subset
    apply handshakeStep_resume
    · rfl
    · rfl
    · exact fun c' hc' => hsub hc'
    · exact mem_of_getElem? hc

theorem HandshakeStep.ends (h : HandshakeStep platform options s s') (hends : s'.Ends) :
    s.Ends ∨ s'.live = false := by
  cases h with
  | quiet h => exact h.ends hends
  | unavailable hlive h =>
    refine .inr ?_
    rw [WorkerSession.live, h]
    rfl
  | spoiled hopen hfresh h => exact .inr (live_closed h)
  | greeted hopen hfresh role nonce t hrole hnonce hremote hpeer hpending hstate hawaits ht hclaim h =>
    exact (h.ends hends).imp_left ht
  | proved hopen workerId nonce proof role t hpeer hnonce hrole hprincipal hauthorized hverify ht h =>
    subst ht
    exact h.ends hends
  | registered registration hstate hpeer hpending hprincipal h hs'
  | ready epoch hstate hcause h hhandshake hawaits hs' => exact .inl (hs' hends)

theorem HandshakeStep.closed (h : HandshakeStep platform options s s')
    (hclosed : s.state = .closed) : s'.state = .closed := by
  have hnot : s.state ≠ .authenticating := fun heq => by
    rw [hclosed] at heq
    cases heq
  cases h with
  | quiet h => exact h.state.elim (fun heq => heq.trans hclosed) id
  | unavailable hlive =>
    rw [live, hclosed] at hlive
    cases hlive
  | spoiled hopen hfresh h => exact h
  | greeted hopen => exact absurd hopen hnot
  | proved hopen => exact absurd hclosed hopen
  | registered registration hstate | ready epoch hstate => exact absurd hstate hnot

theorem HandshakeStep.live (h : HandshakeStep platform options s s') (hlive : s'.live = true) :
    s.live = true := by
  have hof : s'.state = s.state → s.live = true := fun heq => by
    rwa [WorkerSession.live, ← heq]
  have hquiet : ∀ t : WorkerSession, t.state = s.state → Quiet t s' → s.live = true :=
    fun t ht hq => by
      rcases hq.state with heq | hclosed
      · exact hof (heq.trans ht)
      · rw [WorkerSession.live, hclosed] at hlive
        cases hlive
  cases h with
  | quiet h => exact hquiet s rfl h
  | unavailable hl => exact hl
  | spoiled hopen hfresh h =>
    rw [WorkerSession.live, h] at hlive
    cases hlive
  | greeted hopen hfresh role nonce t hrole hnonce hremote hpeer hpending hstate hawaits hends hclaim
      h => exact hquiet t hstate h
  | proved hopen workerId nonce proof role t hpeer hnonce hrole hprincipal hauthorized hverify ht h =>
    exact hquiet t (by rw [ht]) h
  | registered registration hstate hpeer hpending hprincipal h => exact hof (h.trans hstate.symm)
  | ready epoch hstate =>
    rw [WorkerSession.live, hstate]
    rfl

end WorkerSession

end TegoNext
