/-
What one step of a `WorkerSession` does to the requests it has made.

Most steps leave the tables of requests alone. An arriving message may settle the request it is
correlated to, or, correlated to none that is known, end the session (`Receives`). A session that
is over has what is left of its end among its continuations, so that what still waits is rejected
(`Winds`).
-/
import TegoNext.RequestTables

set_option autoImplicit false

namespace TegoNext

open List Option

namespace WorkerSession

variable {platform : SessionPlatform} {options : WorkerSessionOptions} {s s' s'' : WorkerSession}

/-! ## The end of a session stays to be done -/

namespace Winds

variable (s : WorkerSession) (envelope : WorkerControlEnvelope) (answer : SessionAnswer)

theorem dispatch (m : WorkerSessionMessage) (answer : SessionAnswer) :
    Winds s (s.dispatch platform options m answer).1 := by
  have hset : Winds s { s with
      inbound := { s.inbound with dispatched := s.inbound.dispatched ++ [m] } } := of_eq rfl rfl
  apply hset.trans
  unfold WorkerSession.dispatch
  dsimp only
  split
  · exact (receiveHello_mild _ _ _).winds
  · exact (receiveAuthentication_mild _ _ _).winds
  · have hregistration := (@receiveRegistration_mild options { s with
      inbound := { s.inbound with dispatched := s.inbound.dispatched ++ [m] } } m.envelope).winds
    split
    · next heq =>
      rw [heq] at hregistration
      exact hregistration.push _
    next heq =>
    rw [heq] at hregistration
    exact hregistration
  · exact (receiveReady_mild _ _).winds
  · exact refl _
  · split
    · exact refl _
    · exact (dispatchMessage_calm _ _).2

theorem receiveControl : Winds s (s.receiveControl platform options envelope answer).1 := by
  unfold WorkerSession.receiveControl
  split
  · exact refl _
  · unfold acceptControl
    dsimp only
    split
    · exact of_eq rfl rfl
    split
    · refine Winds.trans ?_ (dispatch _ _ _)
      exact of_eq rfl rfl
    split
    · exact of_eq rfl rfl
    · exact of_eq rfl rfl
  · exact refl _

theorem receiveBinary (chunk : WorkerBinaryChunk) (answer : SessionAnswer) :
    Winds s (s.receiveBinary platform options chunk answer).1 := by
  unfold WorkerSession.receiveBinary
  split
  · exact refl _
  split
  · exact refl _
  dsimp only
  split
  · exact of_eq rfl rfl
  split
  · exact of_eq rfl rfl
  split
  · exact of_eq rfl rfl
  · refine Winds.trans ?_ (dispatch _ _ _)
    exact of_eq rfl rfl

theorem resume (c : SessionContinuation) : Winds s (resume platform s answer c) := by
  cases c with
  | hello | authentication | registered | ready | heartbeat | rejected thrown =>
    exact (resume_minor s answer rfl).winds
  | registration => exact (resume_registration s answer).winds
  | rejectPending => exact (of_eq rfl rfl : Winds s s.rejectPending).push _
  | detach => exact detach s
  | flush =>
    rw [WorkerSession.resume, flush]
    split
    · exact of_eq rfl rfl
    · refine Winds.push ?_ _
      exact of_eq rfl rfl

theorem close : Winds s s.close := by
  unfold WorkerSession.close
  split
  · exact refl s
  · exact ⟨subset_append_left _ _, fun _ => .inr (mem_append_right _ (mem_singleton_self _))⟩

theorem replace : Winds s s.replace := by
  unfold WorkerSession.replace
  split
  · exact ⟨subset_append_left _ _, fun _ => .inr (mem_append_right _ (mem_singleton_self _))⟩
  · exact refl s

theorem expire : Winds s s.expire := by
  unfold WorkerSession.expire
  split
  · exact ⟨subset_append_left _ _, fun _ => .inr (mem_append_right _ (mem_singleton_self _))⟩
  · exact refl s

end Winds

/-- A step other than `resume` adds continuations only. -/
theorem winds_of_step {label : SessionLabel} (hs : step platform options s label = some s')
    (hresume : ∀ index answer, label ≠ .resume index answer) : Winds s s' := by
  cases label with
  | text frame answer =>
    rw [← some.inj hs]
    unfold receiveText
    split
    · exact .refl s
    split
    · exact (Winds.refl s).fail _
    · exact (Winds.receiveControl _ _ _).orFail
  | binary frame answer =>
    rw [← some.inj hs]
    unfold receiveBytes
    split
    · exact .refl s
    split
    · exact (Winds.refl s).fail _
    · exact (Winds.receiveBinary _ _ _).orFail
  | onMessage listener | removeListener listener | send type socket
  | request type messageId timeoutMs socket | requestTimeout messageId
  | transportClosed endpointUnavailable | transportError | handshakeTimeout =>
    exact (calm_of_step hs rfl).2
  | close =>
    rw [← some.inj hs]
    exact .close s
  | replace =>
    rw [← some.inj hs]
    exact .replace s
  | heartbeatExpired =>
    rw [← some.inj hs]
    exact .expire s
  | resume index answer => exact absurd rfl (hresume index answer)

/-! ## What arriving messages do to requests -/

/-- The tables of requests, and what has come in. -/
structure SameRequests (i i' : SessionInbound) : Prop where
  pendingRequests : i'.pendingRequests = i.pendingRequests
  issuedRequestIds : i'.issuedRequestIds = i.issuedRequestIds
  issuedRequestOrder : i'.issuedRequestOrder = i.issuedRequestOrder
  requested : i'.requested = i.requested
  dispatched : i'.dispatched = i.dispatched
  messages : i'.messages = i.messages

theorem SameRequests.of_eq {i i' : SessionInbound} (h : i' = i) : SameRequests i i' := by
  rw [h]
  exact ⟨rfl, rfl, rfl, rfl, rfl, rfl⟩

theorem SameRequests.refl (i : SessionInbound) : SameRequests i i := .of_eq rfl

/-- What a frame does to the requests of a session with these arriving messages. -/
inductive Receives (options : WorkerSessionOptions) (live : Bool) (i : SessionInbound)
    (s' : WorkerSession) : Prop
  | kept (h : SameRequests i s'.inbound)
  | handshake (m : WorkerSessionMessage) (hreserved : m.envelope.type.reserved = true)
      (h : SameRequests { i with dispatched := i.dispatched ++ [m] } s'.inbound)
  | refused (m : WorkerSessionMessage) (hdead : s'.live = false)
      (hclosed : live = true → s'.state = .closed)
      (h : SameRequests { i with dispatched := i.dispatched ++ [m] } s'.inbound)
  /-- An answer to a request that no longer waits. -/
  | late (m : WorkerSessionMessage) (hissued : m.envelope.correlationId ∈ i.issuedRequestIds)
      (h : SameRequests { i with dispatched := i.dispatched ++ [m] } s'.inbound)
  | message (m : WorkerSessionMessage) (hown : m.envelope.correlationId = m.envelope.messageId)
      (h : SameRequests { i with
        dispatched := i.dispatched ++ [m]
        messages := i.messages ++ [m] } s'.inbound)
  | answered (m : WorkerSessionMessage) (hanswer : m.envelope.correlationId ≠ m.envelope.messageId)
      (hwaits : m.envelope.correlationId ∈ i.pendingRequests)
      (h : SameRequests (settleRequest options { i with
        dispatched := i.dispatched ++ [m]
        messages := i.messages ++ [m] } m.envelope.correlationId) s'.inbound)

theorem Receives.congr {live : Bool} {i i' : SessionInbound} (h : Receives options live i' s')
    (hpending : i'.pendingRequests = i.pendingRequests)
    (hissued : i'.issuedRequestIds = i.issuedRequestIds)
    (horder : i'.issuedRequestOrder = i.issuedRequestOrder)
    (hrequested : i'.requested = i.requested) (hdispatched : i'.dispatched = i.dispatched)
    (hmessages : i'.messages = i.messages) : Receives options live i s' := by
  obtain ⟨received, pendingBinary, pendingBinaryBytes, pending, issued, order, listeners,
    pendingMessages, pendingMessageBytes, flushing, accepted, dispatched, messages, late,
    requested⟩ := i'
  subst hpending hissued horder hrequested hdispatched hmessages
  cases h with
  | kept h => exact .kept ⟨h.1, h.2, h.3, h.4, h.5, h.6⟩
  | handshake m hreserved h => exact .handshake m hreserved ⟨h.1, h.2, h.3, h.4, h.5, h.6⟩
  | refused m hdead hclosed h => exact .refused m hdead hclosed ⟨h.1, h.2, h.3, h.4, h.5, h.6⟩
  | late m hissued h => exact .late m hissued ⟨h.1, h.2, h.3, h.4, h.5, h.6⟩
  | message m hown h => exact .message m hown ⟨h.1, h.2, h.3, h.4, h.5, h.6⟩
  | answered m hanswer hwaits h => exact .answered m hanswer hwaits ⟨h.1, h.2, h.3, h.4, h.5, h.6⟩

theorem receives_dispatchMessage {m : WorkerSessionMessage} {i : SessionInbound}
    (h : s.inbound = { i with dispatched := i.dispatched ++ [m] }) :
    Receives options s.live i (orFail (s.dispatchMessage platform options m)) := by
  have hmessages : s.inbound.messages = i.messages := by rw [h]
  have hpending : s.inbound.pendingRequests = i.pendingRequests := by rw [h]
  have hissued : s.inbound.issuedRequestIds = i.issuedRequestIds := by rw [h]
  unfold dispatchMessage
  dsimp only
  split
  · next hanswer =>
    split
    · next hwaits =>
      refine .answered m hanswer (hpending ▸ hwaits) ?_
      rw [orFail, hmessages, h]
      exact .refl _
    · split
      · next hlate =>
        refine .late m (hissued ▸ hlate) ?_
        rw [orFail, h]
        exact ⟨rfl, rfl, rfl, rfl, rfl, rfl⟩
      · refine .refused m (fail_live _ _) (fail_state s _) (.of_eq ?_)
        rw [orFail, fail_inbound, h]
  · next hown =>
    rw [not_not] at hown
    split
    · split
      · refine .refused m (fail_live _ _) (fail_state s _) (.of_eq ?_)
        rw [orFail, fail_inbound, h]
      · refine .message m hown ?_
        rw [orFail, hmessages, h]
        exact ⟨rfl, rfl, rfl, rfl, rfl, rfl⟩
    · refine .message m hown ?_
      rw [orFail, hmessages, h]
      exact ⟨rfl, rfl, rfl, rfl, rfl, rfl⟩

theorem receives_dispatch {live : Bool} (hlive : s.live = live) (m : WorkerSessionMessage)
    (answer : SessionAnswer) :
    Receives options live s.inbound (orFail (s.dispatch platform options m answer)) := by
  subst hlive
  unfold dispatch
  dsimp only
  split
  · next htype =>
    refine .handshake m (by rw [htype]; rfl) (.of_eq ?_)
    exact (orFail_inbound _).trans (receiveHello_mild _ _ _).inbound
  · next htype =>
    refine .handshake m (by rw [htype]; rfl) (.of_eq ?_)
    exact (orFail_inbound _).trans (receiveAuthentication_mild _ _ _).inbound
  · next htype =>
    refine .handshake m (by rw [htype]; rfl) (.of_eq ?_)
    have hinbound := (@receiveRegistration_mild options { s with
      inbound := { s.inbound with dispatched := s.inbound.dispatched ++ [m] } } m.envelope).inbound
    split
    · next heq =>
      rw [heq] at hinbound
      exact hinbound
    next heq =>
    rw [heq] at hinbound
    exact hinbound
  · next htype =>
    refine .handshake m (by rw [htype]; rfl) (.of_eq ?_)
    exact (orFail_inbound _).trans (receiveReady_mild _ _).inbound
  · next htype => exact .handshake m (by rw [htype]; rfl) (.refl _)
  · split
    · refine .refused m (fail_live _ _) (fun hlive => ?_) (.of_eq (fail_inbound _ _))
      apply fail_state
      exact hlive
    · have hreceives := @receives_dispatchMessage platform options { s with
        inbound := { s.inbound with dispatched := s.inbound.dispatched ++ [m] } } m s.inbound rfl
      exact hreceives

theorem receives_control (envelope : WorkerControlEnvelope) (answer : SessionAnswer) :
    Receives options s.live s.inbound
      (orFail (s.receiveControl platform options envelope answer)) := by
  unfold receiveControl
  split
  · exact .kept (.refl _)
  · unfold acceptControl
    dsimp only
    split
    · refine .kept ?_
      rw [orFail, fail_inbound]
      exact ⟨rfl, rfl, rfl, rfl, rfl, rfl⟩
    split
    · refine (receives_dispatch ?_ _ _).congr ?_ ?_ ?_ ?_ ?_ ?_ <;> rfl
    split
    · refine .kept ?_
      rw [orFail, fail_inbound]
      exact ⟨rfl, rfl, rfl, rfl, rfl, rfl⟩
    · exact .kept ⟨rfl, rfl, rfl, rfl, rfl, rfl⟩
  · exact .kept (.of_eq (fail_inbound _ _))

theorem receives_binary (chunk : WorkerBinaryChunk) (answer : SessionAnswer) :
    Receives options s.live s.inbound (orFail (s.receiveBinary platform options chunk answer)) := by
  have hkept : ∀ {t : WorkerSession} (thrown : SessionThrown), SameRequests s.inbound t.inbound →
      Receives options s.live s.inbound (orFail (t, some thrown)) := by
    intro t thrown h
    refine .kept ?_
    rw [orFail, fail_inbound]
    exact h
  unfold receiveBinary
  split
  · exact hkept _ (.refl _)
  split
  · exact hkept _ (.refl _)
  dsimp only
  split
  · exact hkept _ ⟨rfl, rfl, rfl, rfl, rfl, rfl⟩
  split
  · exact .kept ⟨rfl, rfl, rfl, rfl, rfl, rfl⟩
  split
  · exact hkept _ ⟨rfl, rfl, rfl, rfl, rfl, rfl⟩
  · refine (receives_dispatch ?_ _ _).congr ?_ ?_ ?_ ?_ ?_ ?_ <;> rfl

theorem receives_text (frame : Except SessionThrown WorkerControlEnvelope)
    (answer : SessionAnswer) :
    Receives options s.live s.inbound (s.receiveText platform options frame answer) := by
  unfold receiveText
  split
  · exact .kept (.refl _)
  split
  · exact .kept (.of_eq (fail_inbound _ _))
  · exact receives_control _ _

theorem receives_bytes (frame : Except SessionThrown WorkerBinaryChunk) (answer : SessionAnswer) :
    Receives options s.live s.inbound (s.receiveBytes platform options frame answer) := by
  unfold receiveBytes
  split
  · exact .kept (.refl _)
  split
  · exact .kept (.of_eq (fail_inbound _ _))
  · exact receives_binary _ _

/-! ## What leaves requests alone -/

theorem Aside.sameRequests {i i' : SessionInbound} (h : Aside i i') : SameRequests i i' := by
  rw [h.rest]
  exact ⟨rfl, rfl, rfl, rfl, rfl, rfl⟩

theorem sameRequests_of_quiet {label : SessionLabel}
    (hs : step platform options s label = some s') (hquiet : label.quiet = true) :
    SameRequests s.inbound s'.inbound :=
  (aside_of_quiet hs hquiet).sameRequests

theorem sameRequests_resume (s : WorkerSession) (answer : SessionAnswer) {c : SessionContinuation}
    (hc : c ≠ .rejectPending) : SameRequests s.inbound (resume platform s answer c).inbound := by
  cases c with
  | hello | authentication | registered | ready | heartbeat | rejected thrown =>
    exact .of_eq (resume_minor s answer rfl).inbound
  | registration => exact .of_eq (resume_registration s answer).inbound
  | rejectPending => exact absurd rfl hc
  | detach => exact (aside_detach s).sameRequests
  | flush => exact (aside_flush s).sameRequests

/-! ## Requests -/

/-- A call of `request` that passes its guards. -/
def admits (options : WorkerSessionOptions) (s : WorkerSession) (type : WorkerMessageType) : Bool :=
  !type.reserved && s.inbound.pendingRequests.length < options.limits.maxInflightMessages &&
    s.state = .ready && s.available

/-- `positiveDuration` accepts. -/
def positiveDuration (timeoutMs : Int) : Bool := 0 < timeoutMs && timeoutMs ≤ maxSafeInteger

def registered (options : WorkerSessionOptions) (s : WorkerSession) (id : JsString) :
    WorkerSession :=
  { s with inbound := pruneIssuedRequests options (entered s.inbound id) }

theorem request_refused {type : WorkerMessageType} (h : admits options s type = false)
    (id : JsString) (timeoutMs : Int) (socket : SocketAnswer) :
    (s.request options type id timeoutMs socket).1 = s := by
  unfold request
  split
  · rfl
  next hreserved =>
  split
  · rfl
  next hroom =>
  split
  · rfl
  next hready =>
  exfalso
  rw [Bool.or_eq_true, not_or, decide_eq_true_eq, not_not, Bool.not_eq_true,
    Bool.not_eq_false'] at hready
  rw [admits, Bool.eq_false_iff.mpr hreserved, decide_eq_true (not_le.mp hroom), hready.1,
    hready.2] at h
  cases h

theorem request_admitted {type : WorkerMessageType} (h : admits options s type = true)
    (id : JsString) (timeoutMs : Int) (socket : SocketAnswer) :
    s.request options type id timeoutMs socket =
      if positiveDuration timeoutMs then
        match (registered options s id).sendEnvelope socket with
        | (s, none) => (s, none)
        | (s, some thrown) =>
          ({ s with
            inbound :=
              { s.inbound with
                pendingRequests := s.inbound.pendingRequests.erase id
                issuedRequestIds := s.inbound.issuedRequestIds.erase id } }, some thrown)
      else (registered options s id, some .other) := by
  rw [admits, Bool.and_eq_true, Bool.and_eq_true, Bool.and_eq_true, Bool.not_eq_true',
    decide_eq_true_eq, decide_eq_true_eq] at h
  obtain ⟨⟨⟨hreserved, hroom⟩, hstate⟩, havailable⟩ := h
  have hready : ¬(decide (s.state ≠ .ready) || !s.available) = true := by
    rw [hstate, havailable]
    decide
  unfold request
  rw [hreserved, if_neg Bool.false_ne_true, if_neg (not_le.mpr hroom), if_neg hready]
  by_cases htimed : positiveDuration timeoutMs = true
  · rw [if_pos htimed, if_neg]
    · rfl
    · rw [positiveDuration, Bool.and_eq_true, decide_eq_true_eq, decide_eq_true_eq] at htimed
      rw [Bool.or_eq_true, decide_eq_true_eq, decide_eq_true_eq]
      omega
  · rw [if_neg htimed, if_pos]
    · rfl
    · rw [positiveDuration, Bool.and_eq_true, decide_eq_true_eq, decide_eq_true_eq] at htimed
      rw [Bool.or_eq_true, decide_eq_true_eq, decide_eq_true_eq]
      omega

end WorkerSession

end TegoNext
