/-
The handshake of a main session.

Whatever frames arrive and however they interleave with what waits, the handshake of a main
session has at most four steps and takes them in one order: a hello claims a principal, a
proof is accepted for it, a registration names it, and the session is ready. `HandshakeLaw`
lists what may have happened.
-/
import TegoNext.SessionSteps

set_option autoImplicit false

namespace TegoNext

open Text CanonicalJson List Option

namespace WorkerSession

variable {platform : SessionPlatform} {options : WorkerSessionOptions} {s s' : WorkerSession}

/-! ## The law -/

/-- What the proof of a worker is checked against. -/
def workerProof (options : WorkerSessionOptions) (workerId nonce credential : JsString) :
    AuthenticationProofInput where
  credential := credential
  workerId := workerId
  senderNonce := nonce
  receiverNonce := options.nonce
  senderRole := .worker

/-- The handshake as far as a proof. -/
def provedEvents (options : WorkerSessionOptions) (workerId nonce credential proof : JsString) :
    List HandshakeEvent :=
  [.claimed workerId nonce (some credential),
    .proved (workerProof options workerId nonce credential) proof]

/-- The handshakes of main sessions. -/
inductive HandshakeLaw (platform : SessionPlatform) (options : WorkerSessionOptions) :
    List HandshakeEvent → Prop
  | fresh : HandshakeLaw platform options []
  | claimed (workerId nonce : JsString) (credential : Option JsString) :
    HandshakeLaw platform options [.claimed workerId nonce credential]
  | proved (workerId nonce credential proof : JsString)
    (hverify : verifyAuthenticationProof platform
      (workerProof options workerId nonce credential) proof = true) :
    HandshakeLaw platform options (provedEvents options workerId nonce credential proof)
  | registered (workerId nonce credential proof : JsString) (registration : WorkerRegistration)
    (hverify : verifyAuthenticationProof platform
      (workerProof options workerId nonce credential) proof = true)
    (hworker : registration.workerId.text = workerId) :
    HandshakeLaw platform options
      (provedEvents options workerId nonce credential proof ++ [.registered registration])
  | ready (workerId nonce credential proof : JsString) (registration : WorkerRegistration)
    (epoch : Nat)
    (hverify : verifyAuthenticationProof platform
      (workerProof options workerId nonce credential) proof = true)
    (hworker : registration.workerId.text = workerId) :
    HandshakeLaw platform options
      (provedEvents options workerId nonce credential proof ++ [.registered registration] ++
        [.ready epoch])

/-- The principal of a hello, as the session holds it. -/
structure Claimed (h : SessionHandshake) (workerId nonce : JsString) (credential : Option JsString) :
    Prop where
  principal : h.principalWorkerId = some workerId
  nonce : h.remoteNonce = some nonce
  role : h.remoteRole = some .worker
  authorized : h.principalAuthorized = credential.isSome
  credential : ∀ c, credential = some c → h.credential = c

/-- The fields of a session that is not closed say how far its handshake has come. -/
structure Follows (s : WorkerSession) : Prop where
  fresh : s.handshake.events = [] → s.handshake.remoteNonce = none
  claim : ∀ workerId nonce credential,
    s.handshake.events.head? = some (.claimed workerId nonce credential) →
      Claimed s.handshake workerId nonce credential
  peer : s.handshake.peerAuthenticated = decide (2 ≤ s.handshake.events.length)
  pending : s.handshake.registrationPending = decide (3 ≤ s.handshake.events.length)
  awaits : s.Awaits → 3 ≤ s.handshake.events.length
  authenticating : s.state = .authenticating → s.handshake.events.length ≤ 3
  ready : s.state = .ready → s.handshake.events.length = 4

structure HandshakeInv (platform : SessionPlatform) (options : WorkerSessionOptions)
    (s : WorkerSession) : Prop where
  law : HandshakeLaw platform options s.handshake.events
  follows : s.state ≠ .closed → Follows s

/-! ## Steps -/

variable {events : List HandshakeEvent}

theorem HandshakeLaw.of_length_two
    (h : HandshakeLaw platform options events) (hlength : events.length = 2) :
    ∃ workerId nonce credential proof : JsString,
      events = provedEvents options workerId nonce credential proof ∧
      verifyAuthenticationProof platform (workerProof options workerId nonce credential) proof =
        true := by
  cases h with
  | proved workerId nonce credential proof hverify =>
    exact ⟨workerId, nonce, credential, proof, rfl, hverify⟩
  | fresh | claimed | registered | ready => cases hlength

theorem HandshakeLaw.of_length_three
    (h : HandshakeLaw platform options events) (hlength : events.length = 3) :
    ∃ (workerId nonce credential proof : JsString) (registration : WorkerRegistration),
      events = provedEvents options workerId nonce credential proof ++ [.registered registration] ∧
      verifyAuthenticationProof platform (workerProof options workerId nonce credential) proof =
        true ∧ registration.workerId.text = workerId := by
  cases h with
  | registered workerId nonce credential proof registration hverify hworker =>
    exact ⟨workerId, nonce, credential, proof, registration, rfl, hverify, hworker⟩
  | fresh | claimed | proved | ready => cases hlength

theorem HandshakeLaw.of_length_four
    (h : HandshakeLaw platform options events) (hlength : events.length = 4) :
    ∃ (workerId nonce credential proof : JsString) (registration : WorkerRegistration)
      (epoch : Nat),
      events = provedEvents options workerId nonce credential proof ++
        [.registered registration] ++ [.ready epoch] ∧
      verifyAuthenticationProof platform (workerProof options workerId nonce credential) proof =
        true ∧ registration.workerId.text = workerId := by
  cases h with
  | ready workerId nonce credential proof registration epoch hverify hworker =>
    exact ⟨workerId, nonce, credential, proof, registration, epoch, rfl, hverify, hworker⟩
  | fresh | claimed | proved | registered => cases hlength

theorem HandshakeLaw.head (h : HandshakeLaw platform options events) (hne : events ≠ []) :
    ∃ workerId nonce credential, events.head? = some (.claimed workerId nonce credential) := by
  cases h with
  | fresh => exact absurd rfl hne
  | claimed workerId nonce credential | proved | registered | ready => exact ⟨_, _, _, rfl⟩

theorem Claimed.same {h h' : SessionHandshake} {workerId nonce : JsString}
    {credential : Option JsString} (hclaimed : Claimed h workerId nonce credential)
    (hsame : SameHandshake h h') : Claimed h' workerId nonce credential where
  principal := hsame.principalWorkerId.trans hclaimed.principal
  nonce := hsame.remoteNonce.trans hclaimed.nonce
  role := hsame.remoteRole.trans hclaimed.role
  authorized := hsame.principalAuthorized.trans hclaimed.authorized
  credential c hc := hsame.credential.trans (hclaimed.credential c hc)

theorem Follows.same (h : Follows s) (hsame : SameHandshake s.handshake s'.handshake)
    (hawaits : s'.Awaits → s.Awaits) (hstate : s'.state = s.state ∨ s'.state = .unavailable) :
    Follows s' where
  fresh he := hsame.remoteNonce.trans (h.fresh (hsame.events ▸ he))
  claim w n c hhead := (h.claim w n c (hsame.events ▸ hhead)).same hsame
  peer := by rw [hsame.peerAuthenticated, hsame.events, h.peer]
  pending := by rw [hsame.registrationPending, hsame.events, h.pending]
  awaits ha := by
    rw [hsame.events]
    exact h.awaits (hawaits ha)
  authenticating hs := by
    rw [hsame.events]
    rcases hstate with heq | heq
    · exact h.authenticating (heq.symm.trans hs)
    · rw [heq] at hs
      cases hs
  ready hs := by
    rw [hsame.events]
    rcases hstate with heq | heq
    · exact h.ready (heq.symm.trans hs)
    · rw [heq] at hs
      cases hs

theorem HandshakeInv.quiet (h : HandshakeInv platform options s) (hquiet : Quiet s s') :
    HandshakeInv platform options s' where
  law := hquiet.handshake.events ▸ h.law
  follows hopen := by
    have hstate := hquiet.state.resolve_right hopen
    exact (h.follows (hstate ▸ hopen)).same hquiet.handshake hquiet.awaits (.inl hstate)

theorem handshakeInv_new (platform : SessionPlatform) (options : WorkerSessionOptions) :
    HandshakeInv platform options (new options) where
  law := .fresh
  follows _ :=
    { fresh := fun _ => rfl
      claim := fun _ _ _ hhead => by cases hhead
      peer := rfl
      pending := rfl
      awaits := fun ha => by cases mem_singleton.mp ha
      authenticating := fun _ => Nat.zero_le _
      ready := fun hs => by cases hs }

theorem HandshakeInv.events_eq_nil (h : HandshakeInv platform options s)
    (hopen : s.state = .authenticating) (hfresh : s.handshake.remoteNonce = none) :
    s.handshake.events = [] := by
  by_contra hne
  obtain ⟨w, n, c, hhead⟩ := h.law.head hne
  have hn := ((h.follows (by rw [hopen]; decide)).claim w n c hhead).nonce
  rw [hfresh] at hn
  cases hn

/-- **What one step preserves.** -/
theorem HandshakeInv.step (hrole : options.role = .main) (h : HandshakeInv platform options s)
    (hs : HandshakeStep platform options s s') : HandshakeInv platform options s' := by
  cases hs with
  | quiet hquiet => exact h.quiet hquiet
  | unavailable hlive hstate hsame hawaits =>
    refine ⟨hsame.events ▸ h.law, fun _ => ?_⟩
    refine (h.follows fun hclosed => ?_).same hsame hawaits (.inr hstate)
    rw [live, hclosed] at hlive
    cases hlive
  | spoiled hopen hfresh hclosed hevents =>
    exact ⟨hevents ▸ h.law, fun hnot => absurd hclosed hnot⟩
  | greeted hopen hfresh role nonce t hdiffers hnonce hremote hpeer hpending hstate hawaits hends
      hclaim hquiet =>
      have hfollows := h.follows (by rw [hopen]; decide)
      have hevents := h.events_eq_nil hopen hfresh
      obtain ⟨workerId, credential, hprincipal, hauthorized, hcredential, hlog⟩ := hclaim hrole
      rw [hevents, nil_append] at hlog
      have hworker : role = .worker := by
        cases role with
        | worker => rfl
        | main => exact absurd hrole.symm hdiffers
      have hlength : s.handshake.events.length = 0 := by rw [hevents, length_nil]
      refine HandshakeInv.quiet ⟨hlog ▸ .claimed workerId nonce credential, fun _ => ?_⟩ hquiet
      refine ⟨fun he => ?_, fun w n c hhead => ?_, ?_, ?_, fun ha => ?_, fun _ => ?_, fun hr => ?_⟩
      · rw [hlog] at he
        cases he
      · rw [hlog] at hhead
        obtain ⟨rfl, rfl, rfl⟩ := HandshakeEvent.claimed.inj (some.inj hhead)
        exact ⟨hprincipal, hnonce, hworker ▸ hremote, hauthorized, hcredential⟩
      · rw [hpeer, hfollows.peer, hlength, hlog]
        rfl
      · rw [hpending, hfollows.pending, hlength, hlog]
        rfl
      · have := hfollows.awaits (hawaits ha)
        omega
      · rw [hlog, length_singleton]
        decide
      · rw [hstate, hopen] at hr
        cases hr
  | proved hopen workerId nonce proof role t hpeer hnonce hremote hprincipal hauthorized hverify ht
      hquiet =>
      have hfollows := h.follows hopen
      have hlt : ¬ 2 ≤ s.handshake.events.length := fun hle => by
        rw [hfollows.peer, decide_eq_true hle] at hpeer
        cases hpeer
      have hne : s.handshake.events ≠ [] := fun he => by
        rw [hfollows.fresh he] at hnonce
        cases hnonce
      obtain ⟨w, n, credential, hhead⟩ := h.law.head hne
      have hevents : s.handshake.events = [.claimed w n credential] := by
        cases hlist : s.handshake.events with
        | nil => exact absurd hlist hne
        | cons first rest =>
          rw [hlist, length_cons] at hlt
          obtain rfl : rest = [] := length_eq_zero_iff.mp (by omega)
          rw [hlist, head?_cons, some.injEq] at hhead
          rw [hhead]
      have hclaimed := hfollows.claim w n credential hhead
      obtain rfl : workerId = w := some.inj (hprincipal.symm.trans hclaimed.principal)
      obtain rfl : nonce = n := some.inj (hnonce.symm.trans hclaimed.nonce)
      obtain rfl : role = .worker := some.inj (hremote.symm.trans hclaimed.role)
      obtain ⟨c, rfl⟩ := isSome_iff_exists.mp (hclaimed.authorized.symm.trans hauthorized)
      have hinput : proofInput options s workerId nonce .worker =
          workerProof options workerId nonce c := by
        rw [proofInput, hclaimed.credential c rfl]
        rfl
      rw [hinput] at hverify ht
      have hlog : t.handshake.events = provedEvents options workerId nonce c proof := by
        rw [ht]
        rw [hevents]
        rfl
      refine HandshakeInv.quiet ⟨hlog ▸ .proved workerId nonce c proof hverify, fun _ => ?_⟩ hquiet
      have hsame : Claimed t.handshake workerId nonce (some c) := by
        rw [ht]
        exact ⟨hclaimed.principal, hclaimed.nonce, hclaimed.role, hclaimed.authorized,
          hclaimed.credential⟩
      refine ⟨fun he => ?_, fun w n c' hhead' => ?_, ?_, ?_, fun ha => ?_, fun _ => ?_, fun hr => ?_⟩
      · rw [hlog] at he
        cases he
      · rw [hlog] at hhead'
        obtain ⟨rfl, rfl, rfl⟩ := HandshakeEvent.claimed.inj (some.inj hhead')
        exact hsame
      · rw [hlog, ht]
        rfl
      · rw [hlog, ht]
        rw [hfollows.pending, hevents]
        rfl
      · rw [ht] at ha
        have := hfollows.awaits ha
        omega
      · rw [hlog]
        exact show 2 ≤ 3 by decide
      · rw [ht] at hr
        have := hfollows.ready hr
        omega
  | registered registration hstate hpeer hpending hprincipal hstate' hends hhandshake =>
    have hfollows := h.follows (by rw [hstate]; decide)
    rw [hfollows.peer, decide_eq_true_eq] at hpeer
    rw [hfollows.pending, decide_eq_false_iff_not] at hpending
    obtain ⟨workerId, nonce, credential, proof, hevents, hverify⟩ := h.law.of_length_two (by omega)
    have hclaimed := hfollows.claim workerId nonce (some credential) (by rw [hevents]; rfl)
    have hworker : registration.workerId.text = workerId :=
      some.inj (hprincipal.symm.trans hclaimed.principal)
    have hlog : s'.handshake.events = provedEvents options workerId nonce credential proof ++
        [.registered registration] := by
      rw [hhandshake]
      rw [hevents]
    refine ⟨hlog ▸ .registered workerId nonce credential proof registration hverify hworker,
      fun _ => ?_⟩
    refine ⟨fun he => ?_, fun w n c hhead => ?_, ?_, ?_, fun _ => ?_, fun _ => ?_, fun hr => ?_⟩
    · rw [hlog] at he
      cases he
    · rw [hlog] at hhead
      obtain ⟨rfl, rfl, rfl⟩ := HandshakeEvent.claimed.inj (some.inj hhead)
      rw [hhandshake]
      exact ⟨hclaimed.principal, hclaimed.nonce, hclaimed.role, hclaimed.authorized,
        hclaimed.credential⟩
    · rw [hlog, hhandshake]
      rw [hfollows.peer, hevents]
      rfl
    · rw [hlog, hhandshake]
      rfl
    · rw [hlog]
      exact Nat.le_refl 3
    · rw [hlog]
      exact Nat.le_refl 3
    · rw [hstate'] at hr
      cases hr
  | ready epoch hstate hcause hstate' hhandshake hawaits =>
    have hfollows := h.follows (by rw [hstate]; decide)
    have hawaited : s.Awaits := hcause.resolve_left fun hworker => by
      rw [hrole] at hworker
      cases hworker
    obtain ⟨workerId, nonce, credential, proof, registration, hevents, hverify, hworker⟩ :=
      h.law.of_length_three
        (Nat.le_antisymm (hfollows.authenticating hstate) (hfollows.awaits hawaited))
    have hclaimed := hfollows.claim workerId nonce (some credential) (by rw [hevents]; rfl)
    have hlog : s'.handshake.events = provedEvents options workerId nonce credential proof ++
        [.registered registration] ++ [.ready epoch] := by
      rw [hhandshake]
      rw [hevents]
    refine ⟨hlog ▸ .ready workerId nonce credential proof registration epoch hverify hworker,
      fun _ => ?_⟩
    refine ⟨fun he => ?_, fun w n c hhead => ?_, ?_, ?_, fun _ => ?_, fun ha => ?_, fun _ => ?_⟩
    · rw [hlog] at he
      cases he
    · rw [hlog] at hhead
      obtain ⟨rfl, rfl, rfl⟩ := HandshakeEvent.claimed.inj (some.inj hhead)
      rw [hhandshake]
      exact ⟨hclaimed.principal, hclaimed.nonce, hclaimed.role, hclaimed.authorized,
        hclaimed.credential⟩
    · rw [hlog, hhandshake]
      rw [hfollows.peer, hevents]
      rfl
    · rw [hlog, hhandshake]
      rw [hfollows.pending, hevents]
      rfl
    · rw [hlog]
      exact show 3 ≤ 4 by decide
    · rw [hstate'] at ha
      cases ha
    · rw [hlog]
      rfl

/-! ## Runs -/

theorem InboundStep.messages {frame : Option WorkerControlEnvelope}
    (h : InboundStep platform options frame s s') :
    s'.inbound.messages = s.inbound.messages ∨ s.state = .ready := by
  have hpasses : ∀ (i : SessionInbound) (m : WorkerSessionMessage), Passes i m s s' →
      i.messages = s.inbound.messages →
        s'.inbound.messages = s.inbound.messages ∨ s.state = .ready := by
    intro i m hpass hi
    cases hpass with
    | handshake hreserved h | refused hdead h => exact .inl (h.messages.trans hi)
    | message happlication hready h => exact .inr hready
    | late happlication hanswer hissued h => exact .inl (h.messages.trans hi)
  cases h with
  | untouched h | ended hends h | refused e hframe hnext hdead h
  | announced e bytes hframe hnext hbytes hregisters hlimit h => exact .inl h.messages
  | passed e hframe hnext hbytes h => exact hpasses _ _ h rfl
  | part id pending pending' hlookup henvelope hchunks h => exact .inl h.messages
  | assembled id pending payload hlookup hbytes h => exact hpasses _ _ h rfl

/-- The steps of a handshake are never taken back, and neither is a proof. -/
structure KeepsHandshake (s t : WorkerSession) : Prop where
  events : s.handshake.events <+: t.handshake.events
  authenticated : s.handshake.peerAuthenticated = true → t.handshake.peerAuthenticated = true
  principal : s.handshake.peerAuthenticated = true →
    t.handshake.principalWorkerId = s.handshake.principalWorkerId
  credential : s.handshake.peerAuthenticated = true →
    t.handshake.credential = s.handshake.credential
  remoteNonce : s.handshake.peerAuthenticated = true →
    t.handshake.remoteNonce = s.handshake.remoteNonce

theorem KeepsHandshake.refl (s : WorkerSession) : KeepsHandshake s s :=
  ⟨prefix_rfl, id, fun _ => rfl, fun _ => rfl, fun _ => rfl⟩

theorem KeepsHandshake.trans {s t u : WorkerSession} (h : KeepsHandshake s t)
    (h' : KeepsHandshake t u) : KeepsHandshake s u where
  events := h.events.trans h'.events
  authenticated hp := h'.authenticated (h.authenticated hp)
  principal hp := (h'.principal (h.authenticated hp)).trans (h.principal hp)
  credential hp := (h'.credential (h.authenticated hp)).trans (h.credential hp)
  remoteNonce hp := (h'.remoteNonce (h.authenticated hp)).trans (h.remoteNonce hp)

theorem KeepsHandshake.of_same (h : SameHandshake s.handshake s'.handshake) :
    KeepsHandshake s s' where
  events := h.events ▸ prefix_rfl
  authenticated hp := h.peerAuthenticated.trans hp
  principal _ := h.principalWorkerId
  credential _ := h.credential
  remoteNonce _ := h.remoteNonce

theorem HandshakeInv.keeps (h : HandshakeInv platform options s)
    (hs : HandshakeStep platform options s s') : KeepsHandshake s s' := by
  have hunproved : s.state = .authenticating → s.handshake.remoteNonce = none →
      s.handshake.peerAuthenticated = false := fun hopen hfresh => by
    rw [(h.follows (by rw [hopen]; decide)).peer, h.events_eq_nil hopen hfresh]
    rfl
  cases hs with
  | quiet hquiet => exact .of_same hquiet.handshake
  | unavailable hlive hstate hsame => exact .of_same hsame
  | spoiled hopen hfresh hclosed hevents =>
    have hpeer := hunproved hopen hfresh
    refine ⟨hevents ▸ prefix_rfl, fun hp => ?_, fun hp => ?_, fun hp => ?_, fun hp => ?_⟩
    all_goals
      rw [hpeer] at hp
      cases hp
  | greeted hopen hfresh role nonce t hdiffers hnonce hremote hpeer hpending hstate hawaits hends
      hclaim hquiet =>
      have hpeer := hunproved hopen hfresh
      refine ⟨?_, fun hp => ?_, fun hp => ?_, fun hp => ?_, fun hp => ?_⟩
      · rw [h.events_eq_nil hopen hfresh]
        exact nil_prefix
      all_goals
        rw [hpeer] at hp
        cases hp
  | proved hopen workerId nonce proof role t hpeer hnonce hremote hprincipal hauthorized hverify ht
      hquiet =>
      refine .trans ⟨?_, fun hp => ?_, fun hp => ?_, fun hp => ?_, fun hp => ?_⟩
        (.of_same hquiet.handshake)
      · rw [ht]
        exact prefix_append _ _
      all_goals
        rw [hpeer] at hp
        cases hp
  | registered registration hstate hpeer hpending hprincipal hstate' hends hhandshake =>
    refine ⟨?_, fun hp => ?_, fun hp => ?_, fun hp => ?_, fun hp => ?_⟩
    · rw [hhandshake]
      exact prefix_append _ _
    all_goals rw [hhandshake]
    exact hp
  | ready epoch hstate hcause hstate' hhandshake hawaits =>
    refine ⟨?_, fun hp => ?_, fun hp => ?_, fun hp => ?_, fun hp => ?_⟩
    · rw [hhandshake]
      exact prefix_append _ _
    all_goals rw [hhandshake]
    exact hp

theorem handshakeInv_of_reachable (hrole : options.role = .main)
    (hr : (machine platform options).Reachable s) : HandshakeInv platform options s :=
  hr.invariant (fun _ h0 => h0 ▸ handshakeInv_new platform options)
    fun _ _ _ _ hinv hs _ => hinv.step hrole (handshakeStep_of_step hs)

theorem ready_of_messages (hrole : options.role = .main)
    (hr : (machine platform options).Reachable s) (hmessages : s.inbound.messages ≠ []) :
    ∃ epoch, HandshakeEvent.ready epoch ∈ s.handshake.events := by
  induction hr with
  | init h0 =>
    subst h0
    exact absurd rfl hmessages
  | @step s s' label hr hs _ ih =>
    have hinv := handshakeInv_of_reachable hrole hr
    have hextends := (hinv.keeps (handshakeStep_of_step hs)).events
    rcases (inboundStep_of_step hs).messages with hsame | hready
    · obtain ⟨epoch, hmem⟩ := ih (hsame ▸ hmessages)
      exact ⟨epoch, hextends.subset hmem⟩
    · have hlength := (hinv.follows (by rw [hready]; decide)).ready hready
      obtain ⟨_, _, _, _, _, epoch, hevents, -⟩ := hinv.law.of_length_four hlength
      refine ⟨epoch, hextends.subset ?_⟩
      rw [hevents]
      exact mem_append_right _ (mem_singleton_self _)

/-- What is known of a main session that is ready, in the order in which it came about. -/
def Authenticated (platform : SessionPlatform) (options : WorkerSessionOptions)
    (s : WorkerSession) : Prop :=
  ∃ (workerId nonce credential proof : JsString) (registration : WorkerRegistration) (epoch : Nat),
    s.handshake.events =
      [.claimed workerId nonce (some credential),
        .proved (workerProof options workerId nonce credential) proof,
        .registered registration, .ready epoch] ∧
    verifyAuthenticationProof platform (workerProof options workerId nonce credential) proof =
      true ∧
    registration.workerId.text = workerId ∧
    s.handshake.principalWorkerId = some workerId ∧ s.handshake.principalAuthorized = true

/-- **Sessions authenticate their peers.** A main session that is ready has accepted a proof for
the credential of the claimed principal over both nonces, and then a registration of that
principal; no message is passed on before; and no run replaces the proof or the principal. -/
theorem session_authenticated (hrole : options.role = .main)
    (hr : (machine platform options).Reachable s) :
    (s.state = .ready → Authenticated platform options s) ∧
    (s.inbound.messages ≠ [] → ∃ epoch, HandshakeEvent.ready epoch ∈ s.handshake.events) ∧
    ∀ labels t, (machine platform options).run s labels = some t → KeepsHandshake s t := by
  refine ⟨fun hready => ?_, ready_of_messages hrole hr, fun labels => ?_⟩
  · have hinv := handshakeInv_of_reachable hrole hr
    have hfollows := hinv.follows (by rw [hready]; decide)
    obtain ⟨workerId, nonce, credential, proof, registration, epoch, hevents, hverify, hworker⟩ :=
      hinv.law.of_length_four (hfollows.ready hready)
    have hclaimed := hfollows.claim workerId nonce (some credential) (by rw [hevents]; rfl)
    exact ⟨workerId, nonce, credential, proof, registration, epoch, hevents, hverify, hworker,
      hclaimed.principal, hclaimed.authorized⟩
  · induction labels generalizing s with
    | nil =>
      intro t ht
      obtain rfl := some.inj ht
      exact .refl s
    | cons label labels ih =>
      intro t ht
      rw [Machine.run_cons, bind_eq_some_iff] at ht
      obtain ⟨s', hs, ht⟩ := ht
      exact ((handshakeInv_of_reachable hrole hr).keeps (handshakeStep_of_step hs)).trans
        (ih (hr.step hs) t ht)

/-! ## A session that becomes ready -/

def samplePlatform : SessionPlatform where
  numberText _ := ⟨js "0", isNumberUnit_zero⟩
  sha256 _ := Vector.replicate 64 0
  hmac key data := key ++ data
  applicationMessageBytes _ := 1

def sampleLimits : WorkerProtocolLimits where
  maxFrameBytes := 65536
  maxBinaryBytes := 8388608
  maxBinaryChunks := 256
  maxPendingCorrelations := 32
  maxInflightMessages := 128
  maxSequenceGap := 32
  replayRetention := 1024
  replayRetention_pos := Nat.succ_pos _

def sampleOptions : WorkerSessionOptions where
  role := .main
  limits := sampleLimits
  nonce := js "main-nonce-of-the-session"
  sessionId := js "session-main"
  credential := js "unauthorized"
  worker := none
  registers := true

def sampleAnswer : SessionAnswer where
  socket := ⟨true, .ok (), true⟩
  credential := .ok (some (js "secret"))
  epoch := .ok 1

/-- A control frame of the worker `w`. -/
def sampleFrame (sequence : Nat) (type : WorkerMessageType) (payload : JsonFields)
    (binary : Option Nat) : WorkerControlEnvelope where
  messageId := js ("m" ++ toString sequence)
  sessionId := js "session-worker"
  sequence := sequence
  correlationId := js ("m" ++ toString sequence)
  type := type
  sentAt := js "1970-01-01T00:00:00.000Z"
  payload := .object payload
  binaryBytes := binary
  binaryChunks := binary.map fun _ => 1

def sampleText (frame : WorkerControlEnvelope) : SessionLabel := .text (.ok frame) sampleAnswer

def sampleHandshake : List SessionLabel :=
  [sampleText (sampleFrame 0 .hello
      [(js "role", .string (js "worker")), (js "nonce", .string (js "worker-nonce-of-the-session")),
        (js "workerId", .string (js "w"))] none),
    sampleText (sampleFrame 1 .authenticate
      [(js "proof", .string (createAuthenticationProof samplePlatform
        (workerProof sampleOptions (js "w") (js "worker-nonce-of-the-session") (js "secret"))))]
      none),
    sampleText (sampleFrame 2 .workerRegister
      [(js "workerId", .string (js "w")), (js "labels", .object []), (js "resources", .object []),
        (js "executors", .array []), (js "preparedArtifacts", .array [])] none),
    .resume 2 sampleAnswer]

theorem session_authenticated_handshake :
    ∃ s : WorkerSession,
      (machine samplePlatform sampleOptions).run (new sampleOptions) sampleHandshake = some s ∧
      s.state = .ready ∧ Authenticated samplePlatform sampleOptions s := by
  have hrun : ((machine samplePlatform sampleOptions).run (new sampleOptions)
      sampleHandshake).map (fun s => decide (s.state = .ready)) = some true := by decide +kernel
  obtain ⟨s, hs, hready⟩ := map_eq_some_iff.mp hrun
  have hstate : s.state = .ready := of_decide_eq_true hready
  exact ⟨s, hs, hstate, (session_authenticated rfl (.of_init_run rfl hs)).1 hstate⟩

end WorkerSession

end TegoNext
