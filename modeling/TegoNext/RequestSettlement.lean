/-
The promises of requests.

A `RequestLedger` goes with a session and writes down what happens to the promise of a request,
and which timers run. A request that has been sent is settled once (`requests_settled`), unless
the time it was given is none: `request` registers it before it looks at the time.
-/
import TegoNext.RequestSteps
import TegoNext.SessionBinary

set_option autoImplicit false

namespace TegoNext

open List Option

inductive Settlement where
  | answered (message : WorkerSessionMessage)
  | timedOut
  /-- By `#rejectPending`. -/
  | ended
  /-- The frame could not be sent, and the id is taken back. -/
  | notSent
  /-- `positiveDuration` throws. -/
  | refused

/-- A session, the timers of its requests that run, and what its promises were settled with. -/
structure RequestLedger where
  session : WorkerSession
  timers : List JsString
  settled : List (JsString × Settlement)

namespace RequestLedger

open Text WorkerSession

variable {platform : SessionPlatform} {options : WorkerSessionOptions} {s s' : WorkerSession}
  {r r' : RequestLedger} {id : JsString}

def answerOf (m : WorkerSessionMessage) : Option (JsString × Settlement) :=
  if m.envelope.correlationId ≠ m.envelope.messageId then
    some (m.envelope.correlationId, .answered m)
  else none

/-- The promises that a step settles. -/
def settlements (options : WorkerSessionOptions) (s : WorkerSession) (label : SessionLabel)
    (s' : WorkerSession) : List (JsString × Settlement) :=
  match label with
  | .text _ _ | .binary _ _ =>
    (s'.inbound.messages.drop s.inbound.messages.length).filterMap answerOf
  | .request type id timeoutMs socket =>
    if admits options s type && (s.request options type id timeoutMs socket).2.isSome then
      [(id, if positiveDuration timeoutMs then .notSent else .refused)]
    else []
  | .requestTimeout id => if id ∈ s.inbound.pendingRequests then [(id, .timedOut)] else []
  | .resume index _ =>
    match s.continuations[index]? with
    | some .rejectPending => s.inbound.pendingRequests.map fun id => (id, .ended)
    | _ => []
  | _ => []

/-- The timer that a step starts. -/
def started (options : WorkerSessionOptions) (s : WorkerSession) : SessionLabel → List JsString
  | .request type id timeoutMs _ =>
    if admits options s type && positiveDuration timeoutMs then [id] else []
  | _ => []

/-- The timers that run no more: the one that is up, and those of settled requests. -/
def stopped (settlements : List (JsString × Settlement)) : SessionLabel → List JsString
  | .requestTimeout id => [id]
  | _ => settlements.map Prod.fst

/-- A timer is up only while it runs, and `randomUUID` gives an id once. -/
def possible (r : RequestLedger) : SessionLabel → Bool
  | .request _ id _ _ => id ∉ r.session.inbound.requested
  | .requestTimeout id => id ∈ r.timers
  | _ => true

def after (options : WorkerSessionOptions) (r : RequestLedger) (label : SessionLabel)
    (s' : WorkerSession) : RequestLedger where
  session := s'
  timers := (r.timers ++ started options r.session label).filter fun id =>
    id ∉ stopped (settlements options r.session label s') label
  settled := r.settled ++ settlements options r.session label s'

def machine (platform : SessionPlatform) (options : WorkerSessionOptions) :
    Machine RequestLedger SessionLabel where
  Init r := r = ⟨new options, [], []⟩
  step r label :=
    if r.possible label then
      (WorkerSession.step platform options r.session label).map (r.after options label)
    else none

/-- A request that passes the guards of `request` gives a time that `positiveDuration` accepts. -/
def timed (options : WorkerSessionOptions) (r : RequestLedger) : SessionLabel → Bool
  | .request type _ timeoutMs _ => !admits options r.session type || positiveDuration timeoutMs
  | _ => true

def settledWith (r : RequestLedger) (id : JsString) : List Settlement :=
  (r.settled.filter fun settled => settled.1 = id).map Prod.snd

/-- A request that was made, and not taken back because its frame could not be sent. -/
def Issued (r : RequestLedger) (id : JsString) : Prop :=
  id ∈ r.session.inbound.requested ∧ (id, .notSent) ∉ r.settled

/-- By a response that is correlated to it, its timeout, or the end of the session. -/
def Properly (s : WorkerSession) (id : JsString) : Settlement → Prop
  | .answered m => m ∈ s.inbound.messages ∧ m.envelope.correlationId = id ∧
      m.envelope.correlationId ≠ m.envelope.messageId
  | .timedOut => True
  | .ended => s.live = false
  | .notSent => False
  | .refused => False

structure RequestsSettled (platform : SessionPlatform) (options : WorkerSessionOptions)
    (r : RequestLedger) : Prop where
  waits : ∀ id ∈ r.session.inbound.pendingRequests,
    r.Issued id ∧ id ∈ r.timers ∧ r.settledWith id = []
  /-- One that waits no more is settled, once. -/
  settled : ∀ id, r.Issued id → id ∉ r.session.inbound.pendingRequests →
    ∃ how, r.settledWith id = [how] ∧ Properly r.session id how
  closing : r.session.live = false → r.session.Ends ∨ r.session.inbound.pendingRequests = []
  /-- Pruning forgets none that waits, -/
  remembered : r.session.inbound.pendingRequests ⊆ r.session.inbound.issuedRequestIds
  /-- and ends, after a request is made and after one is settled. -/
  entering : ∀ id ∉ r.session.inbound.requested,
    r.session.inbound.pendingRequests.length < options.limits.maxInflightMessages →
      PruningEnds options (entered r.session.inbound id)
  settling : ∀ id ∈ r.session.inbound.pendingRequests,
    PruningEnds options { r.session.inbound with
      pendingRequests := r.session.inbound.pendingRequests.erase id }
  /-- An answer to what was not issued closes the session. -/
  unknown : ∀ label r' m, (machine platform options).step r label = some r' →
    r'.session.inbound.dispatched = r.session.inbound.dispatched ++ [m] →
    m.envelope.type.reserved = false → m.envelope.correlationId ≠ m.envelope.messageId →
    ¬ r.Issued m.envelope.correlationId →
      r'.session.live = false ∧ (r.session.live = true → r'.session.state = .closed)

/-! ## What the ledger holds -/

variable {gone : List JsString}

theorem settledWith_map (hnodup : gone.Nodup) (how : JsString → Settlement) (id : JsString) :
    ((gone.map fun id => (id, how id)).filter fun settled => settled.1 = id).map Prod.snd =
      if id ∈ gone then [how id] else [] := by
  induction gone with
  | nil => rfl
  | cons other gone ih =>
    have hnot := (nodup_cons.mp hnodup).1
    rw [map_cons, filter_cons]
    by_cases heq : other = id
    · rw [if_pos (decide_eq_true heq), map_cons, ih (nodup_cons.mp hnodup).2, ← heq,
        if_neg hnot, if_pos mem_cons_self]
    · rw [if_neg (by simpa using heq), ih (nodup_cons.mp hnodup).2]
      simp [mem_cons, Ne.symm heq]

theorem settledWith_append {how : JsString → Settlement}
    (h : r'.settled = r.settled ++ gone.map fun id => (id, how id)) (hnodup : gone.Nodup)
    (id : JsString) :
    r'.settledWith id = r.settledWith id ++ if id ∈ gone then [how id] else [] := by
  rw [settledWith, settledWith, h, filter_append, map_append, settledWith_map hnodup how id]

/-- How the promise of a request that waits no more was settled. -/
def Recorded (s : WorkerSession) (id : JsString) (how : Settlement) : Prop :=
  Properly s id how ∨ how = .notSent ∧ id ∉ s.inbound.issuedRequestIds

structure LedgerInv (options : WorkerSessionOptions) (r : RequestLedger) : Prop where
  tables : RequestTables options r.session.inbound
  timers : r.session.inbound.pendingRequests ⊆ r.timers
  unsettled : ∀ id, id ∉ r.session.inbound.requested ∨ id ∈ r.session.inbound.pendingRequests →
    r.settledWith id = []
  settled : ∀ id ∈ r.session.inbound.requested, id ∉ r.session.inbound.pendingRequests →
    ∃ how, r.settledWith id = [how] ∧ Recorded r.session id how

structure GoesOn (s s' : WorkerSession) : Prop where
  requested : s'.inbound.requested = s.inbound.requested
  issued : s'.inbound.issuedRequestIds ⊆ s.inbound.issuedRequestIds
  messages : s.inbound.messages ⊆ s'.inbound.messages
  live : s'.live = true → s.live = true

theorem Properly.goesOn {how : Settlement} (h : Properly s id how)
    (hmessages : s.inbound.messages ⊆ s'.inbound.messages)
    (hlive : s'.live = true → s.live = true) : Properly s' id how := by
  cases how with
  | answered m => exact ⟨hmessages h.1, h.2⟩
  | timedOut => exact h
  | ended =>
    rw [Properly, ← Bool.not_eq_true] at h ⊢
    exact fun hlive' => h (hlive hlive')
  | notSent => exact h
  | refused => exact h

/-- **Requests that wait are settled**, some or none at a time. -/
theorem LedgerInv.settles (h : LedgerInv options r)
    (how : JsString → Settlement) (hnodup : gone.Nodup)
    (hgone : gone ⊆ r.session.inbound.pendingRequests)
    (hpending : ∀ id, id ∈ r'.session.inbound.pendingRequests ↔
      id ∈ r.session.inbound.pendingRequests ∧ id ∉ gone)
    (hsettled : r'.settled = r.settled ++ gone.map fun id => (id, how id))
    (htimers : ∀ id ∈ r'.session.inbound.pendingRequests, id ∈ r.timers → id ∈ r'.timers)
    (hhow : ∀ id ∈ gone, Recorded r'.session id (how id))
    (hgoes : GoesOn r.session r'.session) (htables : RequestTables options r'.session.inbound) :
    LedgerInv options r' where
  tables := htables
  timers := by
    intro id hid
    exact htimers id hid (h.timers ((hpending id).mp hid).1)
  unsettled := by
    intro id hid
    have hbefore : id ∉ gone ∧ r.settledWith id = [] := by
      rcases hid with hnew | hwaits
      · rw [hgoes.requested] at hnew
        exact ⟨fun hmem => h.tables.fresh_pending hnew (hgone hmem), h.unsettled id (.inl hnew)⟩
      · rw [hpending id] at hwaits
        exact ⟨hwaits.2, h.unsettled id (.inr hwaits.1)⟩
    rw [settledWith_append hsettled hnodup, if_neg hbefore.1, hbefore.2, append_nil]
  settled := by
    intro id hrequested hnot
    rw [hgoes.requested] at hrequested
    rw [hpending id, not_and_not_right] at hnot
    by_cases hwaits : id ∈ r.session.inbound.pendingRequests
    · -- it is settled by this step
      refine ⟨how id, ?_, hhow id (hnot hwaits)⟩
      rw [settledWith_append hsettled hnodup, if_pos (hnot hwaits), h.unsettled id (.inr hwaits),
        nil_append]
    · have hother : id ∉ gone := fun hmem => hwaits (hgone hmem)
      obtain ⟨before, hbefore, hrecorded⟩ := h.settled id hrequested hwaits
      refine ⟨before, ?_, ?_⟩
      · rw [settledWith_append hsettled hnodup, if_neg hother, hbefore, append_nil]
      · rcases hrecorded with hproper | ⟨hnotSent, hissued⟩
        · exact .inl (hproper.goesOn hgoes.messages hgoes.live)
        · exact .inr ⟨hnotSent, fun hmem => hissued (hgoes.issued hmem)⟩

theorem LedgerInv.enters (h : LedgerInv options r) (hfresh : id ∉ r.session.inbound.requested)
    (hroom : r.session.inbound.pendingRequests.length < options.limits.maxInflightMessages) :
    LedgerInv options ⟨registered options r.session id, r.timers ++ [id], r.settled⟩ where
  tables := (h.tables.enter hfresh hroom).prune
  timers := by
    intro other hother
    have hmem : other ∈ r.session.inbound.pendingRequests ++ [id] := by
      rw [← addId_of_notMem (h.tables.fresh_pending hfresh)]
      exact hother
    rw [mem_append] at hmem ⊢
    exact hmem.imp_left fun hwaits => h.timers hwaits
  unsettled := by
    intro other hother
    apply h.unsettled
    rcases hother with hnew | hwaits
    · exact .inl fun hmem => hnew (mem_append_left _ hmem)
    · have hmem : other ∈ r.session.inbound.pendingRequests ++ [id] := by
        rw [← addId_of_notMem (h.tables.fresh_pending hfresh)]
        exact hwaits
      rcases mem_append.mp hmem with hbefore | hnew
      · exact .inr hbefore
      · exact .inl (mem_singleton.mp hnew ▸ hfresh)
  settled := by
    intro other hrequested hnot
    have hpending : (registered options r.session id).inbound.pendingRequests =
        r.session.inbound.pendingRequests ++ [id] := addId_of_notMem (h.tables.fresh_pending hfresh)
    rw [hpending, mem_append, not_or, mem_singleton] at hnot
    have hbefore : other ∈ r.session.inbound.requested :=
      (mem_append.mp hrequested).resolve_right fun hmem => hnot.2 (mem_singleton.mp hmem)
    obtain ⟨how, hhow, hrecorded⟩ := h.settled other hbefore hnot.1
    refine ⟨how, hhow, ?_⟩
    rcases hrecorded with hproper | ⟨hnotSent, hissued⟩
    · exact .inl (hproper.goesOn (List.Subset.refl _) fun hlive => hlive)
    · refine .inr ⟨hnotSent, fun hmem => ?_⟩
      have hentered := pruneIssued_subset _ _ _ _ _ hmem
      rcases mem_append.mp (addId_subset _ _ hentered) with hold | hnew
      · exact hissued hold
      · exact hnot.2 (mem_singleton.mp hnew)

/-! ## Steps -/

variable {label : SessionLabel}

theorem after_timers (hid : id ∈ r.timers ++ started options r.session label)
    (hstopped : id ∉ stopped (settlements options r.session label s') label) :
    id ∈ (r.after options label s').timers := by
  rw [after, mem_filter]
  exact ⟨hid, decide_eq_true hstopped⟩

theorem LedgerInv.keeps (h : LedgerInv options r) (hsettled : r'.settled = r.settled)
    (hpending : r'.session.inbound.pendingRequests = r.session.inbound.pendingRequests)
    (htimers : ∀ id ∈ r'.session.inbound.pendingRequests, id ∈ r.timers → id ∈ r'.timers)
    (hgoes : GoesOn r.session r'.session) (htables : RequestTables options r'.session.inbound) :
    LedgerInv options r' := by
  have hnone : r'.settled = r.settled ++ [].map fun id => (id, Settlement.ended) := by
    rw [hsettled, map_nil, append_nil]
  refine h.settles _ nodup_nil (nil_subset _) (fun id => ?_) hnone htimers
    (fun id hid => absurd hid not_mem_nil) hgoes htables
  rw [hpending]
  simp

theorem LedgerInv.settlesOne (h : LedgerInv options r) (how : Settlement)
    (hid : id ∈ r.session.inbound.pendingRequests)
    (hpending : r'.session.inbound.pendingRequests = r.session.inbound.pendingRequests.erase id)
    (hsettled : r'.settled = r.settled ++ [(id, how)])
    (htimers : ∀ id ∈ r'.session.inbound.pendingRequests, id ∈ r.timers → id ∈ r'.timers)
    (hhow : Recorded r'.session id how) (hgoes : GoesOn r.session r'.session)
    (htables : RequestTables options r'.session.inbound) : LedgerInv options r' := by
  refine h.settles (fun _ => how) (nodup_singleton id) ?_ ?_ hsettled htimers ?_ hgoes htables
  · intro other hother
    rw [mem_singleton.mp hother]
    exact hid
  · intro other
    rw [hpending, h.tables.pendingNodup.mem_erase_iff, mem_singleton, and_comm]
  · intro other hother
    rw [mem_singleton.mp hother]
    exact hhow

structure SameTables (i i' : SessionInbound) : Prop where
  pendingRequests : i'.pendingRequests = i.pendingRequests
  issuedRequestIds : i'.issuedRequestIds = i.issuedRequestIds
  issuedRequestOrder : i'.issuedRequestOrder = i.issuedRequestOrder
  requested : i'.requested = i.requested

variable {i i' : SessionInbound}

theorem sameTables_of_same (h : SameRequests i i') : SameTables i i' :=
  ⟨h.pendingRequests, h.issuedRequestIds, h.issuedRequestOrder, h.requested⟩

theorem sameTables_of_received
    {dispatched messages : List WorkerSessionMessage}
    (h : SameRequests { i with
      dispatched := dispatched
      messages := messages } i') : SameTables i i' :=
  ⟨h.pendingRequests, h.issuedRequestIds, h.issuedRequestOrder, h.requested⟩

theorem SameTables.keeps (hsame : SameTables i i')
    (h : RequestTables options i) : RequestTables options i' := by
  obtain ⟨hpending, hissued, horder, hrequested⟩ := hsame
  constructor
  · rw [hpending]
    exact h.pendingNodup
  · rw [hpending]
    exact h.bounded
  · rw [hpending, hissued]
    exact h.pendingIssued
  · rw [hissued]
    exact h.issuedNodup
  · rw [hissued, horder]
    exact h.issuedOrdered
  · rw [hissued, hrequested]
    exact h.issuedRequested

theorem LedgerInv.same (h : LedgerInv options r) (hsettled : r'.settled = r.settled)
    (htimers : ∀ id ∈ r'.session.inbound.pendingRequests, id ∈ r.timers → id ∈ r'.timers)
    (hsame : SameTables r.session.inbound r'.session.inbound)
    (hmessages : r.session.inbound.messages ⊆ r'.session.inbound.messages)
    (hlive : r'.session.live = true → r.session.live = true) : LedgerInv options r' := by
  refine h.keeps hsettled hsame.pendingRequests htimers ⟨hsame.requested, ?_, hmessages, hlive⟩
    (hsame.keeps h.tables)
  rw [hsame.issuedRequestIds]
  exact List.Subset.refl _

/-- The answers among the messages that a step passes on. -/
def answers (s s' : WorkerSession) : List (JsString × Settlement) :=
  (s'.inbound.messages.drop s.inbound.messages.length).filterMap answerOf

theorem answers_of_same (h : s'.inbound.messages = s.inbound.messages) : answers s s' = [] := by
  rw [answers, h, drop_length, filterMap_nil]

theorem answers_of_append {m : WorkerSessionMessage}
    (h : s'.inbound.messages = s.inbound.messages ++ [m]) : answers s s' = (answerOf m).toList := by
  rw [answers, h, drop_left, filterMap_cons, filterMap_nil]
  cases answerOf m with
  | none => rfl
  | some answer => rfl

theorem LedgerInv.receives (h : LedgerInv options r) {live : Bool}
    (hreceives : Receives options live r.session.inbound r'.session)
    (hlive : r'.session.live = true → r.session.live = true)
    (hsettled : r'.settled = r.settled ++ answers r.session r'.session)
    (htimers : ∀ id ∈ r.timers, id ∉ (answers r.session r'.session).map Prod.fst →
      id ∈ r'.timers) : LedgerInv options r' := by
  have hquiet : answers r.session r'.session = [] →
      SameTables r.session.inbound r'.session.inbound →
      r.session.inbound.messages ⊆ r'.session.inbound.messages → LedgerInv options r' := by
    intro hnone hsame hmessages
    rw [hnone, append_nil] at hsettled
    refine h.same hsettled (fun id _ hid => htimers id hid ?_) hsame hmessages hlive
    rw [hnone]
    exact not_mem_nil
  have hkept : r'.session.inbound.messages = r.session.inbound.messages →
      SameTables r.session.inbound r'.session.inbound → LedgerInv options r' := by
    intro hmessages hsame
    refine hquiet (answers_of_same hmessages) hsame ?_
    rw [hmessages]
    exact List.Subset.refl _
  cases hreceives with
  | kept hsame => exact hkept hsame.messages (sameTables_of_same hsame)
  | handshake m hreserved hsame | refused m hdead hclosed hsame | late m hissued hsame =>
    exact hkept hsame.messages (sameTables_of_received hsame)
  | message m hown hsame =>
    have hmessages : r'.session.inbound.messages = r.session.inbound.messages ++ [m] :=
      hsame.messages
    refine hquiet ?_ (sameTables_of_received hsame) ?_
    · rw [answers_of_append hmessages, answerOf, if_neg (not_not.mpr hown)]
      rfl
    · rw [hmessages]
      exact subset_append_left _ _
  | answered m hanswer hwaits hsame =>
    have hmessages : r'.session.inbound.messages = r.session.inbound.messages ++ [m] :=
      hsame.messages
    have hanswers : answers r.session r'.session = [(m.envelope.correlationId, .answered m)] := by
      rw [answers_of_append hmessages, answerOf, if_pos hanswer]
      rfl
    have htables := h.tables.settle m.envelope.correlationId
    have hpending : r'.session.inbound.pendingRequests =
        r.session.inbound.pendingRequests.erase m.envelope.correlationId := hsame.pendingRequests
    rw [hanswers] at hsettled htimers
    refine h.settlesOne (.answered m) hwaits hpending hsettled
      (fun id hid hruns => htimers id hruns ?_) ?_ ?_ ?_
    · rw [hpending, h.tables.pendingNodup.mem_erase_iff] at hid
      simpa using hid.1
    · refine .inl ⟨?_, rfl, hanswer⟩
      rw [hmessages]
      exact mem_append_right _ (mem_singleton_self m)
    · refine ⟨hsame.requested, ?_, ?_, hlive⟩
      · rw [hsame.issuedRequestIds]
        exact pruneIssued_subset _ _ _ _ _
      · rw [hmessages]
        exact subset_append_left _ _
    · have hsettle : SameTables (settleRequest options r.session.inbound
          m.envelope.correlationId) r'.session.inbound :=
        ⟨hsame.pendingRequests, hsame.issuedRequestIds, hsame.issuedRequestOrder, hsame.requested⟩
      exact hsettle.keeps htables

/-- `request`, under a new id and with a time that is accepted. -/
theorem LedgerInv.requests (h : LedgerInv options r) {type : WorkerMessageType} {timeoutMs : Int}
    {socket : SocketAnswer} (hfresh : id ∉ r.session.inbound.requested)
    (htimed : timed options r (.request type id timeoutMs socket) = true)
    (hs : (r.session.request options type id timeoutMs socket).1 = s')
    (hlive : s'.live = true → r.session.live = true) :
    LedgerInv options (r.after options (.request type id timeoutMs socket) s') := by
  by_cases hadmits : admits options r.session type = true
  · have hduration : positiveDuration timeoutMs = true := by
      simpa [timed, hadmits] using htimed
    have hroom : r.session.inbound.pendingRequests.length < options.limits.maxInflightMessages := by
      rw [admits, Bool.and_eq_true, Bool.and_eq_true, Bool.and_eq_true] at hadmits
      exact of_decide_eq_true hadmits.1.1.2
    have hrequest := request_admitted hadmits id timeoutMs socket
    rw [if_pos hduration] at hrequest
    have hentered := h.enters hfresh hroom
    have hstarted : started options r.session (.request type id timeoutMs socket) = [id] := by
      rw [started, hadmits, hduration]
      rfl
    have hinbound := (sendEnvelope_minor (registered options r.session id) socket).inbound
    cases hsend : (registered options r.session id).sendEnvelope socket with
    | mk t thrown =>
      rw [hsend] at hrequest hinbound
      cases thrown with
      | none =>
        -- the frame is sent
        rw [hrequest] at hs
        subst hs
        have hnone : settlements options r.session (.request type id timeoutMs socket) t = [] := by
          rw [settlements, hrequest, hadmits]
          rfl
        refine hentered.same ?_ (fun other _ hother => after_timers ?_ ?_)
          (sameTables_of_same (.of_eq hinbound)) ?_ hlive
        · rw [after, hnone, append_nil]
        · rw [hstarted]
          exact hother
        · rw [hnone]
          exact not_mem_nil
        · rw [after, hinbound]
          exact List.Subset.refl _
      | some thrown =>
        -- it is not, and the request is taken back
        rw [hrequest] at hs
        dsimp only at hs hinbound
        subst hs
        have hone : ∀ t, settlements options r.session (.request type id timeoutMs socket) t =
            [(id, .notSent)] := by
          intro t
          rw [settlements, hrequest, hadmits, hduration]
          rfl
        have hback : RequestTables options { t.inbound with
            pendingRequests := t.inbound.pendingRequests.erase id
            issuedRequestIds := t.inbound.issuedRequestIds.erase id } := by
          rw [hinbound]
          exact hentered.tables.takeBack id
        have hmem : id ∈ (registered options r.session id).inbound.pendingRequests := by
          have hpending : (registered options r.session id).inbound.pendingRequests =
              r.session.inbound.pendingRequests ++ [id] :=
            addId_of_notMem (h.tables.fresh_pending hfresh)
          rw [hpending]
          exact mem_append_right _ (mem_singleton_self id)
        refine hentered.settlesOne .notSent hmem ?_ ?_
          (fun other hid hother => after_timers ?_ ?_) ?_ ?_ hback
        · rw [after, hinbound]
        · rw [after, hone]
        · rw [hstarted]
          exact hother
        · rw [hone]
          rw [after, hinbound, hentered.tables.pendingNodup.mem_erase_iff] at hid
          simpa [stopped] using hid.1
        · refine .inr ⟨rfl, ?_⟩
          rw [after, hinbound, hentered.tables.issuedNodup.mem_erase_iff]
          exact fun hid => hid.1 rfl
        · refine ⟨?_, ?_, ?_, hlive⟩
          · rw [after, hinbound]
          · rw [after, hinbound]
            exact erase_subset
          · rw [after, hinbound]
            exact List.Subset.refl _
  · rw [Bool.not_eq_true] at hadmits
    rw [request_refused hadmits] at hs
    subst hs
    have hnone :
        settlements options r.session (.request type id timeoutMs socket) r.session = [] := by
      rw [settlements, hadmits]
      rfl
    refine h.same ?_ (fun other _ hother => after_timers (mem_append_left _ hother) ?_)
      (sameTables_of_same (.refl _)) (List.Subset.refl _) hlive
    · rw [after, hnone, append_nil]
    · rw [hnone]
      exact not_mem_nil

theorem step_cases (hs : (machine platform options).step r label = some r') :
    r.possible label = true ∧ ∃ s', WorkerSession.step platform options r.session label = some s' ∧
      r' = r.after options label s' := by
  rw [machine] at hs
  dsimp only at hs
  split at hs
  · next hpossible =>
    rw [map_eq_some_iff] at hs
    obtain ⟨s', hs', hr'⟩ := hs
    exact ⟨hpossible, s', hs', hr'.symm⟩
  · cases hs

/-- **One step.** -/
theorem LedgerInv.step {label : SessionLabel} (h : LedgerInv options r)
    (hs : (machine platform options).step r label = some r')
    (htimed : timed options r label = true)
    (hends : r.session.Ends → r.session.live = false) : LedgerInv options r' := by
  obtain ⟨hpossible, s', hs', rfl⟩ := step_cases hs
  have hlive := (handshakeStep_of_step hs').live
  -- a step that settles nothing and stops no timer
  have hquiet : settlements options r.session label s' = [] → stopped [] label = [] →
      SameRequests r.session.inbound s'.inbound → LedgerInv options (r.after options label s') := by
    intro hnone hstopped hsame
    refine h.same ?_ (fun id _ hid => after_timers (mem_append_left _ hid) ?_)
      (sameTables_of_same hsame) ?_ hlive
    · rw [after, hnone, append_nil]
    · rw [hnone, hstopped]
      exact not_mem_nil
    · rw [after, hsame.messages]
      exact List.Subset.refl _
  cases label with
  | text frame answer =>
    obtain rfl := some.inj hs'
    exact h.receives (receives_text frame answer) hlive rfl
      fun id hid hnot => after_timers (mem_append_left _ hid) hnot
  | binary frame answer =>
    obtain rfl := some.inj hs'
    exact h.receives (receives_bytes frame answer) hlive rfl
      fun id hid hnot => after_timers (mem_append_left _ hid) hnot
  | request type id timeoutMs socket =>
    exact h.requests (of_decide_eq_true hpossible) htimed (some.inj hs') hlive
  | requestTimeout id =>
    have hstays : ∀ other, other ≠ id → other ∈ r.timers →
        other ∈ (r.after options (.requestTimeout id) s').timers := by
      intro other hne hother
      exact after_timers (mem_append_left _ hother) (by simpa [stopped] using hne)
    have htimeout := some.inj hs'
    by_cases hwaits : id ∈ r.session.inbound.pendingRequests
    · rw [requestTimeout, if_pos hwaits] at htimeout
      subst htimeout
      have hpending : (settleRequest options r.session.inbound id).pendingRequests =
          r.session.inbound.pendingRequests.erase id := rfl
      refine h.settlesOne .timedOut hwaits rfl ?_ (fun other hother => hstays other ?_)
        (.inl trivial) ⟨rfl, pruneIssued_subset _ _ _ _ _, List.Subset.refl _, hlive⟩
        (h.tables.settle id)
      · rw [after, settlements, if_pos hwaits]
      · rw [after, hpending, h.tables.pendingNodup.mem_erase_iff] at hother
        exact hother.1
    · rw [requestTimeout, if_neg hwaits] at htimeout
      subst htimeout
      refine h.same ?_ (fun other hother => hstays other ?_) (sameTables_of_same (.refl _))
        (List.Subset.refl _) hlive
      · rw [after, settlements, if_neg hwaits, append_nil]
      · rintro rfl
        exact hwaits hother
  | resume index answer =>
    obtain ⟨c, hc, rfl⟩ := map_eq_some_iff.mp hs'
    by_cases hreject : c = .rejectPending
    · subst hreject
      have hall : ∀ t, settlements options r.session (.resume index answer) t =
          r.session.inbound.pendingRequests.map fun id => (id, .ended) := by
        intro t
        rw [settlements, hc]
      have hdead : r.session.live = false := hends (mem_of_getElem? hc)
      refine h.settles (fun _ => .ended) h.tables.pendingNodup (List.Subset.refl _)
        (fun id => ?_) (by rw [after, hall]) (fun id hid => absurd hid not_mem_nil)
        (fun id _ => .inl hdead)
        ⟨rfl, nil_subset _, List.Subset.refl _, hlive⟩
        ⟨nodup_nil, Nat.zero_le _, List.Subset.refl _, nodup_nil, List.Subset.refl _, nil_subset _⟩
      rw [and_not_self_iff, iff_false]
      exact not_mem_nil
    · have hsame := @sameRequests_resume platform { r.session with
        continuations := r.session.continuations.eraseIdx index } answer c hreject
      refine hquiet ?_ rfl hsame
      rw [settlements, hc]
      split
      · next heq => exact absurd (some.inj heq) hreject
      · rfl
  | onMessage listener | removeListener listener | send type socket | close | replace
  | transportClosed endpointUnavailable | transportError | handshakeTimeout | heartbeatExpired =>
    exact hquiet rfl rfl (sameRequests_of_quiet hs' rfl)

/-! ## Runs -/

theorem session_reachable {C : RequestLedger → SessionLabel → RequestLedger → Prop}
    (hr : (machine platform options).ReachableVia C r) :
    (WorkerSession.machine platform options).Reachable r.session := by
  induction hr with
  | init h => exact .init (congrArg RequestLedger.session h)
  | step hr hs hc ih =>
    obtain ⟨-, s', hs', rfl⟩ := step_cases hs
    exact ih.step hs'

theorem ledgerInv_init (options : WorkerSessionOptions) :
    LedgerInv options ⟨new options, [], []⟩ where
  tables := ⟨nodup_nil, Nat.zero_le _, List.Subset.refl _, nodup_nil, List.Subset.refl _,
    List.Subset.refl _⟩
  timers := List.Subset.refl _
  unsettled _ _ := rfl
  settled _ hid := absurd hid not_mem_nil

theorem ledgerInv_of_run (hr : (machine platform options).ReachableVia
    (fun r label _ => timed options r label = true) r) : LedgerInv options r := by
  refine hr.invariant (fun r h0 => ?_) fun r label r' hr ih hs htimed => ?_
  · rw [h0]
    exact ledgerInv_init options
  · exact ih.step hs htimed (dead_of_ends (session_reachable hr))

theorem pending_of_dead
    (hs : WorkerSession.step platform options s label = some s') (hdead : s.live = false) :
    s'.inbound.pendingRequests ⊆ s.inbound.pendingRequests := by
  have hsame : SameRequests s.inbound s'.inbound →
      s'.inbound.pendingRequests ⊆ s.inbound.pendingRequests := by
    intro h
    rw [h.pendingRequests]
    exact List.Subset.refl _
  have hreceives : Receives options s.live s.inbound s' →
      s'.inbound.pendingRequests ⊆ s.inbound.pendingRequests := by
    intro h
    cases h with
    | kept h => exact hsame h
    | handshake m hreserved h | refused m hdead hclosed h | late m hissued h | message m hown h =>
      rw [h.pendingRequests]; exact List.Subset.refl _
    | answered m hanswer hwaits h => rw [h.pendingRequests]; exact erase_subset
  cases label with
  | text frame answer =>
    obtain rfl := some.inj hs
    exact hreceives (receives_text frame answer)
  | binary frame answer =>
    obtain rfl := some.inj hs
    exact hreceives (receives_bytes frame answer)
  | request type id timeoutMs socket =>
    have hadmits : admits options s type = false := by
      rw [live, Bool.or_eq_false_iff] at hdead
      rw [admits, hdead.2, Bool.and_false, Bool.false_and]
    rw [← some.inj hs, request_refused hadmits]
    exact List.Subset.refl _
  | requestTimeout id =>
    rw [← some.inj hs, requestTimeout]
    split
    · exact erase_subset
    · exact List.Subset.refl _
  | resume index answer =>
    obtain ⟨c, hc, rfl⟩ := map_eq_some_iff.mp hs
    by_cases hreject : c = .rejectPending
    · rw [hreject]
      exact nil_subset _
    · exact hsame (sameRequests_resume { s with
        continuations := s.continuations.eraseIdx index } answer hreject)
  | onMessage listener | removeListener listener | send type socket | close | replace
  | transportClosed endpointUnavailable | transportError | handshakeTimeout | heartbeatExpired =>
    exact hsame (sameRequests_of_quiet hs rfl)

/-- A session that is over rejects what waits. -/
def Closing (s : WorkerSession) : Prop := s.live = false → s.Ends ∨ s.inbound.pendingRequests = []

theorem Closing.winds (h : Closing s) (hwinds : Winds s s')
    (hpending : s.live = false → s'.inbound.pendingRequests ⊆ s.inbound.pendingRequests) :
    Closing s' := by
  intro hdead'
  rcases hwinds.ends hdead' with hdead | hends
  · rcases h hdead with hends | hnone
    · exact .inl (hwinds.continues hends)
    · exact .inr (subset_nil.mp (hnone ▸ hpending hdead))
  · exact .inl hends

theorem Closing.step {label : SessionLabel} (h : Closing s)
    (hs : WorkerSession.step platform options s label = some s') : Closing s' := by
  by_cases hresume : ∃ index answer, label = .resume index answer
  · obtain ⟨index, answer, rfl⟩ := hresume
    obtain ⟨c, hc, rfl⟩ := map_eq_some_iff.mp hs
    by_cases hreject : c = .rejectPending
    · rw [hreject]
      exact fun _ => .inr rfl
    -- the end stays among the other continuations
    have hrest : Closing { s with continuations := s.continuations.eraseIdx index } := by
      intro hdead
      refine (h hdead).imp_left fun hends => ?_
      obtain ⟨other, hother⟩ := mem_iff_getElem?.mp hends
      refine mem_eraseIdx_iff_getElem?.mpr ⟨other, ?_, hother⟩
      rintro rfl
      rw [hother] at hc
      exact hreject (some.inj hc).symm
    refine hrest.winds (.resume _ answer c) fun hdead => ?_
    have hpending := pending_of_dead hs hdead
    exact hpending
  · refine h.winds (winds_of_step hs fun index answer heq => hresume ⟨index, answer, heq⟩) ?_
    exact pending_of_dead hs

theorem closing_of_reachable (hr : (WorkerSession.machine platform options).Reachable s) :
    Closing s := by
  refine hr.invariant (fun s h0 hdead => ?_) fun s label s' _ ih hs _ => ih.step hs
  rw [h0] at hdead
  cases hdead

/-! ## Answers that nobody asked for -/

theorem LedgerInv.issued (h : LedgerInv options r)
    (hid : id ∈ r.session.inbound.issuedRequestIds) : r.Issued id := by
  have hrequested := h.tables.issuedRequested hid
  refine ⟨hrequested, fun hnotSent => ?_⟩
  have hmem : Settlement.notSent ∈ r.settledWith id := by
    rw [settledWith, List.mem_map]
    exact ⟨_, mem_filter.mpr ⟨hnotSent, decide_eq_true rfl⟩, rfl⟩
  by_cases hwaits : id ∈ r.session.inbound.pendingRequests
  · rw [h.unsettled id (.inr hwaits)] at hmem
    cases hmem
  obtain ⟨how, hhow, hrecorded⟩ := h.settled id hrequested hwaits
  rw [hhow, mem_singleton] at hmem
  rw [← hmem] at hrecorded
  rcases hrecorded with hproper | ⟨-, hnot⟩
  · exact hproper
  · exact hnot hid

theorem LedgerInv.unknown (h : LedgerInv options r)
    {m : WorkerSessionMessage} (hs : (machine platform options).step r label = some r')
    (hdispatched : r'.session.inbound.dispatched = r.session.inbound.dispatched ++ [m])
    (happlication : m.envelope.type.reserved = false)
    (hanswer : m.envelope.correlationId ≠ m.envelope.messageId)
    (hissued : ¬ r.Issued m.envelope.correlationId) :
    r'.session.live = false ∧ (r.session.live = true → r'.session.state = .closed) := by
  obtain ⟨-, s', hs', rfl⟩ := step_cases hs
  have hsame : s'.inbound.dispatched = r.session.inbound.dispatched → False := by
    intro heq
    have hlength := congrArg List.length (heq.symm.trans hdispatched)
    rw [length_append, length_singleton] at hlength
    omega
  have hreceives : Receives options r.session.live r.session.inbound s' →
      s'.live = false ∧ (r.session.live = true → s'.state = .closed) := by
    intro hreceives
    have heq : ∀ other, s'.inbound.dispatched = r.session.inbound.dispatched ++ [other] →
        other = m := by
      intro other hother
      have hmessages := append_cancel_left (hother.symm.trans hdispatched)
      exact head_eq_of_cons_eq hmessages
    cases hreceives with
    | kept hkept => exact (hsame hkept.dispatched).elim
    | handshake other hreserved hkept =>
      rw [heq other hkept.dispatched, happlication] at hreserved
      cases hreserved
    | refused other hdead hclosed hkept => exact ⟨hdead, hclosed⟩
    | late other hlate hkept =>
      rw [heq other hkept.dispatched] at hlate
      exact (hissued (h.issued hlate)).elim
    | message other hown hkept =>
      rw [heq other hkept.dispatched] at hown
      exact (hanswer hown).elim
    | answered other hother hwaits hkept =>
      rw [heq other hkept.dispatched] at hwaits
      exact (hissued (h.issued (h.tables.pendingIssued hwaits))).elim
  cases label with
  | text frame answer =>
    obtain rfl := some.inj hs'
    exact hreceives (receives_text frame answer)
  | binary frame answer =>
    obtain rfl := some.inj hs'
    exact hreceives (receives_bytes frame answer)
  | request type id timeoutMs socket =>
    rw [← some.inj hs'] at hsame
    exact (hsame (untouched_request _ _ _ _ _).dispatched).elim
  | requestTimeout id =>
    rw [← some.inj hs', requestTimeout] at hsame
    split at hsame
    · exact (hsame rfl).elim
    · exact (hsame rfl).elim
  | resume index answer =>
    obtain ⟨c, hc, rfl⟩ := map_eq_some_iff.mp hs'
    by_cases hreject : c = .rejectPending
    · rw [hreject] at hsame
      exact (hsame rfl).elim
    · exact (hsame (sameRequests_resume { r.session with
        continuations := r.session.continuations.eraseIdx index } answer hreject).dispatched).elim
  | onMessage listener | removeListener listener | send type socket | close | replace =>
    exact (hsame (sameRequests_of_quiet hs' rfl).dispatched).elim
  | transportClosed endpointUnavailable =>
    exact (hsame (sameRequests_of_quiet hs' rfl).dispatched).elim
  | transportError => exact (hsame (sameRequests_of_quiet hs' rfl).dispatched).elim
  | handshakeTimeout => exact (hsame (sameRequests_of_quiet hs' rfl).dispatched).elim
  | heartbeatExpired => exact (hsame (sameRequests_of_quiet hs' rfl).dispatched).elim

/-- **Requests are settled once**, in runs in which every request that passes the guards of
`request` gives a time that is accepted. -/
theorem requests_settled (hr : (machine platform options).ReachableVia
    (fun r label _ => timed options r label = true) r) : RequestsSettled platform options r := by
  have hinv := ledgerInv_of_run hr
  refine ⟨fun id hid => ?_, fun id hissued hid => ?_, closing_of_reachable (session_reachable hr),
    hinv.tables.pendingIssued, fun id hfresh hroom => ?_, fun id hid => ?_, ?_⟩
  · exact ⟨hinv.issued (hinv.tables.pendingIssued hid), hinv.timers hid,
      hinv.unsettled id (.inr hid)⟩
  · obtain ⟨how, hhow, hrecorded⟩ := hinv.settled id hissued.1 hid
    refine ⟨how, hhow, hrecorded.resolve_right fun hnotSent => hissued.2 ?_⟩
    have hmem : how ∈ r.settledWith id := by
      rw [hhow]
      exact mem_singleton_self how
    rw [settledWith, List.mem_map] at hmem
    obtain ⟨settled, hsettled, rfl⟩ := hmem
    rw [mem_filter, decide_eq_true_eq] at hsettled
    rw [← hsettled.2, ← hnotSent.1]
    exact hsettled.1
  · exact (hinv.tables.enter hfresh hroom).pruningEnds
  · exact (hinv.tables.erase id).pruningEnds
  · exact fun label r' m hs => hinv.unknown hs

/-! ## A request without time -/

/-- A session becomes available and asks. -/
def asking (timeoutMs : Int) : List SessionLabel :=
  sampleHandshake ++
    [.resume 2 sampleAnswer, .request .taskCancel (js "q") timeoutMs sampleAnswer.socket]

/-- The answer. -/
def replying : SessionLabel :=
  sampleText { sampleFrame 3 .taskResult [] none with correlationId := js "q" }

theorem requests_settled_answered :
    ∃ r : RequestLedger,
      (machine WorkerSession.samplePlatform sampleOptions).runIf (timed sampleOptions)
        ⟨new sampleOptions, [], []⟩ (asking 1000 ++ [replying]) = some r ∧
      r.settled.map Prod.fst = [js "q"] ∧
      RequestsSettled WorkerSession.samplePlatform sampleOptions r := by
  have hrun : ((machine WorkerSession.samplePlatform sampleOptions).runIf (timed sampleOptions)
      ⟨new sampleOptions, [], []⟩ (asking 1000 ++ [replying])).map
        (fun r => decide (r.settled.map Prod.fst = [js "q"])) = some true := by decide +kernel
  obtain ⟨r, hr, hsettled⟩ := map_eq_some_iff.mp hrun
  exact ⟨r, hr, of_decide_eq_true hsettled, requests_settled (.of_runIf (.init rfl) hr)⟩

/-- It is refused after it has been registered, and waits without a timer. -/
theorem refused_request_waits :
    ¬ ∀ (platform : SessionPlatform) (options : WorkerSessionOptions) (r : RequestLedger),
      (machine platform options).Reachable r → RequestsSettled platform options r := by
  intro hall
  have hrun : ((machine WorkerSession.samplePlatform sampleOptions).run ⟨new sampleOptions, [], []⟩
      (asking 0)).map (fun r => decide (r.session.inbound.pendingRequests = [js "q"] ∧
        r.timers = [])) = some true := by decide +kernel
  obtain ⟨r, hr, hwaits⟩ := map_eq_some_iff.mp hrun
  obtain ⟨hpending, htimers⟩ := of_decide_eq_true hwaits
  have hruns := ((hall _ _ r (.of_init_run rfl hr)).waits (js "q") (by
    rw [hpending]
    exact mem_singleton_self _)).2.1
  rw [htimers] at hruns
  cases hruns

end RequestLedger

end TegoNext
