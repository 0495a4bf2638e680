/-
Outbox safety, over whole runs of the memory store.

The runs are those of `StoreWorld` under a clock that does not go back, with a history of the
outbox. A claim is outstanding from when it is made until it is acknowledged; one that has not
expired is the one its entry holds (`Held`), and what is completed stays so (`completed_stays`). A
message which is not completed can be claimed later on up to the end of time and of the safe
integers.
-/
import TegoNext.OutboxClaims
import TegoNext.Fencing

set_option autoImplicit false

namespace TegoNext

open MemoryStateStore List Option AList

deriving instance DecidableEq for OutboxMessage
deriving instance DecidableEq for OutboxClaim

variable {V : Type}

/-! ## Histories -/

inductive OutboxEvent (V : Type) where
  | enqueued (message : OutboxMessage V)
  | claimed (claim : OutboxClaim V)
  | acknowledged (claim : OutboxClaim V) (outcome : OutboxAcknowledgementOutcome)

def OutboxEvent.outstanding [WireValue V] (claims : List (OutboxClaim V)) :
    OutboxEvent V → List (OutboxClaim V)
  | .enqueued _ => claims
  | .claimed claim => claims ++ [claim]
  | .acknowledged claim _ => claims.erase claim

def outstandingClaims [WireValue V] (history : List (OutboxEvent V)) : List (OutboxClaim V) :=
  history.foldl OutboxEvent.outstanding []

/-- A store whose clock has read `now`, and what happened to its outbox. -/
structure OutboxRun (V : Type) where
  world : StoreWorld V
  now : JsDate.Instant
  history : List (OutboxEvent V)

namespace MemoryStateStore

variable [WireValue V]

def commitEvents (store : MemoryStateStore V) (fencing : Option StateFencing)
    (identity : Option IdempotencyIdentity) (staged : StagedTransaction V) (result : V) :
    List (OutboxEvent V) :=
  match store.commit fencing identity staged result, stageOutbox store.outbox [] staged.outbox with
  | .ok _, .ok newOutbox => newOutbox.map .enqueued
  | _, _ => []

omit [WireValue V] in
def acknowledgeEvents (store : MemoryStateStore V) (request : OutboxAcknowledgementRequest)
    (now : JsDate.Instant) : List (OutboxEvent V) :=
  match (store.acknowledgeOutbox request now).1 with
  | .error _ => []
  | .ok acknowledgement =>
    if acknowledgement.duplicate then []
    else
      match (store.outbox.lookup request.messageId).bind (·.claim) with
      | none => []
      | some claim => [.acknowledged claim request.outcome]

end MemoryStateStore

/-- What the next job does to the outbox. -/
def StoreWorld.turnEvents [WireValue V] (w : StoreWorld V) (now : JsDate.Instant) :
    List (OutboxEvent V) :=
  match w.jobs with
  | [] => []
  | .commit i _ staged result :: _ =>
    match w.calls[i]? with
    | none => []
    | some call => w.store.commitEvents call.options.fencing call.identity staged result
  | .claim request limit :: _ => (w.store.claimOutbox request limit now).2.2.map .claimed
  | .acknowledge request :: _ => w.store.acknowledgeEvents request now

namespace OutboxRun

variable [WireValue V]

def initial : OutboxRun V where
  world := .initial
  now := ⟨-JsDate.maxInstant, by decide⟩
  history := []

/-- The clock does not go back. -/
def step (r : OutboxRun V) (e : StoreEvent V) : Option (OutboxRun V) :=
  match e with
  | .turn now =>
    if r.now.ms ≤ now.ms then
      (r.world.turn now).map fun world => ⟨world, now, r.history ++ r.world.turnEvents now⟩
    else none
  | e => (r.world.step e).map fun world => { r with world := world }

def machine (V : Type) [WireValue V] : Machine (OutboxRun V) (StoreEvent V) where
  Init r := r = initial
  step := step

end OutboxRun

/-! ## The law -/

def OutboxClaim.unexpired (now : JsDate.Instant) (claim : OutboxClaim V) : Bool :=
  now.ms < claim.expiresAt.ms

def StoredOutboxMessage.completed (record : StoredOutboxMessage V) : Bool :=
  record.acknowledgement.any fun a => a.outcome == .completed

/-- Claims made one after the other, each with its time: what their promises resolve with. -/
def MemoryStateStore.claimJobs (store : MemoryStateStore V) :
    List (OutboxClaimRequest × JsDate.Instant) → List (OutboxClaim V)
  | [] => []
  | (request, now) :: rest =>
    match assertOutboxClaimRequest request with
    | .error _ => store.claimJobs rest
    | .ok limit =>
      let job := store.claimOutbox request limit now
      (match job.1 with
        | .error _ => []
        | .ok claims => claims) ++ MemoryStateStore.claimJobs job.2.1 rest

/-- From `now` on, can claims be made such that one of them gets the message? -/
def MemoryStateStore.ClaimableFrom (store : MemoryStateStore V) (now : JsDate.Instant)
    (messageId : MessageId) : Prop :=
  ∃ jobs : List (OutboxClaimRequest × JsDate.Instant),
    (∀ job ∈ jobs, now.ms ≤ job.2.ms) ∧ (jobs.Pairwise fun job job' => job.2.ms ≤ job'.2.ms) ∧
      ∃ claim ∈ store.claimJobs jobs, claim.message.messageId = messageId

/-- Everything but the last part of the law. -/
structure OutboxRun.Safe [WireValue V] (r : OutboxRun V) : Prop where
  exclusive : ∀ now : JsDate.Instant, r.now.ms ≤ now.ms →
    ((outstandingClaims r.history).filter (OutboxClaim.unexpired now)).Pairwise fun c c' =>
      c.message.messageId ≠ c'.message.messageId
  current : ∀ id record claim, r.world.store.outbox.lookup id = some record →
    record.claim = some claim → claim.message.messageId = id ∧ claim ∈ outstandingClaims r.history
  holder : ∀ request now acknowledgement store,
    r.world.store.acknowledgeOutbox request now = (.ok acknowledgement, store) →
      ∃ record claim, r.world.store.outbox.lookup request.messageId = some record ∧
        claim.owner = request.owner ∧ claim.claimEpoch = request.claimEpoch ∧
        (record.claim = some claim ∨ acknowledgement.duplicate = true ∧
          record.acknowledgedClaim = some claim ∧ store.outbox = r.world.store.outbox)
  refused : ∀ request now e store,
    r.world.store.acknowledgeOutbox request now = (.error e, store) → store = r.world.store
  completed : r.history.Pairwise fun e e' => ∀ claim claim', e = .acknowledged claim .completed →
    e' = .claimed claim' → claim'.message.messageId ≠ claim.message.messageId

/-! ## The claims that entries hold -/

/-- The outbox against the outstanding claims. -/
structure Held [WireValue V] (outbox : Outbox V) (claims : List (OutboxClaim V))
    (now : JsDate.Instant) : Prop where
  keyed : ∀ id record, outbox.lookup id = some record → record.message.messageId = id
  idle : ∀ id record, outbox.lookup id = some record → record.acknowledgement.isSome = true →
    record.claim = none
  held : ∀ id record claim, outbox.lookup id = some record → record.claim = some claim →
    claim.message.messageId = id ∧ claim ∈ claims
  live : ∀ claim ∈ claims, claim.unexpired now = true →
    ∃ record, outbox.lookup claim.message.messageId = some record ∧ record.claim = some claim
  distinct : (claims.filter (OutboxClaim.unexpired now)).Pairwise fun c c' =>
    c.message.messageId ≠ c'.message.messageId

namespace Held

variable [WireValue V] {outbox : Outbox V} {claims : List (OutboxClaim V)} {now : JsDate.Instant}

theorem empty (now : JsDate.Instant) : Held (V := V) ∅ [] now where
  keyed id record h := by simp at h
  idle id record h := by simp at h
  held id record claim h := by simp at h
  live claim hc := absurd hc not_mem_nil
  distinct := List.Pairwise.nil

omit [WireValue V] in
theorem unexpired_mono {now' : JsDate.Instant} (hle : now.ms ≤ now'.ms) {claim : OutboxClaim V}
    (h : claim.unexpired now' = true) : claim.unexpired now = true := by
  rw [OutboxClaim.unexpired, decide_eq_true_eq] at h ⊢
  omega

theorem later (h : Held outbox claims now) {now' : JsDate.Instant} (hle : now.ms ≤ now'.ms) :
    Held outbox claims now' where
  keyed := h.keyed
  idle := h.idle
  held := h.held
  live claim hc hunexpired := h.live claim hc (unexpired_mono hle hunexpired)
  distinct := by
    refine h.distinct.sublist ?_
    have hfilter : claims.filter (OutboxClaim.unexpired now') =
        (claims.filter (OutboxClaim.unexpired now)).filter (OutboxClaim.unexpired now') := by
      rw [List.filter_filter]
      refine filter_congr fun claim _ => ?_
      cases hunexpired : claim.unexpired now' with
      | false => rfl
      | true => exact (unexpired_mono hle hunexpired).symm
    rw [hfilter]
    exact filter_sublist

theorem enqueue (h : Held outbox claims now) {message : OutboxMessage V} (sequence : Nat)
    (hfree : ∀ record, outbox.lookup message.messageId = some record → record.claim = none) :
    Held (outbox.insert message.messageId (enqueued message sequence)) claims now where
  keyed id record hr := by
    rcases lookup_insert_cases hr with ⟨rfl, rfl⟩ | ⟨-, hr⟩
    · rfl
    · exact h.keyed id record hr
  idle id record hr hacked := by
    rcases lookup_insert_cases hr with ⟨rfl, rfl⟩ | ⟨-, hr⟩
    · rfl
    · exact h.idle id record hr hacked
  held id record claim hr hc := by
    rcases lookup_insert_cases hr with ⟨rfl, rfl⟩ | ⟨-, hr⟩
    · cases hc
    · exact h.held id record claim hr hc
  live claim hc hunexpired := by
    obtain ⟨record, hr, hclaim⟩ := h.live claim hc hunexpired
    have hid : claim.message.messageId ≠ message.messageId := by
      intro heq
      rw [heq] at hr
      rw [hfree record hr] at hclaim
      cases hclaim
    exact ⟨record, (lookup_insert_ne hid).trans hr, hclaim⟩
  distinct := h.distinct

theorem not_live (h : Held outbox claims now) {id : MessageId} {record : StoredOutboxMessage V}
    (hrecord : outbox.lookup id = some record)
    (hfree : ∀ claim, record.claim = some claim → claim.unexpired now = false) :
    ∀ claim ∈ claims, claim.unexpired now = true → claim.message.messageId ≠ id := by
  intro claim hc hunexpired hid
  obtain ⟨record', hr, hclaim⟩ := h.live claim hc hunexpired
  rw [hid, hrecord] at hr
  cases hr
  rw [hfree claim hclaim] at hunexpired
  cases hunexpired

theorem claim (h : Held outbox claims now) {id : MessageId} {record : StoredOutboxMessage V}
    (hrecord : outbox.lookup id = some record)
    (hfree : ∀ claim, record.claim = some claim → claim.unexpired now = false)
    (request : OutboxClaimRequest) (expiresAt : JsDate.Instant) :
    Held (outbox.insert id (claimedRecord record (claimOf request now expiresAt record)))
      (claims ++ [claimOf request now expiresAt record]) now := by
  have hid : (claimOf request now expiresAt record).message.messageId = id :=
    h.keyed id record hrecord
  have hother := h.not_live hrecord hfree
  refine ⟨fun k r hr => ?_, fun k r hr hacked => ?_, fun k r c hr hc => ?_,
    fun c hc hunexpired => ?_, ?_⟩
  · rcases lookup_insert_cases hr with ⟨rfl, rfl⟩ | ⟨-, hr⟩
    · exact hid
    · exact h.keyed k r hr
  · rcases lookup_insert_cases hr with ⟨rfl, rfl⟩ | ⟨-, hr⟩
    · cases hacked
    · exact h.idle k r hr hacked
  · rcases lookup_insert_cases hr with ⟨rfl, rfl⟩ | ⟨-, hr⟩
    · obtain rfl := some.inj hc
      exact ⟨hid, mem_append_right claims mem_cons_self⟩
    · obtain ⟨hkey, hmem⟩ := h.held k r c hr hc
      exact ⟨hkey, mem_append_left _ hmem⟩
  · rcases mem_append.mp hc with hold | hnew
    · obtain ⟨r, hr, hclaim⟩ := h.live c hold hunexpired
      exact ⟨r, (lookup_insert_ne (hother c hold hunexpired)).trans hr, hclaim⟩
    · obtain rfl := mem_singleton.mp hnew
      rw [hid]
      exact ⟨_, lookup_insert _, rfl⟩
  · rw [filter_append, pairwise_append]
    refine ⟨h.distinct, (pairwise_singleton _ _).filter _, fun c hc c' hc' => ?_⟩
    obtain ⟨hmem, hunexpired⟩ := mem_filter.mp hc
    obtain rfl := mem_singleton.mp (mem_filter.mp hc').1
    rw [hid]
    exact hother c hmem hunexpired

theorem acknowledge (h : Held outbox claims now) {request : OutboxAcknowledgementRequest}
    {record : StoredOutboxMessage V} {claim : OutboxClaim V}
    (hrecord : outbox.lookup request.messageId = some record) (hclaim : record.claim = some claim)
    (at' : JsDate.Instant) :
    Held (outbox.insert request.messageId (acknowledgedRecord record request claim at'))
      (claims.erase claim) now := by
  obtain ⟨hid, hmem⟩ := h.held _ record claim hrecord hclaim
  have hmessage : (acknowledgedRecord record request claim at').message.messageId =
      request.messageId := by
    unfold acknowledgedRecord
    split
    · exact h.keyed _ record hrecord
    · exact h.keyed _ record hrecord
  refine ⟨fun k r hr => ?_, fun k r hr hacked => ?_, fun k r c hr hc => ?_,
    fun c hc hunexpired => ?_, ?_⟩
  · rcases lookup_insert_cases hr with ⟨rfl, rfl⟩ | ⟨-, hr⟩
    · exact hmessage
    · exact h.keyed k r hr
  · rcases lookup_insert_cases hr with ⟨rfl, rfl⟩ | ⟨-, hr⟩
    · rfl
    · exact h.idle k r hr hacked
  · rcases lookup_insert_cases hr with ⟨rfl, rfl⟩ | ⟨hk, hr⟩
    · cases hc
    · obtain ⟨hkey, hold⟩ := h.held k r c hr hc
      refine ⟨hkey, (mem_erase_of_ne fun heq => hk ?_).mpr hold⟩
      rw [← hkey, heq, hid]
  · -- no other live claim of the message is left
    have hk : c.message.messageId ≠ request.messageId := by
      intro heq
      obtain ⟨r, hr, hc'⟩ := h.live c (mem_of_mem_erase hc) hunexpired
      rw [heq, hrecord] at hr
      cases hr
      obtain rfl := some.inj (hclaim.symm.trans hc')
      have hperm := (perm_cons_erase hmem).filter (OutboxClaim.unexpired now)
      rw [filter_cons_of_pos hunexpired] at hperm
      have hdistinct := (hperm.pairwise_iff fun hne => Ne.symm hne).mp h.distinct
      exact (pairwise_cons.mp hdistinct).1 claim (mem_filter.mpr ⟨hc, hunexpired⟩) rfl
    obtain ⟨r, hr, hclaim'⟩ := h.live c (mem_of_mem_erase hc) hunexpired
    exact ⟨r, (lookup_insert_ne hk).trans hr, hclaim'⟩
  · exact h.distinct.sublist (erase_sublist.filter _)

end Held

/-! ## What an acknowledgement does -/

theorem namesClaim_iff {request : OutboxAcknowledgementRequest} {claim : OutboxClaim V} :
    namesClaim request claim = true ↔
      claim.owner = request.owner ∧ claim.claimEpoch = request.claimEpoch := by
  rw [namesClaim, Bool.and_eq_true, beq_iff_eq, beq_iff_eq]

/-! ## Runs -/

section History

variable [WireValue V]

theorem outstandingClaims_append (history events : List (OutboxEvent V)) :
    outstandingClaims (history ++ events) =
      events.foldl OutboxEvent.outstanding (outstandingClaims history) := foldl_append ..

theorem outstandingClaims_claimed (history : List (OutboxEvent V)) (claims : List (OutboxClaim V)) :
    outstandingClaims (history ++ claims.map .claimed) = outstandingClaims history ++ claims := by
  rw [outstandingClaims_append]
  induction claims generalizing history with
  | nil => exact (append_nil _).symm
  | cons claim rest ih =>
    have hrest := ih (history ++ [.claimed claim])
    rw [outstandingClaims_append] at hrest
    exact hrest.trans (append_assoc ..)

theorem outstandingClaims_enqueued (history : List (OutboxEvent V))
    (messages : List (OutboxMessage V)) :
    outstandingClaims (history ++ messages.map .enqueued) = outstandingClaims history := by
  rw [outstandingClaims_append]
  generalize outstandingClaims history = claims
  induction messages with
  | nil => rfl
  | cons message rest ih => exact ih

def KeepsCompleted (history : List (OutboxEvent V)) : Prop :=
  history.Pairwise fun e e' => ∀ claim claim', e = .acknowledged claim .completed →
    e' = .claimed claim' → claim'.message.messageId ≠ claim.message.messageId

/-- What every step keeps. -/
structure HistoryInv (outbox : Outbox V) (history : List (OutboxEvent V)) (now : JsDate.Instant) :
    Prop where
  held : Held outbox (outstandingClaims history) now
  done : ∀ claim, .acknowledged claim .completed ∈ history → ∃ record,
    outbox.lookup claim.message.messageId = some record ∧ record.completed = true
  order : KeepsCompleted history

namespace HistoryInv

variable {outbox : Outbox V} {history : List (OutboxEvent V)} {now : JsDate.Instant}

theorem later (h : HistoryInv outbox history now) {now' : JsDate.Instant} (hle : now.ms ≤ now'.ms) :
    HistoryInv outbox history now' := ⟨h.held.later hle, h.done, h.order⟩

omit [WireValue V] in
theorem completed_not_retried {record : StoredOutboxMessage V} (h : record.completed = true) :
    retried record = false := by
  rw [StoredOutboxMessage.completed] at h
  rw [retried]
  cases hacked : record.acknowledgement with
  | none => rfl
  | some acknowledgement =>
    rw [hacked] at h
    have houtcome : acknowledgement.outcome = .completed := eq_of_beq h
    rw [any_some, houtcome]
    rfl

theorem enqueue (h : HistoryInv outbox history now) {messages : List (OutboxMessage V)}
    (sequence : Nat) (hnd : (messages.map (·.messageId)).Nodup)
    (hnew : ∀ message ∈ messages, (outbox.lookup message.messageId).all retried = true) :
    HistoryInv (insertOutbox outbox sequence messages) (history ++ messages.map .enqueued) now := by
  have hinsert : Held (insertOutbox outbox sequence messages) (outstandingClaims history) now ∧
      ∀ claim, .acknowledged claim .completed ∈ history → ∃ record,
        (insertOutbox outbox sequence messages).lookup claim.message.messageId = some record ∧
          record.completed = true := by
    have hheld := h.held
    have hdone := h.done
    clear h
    induction messages generalizing outbox sequence with
    | nil => exact ⟨hheld, hdone⟩
    | cons m rest ih =>
      rw [map_cons, nodup_cons] at hnd
      have hm := hnew m mem_cons_self
      refine ih (sequence + 1) hnd.2 (fun message hmsg => ?_) (hheld.enqueue _ fun record hr => ?_)
        fun claim hc => ?_
      · have hne : message.messageId ≠ m.messageId := fun heq =>
          hnd.1 (List.mem_map.mpr ⟨message, hmsg, heq⟩)
        rw [lookup_insert_ne hne]
        exact hnew message (mem_cons_of_mem _ hmsg)
      · rw [hr] at hm
        refine hheld.idle _ record hr ?_
        have hretried : retried record = true := hm
        obtain ⟨acknowledgement, hacked, -⟩ := (Option.any_eq_true _ _).mp hretried
        rw [hacked]
        rfl
      · obtain ⟨record, hr, hcompleted⟩ := hdone claim hc
        have hne : claim.message.messageId ≠ m.messageId := by
          intro heq
          rw [← heq, hr, all_some, completed_not_retried hcompleted] at hm
          cases hm
        exact ⟨record, (lookup_insert_ne hne).trans hr, hcompleted⟩
  refine ⟨?_, fun claim hc => ?_, ?_⟩
  · rw [outstandingClaims_enqueued]
    exact hinsert.1
  · rcases mem_append.mp hc with hold | hnew
    · exact hinsert.2 claim hold
    · obtain ⟨message, -, heq⟩ := List.mem_map.mp hnew
      cases heq
  · refine pairwise_append.mpr ⟨h.order, ?_, fun e _ e' he' claim claim' _ heq => ?_⟩
    · refine pairwise_map.mpr (pairwise_of_forall fun _ _ claim claim' heq => ?_)
      cases heq
    · obtain ⟨message, -, rfl⟩ := List.mem_map.mp he'
      cases heq

theorem claim (h : HistoryInv outbox history now) {id : MessageId} {record : StoredOutboxMessage V}
    {request : OutboxClaimRequest} (hrecord : outbox.lookup id = some record)
    (hclaimable : claimable request now record = true) (expiresAt : JsDate.Instant) :
    HistoryInv (outbox.insert id (claimedRecord record (claimOf request now expiresAt record)))
      (history ++ [.claimed (claimOf request now expiresAt record)]) now := by
  rw [claimable] at hclaimable
  simp only [Bool.not_eq_true', Bool.or_eq_false_iff] at hclaimable
  obtain ⟨⟨⟨hopen, -⟩, -⟩, hfree⟩ := hclaimable
  have hid : (claimOf request now expiresAt record).message.messageId = id :=
    h.held.keyed id record hrecord
  have hother : ∀ claim, .acknowledged claim .completed ∈ history →
      claim.message.messageId ≠ id := by
    intro claim hc heq
    obtain ⟨r, hr, hcompleted⟩ := h.done claim hc
    rw [heq, hrecord] at hr
    obtain rfl := some.inj hr
    rw [StoredOutboxMessage.completed, hopen] at hcompleted
    cases hcompleted
  refine ⟨?_, fun claim hc => ?_, ?_⟩
  · rw [show outstandingClaims (history ++ [.claimed (claimOf request now expiresAt record)]) = _
      from outstandingClaims_claimed history [claimOf request now expiresAt record]]
    refine h.held.claim hrecord (fun claim hc => ?_) request expiresAt
    rw [hc] at hfree
    exact hfree
  · rcases mem_append.mp hc with hold | hnew
    · obtain ⟨r, hr, hcompleted⟩ := h.done claim hold
      exact ⟨r, (lookup_insert_ne (hother claim hold)).trans hr, hcompleted⟩
    · cases mem_singleton.mp hnew
  · refine pairwise_append.mpr ⟨h.order, pairwise_singleton _ _,
      fun e he e' he' claim claim' heq heq' => ?_⟩
    rw [mem_singleton.mp he'] at heq'
    cases heq'
    rw [hid]
    exact (hother claim (heq ▸ he)).symm

theorem acknowledge (h : HistoryInv outbox history now) {request : OutboxAcknowledgementRequest}
    {record : StoredOutboxMessage V} {claim : OutboxClaim V}
    (hrecord : outbox.lookup request.messageId = some record) (hclaim : record.claim = some claim)
    (at' : JsDate.Instant) :
    HistoryInv (outbox.insert request.messageId (acknowledgedRecord record request claim at'))
      (history ++ [.acknowledged claim request.outcome]) now := by
  have hid := (h.held.held _ record claim hrecord hclaim).1
  refine ⟨?_, fun c hc => ?_, ?_⟩
  · rw [outstandingClaims_append]
    exact h.held.acknowledge hrecord hclaim at'
  · rcases mem_append.mp hc with hold | hnew
    · obtain ⟨r, hr, hcompleted⟩ := h.done c hold
      have hne : c.message.messageId ≠ request.messageId := by
        intro heq
        rw [heq, hrecord] at hr
        obtain rfl := some.inj hr
        obtain ⟨acknowledgement, hacked, -⟩ := (Option.any_eq_true _ _).mp hcompleted
        rw [h.held.idle _ record hrecord (by rw [hacked]; rfl)] at hclaim
        cases hclaim
      exact ⟨r, (lookup_insert_ne hne).trans hr, hcompleted⟩
    · obtain ⟨rfl, houtcome⟩ := OutboxEvent.acknowledged.inj (mem_singleton.mp hnew)
      rw [hid]
      refine ⟨_, lookup_insert _, ?_⟩
      change (request.outcome == .completed) = true
      rw [← houtcome]
      rfl
  · refine pairwise_append.mpr ⟨h.order, pairwise_singleton _ _, fun e _ e' he' c c' _ heq' => ?_⟩
    rw [mem_singleton.mp he'] at heq'
    cases heq'

end HistoryInv

namespace OutboxRun

variable {r r' : OutboxRun V}

/-- What every step of a run keeps. -/
def Inv (r : OutboxRun V) : Prop := HistoryInv r.world.store.outbox r.history r.now

theorem inv_initial : (initial : OutboxRun V).Inv where
  held := Held.empty _
  done _ hc := absurd hc not_mem_nil
  order := List.Pairwise.nil

variable {store : MemoryStateStore V} {history : List (OutboxEvent V)} {now : JsDate.Instant}

theorem historyInv_commit {store' : MemoryStateStore V}
    {fencing : Option StateFencing} {identity : Option IdempotencyIdentity}
    {staged : StagedTransaction V} {result : V} (h : HistoryInv store.outbox history now)
    (hs : store.commit fencing identity staged result = .ok store') :
    HistoryInv store'.outbox (history ++ store.commitEvents fencing identity staged result) now := by
  obtain ⟨newOutbox, hstage, heq⟩ := commit_outbox hs
  have hnone : (([] : List (OutboxMessage V)).map (·.messageId)).Nodup := nodup_nil
  obtain ⟨hnd, hmem⟩ := stageOutbox_ok hnone hstage
  rw [heq, commitEvents, hs, hstage]
  refine h.enqueue _ hnd fun message hm => ?_
  rcases hmem message hm with hm | ⟨-, hretried⟩
  · cases hm
  · exact hretried

theorem historyInv_claim (h : HistoryInv store.outbox history now) (request : OutboxClaimRequest)
    (limit : Nat) :
    HistoryInv (store.claimOutbox request limit now).2.1.outbox
      (history ++ (store.claimOutbox request limit now).2.2.map .claimed) now := by
  rcases claimOutbox_outbox store request limit now with ⟨houtbox, hclaims⟩ | ⟨houtbox, hclaims⟩
  · rw [houtbox, hclaims, map_nil, append_nil]
    exact h
  · rw [houtbox, hclaims]
    have hstart : HistoryInv store.outbox (history ++ ([] : List (OutboxClaim V)).map .claimed) now := by
      rwa [map_nil, append_nil]
    have hrun := claimRun_induction request now
      (P := fun outbox claims => HistoryInv outbox (history ++ claims.map .claimed) now)
      (fun outbox claims id record expiresAt hinv hrecord hclaimable _ => by
        rw [map_append, ← append_assoc]
        exact hinv.claim hrecord hclaimable expiresAt) hstart limit
    rwa [nil_append] at hrun

theorem historyInv_acknowledge (h : HistoryInv store.outbox history now)
    (request : OutboxAcknowledgementRequest) :
    HistoryInv (store.acknowledgeOutbox request now).2.outbox
      (history ++ store.acknowledgeEvents request now) now := by
  rw [acknowledgeEvents]
  rcases acknowledgeOutbox_cases store request now with ⟨e, he⟩ |
      ⟨acknowledgement, store', record, claim, hok, hduplicate, houtbox, -, -, -⟩ |
      ⟨store', record, claim, hok, hrecord, hclaim, -, houtbox⟩
  · rw [he, append_nil]
    exact h
  · rw [hok]
    dsimp only
    rw [if_pos hduplicate, append_nil, houtbox]
    exact h
  · have hfirst : (acknowledgementOf request claim now).duplicate ≠ true := Bool.false_ne_true
    rw [hok]
    dsimp only
    rw [if_neg hfirst, hrecord, bind_some, hclaim, houtbox]
    exact h.acknowledge hrecord hclaim now

theorem step_of_not_turn {e : StoreEvent V} (h : ∀ now, e ≠ .turn now) :
    r.step e = (r.world.step e).map fun world => { r with world := world } := by
  cases e with
  | turn now => exact absurd rfl (h now)
  | _ => rfl

theorem inv_step {e : StoreEvent V} (h : r.Inv) (hs : r.step e = some r') : r'.Inv := by
  by_cases hturn : ∃ now, e = .turn now
  · obtain ⟨now, rfl⟩ := hturn
    simp only [step] at hs
    split at hs
    · next hle =>
      obtain ⟨world, hworld, rfl⟩ := map_eq_some_iff.mp hs
      have hlater : HistoryInv r.world.store.outbox r.history now := HistoryInv.later h hle
      obtain ⟨job, jobs, hjobs, hrun⟩ := StoreWorld.turn_cases hworld
      change HistoryInv world.store.outbox (r.history ++ r.world.turnEvents now) now
      rw [StoreWorld.turnEvents, hjobs]
      cases job with
      | claim request limit =>
        obtain rfl := some.inj hrun
        exact historyInv_claim hlater request limit
      | acknowledge request =>
        obtain rfl := some.inj hrun
        exact historyInv_acknowledge hlater request
      | commit i issued staged result =>
        obtain ⟨call, hcall, hw⟩ := map_eq_some_iff.mp hrun
        dsimp only
        rw [hcall]
        dsimp only at hw ⊢
        split at hw
        · next e he =>
          obtain rfl := hw
          rw [commitEvents, he, append_nil]
          exact hlater
        · next store hstore =>
          obtain rfl := hw
          exact historyInv_commit hlater hstore
    · cases hs
  · have hworld : ∃ world, r.world.step e = some world ∧ r' = { r with world := world } := by
      rw [step_of_not_turn fun now heq => hturn ⟨now, heq⟩] at hs
      obtain ⟨world, hworld, heq⟩ := map_eq_some_iff.mp hs
      exact ⟨world, hworld, heq.symm⟩
    obtain ⟨world, hworld, rfl⟩ := hworld
    have hsame := (StoreWorld.rests_step hworld fun now heq => hturn ⟨now, heq⟩).store
    change HistoryInv world.store.outbox r.history r.now
    rw [hsame.outbox]
    exact h

theorem inv_of_reachable (hr : (machine V).Reachable r) : r.Inv :=
  hr.invariant (I := Inv)
    (fun r h0 => by
      obtain rfl : r = initial := h0
      exact inv_initial)
    fun _ _ _ _ ih hs _ => inv_step ih hs

theorem Inv.safe (h : r.Inv) : r.Safe where
  exclusive _ hle := (h.held.later hle).distinct
  current := h.held.held
  holder request now acknowledgement store hok := by
    rcases acknowledgeOutbox_cases r.world.store request now with ⟨e, he⟩ |
        ⟨_, _, record, claim, hok', hduplicate, houtbox, hrecord, hclaim, hnames⟩ |
        ⟨_, record, claim, hok', hrecord, hclaim, hnames, -⟩
    · cases hok.symm.trans he
    · cases hok.symm.trans hok'
      obtain ⟨howner, hepoch⟩ := namesClaim_iff.mp hnames
      exact ⟨record, claim, hrecord, howner, hepoch, .inr ⟨hduplicate, hclaim, houtbox⟩⟩
    · cases hok.symm.trans hok'
      obtain ⟨howner, hepoch⟩ := namesClaim_iff.mp hnames
      exact ⟨record, claim, hrecord, howner, hepoch, .inl hclaim⟩
  refused request now e store herror := by
    rcases acknowledgeOutbox_cases r.world.store request now with ⟨e', he⟩ |
        ⟨_, _, _, _, hok, -⟩ | ⟨_, _, _, hok, -⟩
    · cases herror.symm.trans he
      rfl
    · cases herror.symm.trans hok
    · cases herror.symm.trans hok
  completed := h.order

end OutboxRun

end History

/-! ## What remains claimable -/

/-- A claim of whatever comes next, for the shortest time. -/
def nextRequest : OutboxClaimRequest := ⟨Text.js "worker", 1, none, none, none⟩

theorem assertOutboxClaimRequest_next : assertOutboxClaimRequest nextRequest = .ok 1 := by
  decide +kernel

namespace MemoryStateStore

variable {store : MemoryStateStore V} {now expiresAt : JsDate.Instant}

theorem claimScan_one (outbox : Outbox V) {request : OutboxClaimRequest}
    (hexpires : now.add? request.leaseDurationMs = some expiresAt)
    {entries : List (Sigma fun _ : MessageId => StoredOutboxMessage V)}
    (hroom : ∀ entry ∈ entries, claimable request now entry.2 = true →
      entry.2.attempt < maxSafeInteger)
    (hsome : ∃ entry ∈ entries, claimable request now entry.2 = true) :
    ∃ entry ∈ entries, claimable request now entry.2 = true ∧
      claimScan request now outbox 1 entries =
        ⟨outbox.insert entry.1 (claimedRecord entry.2 (claimOf request now expiresAt entry.2)),
          [claimOf request now expiresAt entry.2], none⟩ := by
  induction entries with
  | nil =>
    obtain ⟨entry, hmem, -⟩ := hsome
    exact absurd hmem not_mem_nil
  | cons entry rest ih =>
    obtain ⟨id, record⟩ := entry
    by_cases hfirst : claimable request now record = true
    · have hattempt : ¬maxSafeInteger < record.attempt + 1 :=
        Nat.not_lt.mpr (hroom ⟨id, record⟩ mem_cons_self hfirst)
      refine ⟨⟨id, record⟩, mem_cons_self, hfirst, ?_⟩
      rw [claimScan, if_pos hfirst, if_neg hattempt, hexpires]
      rfl
    · obtain ⟨entry, hmem, hclaimable⟩ := hsome
      have hrest : entry ∈ rest := by
        rcases mem_cons.mp hmem with rfl | hrest
        · exact absurd hclaimable hfirst
        · exact hrest
      obtain ⟨entry', hmem', hclaimable', hscan⟩ :=
        ih (fun e he => hroom e (mem_cons_of_mem _ he)) ⟨entry, hrest, hclaimable⟩
      refine ⟨entry', mem_cons_of_mem _ hmem', hclaimable', ?_⟩
      rw [claimScan, if_neg hfirst, hscan]

def claimableIds (outbox : Outbox V) (now : JsDate.Instant) : Finset MessageId :=
  outbox.keys.toFinset.filter fun id =>
    (outbox.lookup id).any (claimable nextRequest now) = true

theorem mem_claimableIds {outbox : Outbox V} {id : MessageId} :
    id ∈ claimableIds outbox now ↔
      ∃ record, outbox.lookup id = some record ∧ claimable nextRequest now record = true := by
  rw [claimableIds, Finset.mem_filter, List.mem_toFinset, ← AList.mem_keys, Option.any_eq_true]
  constructor
  · rintro ⟨-, record, hrecord, hclaimable⟩
    exact ⟨record, hrecord, hclaimable⟩
  · rintro ⟨record, hrecord, hclaimable⟩
    exact ⟨lookup_isSome.mp (by rw [hrecord]; rfl), record, hrecord, hclaimable⟩

theorem not_claimable_claimed (request : OutboxClaimRequest)
    (hexpires : now.add? nextRequest.leaseDurationMs = some expiresAt)
    (record : StoredOutboxMessage V) :
    claimable request now (claimedRecord record (claimOf nextRequest now expiresAt record)) =
      false := by
  have hlater : now.ms < expiresAt.ms := by
    unfold JsDate.Instant.add? at hexpires
    split at hexpires
    · rw [← some.inj hexpires]
      exact Int.lt_add_one_of_le le_rfl
    · cases hexpires
  have hfresh : (claimedRecord record (claimOf nextRequest now expiresAt record)).claim.any
      (fun c => now.ms < c.expiresAt.ms) = true := decide_eq_true hlater
  rw [claimable, hfresh, Bool.or_true]
  rfl

theorem claimOutbox_next (hopen : store.lifecycle = .open)
    (hexpires : now.add? nextRequest.leaseDurationMs = some expiresAt)
    (hroom : ∀ id record, store.outbox.lookup id = some record →
      claimable nextRequest now record = true → record.attempt < maxSafeInteger)
    (hsome : (claimableIds store.outbox now).Nonempty) :
    ∃ id record store', store.outbox.lookup id = some record ∧
      claimable nextRequest now record = true ∧
      store.claimOutbox nextRequest 1 now =
        (.ok [claimOf nextRequest now expiresAt record], store',
          [claimOf nextRequest now expiresAt record]) ∧
      store'.lifecycle = .open ∧
      store'.outbox =
        store.outbox.insert id (claimedRecord record (claimOf nextRequest now expiresAt record)) := by
  have hperm := perm_insertionSort
    (fun left right : Sigma fun _ : MessageId => StoredOutboxMessage V =>
      claimOrder left.2 right.2 = true) store.outbox.entries
  have hentry : ∀ entry, entry ∈ store.sortedOutbox ↔
      store.outbox.lookup entry.1 = some entry.2 := fun entry =>
    hperm.mem_iff.trans mem_lookup_iff.symm
  have hexists : ∃ entry ∈ store.sortedOutbox, claimable nextRequest now entry.2 = true := by
    obtain ⟨id, hid⟩ := hsome
    obtain ⟨record, hrecord, hclaimable⟩ := mem_claimableIds.mp hid
    exact ⟨⟨id, record⟩, (hentry ⟨id, record⟩).mpr hrecord, hclaimable⟩
  obtain ⟨⟨id, record⟩, hmem, hclaimable, hscan⟩ := claimScan_one store.outbox hexpires
    (fun entry he hclaimable => hroom entry.1 entry.2 ((hentry entry).mp he) hclaimable) hexists
  refine ⟨id, record, { store with
      outbox := store.outbox.insert id
        (claimedRecord record (claimOf nextRequest now expiresAt record))
      revision := store.revision + 1 }, (hentry ⟨id, record⟩).mp hmem, hclaimable, ?_, hopen, rfl⟩
  rw [claimOutbox, StoreWorld.assertOpen_of_open hopen]
  rw [claimRun, hscan]
  rfl

theorem claimed_eventually {id : MessageId} {record : StoredOutboxMessage V}
    (hopen : store.lifecycle = .open)
    (hexpires : now.add? nextRequest.leaseDurationMs = some expiresAt)
    (hkeyed : ∀ id record, store.outbox.lookup id = some record → record.message.messageId = id)
    (hroom : ∀ id record, store.outbox.lookup id = some record →
      claimable nextRequest now record = true → record.attempt < maxSafeInteger)
    (hrecord : store.outbox.lookup id = some record)
    (hclaimable : claimable nextRequest now record = true) :
    ∃ n, ∃ claim ∈ store.claimJobs (List.replicate n (nextRequest, now)),
      claim.message.messageId = id := by
  induction hcard : (claimableIds store.outbox now).card using Nat.strong_induction_on
    generalizing store with
  | _ count ih =>
    obtain ⟨id₁, record₁, store', hrecord₁, hclaimable₁, hjob, hopen', houtbox⟩ :=
      claimOutbox_next hopen hexpires hroom ⟨id, mem_claimableIds.mpr ⟨record, hrecord, hclaimable⟩⟩
    have hstep : ∀ n, store.claimJobs (List.replicate (n + 1) (nextRequest, now)) =
        claimOf nextRequest now expiresAt record₁ ::
          store'.claimJobs (List.replicate n (nextRequest, now)) := by
      intro n
      rw [replicate_succ, claimJobs, assertOutboxClaimRequest_next]
      dsimp only
      rw [hjob]
      rw [singleton_append]
    by_cases hid : id₁ = id
    · subst hid
      refine ⟨1, claimOf nextRequest now expiresAt record₁, ?_, hkeyed _ _ hrecord₁⟩
      rw [hstep 0]
      exact mem_cons_self
    · have hlookup : ∀ k, k ≠ id₁ → store'.outbox.lookup k = store.outbox.lookup k := by
        intro k hk
        rw [houtbox, lookup_insert_ne hk]
      have hlookup₁ : store'.outbox.lookup id₁ =
          some (claimedRecord record₁ (claimOf nextRequest now expiresAt record₁)) := by
        rw [houtbox, lookup_insert]
      have hsubset : claimableIds store'.outbox now ⊂ claimableIds store.outbox now := by
        refine Finset.ssubset_iff_of_subset (fun k hk => ?_) |>.mpr ⟨id₁, ?_, fun hmem => ?_⟩
        · obtain ⟨r, hr, hc⟩ := mem_claimableIds.mp hk
          by_cases hk₁ : k = id₁
          · rw [hk₁]
            exact mem_claimableIds.mpr ⟨record₁, hrecord₁, hclaimable₁⟩
          · exact mem_claimableIds.mpr ⟨r, (hlookup k hk₁).symm.trans hr, hc⟩
        · exact mem_claimableIds.mpr ⟨record₁, hrecord₁, hclaimable₁⟩
        · obtain ⟨r, hr, hc⟩ := mem_claimableIds.mp hmem
          obtain rfl := some.inj (hlookup₁.symm.trans hr)
          rw [not_claimable_claimed nextRequest hexpires record₁] at hc
          cases hc
      have hlt := Finset.card_lt_card hsubset
      rw [hcard] at hlt
      have hkeyed' : ∀ k r, store'.outbox.lookup k = some r → r.message.messageId = k := by
        intro k r hr
        by_cases hk : k = id₁
        · subst hk
          obtain rfl := some.inj (hlookup₁.symm.trans hr)
          exact hkeyed k record₁ hrecord₁
        · exact hkeyed k r ((hlookup k hk).symm.trans hr)
      have hroom' : ∀ k r, store'.outbox.lookup k = some r →
          claimable nextRequest now r = true → r.attempt < maxSafeInteger := by
        intro k r hr hc
        by_cases hk : k = id₁
        · subst hk
          obtain rfl := some.inj (hlookup₁.symm.trans hr)
          rw [not_claimable_claimed nextRequest hexpires record₁] at hc
          cases hc
        · exact hroom k r ((hlookup k hk).symm.trans hr) hc
      obtain ⟨n, claim, hmem, hclaim⟩ := ih _ hlt hopen' hkeyed' hroom'
        ((hlookup id (Ne.symm hid)).trans hrecord) rfl
      refine ⟨n + 1, claim, ?_, hclaim⟩
      rw [hstep n]
      exact mem_cons_of_mem _ hmem

end MemoryStateStore

/-! ## A message for the last instant -/

section LastInstant

variable {store : MemoryStateStore V} {id : MessageId} {record : StoredOutboxMessage V}

variable {request : OutboxClaimRequest}

theorem leaseDuration_pos {limit : Nat}
    (h : assertOutboxClaimRequest request = .ok limit) : 0 < request.leaseDurationMs := by
  unfold assertOutboxClaimRequest at h
  split at h
  · cases h
  next hvalid =>
  simp only [Bool.or_eq_true, decide_eq_true_eq, not_or, not_le] at hvalid
  exact hvalid.1.1.2

/-- Its entry against the claims of others. -/
def Waits (id : MessageId) (record : StoredOutboxMessage V) (outbox : Outbox V)
    (claims : List (OutboxClaim V)) : Prop :=
  (∀ k r, outbox.lookup k = some r → r.message.messageId = k) ∧ outbox.lookup id = some record ∧
    ∀ claim ∈ claims, claim.message.messageId ≠ id

theorem waits_claimOutbox (h : Waits id record store.outbox [])
    (hlast : JsDate.parse record.message.availableAt = some JsDate.maxInstant)
    (hlease : 0 < request.leaseDurationMs) (limit : Nat)
    (now : JsDate.Instant) :
    Waits id record (store.claimOutbox request limit now).2.1.outbox
      (store.claimOutbox request limit now).2.2 := by
  rcases claimOutbox_outbox store request limit now with ⟨houtbox, hclaims⟩ | ⟨houtbox, hclaims⟩
  · rw [houtbox, hclaims]
    exact h
  · rw [houtbox, hclaims]
    refine claimRun_induction request now (P := Waits id record) ?_ h limit
    rintro outbox claims k r expiresAt ⟨hkeyed, hrecord, hclaims⟩ hr hclaimable hexpires
    have hk : k ≠ id := by
      rintro rfl
      obtain rfl := some.inj (hrecord.symm.trans hr)
      rw [claimable] at hclaimable
      simp only [Bool.not_eq_true', Bool.or_eq_false_iff] at hclaimable
      have hready := hclaimable.1.2
      rw [hlast] at hready
      have hnow : ¬now.ms < JsDate.maxInstant := of_decide_eq_false hready
      have hrange := expiresAt.inRange.2
      unfold JsDate.Instant.add? at hexpires
      split at hexpires
      · rw [← some.inj hexpires] at hrange
        omega
      · cases hexpires
    refine ⟨fun k' r' hr' => ?_, (lookup_insert_ne (Ne.symm hk)).trans hrecord, fun claim hc => ?_⟩
    · rcases lookup_insert_cases hr' with ⟨rfl, rfl⟩ | ⟨-, hr'⟩
      · exact hkeyed k' r hr
      · exact hkeyed k' r' hr'
    · rcases mem_append.mp hc with hold | hnew
      · exact hclaims claim hold
      · rw [mem_singleton.mp hnew]
        exact fun heq => hk ((hkeyed k r hr).symm.trans heq)

theorem claimOutbox_ok {limit : Nat} {now : JsDate.Instant}
    {claims : List (OutboxClaim V)} (h : (store.claimOutbox request limit now).1 = .ok claims) :
    (store.claimOutbox request limit now).2.2 = claims := by
  unfold claimOutbox at h ⊢
  split at h
  · cases h
  split at h
  · cases h
  dsimp only at h ⊢
  split at h
  · cases h
  · exact Except.ok.inj h

theorem not_claimableFrom (h : Waits id record store.outbox [])
    (hlast : JsDate.parse record.message.availableAt = some JsDate.maxInstant)
    (now : JsDate.Instant) : ¬store.ClaimableFrom now id := by
  rintro ⟨jobs, -, -, claim, hmem, hid⟩
  induction jobs generalizing store with
  | nil => exact absurd hmem not_mem_nil
  | cons job rest ih =>
    obtain ⟨request, t⟩ := job
    rw [claimJobs] at hmem
    split at hmem
    · exact ih h hmem
    next limit hvalid =>
    have hnext := waits_claimOutbox h hlast (leaseDuration_pos hvalid) limit t
    rcases mem_append.mp hmem with hnow | hlater
    · split at hnow
      · exact absurd hnow not_mem_nil
      · next claims hclaims =>
        rw [← claimOutbox_ok hclaims] at hnow
        exact hnext.2.2 claim hnow hid
    · exact ih ⟨hnext.1, hnext.2.1, fun _ hc => absurd hc not_mem_nil⟩ hlater

end LastInstant

namespace OutboxRun

variable [WireValue V] {r : OutboxRun V}

/-- **The message can be claimed later**, unless time or the attempts have run out. -/
theorem Inv.claimable (h : r.Inv) (hopen : r.world.store.lifecycle = .open) {id : MessageId}
    {record : StoredOutboxMessage V} (hrecord : r.world.store.outbox.lookup id = some record)
    (hcompleted : record.completed = false) (hnow : r.now.ms < JsDate.maxInstant)
    (havailable : ∀ at', JsDate.parse record.message.availableAt = some at' →
      at' < JsDate.maxInstant)
    (hexpiry : ∀ claim, record.claim = some claim → claim.expiresAt.ms < JsDate.maxInstant)
    (hroom : ∀ id record, r.world.store.outbox.lookup id = some record →
      record.completed = false → record.attempt < maxSafeInteger) :
    r.world.store.ClaimableFrom r.now id := by
  have htime : ∃ now expiresAt : JsDate.Instant, r.now.ms ≤ now.ms ∧
      now.add? nextRequest.leaseDurationMs = some expiresAt ∧
      (∀ at', JsDate.parse record.message.availableAt = some at' → at' ≤ now.ms) ∧
      ∀ claim, record.claim = some claim → claim.expiresAt.ms ≤ now.ms := by
    have hlow := r.now.inRange.1
    have hnext : ∀ ms : Int, r.now.ms ≤ ms → ms < JsDate.maxInstant →
        ∃ now expiresAt : JsDate.Instant, now.ms = ms ∧
          now.add? nextRequest.leaseDurationMs = some expiresAt := by
      intro ms hle hlt
      have hrange : -JsDate.maxInstant ≤ ms + 1 ∧ ms + 1 ≤ JsDate.maxInstant := by omega
      exact ⟨⟨ms, by omega⟩, ⟨ms + 1, hrange⟩, rfl, dif_pos hrange⟩
    obtain ⟨a, ha, hala, hall⟩ : ∃ a, r.now.ms ≤ a ∧ a < JsDate.maxInstant ∧
        ∀ at', JsDate.parse record.message.availableAt = some at' → at' ≤ a := by
      cases hparse : JsDate.parse record.message.availableAt with
      | none => exact ⟨r.now.ms, le_rfl, hnow, fun at' h => by cases h⟩
      | some at' =>
        have hlt := havailable at' hparse
        refine ⟨max r.now.ms at', le_max_left _ _, max_lt hnow hlt, fun b hb => ?_⟩
        obtain rfl := some.inj hb
        exact le_max_right _ _
    obtain ⟨b, hb, hbl, hball⟩ : ∃ b, a ≤ b ∧ b < JsDate.maxInstant ∧
        ∀ claim, record.claim = some claim → claim.expiresAt.ms ≤ b := by
      cases hclaim : record.claim with
      | none => exact ⟨a, le_rfl, hala, fun claim h => by cases h⟩
      | some claim =>
        have hlt := hexpiry claim hclaim
        refine ⟨max a claim.expiresAt.ms, le_max_left _ _, max_lt hala hlt, fun c hc => ?_⟩
        obtain rfl := some.inj hc
        exact le_max_right _ _
    obtain ⟨now, expiresAt, hms, hadd⟩ := hnext b (ha.trans hb) hbl
    refine ⟨now, expiresAt, hms ▸ ha.trans hb, hadd, fun at' h => ?_, fun claim h => ?_⟩
    · exact hms ▸ (hall at' h).trans hb
    · exact hms ▸ hball claim h
  obtain ⟨now, expiresAt, hle, hadd, hall, hball⟩ := htime
  have hclaimable : MemoryStateStore.claimable nextRequest now record = true := by
    have hready : (JsDate.parse record.message.availableAt).any (fun at' => now.ms < at') =
        false := by
      cases hparse : JsDate.parse record.message.availableAt with
      | none => rfl
      | some at' => exact decide_eq_false (not_lt.mpr (hall at' hparse))
    have hfree : record.claim.any (fun c => now.ms < c.expiresAt.ms) = false := by
      cases hclaim : record.claim with
      | none => rfl
      | some claim => exact decide_eq_false (not_lt.mpr (hball claim hclaim))
    rw [MemoryStateStore.claimable, hready, hfree]
    rw [StoredOutboxMessage.completed] at hcompleted
    rw [hcompleted]
    rfl
  obtain ⟨n, claim, hmem, hid⟩ := claimed_eventually hopen hadd h.held.keyed
    (fun k r hr hc => hroom k r hr (by
      rw [MemoryStateStore.claimable] at hc
      simp only [Bool.not_eq_true', Bool.or_eq_false_iff] at hc
      exact hc.1.1.1)) hrecord hclaimable
  refine ⟨List.replicate n (nextRequest, now), fun job hjob => ?_, ?_, claim, hmem, hid⟩
  · rw [eq_of_mem_replicate hjob]
    exact hle
  · exact pairwise_replicate.mpr (.inr le_rfl)

/-- **Outbox safety**, in every state a run can reach. -/
theorem outbox_safe (r : OutboxRun V) (hr : (machine V).Reachable r) :
    r.Safe ∧ (r.world.store.lifecycle = .open → r.now.ms < JsDate.maxInstant →
      (∀ id record, r.world.store.outbox.lookup id = some record → record.completed = false →
        record.attempt < maxSafeInteger) →
      ∀ id record, r.world.store.outbox.lookup id = some record → record.completed = false →
        (∀ at', JsDate.parse record.message.availableAt = some at' → at' < JsDate.maxInstant) →
        (∀ claim, record.claim = some claim → claim.expiresAt.ms < JsDate.maxInstant) →
          r.world.store.ClaimableFrom r.now id) := by
  have h := inv_of_reachable hr
  exact ⟨h.safe, fun hopen hnow hroom id record hrecord hcompleted havailable hexpiry =>
    h.claimable hopen hrecord hcompleted hnow havailable hexpiry hroom⟩

end OutboxRun

/-! ## Runs -/

namespace OutboxRun

/-- The message of `expiryRun` can be claimed again after it. -/
def roomy (r : OutboxRun Unit) : Bool :=
  r.world.store.lifecycle = .open && r.now.ms < JsDate.maxInstant &&
    r.world.store.outbox.entries.all (fun entry => entry.2.attempt < maxSafeInteger) &&
    (r.world.store.outbox.lookup (Text.js "m")).any fun record =>
      !record.completed && record.claim.isSome &&
        (JsDate.parse record.message.availableAt).all (fun at' => at' < JsDate.maxInstant) &&
        record.claim.all fun claim => claim.expiresAt.ms < JsDate.maxInstant

theorem outbox_safe_expiryRun :
    ∃ r : OutboxRun Unit, (machine Unit).run initial StoreWorld.expiryRun = some r ∧ r.Safe ∧
      r.world.store.ClaimableFrom r.now (Text.js "m") := by
  have hrun : ((machine Unit).run initial StoreWorld.expiryRun).map roomy = some true := by
    decide +kernel
  obtain ⟨r, hr, hroomy⟩ := map_eq_some_iff.mp hrun
  obtain ⟨hsafe, hclaimable⟩ := outbox_safe r (.of_init_run rfl hr)
  simp only [roomy, Bool.and_eq_true, decide_eq_true_eq, List.all_eq_true] at hroomy
  obtain ⟨⟨⟨hopen, hnow⟩, hroom⟩, hentry⟩ := hroomy
  obtain ⟨record, hrecord, hchecks⟩ := (Option.any_eq_true _ _).mp hentry
  simp only [Bool.and_eq_true, Bool.not_eq_true'] at hchecks
  obtain ⟨⟨⟨hcompleted, -⟩, havailable⟩, hexpiry⟩ := hchecks
  refine ⟨r, hr, hsafe, hclaimable hopen hnow (fun id record' hr' _ => ?_) (Text.js "m") record
    hrecord hcompleted (fun at' hat => ?_) fun claim hclaim => ?_⟩
  · exact hroom ⟨id, record'⟩ (mem_lookup_iff.mp hr')
  · rw [hat] at havailable
    exact of_decide_eq_true havailable
  · rw [hclaim] at hexpiry
    exact of_decide_eq_true hexpiry

def lastMessage : OutboxMessage Unit :=
  { StoreWorld.sampleMessage with availableAt := JsDate.toISOString JsDate.maxInstant }

def lastRun : List (StoreEvent Unit) :=
  [.openStore, .transact StoreWorld.unfencedOptions, .enqueueOutbox 0 lastMessage, .resolve 0 (),
    .turn JsDate.epochStart]

/-- A message that is available from the last instant on is never claimed. -/
theorem last_message_waits :
    ¬ ∀ r : OutboxRun Unit, (machine Unit).Reachable r → r.Safe ∧
      (r.world.store.lifecycle = .open → ∀ id record,
        r.world.store.outbox.lookup id = some record → record.completed = false →
          r.world.store.ClaimableFrom r.now id) := by
  intro hlaw
  have hrun : ((machine Unit).run initial lastRun).map (fun r =>
      (decide (r.world.store.lifecycle = .open),
        (r.world.store.outbox.lookup (Text.js "m")).map fun record =>
          (record.completed, JsDate.parse record.message.availableAt))) =
      some (true, some (false, some JsDate.maxInstant)) := by
    decide +kernel
  obtain ⟨r, hr, hend⟩ := map_eq_some_iff.mp hrun
  obtain ⟨hopen, hentry⟩ := Prod.mk.inj hend
  obtain ⟨record, hrecord, hfields⟩ := map_eq_some_iff.mp hentry
  obtain ⟨hcompleted, hlast⟩ := Prod.mk.inj hfields
  have hreach : (machine Unit).Reachable r := .of_init_run rfl hr
  have hwaits : Waits (Text.js "m") record r.world.store.outbox [] :=
    ⟨(inv_of_reachable hreach).held.keyed, hrecord, fun _ hc => absurd hc not_mem_nil⟩
  exact not_claimableFrom hwaits hlast r.now
    ((hlaw r hreach).2 (of_decide_eq_true hopen) (Text.js "m") record hrecord hcompleted)

end OutboxRun

end TegoNext
