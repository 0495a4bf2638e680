/-
Outbox claim tokens, over whole runs of the memory store.

The attempt counter of an outbox entry doubles as the epoch of its claims, and an acknowledgement
must name owner and epoch of the claim it settles. Expiry, retries and completion leave the counter
alone; an enqueue over an entry whose last acknowledgement was a retry resets it. In runs without
such an enqueue the invariant `ClaimLog` holds.
-/
import TegoNext.StoreWorld
import TegoNext.CommitRefinement

set_option autoImplicit false

namespace TegoNext

open MemoryStateStore List Option AList

variable {V : Type}

/-! ## The law -/

/-- Two claims of one message never carry the same token. -/
def StoreWorld.ClaimTokensUnique (w : StoreWorld V) : Prop :=
  w.claims.Pairwise fun earlier later => earlier.message.messageId = later.message.messageId →
    (earlier.owner, earlier.claimEpoch) ≠ (later.owner, later.claimEpoch)

def OutboxAcknowledgementRequest.Names (request : OutboxAcknowledgementRequest)
    (claim : OutboxClaim V) : Prop :=
  request.messageId = claim.message.messageId ∧ request.owner = claim.owner ∧
    request.claimEpoch = claim.claimEpoch

def StoreWorld.SupersededRejected (w : StoreWorld V) : Prop :=
  ∀ (i j : Nat) (earlier later : OutboxClaim V), i < j → w.claims[i]? = some earlier →
    w.claims[j]? = some later → earlier.message.messageId = later.message.messageId →
    ∀ request : OutboxAcknowledgementRequest, request.Names earlier →
      ∀ now, ∃ e, w.store.acknowledgeOutbox request now = (.error e, w.store)

def retried (record : StoredOutboxMessage V) : Bool :=
  record.acknowledgement.any fun a => a.outcome == .retry

/-- The commit at the head of the queue, if there is one, enqueues no message
over an entry whose last acknowledgement was a retry. -/
def StoreWorld.recreatesNoEntry (w : StoreWorld V) : StoreEvent V → Bool
  | .turn _ =>
    match w.jobs with
    | .commit _ _ staged _ :: _ =>
      staged.outbox.all fun message => !(w.store.outbox.lookup message.messageId).any retried
    | _ => true
  | _ => true

/-! ## What the jobs do to the outbox -/

/-- The entries a commit creates are of distinct messages, and replace retried ones. -/
theorem stageOutbox_ok [WireValue V] {outbox : Outbox V} {acc staged result : List (OutboxMessage V)}
    (hacc : (acc.map (·.messageId)).Nodup)
    (h : stageOutbox outbox acc staged = .ok result) :
    (result.map (·.messageId)).Nodup ∧ ∀ message ∈ result, message ∈ acc ∨
      message ∈ staged ∧ (outbox.lookup message.messageId).all retried = true := by
  induction staged generalizing acc with
  | nil =>
    cases Except.ok.inj h
    exact ⟨hacc, fun _ hm => .inl hm⟩
  | cons m rest ih =>
    simp only [stageOutbox, bind, Except.bind] at h
    split at h
    · cases h
    split at h
    · cases h
    have hskip : stageOutbox outbox acc rest = .ok result →
        (result.map (·.messageId)).Nodup ∧ ∀ message ∈ result, message ∈ acc ∨
          message ∈ m :: rest ∧ (outbox.lookup message.messageId).all retried = true := by
      intro h
      obtain ⟨hnd, hmem⟩ := ih hacc h
      exact ⟨hnd, fun message hm => (hmem message hm).imp_right fun ⟨h₁, h₂⟩ =>
        ⟨mem_cons_of_mem _ h₁, h₂⟩⟩
    split at h
    · split at h
      · exact hskip h
      · cases h
    next hfresh =>
    have hnew : stageOutbox outbox (acc ++ [m]) rest = .ok result →
        (outbox.lookup m.messageId).all retried = true →
        (result.map (·.messageId)).Nodup ∧ ∀ message ∈ result, message ∈ acc ∨
          message ∈ m :: rest ∧ (outbox.lookup message.messageId).all retried = true := by
      intro h hm
      have hnotin : m.messageId ∉ acc.map (·.messageId) := by
        intro hin
        obtain ⟨a, ha, hid⟩ := List.mem_map.mp hin
        have := find?_eq_none.mp hfresh a ha
        simp [hid] at this
      have hacc' : ((acc ++ [m]).map (·.messageId)).Nodup := by
        rw [map_append, nodup_append]
        refine ⟨hacc, by simp, fun a ha b hb hab => hnotin ?_⟩
        rw [map_singleton, mem_singleton] at hb
        exact hb ▸ hab ▸ ha
      obtain ⟨hnd, hmem⟩ := ih hacc' h
      refine ⟨hnd, fun message hmsg => ?_⟩
      rcases hmem message hmsg with hin | ⟨h₁, h₂⟩
      · rcases mem_append.mp hin with hin | hin
        · exact .inl hin
        · rw [mem_singleton.mp hin]
          exact .inr ⟨mem_cons_self, hm⟩
      · exact .inr ⟨mem_cons_of_mem _ h₁, h₂⟩
    split at h
    · next hnone => exact hnew h (by rw [hnone]; rfl)
    next existing hsome =>
    split at h
    · next hretry => exact hnew h (by rw [hsome]; exact hretry)
    split at h
    · exact hskip h
    · cases h

theorem commit_outbox [WireValue V] {store store' : MemoryStateStore V}
    {fencing : Option StateFencing} {identity : Option IdempotencyIdentity}
    {staged : StagedTransaction V} {result : V}
    (h : store.commit fencing identity staged result = .ok store') :
    ∃ newOutbox, stageOutbox store.outbox [] staged.outbox = .ok newOutbox ∧
      store'.outbox = insertOutbox store.outbox store.outboxSequence newOutbox := by
  obtain ⟨-, next, app, newOutbox, advances, -, hout, -, rfl⟩ := commit_ok h
  refine ⟨newOutbox, hout, ?_⟩
  rw [remember_outbox]
  split
  · rfl
  next hmutates =>
  have hnil : newOutbox = [] := by
    simp only [Bool.or_eq_true, not_or, Bool.not_eq_true, Bool.not_eq_false',
      List.isEmpty_iff] at hmutates
    exact hmutates.1.2
  rw [hnil]
  rfl

theorem acknowledgeOutbox_cases (store : MemoryStateStore V)
    (request : OutboxAcknowledgementRequest) (now : JsDate.Instant) :
    (∃ e, store.acknowledgeOutbox request now = (.error e, store)) ∨
    (∃ acknowledgement store' record claim,
      store.acknowledgeOutbox request now = (.ok acknowledgement, store') ∧
      acknowledgement.duplicate = true ∧ store'.outbox = store.outbox ∧
      store.outbox.lookup request.messageId = some record ∧
      record.acknowledgedClaim = some claim ∧ namesClaim request claim = true) ∨
    ∃ store' record claim,
      store.acknowledgeOutbox request now = (.ok (acknowledgementOf request claim now), store') ∧
      store.outbox.lookup request.messageId = some record ∧ record.claim = some claim ∧
      namesClaim request claim = true ∧
      store'.outbox =
        store.outbox.insert request.messageId (acknowledgedRecord record request claim now) := by
  unfold acknowledgeOutbox
  split
  · exact .inl ⟨_, rfl⟩
  split
  · exact .inl ⟨_, rfl⟩
  split
  · exact .inl ⟨_, rfl⟩
  next record hrecord =>
  split
  · next acknowledgement hrepeated =>
    split
    · exact .inl ⟨_, rfl⟩
    obtain ⟨hnames, -⟩ := ite_none_right_eq_some.mp hrepeated
    obtain ⟨claim, hclaim, hname⟩ := (Option.any_eq_true _ _).mp hnames
    refine .inr (.inl ⟨_, _, record, claim, rfl, rfl, ?_, hrecord, hclaim, hname⟩)
    split
    · exact advanceFence_outbox _ _
    · rfl
  split
  · exact .inl ⟨_, rfl⟩
  next claim hclaim =>
  split
  · next hnames =>
    refine .inr (.inr ⟨_, record, claim, rfl, hrecord, hclaim, hnames, ?_⟩)
    split
    · exact advanceFence_outbox _ _
    · rfl
  · exact .inl ⟨_, rfl⟩

/-- An acknowledgement that settles a claim rewrites its entry; any other leaves
the outbox alone. -/
theorem acknowledgeOutbox_outbox (store : MemoryStateStore V)
    (request : OutboxAcknowledgementRequest) (now : JsDate.Instant) :
    (store.acknowledgeOutbox request now).2.outbox = store.outbox ∨
    ∃ record claim, store.outbox.lookup request.messageId = some record ∧
      record.claim = some claim ∧
      (store.acknowledgeOutbox request now).2.outbox =
        store.outbox.insert request.messageId (acknowledgedRecord record request claim now) := by
  rcases acknowledgeOutbox_cases store request now with ⟨e, heq⟩ |
    ⟨_, _, _, _, heq, -, houtbox, -⟩ | ⟨_, record, claim, heq, hrecord, hclaim, -, houtbox⟩ <;>
    rw [heq]
  · exact .inl rfl
  · exact .inl houtbox
  · exact .inr ⟨record, claim, hrecord, hclaim, houtbox⟩

/-- A request that names neither the entry's claim nor its acknowledged claim is
rejected, and nothing changes. -/
theorem acknowledgeOutbox_rejects (store : MemoryStateStore V)
    (request : OutboxAcknowledgementRequest) (now : JsDate.Instant)
    (h : ∀ record, store.outbox.lookup request.messageId = some record →
      record.acknowledgedClaim.any (namesClaim request) = false ∧
      record.claim.any (namesClaim request) = false) :
    ∃ e, store.acknowledgeOutbox request now = (.error e, store) := by
  rcases acknowledgeOutbox_cases store request now with he |
    ⟨_, _, record, claim, -, -, -, hrecord, hclaim, hnames⟩ |
    ⟨_, record, claim, -, hrecord, hclaim, hnames, -⟩
  · exact he
  · have hacked := (h record hrecord).1
    rw [hclaim, any_some, hnames] at hacked
    cases hacked
  · have hclaimed := (h record hrecord).2
    rw [hclaim, any_some, hnames] at hclaimed
    cases hclaimed

/-- A claim job that gets past its guards does what its scan did; otherwise it
changes nothing. -/
theorem claimOutbox_outbox (store : MemoryStateStore V) (request : OutboxClaimRequest)
    (limit : Nat) (now : JsDate.Instant) :
    let job := store.claimOutbox request limit now
    (job.2.1.outbox = store.outbox ∧ job.2.2 = []) ∨
    (job.2.1.outbox = (store.claimRun request limit now).outbox ∧
      job.2.2 = (store.claimRun request limit now).claimed) := by
  unfold claimOutbox
  split
  · exact .inl ⟨rfl, rfl⟩
  split
  · exact .inl ⟨rfl, rfl⟩
  dsimp only
  split
  · exact .inr ⟨rfl, rfl⟩
  refine .inr ⟨?_, rfl⟩
  split
  · exact advanceFence_outbox _ _
  · rfl

section

variable (request : OutboxClaimRequest) (now : JsDate.Instant)
  {P : Outbox V → List (OutboxClaim V) → Prop}
  (hclaim : ∀ outbox claims id record expiresAt, P outbox claims →
    outbox.lookup id = some record → claimable request now record = true →
      now.add? request.leaseDurationMs = some expiresAt →
        P (outbox.insert id (claimedRecord record (claimOf request now expiresAt record)))
          (claims ++ [claimOf request now expiresAt record]))

include hclaim

/-- The scan of a claim job, one claim after the other: what each claim keeps, the scan keeps. -/
theorem claimScan_induction
    {outbox : Outbox V} {claims : List (OutboxClaim V)} (h : P outbox claims) (limit : Nat)
    {entries : List (Sigma fun _ : MessageId => StoredOutboxMessage V)}
    (hnd : (entries.map (·.1)).Nodup)
    (hentries : ∀ entry ∈ entries, outbox.lookup entry.1 = some entry.2) :
    P (claimScan request now outbox limit entries).outbox
      (claims ++ (claimScan request now outbox limit entries).claimed) := by
  induction entries generalizing outbox claims limit with
  | nil => simpa [claimScan] using h
  | cons entry rest ih =>
    obtain ⟨id, record⟩ := entry
    rw [map_cons, nodup_cons] at hnd
    have hrecord := hentries ⟨id, record⟩ mem_cons_self
    have hrest : ∀ entry ∈ rest, outbox.lookup entry.1 = some entry.2 := fun e he =>
      hentries e (mem_cons_of_mem _ he)
    unfold claimScan
    split
    · next hclaimable =>
      split
      · simpa using h
      split
      · simpa using h
      next expiresAt hexpires =>
      have hclaimed := hclaim outbox claims id record expiresAt h hrecord hclaimable hexpires
      split
      · exact hclaimed
      have hkeep : ∀ e ∈ rest, (outbox.insert id
          (claimedRecord record (claimOf request now expiresAt record))).lookup e.1 = some e.2 := by
        intro e he
        have hne : e.1 ≠ id := fun heq => hnd.1 (List.mem_map.mpr ⟨e, he, heq⟩)
        rw [lookup_insert_ne hne, hrest e he]
      have hscan := ih hclaimed (limit - 1) hnd.2 hkeep
      rwa [append_assoc, singleton_append] at hscan
    · exact ih h limit hnd.2 hrest

theorem claimRun_induction
    {store : MemoryStateStore V} {claims : List (OutboxClaim V)} (h : P store.outbox claims)
    (limit : Nat) :
    P (store.claimRun request limit now).outbox
      (claims ++ (store.claimRun request limit now).claimed) := by
  have hperm := perm_insertionSort
    (fun left right : Sigma fun _ : MessageId => StoredOutboxMessage V =>
      claimOrder left.2 right.2 = true) store.outbox.entries
  refine claimScan_induction request now hclaim h limit ?_ fun entry he => ?_
  · have hkeys := hperm.map fun entry => entry.1
    exact hkeys.nodup_iff.mpr store.outbox.nodupKeys
  · exact mem_lookup_iff.mpr (hperm.mem_iff.mp he)

end

/-! ## The invariant -/

/-- Outbox entries against the log of all claims. The claim an entry holds, settled or not, is in
the log and has the counter's epoch. -/
structure ClaimLog (outbox : Outbox V) (claims : List (OutboxClaim V)) : Prop where
  keyed : ∀ id record, outbox.lookup id = some record → record.message.messageId = id
  counted : ∀ claim ∈ claims, ∃ record, outbox.lookup claim.message.messageId = some record ∧
    claim.claimEpoch ≤ record.attempt
  increasing : claims.Pairwise fun earlier later =>
    earlier.message.messageId = later.message.messageId → earlier.claimEpoch < later.claimEpoch
  held : ∀ id record claim, outbox.lookup id = some record →
    record.claim = some claim ∨ record.acknowledgedClaim = some claim →
    claim.claimEpoch = record.attempt

namespace ClaimLog

theorem empty : ClaimLog (V := V) ∅ [] where
  keyed id record h := by simp at h
  counted _ h := absurd h not_mem_nil
  increasing := List.Pairwise.nil
  held id record claim h := by simp at h

variable {outbox : Outbox V} {claims : List (OutboxClaim V)}

theorem enqueue (h : ClaimLog outbox claims)
    {message : OutboxMessage V} (sequence : Nat)
    (hnew : outbox.lookup message.messageId = none) :
    ClaimLog (outbox.insert message.messageId (enqueued message sequence)) claims where
  keyed id record hr := by
    rcases lookup_insert_cases hr with ⟨rfl, rfl⟩ | ⟨-, hr⟩
    · rfl
    · exact h.keyed id record hr
  counted claim hc := by
    obtain ⟨record, hr, hle⟩ := h.counted claim hc
    have hid : claim.message.messageId ≠ message.messageId := by
      intro heq
      rw [heq, hnew] at hr
      cases hr
    exact ⟨record, by rwa [lookup_insert_ne hid], hle⟩
  increasing := h.increasing
  held id record claim hr hheld := by
    rcases lookup_insert_cases hr with ⟨rfl, rfl⟩ | ⟨-, hr⟩
    · rcases hheld with hheld | hheld <;> cases hheld
    · exact h.held id record claim hr hheld

theorem insertOutbox
    (h : ClaimLog outbox claims) {messages : List (OutboxMessage V)} (sequence : Nat)
    (hnd : (messages.map (·.messageId)).Nodup)
    (hnew : ∀ message ∈ messages, outbox.lookup message.messageId = none) :
    ClaimLog (MemoryStateStore.insertOutbox outbox sequence messages) claims := by
  induction messages generalizing outbox sequence with
  | nil => exact h
  | cons m rest ih =>
    rw [map_cons, nodup_cons] at hnd
    refine ih (h.enqueue (sequence + 1) (hnew m mem_cons_self)) _ hnd.2 ?_
    intro message hm
    have hne : message.messageId ≠ m.messageId := fun heq =>
      hnd.1 (List.mem_map.mpr ⟨message, hm, heq⟩)
    rw [lookup_insert_ne hne]
    exact hnew message (mem_cons_of_mem _ hm)

/-- A rewritten entry with the same message id and attempt, holding at most the
claim it held. -/
theorem rewrite (h : ClaimLog outbox claims)
    {id : MessageId} {old new : StoredOutboxMessage V} (hold : outbox.lookup id = some old)
    (hid : new.message.messageId = old.message.messageId) (hattempt : new.attempt = old.attempt)
    (hheld : ∀ claim, new.claim = some claim ∨ new.acknowledgedClaim = some claim →
      old.claim = some claim ∨ old.acknowledgedClaim = some claim) :
    ClaimLog (outbox.insert id new) claims where
  keyed k record hr := by
    rcases lookup_insert_cases hr with ⟨rfl, rfl⟩ | ⟨-, hr⟩
    · rw [hid, h.keyed k old hold]
    · exact h.keyed k record hr
  counted claim hc := by
    obtain ⟨record, hr, hle⟩ := h.counted claim hc
    by_cases hk : claim.message.messageId = id
    · rw [hk, hold] at hr
      cases some.inj hr
      exact ⟨new, by rw [hk, lookup_insert], hattempt ▸ hle⟩
    · exact ⟨record, by rwa [lookup_insert_ne hk], hle⟩
  increasing := h.increasing
  held k record claim hr hc := by
    rcases lookup_insert_cases hr with ⟨rfl, rfl⟩ | ⟨-, hr⟩
    · rw [hattempt]
      exact h.held k old claim hold (hheld claim hc)
    · exact h.held k record claim hr hc

theorem claim {outbox : Outbox V} {claims : List (OutboxClaim V)} (h : ClaimLog outbox claims)
    {id : MessageId} {record : StoredOutboxMessage V} (hrecord : outbox.lookup id = some record)
    (request : OutboxClaimRequest) (now expiresAt : JsDate.Instant) :
    ClaimLog
      (outbox.insert id (claimedRecord record (claimOf request now expiresAt record)))
      (claims ++ [claimOf request now expiresAt record]) where
  keyed k r hr := by
    rcases lookup_insert_cases hr with ⟨rfl, rfl⟩ | ⟨-, hr⟩
    · exact h.keyed k record hrecord
    · exact h.keyed k r hr
  counted c hc := by
    rcases mem_append.mp hc with hc | hc
    · obtain ⟨r, hr, hle⟩ := h.counted c hc
      by_cases hk : c.message.messageId = id
      · rw [hk, hrecord] at hr
        cases some.inj hr
        exact ⟨_, by rw [hk, lookup_insert], Nat.le_succ_of_le hle⟩
      · exact ⟨r, by rwa [lookup_insert_ne hk], hle⟩
    · rw [mem_singleton.mp hc]
      have hid : (claimOf request now expiresAt record).message.messageId = id :=
        h.keyed id record hrecord
      exact ⟨_, by rw [hid, lookup_insert], Nat.le_refl _⟩
  increasing := by
    rw [pairwise_append]
    refine ⟨h.increasing, pairwise_singleton _ _, fun a ha b hb hab => ?_⟩
    rw [mem_singleton] at hb
    subst hb
    -- every earlier claim of the message is at most the counter
    obtain ⟨r, hr, hle⟩ := h.counted a ha
    rw [hab, show (claimOf request now expiresAt record).message.messageId = id from
      h.keyed id record hrecord, hrecord] at hr
    cases some.inj hr
    exact Nat.lt_succ_of_le hle
  held k r c hr hc := by
    rcases lookup_insert_cases hr with ⟨rfl, rfl⟩ | ⟨-, hr⟩
    · rcases hc with hc | hc
      · cases some.inj hc
        rfl
      · cases hc
    · exact h.held k r c hr hc

theorem claimRun {store : MemoryStateStore V}
    (h : ClaimLog store.outbox claims) (request : OutboxClaimRequest) (limit : Nat)
    (now : JsDate.Instant) :
    ClaimLog (store.claimRun request limit now).outbox
      (claims ++ (store.claimRun request limit now).claimed) :=
  claimRun_induction request now (P := ClaimLog)
    (fun _ _ _ _ expiresAt hlog hrecord _ _ => hlog.claim hrecord request now expiresAt) h limit

/-- What the invariant says of an entry whose message was claimed twice: it holds
neither the earlier claim nor its acknowledgement. -/
theorem not_held_of_superseded (h : ClaimLog outbox claims) {earlier later : OutboxClaim V}
    (hlater : later ∈ claims) (hid : earlier.message.messageId = later.message.messageId)
    (hlt : earlier.claimEpoch < later.claimEpoch) {record : StoredOutboxMessage V}
    (hrecord : outbox.lookup earlier.message.messageId = some record) {claim : OutboxClaim V}
    (hclaim : record.claim = some claim ∨ record.acknowledgedClaim = some claim) :
    earlier.claimEpoch < claim.claimEpoch := by
  obtain ⟨r, hr, hle⟩ := h.counted later hlater
  rw [← hid, hrecord] at hr
  cases some.inj hr
  rw [h.held _ record claim hrecord hclaim]
  exact Nat.lt_of_lt_of_le hlt hle

end ClaimLog

/-! ## Runs -/

namespace StoreWorld

theorem claimLog_acknowledge {store : MemoryStateStore V} {claims : List (OutboxClaim V)}
    (h : ClaimLog store.outbox claims) (request : OutboxAcknowledgementRequest)
    (now : JsDate.Instant) :
    ClaimLog (store.acknowledgeOutbox request now).2.outbox claims := by
  rcases acknowledgeOutbox_outbox store request now with heq | ⟨record, claim, hrecord, hclaim, heq⟩
  · rwa [heq]
  · rw [heq]
    refine h.rewrite hrecord ?_ rfl fun c hc => ?_
    · unfold acknowledgedRecord
      split <;> rfl
    · rcases hc with hc | hc
      · cases hc
      · cases some.inj hc
        exact .inl hclaim

theorem claimLog_claim {store : MemoryStateStore V} {claims : List (OutboxClaim V)}
    (h : ClaimLog store.outbox claims) (request : OutboxClaimRequest) (limit : Nat)
    (now : JsDate.Instant) :
    ClaimLog (store.claimOutbox request limit now).2.1.outbox
      (claims ++ (store.claimOutbox request limit now).2.2) := by
  rcases claimOutbox_outbox store request limit now with ⟨houtbox, hclaims⟩ | ⟨houtbox, hclaims⟩
  · rw [houtbox, hclaims, append_nil]
    exact h
  · rw [houtbox, hclaims]
    exact h.claimRun request limit now

section Turn

variable [WireValue V]

theorem claimLog_commit {store store' : MemoryStateStore V} {fencing : Option StateFencing}
    {identity : Option IdempotencyIdentity} {staged : StagedTransaction V} {result : V}
    {claims : List (OutboxClaim V)} (h : ClaimLog store.outbox claims)
    (hfresh : (staged.outbox.all fun message =>
      !(store.outbox.lookup message.messageId).any retried) = true)
    (hs : store.commit fencing identity staged result = .ok store') :
    ClaimLog store'.outbox claims := by
  obtain ⟨newOutbox, hstage, heq⟩ := commit_outbox hs
  have hnone : (([] : List (OutboxMessage V)).map (·.messageId)).Nodup := nodup_nil
  obtain ⟨hnd, hmem⟩ := stageOutbox_ok hnone hstage
  rw [heq]
  refine h.insertOutbox _ hnd fun message hm => ?_
  rcases hmem message hm with hm | ⟨hm, hall⟩
  · cases hm
  · have hnot := List.all_eq_true.mp hfresh message hm
    cases hlookup : store.outbox.lookup message.messageId with
    | none => rfl
    | some record =>
      rw [hlookup] at hall hnot
      have : retried record = true := hall
      simp [this] at hnot

variable {w : StoreWorld V}

theorem claimLog_turn {w' : StoreWorld V} {now : JsDate.Instant}
    (h : ClaimLog w.store.outbox w.claims) (hfresh : w.recreatesNoEntry (.turn now) = true)
    (hs : w.turn now = some w') : ClaimLog w'.store.outbox w'.claims := by
  obtain ⟨job, jobs, hjobs, hrun⟩ := turn_cases hs
  cases job with
  | commit i issued staged result =>
    obtain ⟨call, phase, -, rfl | ⟨store, hstore, rfl⟩⟩ := commitJob_cases hrun
    · exact h
    · rw [recreatesNoEntry, hjobs] at hfresh
      exact claimLog_commit h hfresh hstore
  | claim request limit =>
    cases some.inj hrun
    exact claimLog_claim h request limit now
  | acknowledge request =>
    cases some.inj hrun
    exact claimLog_acknowledge h request now

theorem claimLog_step {w' : StoreWorld V} {e : StoreEvent V}
    (h : ClaimLog w.store.outbox w.claims) (hfresh : w.recreatesNoEntry e = true)
    (hs : w.step e = some w') : ClaimLog w'.store.outbox w'.claims := by
  by_cases hturn : ∃ now, e = .turn now
  · obtain ⟨now, rfl⟩ := hturn
    exact claimLog_turn h hfresh hs
  · have hrests := rests_step hs (not_exists.mp hturn)
    rwa [hrests.store.outbox, hrests.claims]

theorem claimLog_of_reachableVia
    (hr : (machine V).ReachableVia (fun w e _ => w.recreatesNoEntry e = true) w) :
    ClaimLog w.store.outbox w.claims := by
  refine hr.invariant (I := fun w => ClaimLog w.store.outbox w.claims) ?_
    fun _ _ _ _ h hs hfresh => claimLog_step h hfresh hs
  rintro w rfl
  exact ClaimLog.empty

/-- **Claim tokens.** In every run whose commits enqueue no message over an entry whose last
acknowledgement was a retry, they are unique, and a superseded claim cannot be acknowledged. -/
theorem claimTokens_unique {w : StoreWorld V}
    (hr : (machine V).ReachableVia (fun w e _ => w.recreatesNoEntry e = true) w) :
    w.ClaimTokensUnique ∧ w.SupersededRejected := by
  have h := claimLog_of_reachableVia hr
  refine ⟨?_, ?_⟩
  · refine h.increasing.imp fun {a b} hlt hid htoken => ?_
    have heq : a.claimEpoch = b.claimEpoch := congrArg Prod.snd htoken
    exact Nat.ne_of_lt (hlt hid) heq
  · intro i j earlier later hij hi hj hid request hnames now
    obtain ⟨hmsg, howner, hepoch⟩ := hnames
    have hlt : earlier.claimEpoch < later.claimEpoch := by
      obtain ⟨hi', rfl⟩ := List.getElem?_eq_some_iff.mp hi
      obtain ⟨hj', rfl⟩ := List.getElem?_eq_some_iff.mp hj
      exact pairwise_iff_getElem.mp h.increasing i j hi' hj' hij hid
    refine acknowledgeOutbox_rejects w.store request now fun record hrecord => ?_
    rw [hmsg] at hrecord
    have hnot : ∀ claim, record.claim = some claim ∨ record.acknowledgedClaim = some claim →
        namesClaim request claim = false := by
      intro claim hclaim
      have hgt := h.not_held_of_superseded (mem_of_getElem? hj) hid hlt hrecord hclaim
      have hne : claim.claimEpoch ≠ request.claimEpoch := hepoch ▸ Nat.ne_of_gt hgt
      simp [namesClaim, hne]
    refine ⟨?_, ?_⟩
    · cases hacked : record.acknowledgedClaim with
      | none => rfl
      | some claim => exact hnot claim (.inr hacked)
    · cases hclaim : record.claim with
      | none => rfl
      | some claim => exact hnot claim (.inl hclaim)

end Turn

/-! ## A run that keeps the law, and one that does not -/

/-- A transaction without fence or idempotency key. -/
def unfencedOptions : StateTransactionOptions := ⟨none, none, none⟩

/-- An instant after the lease of `sampleClaim` has run out. -/
def leaseOver : JsDate.Instant := ⟨2000, by decide⟩

def sampleMessage : OutboxMessage Unit where
  messageId := Text.js "m"
  operationId := Text.js "o"
  topic := Text.js "effects"
  payload := ()
  createdAt := JsDate.toISOString 0
  availableAt := JsDate.toISOString 0

def sampleClaim : OutboxClaimRequest := ⟨Text.js "worker", 1000, none, none, none⟩

/-- The owner of `sampleClaim` asks for a retry of its first claim. -/
def sampleRetry : OutboxAcknowledgementRequest where
  messageId := Text.js "m"
  owner := Text.js "worker"
  claimEpoch := 1
  outcome := .retry
  retryAt := some (JsDate.toISOString 0)
  fencing := none

/-- The message is enqueued, claimed, and claimed again after the lease. -/
def expiryRun : List (StoreEvent Unit) :=
  [.openStore, .transact unfencedOptions, .enqueueOutbox 0 sampleMessage, .resolve 0 (),
    .turn JsDate.epochStart, .claimOutbox sampleClaim, .turn JsDate.epochStart,
    .claimOutbox sampleClaim,
    .turn leaseOver]

theorem claimTokens_unique_expiryRun :
    ∃ w, (machine Unit).runIf recreatesNoEntry initial expiryRun = some w ∧ w.claims.length = 2 ∧
      w.ClaimTokensUnique ∧ w.SupersededRejected := by
  have hlen : ((machine Unit).runIf recreatesNoEntry initial expiryRun).map
      (fun w => w.claims.length) = some 2 := by decide +kernel
  obtain ⟨w, hw, hlen⟩ := map_eq_some_iff.mp hlen
  exact ⟨w, hw, hlen, claimTokens_unique (.of_runIf (.init rfl) hw)⟩

/-- The message is enqueued, claimed, sent back for a retry, enqueued once more
and claimed again. -/
def reenqueueRun : List (StoreEvent Unit) :=
  [.openStore, .transact unfencedOptions, .enqueueOutbox 0 sampleMessage, .resolve 0 (),
    .turn JsDate.epochStart, .claimOutbox sampleClaim, .turn JsDate.epochStart,
    .acknowledgeOutbox sampleRetry, .turn JsDate.epochStart,
    .transact unfencedOptions, .enqueueOutbox 1 sampleMessage, .resolve 1 (),
    .turn JsDate.epochStart, .claimOutbox sampleClaim, .turn JsDate.epochStart]

/-- **An enqueue after a retry repeats the token**, and an acknowledgement that names the first
claim is accepted for the second. -/
theorem reenqueue_repeats_token :
    ¬ (∀ w : StoreWorld Unit, (machine Unit).Reachable w → w.ClaimTokensUnique) ∧
    ¬ (∀ w : StoreWorld Unit, (machine Unit).Reachable w → w.SupersededRejected) := by
  have hrun : ((machine Unit).run initial reenqueueRun).map (fun w =>
      (w.claims.map fun c => (c.message.messageId, c.owner, c.claimEpoch),
        (w.store.acknowledgeOutbox sampleRetry JsDate.epochStart).1.isOk)) =
      some ([(Text.js "m", Text.js "worker", 1), (Text.js "m", Text.js "worker", 1)], true) := by
    decide +kernel
  obtain ⟨w, hw, hpair⟩ := map_eq_some_iff.mp hrun
  obtain ⟨htokens, hok⟩ := Prod.mk.inj hpair
  have hreach : (machine Unit).Reachable w := .of_init_run rfl hw
  obtain ⟨first, rest, hcons, hfirst, hrest⟩ := map_eq_cons_iff.mp htokens
  obtain ⟨second, rest', rfl, hsecond, hnil⟩ := map_eq_cons_iff.mp hrest
  obtain rfl := map_eq_nil_iff.mp hnil
  obtain ⟨hid₁, htoken₁⟩ := Prod.mk.inj hfirst
  obtain ⟨hid₂, htoken₂⟩ := Prod.mk.inj hsecond
  have hid := hid₁.trans hid₂.symm
  refine ⟨fun hunique => ?_, fun hrejected => ?_⟩
  · have hpairs := hunique w hreach
    rw [ClaimTokensUnique, hcons, pairwise_pair] at hpairs
    exact hpairs hid (htoken₁.trans htoken₂.symm)
  · obtain ⟨howner, hepoch⟩ := Prod.mk.inj htoken₁
    have hnames : sampleRetry.Names first := ⟨hid₁.symm, howner.symm, hepoch.symm⟩
    obtain ⟨e, he⟩ := hrejected w hreach 0 1 first second (by decide) (by rw [hcons]; rfl)
      (by rw [hcons]; rfl) hid sampleRetry hnames JsDate.epochStart
    rw [he] at hok
    cases hok

end StoreWorld

end TegoNext
