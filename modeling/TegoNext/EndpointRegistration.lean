/-
Who speaks for a worker: safety of the registrations of an endpoint.

The registrations of a worker form a chain in which at most one is under way. Hence between the
moment an epoch is noted and the moment its session is published no other session of the worker
is, and the epochs of the published sessions increase. A session that ends is released in that
turn, so what is published and live is current.
-/
import TegoNext.MainEndpoint

set_option autoImplicit false

namespace TegoNext

open MainEndpoint List Option Function

/-! ## The chain of a worker -/

namespace RegistrationAttempt

/-- It has not started. -/
def isChained (a : RegistrationAttempt) : Bool :=
  match a.phase with
  | .chained => true
  | _ => false

theorem isChained_of_done {a : RegistrationAttempt} (h : a.done = true) : a.isChained = false := by
  unfold done at h
  unfold isChained
  split at h <;> simp_all

/-- The same registration, further on. -/
structure Advance (a a' : RegistrationAttempt) : Prop where
  session : a'.session = a.session
  registration : a'.registration = a.registration
  predecessor : a'.predecessor = a.predecessor
  done : a.done = true → a'.done = true
  started : a.isChained = false → a'.isChained = false

theorem Advance.refl (a : RegistrationAttempt) : Advance a a := ⟨rfl, rfl, rfl, id, id⟩

theorem Advance.workerId {a a' : RegistrationAttempt} (h : Advance a a') : a'.workerId = a.workerId :=
  congrArg WorkerRegistration.workerId h.registration

end RegistrationAttempt

open RegistrationAttempt

/-- Registrations go on, and none is added. -/
structure Advances (attempts attempts' : List RegistrationAttempt) : Prop where
  length : attempts'.length = attempts.length
  back : ∀ {i : Nat} {a' : RegistrationAttempt}, attempts'[i]? = some a' → ∃ a, attempts[i]? = some a ∧ Advance a a'

namespace Advances

variable {attempts attempts' : List RegistrationAttempt}

theorem forth (h : Advances attempts attempts') {i : Nat} {a : RegistrationAttempt}
    (ha : attempts[i]? = some a) : ∃ a', attempts'[i]? = some a' ∧ Advance a a' := by
  obtain ⟨hlt, -⟩ := List.getElem?_eq_some_iff.mp ha
  have hget := getElem?_eq_getElem (h.length.symm ▸ hlt : i < attempts'.length)
  obtain ⟨b, hb, hadvance⟩ := h.back hget
  obtain rfl := some.inj (ha.symm.trans hb)
  exact ⟨_, hget, hadvance⟩

theorem set {i : Nat} {a a' : RegistrationAttempt} (ha : attempts[i]? = some a)
    (hadvance : Advance a a') : Advances attempts (attempts.set i a') := by
  refine ⟨length_set, fun {j b} hb => ?_⟩
  rcases getElem?_set_cases hb with ⟨rfl, rfl⟩ | ⟨-, hb⟩
  · exact ⟨a, ha, hadvance⟩
  · exact ⟨b, hb, .refl b⟩

theorem map {f : RegistrationAttempt → RegistrationAttempt} (hf : ∀ a, Advance a (f a)) :
    Advances attempts (attempts.map f) := by
  refine ⟨length_map f, fun {i a'} ha' => ?_⟩
  rw [getElem?_map, map_eq_some_iff] at ha'
  obtain ⟨a, ha, rfl⟩ := ha'
  exact ⟨a, ha, hf a⟩

end Advances

/-- **The chain**: a registration that has started comes after registrations that are over,
and the tails say which registration of a worker is the last. -/
structure Chained (attempts : List RegistrationAttempt) (tails : PortableId → Option Nat) : Prop where
  ordered : ∀ {i j : Nat} {a b : RegistrationAttempt}, i < j → attempts[i]? = some a → attempts[j]? = some b →
    a.workerId = b.workerId → b.isChained = false → a.done = true
  free : ∀ {i j : Nat} {a b : RegistrationAttempt}, i < j → attempts[i]? = some a → attempts[j]? = some b →
    a.workerId = b.workerId → b.predecessor = none → a.done = true
  behind : ∀ {j : Nat} {b : RegistrationAttempt} {p : Nat},
    attempts[j]? = some b → b.predecessor = some p →
    p < j ∧ (∃ a, attempts[p]? = some a ∧ a.workerId = b.workerId) ∧
      ∀ {i : Nat} {c : RegistrationAttempt}, i < j → attempts[i]? = some c → c.workerId = b.workerId → i ≤ p
  last : ∀ {w : PortableId} {p : Nat}, tails w = some p → (∃ a, attempts[p]? = some a ∧ a.workerId = w) ∧
    ∀ {i : Nat} {c : RegistrationAttempt}, attempts[i]? = some c → c.workerId = w → i ≤ p
  ended : ∀ {w : PortableId}, tails w = none → ∀ {i : Nat} {a : RegistrationAttempt},
    attempts[i]? = some a → a.workerId = w → a.done = true

namespace Chained

variable {attempts attempts' : List RegistrationAttempt} {tails : PortableId → Option Nat}

variable {a : RegistrationAttempt}

theorem done_of_released (h : Chained attempts tails) {i j : Nat} {b : RegistrationAttempt}
    (hlt : i < j) (ha : attempts[i]? = some a) (hb : attempts[j]? = some b)
    (hworker : a.workerId = b.workerId)
    (hreleased : ∀ p, b.predecessor = some p → (attempts[p]?).any (·.done) = true) :
    a.done = true := by
  cases hp : b.predecessor with
  | none => exact h.free hlt ha hb hworker hp
  | some p =>
    obtain ⟨-, ⟨c, hc, hcworker⟩, hbound⟩ := h.behind hb hp
    have hdone : c.done = true := by
      have hany := hreleased p hp
      rw [hc] at hany
      exact hany
    rcases Nat.lt_or_eq_of_le (hbound hlt ha hworker) with hip | rfl
    · exact h.ordered hip ha hc (hworker.trans hcworker.symm) (isChained_of_done hdone)
    · obtain rfl := some.inj (ha.symm.trans hc)
      exact hdone

theorem advance (h : Chained attempts tails) (hadvances : Advances attempts attempts')
    (hstart : ∀ {j : Nat} {b b' : RegistrationAttempt}, attempts[j]? = some b → attempts'[j]? = some b' →
      b.isChained = true → b'.isChained = false →
      ∀ {i : Nat} {a : RegistrationAttempt}, i < j → attempts[i]? = some a → a.workerId = b.workerId → a.done = true) :
    Chained attempts' tails where
  ordered := by
    intro i j a' b' hlt ha' hb' hworker hstarted
    obtain ⟨a, ha, haa⟩ := hadvances.back ha'
    obtain ⟨b, hb, hbb⟩ := hadvances.back hb'
    rw [haa.workerId, hbb.workerId] at hworker
    refine haa.done ?_
    cases hchained : b.isChained with
    | false => exact h.ordered hlt ha hb hworker hchained
    | true => exact hstart hb hb' hchained hstarted hlt ha hworker
  free := by
    intro i j a' b' hlt ha' hb' hworker hnone
    obtain ⟨a, ha, haa⟩ := hadvances.back ha'
    obtain ⟨b, hb, hbb⟩ := hadvances.back hb'
    rw [haa.workerId, hbb.workerId] at hworker
    exact haa.done (h.free hlt ha hb hworker (hbb.predecessor.symm.trans hnone))
  behind := by
    intro j b' p hb' hp
    obtain ⟨b, hb, hbb⟩ := hadvances.back hb'
    obtain ⟨hlt, ⟨a, ha, hworker⟩, hbound⟩ := h.behind hb (hbb.predecessor.symm.trans hp)
    obtain ⟨a', ha', haa⟩ := hadvances.forth ha
    refine ⟨hlt, ⟨a', ha', by rw [haa.workerId, hbb.workerId, hworker]⟩, ?_⟩
    intro i c' hi hc' hcworker
    obtain ⟨c, hc, hcc⟩ := hadvances.back hc'
    exact hbound hi hc (by rw [← hcc.workerId, ← hbb.workerId, hcworker])
  last := by
    intro w p hp
    obtain ⟨⟨a, ha, hworker⟩, hbound⟩ := h.last hp
    obtain ⟨a', ha', haa⟩ := hadvances.forth ha
    refine ⟨⟨a', ha', haa.workerId.trans hworker⟩, ?_⟩
    intro i c' hc' hcworker
    obtain ⟨c, hc, hcc⟩ := hadvances.back hc'
    exact hbound hc (hcc.workerId.symm.trans hcworker)
  ended := by
    intro w hnone i a' ha' hworker
    obtain ⟨a, ha, haa⟩ := hadvances.back ha'
    exact haa.done (h.ended hnone ha (haa.workerId.symm.trans hworker))

theorem set (h : Chained attempts tails) {i : Nat} {a' : RegistrationAttempt}
    (ha : attempts[i]? = some a) (hadvance : Advance a a')
    (hstart : a.isChained = true → a'.isChained = false →
      ∀ p, a.predecessor = some p → (attempts[p]?).any (·.done) = true) :
    Chained (attempts.set i a') tails := by
  refine h.advance (.set ha hadvance) ?_
  intro j b b' hb hb' hchained hstarted k c hlt hc hworker
  rcases getElem?_set_cases hb' with ⟨rfl, rfl⟩ | ⟨-, hb'⟩
  · obtain rfl := some.inj (ha.symm.trans hb)
    exact h.done_of_released hlt hc ha hworker (hstart hchained hstarted)
  · obtain rfl := some.inj (hb.symm.trans hb')
    rw [hchained] at hstarted
    cases hstarted

theorem register (h : Chained attempts tails) (hchained : a.isChained = true)
    (hpredecessor : a.predecessor = tails a.workerId) :
    Chained (attempts ++ [a]) (Function.update tails a.workerId (some attempts.length)) := by
  have hsplit : ∀ {j : Nat} {b : RegistrationAttempt}, (attempts ++ [a])[j]? = some b →
      (j < attempts.length ∧ attempts[j]? = some b) ∨ (j = attempts.length ∧ b = a) := by
    intro j b hb
    refine (getElem?_concat_cases hb).imp_left fun hold => ⟨?_, hold⟩
    exact (List.getElem?_eq_some_iff.mp hold).1
  constructor
  case ordered =>
    intro i j b c hlt hb hc hworker hstarted
    rcases hsplit hc with ⟨hj, hc⟩ | ⟨rfl, rfl⟩
    · rcases hsplit hb with ⟨-, hb⟩ | ⟨rfl, -⟩
      · exact h.ordered hlt hb hc hworker hstarted
      · omega
    · rw [hchained] at hstarted
      cases hstarted
  case free =>
    intro i j b c hlt hb hc hworker hnone
    rcases hsplit hc with ⟨hj, hc⟩ | ⟨rfl, rfl⟩
    · rcases hsplit hb with ⟨-, hb⟩ | ⟨rfl, -⟩
      · exact h.free hlt hb hc hworker hnone
      · omega
    · rcases hsplit hb with ⟨-, hb⟩ | ⟨rfl, -⟩
      · exact h.ended (hpredecessor.symm.trans hnone) hb hworker
      · omega
  case behind =>
    intro j c p hc hp
    rcases hsplit hc with ⟨hj, hc⟩ | ⟨rfl, rfl⟩
    · obtain ⟨hlt, ⟨b, hb, hworker⟩, hbound⟩ := h.behind hc hp
      refine ⟨hlt, ⟨b, getElem?_append_of_some hb, hworker⟩, ?_⟩
      intro i d hi hd hdworker
      rcases hsplit hd with ⟨-, hd⟩ | ⟨rfl, -⟩
      · exact hbound hi hd hdworker
      · omega
    · obtain ⟨⟨b, hb, hworker⟩, hbound⟩ := h.last (hpredecessor.symm.trans hp)
      refine ⟨(List.getElem?_eq_some_iff.mp hb).1, ⟨b, getElem?_append_of_some hb, hworker⟩, ?_⟩
      intro i d hi hd hdworker
      rcases hsplit hd with ⟨-, hd⟩ | ⟨rfl, -⟩
      · exact hbound hd hdworker
      · omega
  case last =>
    intro w p hp
    rw [update_apply] at hp
    split at hp
    · next heq =>
      obtain rfl := some.inj hp
      refine ⟨⟨a, getElem?_concat_length, heq.symm⟩, ?_⟩
      intro i c hc _
      rcases hsplit hc with ⟨hlt, -⟩ | ⟨rfl, -⟩
      · exact hlt.le
      · exact le_rfl
    · next hne =>
      obtain ⟨⟨b, hb, hworker⟩, hbound⟩ := h.last hp
      refine ⟨⟨b, getElem?_append_of_some hb, hworker⟩, ?_⟩
      intro i c hc hcworker
      rcases hsplit hc with ⟨-, hc⟩ | ⟨-, rfl⟩
      · exact hbound hc hcworker
      · exact absurd hcworker.symm hne
  case ended =>
    intro w hnone i b hb hworker
    rw [update_apply] at hnone
    split at hnone
    · cases hnone
    next hne =>
    rcases hsplit hb with ⟨-, hb⟩ | ⟨-, rfl⟩
    · exact h.ended hnone hb hworker
    · exact absurd hworker.symm hne

theorem drop (h : Chained attempts tails) {i : Nat}
    (ha : attempts[i]? = some a) (hdone : a.done = true) :
    Chained attempts
      (if tails a.workerId = some i then Function.update tails a.workerId none else tails) := by
  split
  swap
  · exact h
  next htail =>
  refine ⟨h.ordered, h.free, h.behind, ?_, ?_⟩
  · intro w p hp
    rw [update_apply] at hp
    split at hp
    · cases hp
    · exact h.last hp
  · intro w hnone j b hb hworker
    rw [update_apply] at hnone
    split at hnone
    · next heq =>
      rw [heq] at hworker
      rcases Nat.lt_or_eq_of_le ((h.last htail).2 hb hworker) with hlt | rfl
      · exact h.ordered hlt hb ha hworker (isChained_of_done hdone)
      · obtain rfl := some.inj (ha.symm.trans hb)
        exact hdone
    · exact h.ended hnone hb hworker

end Chained

/-! ## Sessions that end -/

namespace MainEndpoint

variable {e e' : MainEndpoint}

/-- A state without return. -/
def Ended (state : WorkerSessionState) : Prop := state = .closed ∨ state = .unavailable

theorem rejectClosed_advance (a : RegistrationAttempt) : Advance a (rejectClosed a) := by
  unfold rejectClosed
  split
  · next h =>
    refine ⟨rfl, rfl, rfl, fun hdone => ?_, fun _ => rfl⟩
    rw [done, h] at hdone
    cases hdone
  · exact .refl a

theorem rejectClosed_cases (a : RegistrationAttempt) :
    (rejectClosed a = a ∧ a.phase ≠ .racing none) ∨
      (rejectClosed a).phase = .racing (some (.error .sessionClosed)) := by
  unfold rejectClosed
  split
  · exact .inr rfl
  · next h => exact .inl ⟨rfl, h⟩

theorem isLive_iff {session : Nat} : e.isLive session = true ↔
    e.stateOf session = some .authenticating ∨ e.stateOf session = some .ready := by
  unfold isLive
  rw [Bool.or_eq_true, decide_eq_true_iff, decide_eq_true_iff]

theorem isLive_congr {session : Nat} (h : e'.stateOf session = e.stateOf session) :
    e'.isLive session = e.isLive session := by
  unfold isLive
  rw [h]

/-- What follows when the state of a session changes. -/
structure Notified (e : MainEndpoint) (session : Nat) (state : WorkerSessionState)
    (e' : MainEndpoint) : Prop where
  closed : e'.closed = e.closed
  stateOf : ∀ x, e'.stateOf x = if x = session then some state else e.stateOf x
  tails : e'.registrationTails = e.registrationTails
  epochs : e'.lastEpochs = e.lastEpochs
  attempts : e'.attempts = e.attempts.map fun a => if a.session = session then rejectClosed a else a
  published : e'.published = e.published

structure Ends (e : MainEndpoint) (session : Nat) (state : WorkerSessionState) (e' : MainEndpoint) :
    Prop extends Notified e session state e' where
  sessions : e'.sessions = e.sessions.erase session
  current : ∀ w, e'.current w = if e.current w = some session then none else e.current w

theorem notified_setState {session : Nat} (hknown : (e.stateOf session).isSome = true)
    (state : WorkerSessionState) :
    Notified e session state ((e.setState session state).notifyState session) := by
  refine ⟨rfl, fun x => ?_, rfl, rfl, rfl, rfl⟩
  obtain ⟨object, hobject⟩ : ∃ object, e.objects session = some object := by
    rwa [stateOf, isSome_map, isSome_iff_exists] at hknown
  have hobjects : (e.setState session state).objects =
      Function.update e.objects session (some { object with state := state }) := by
    rw [setState, hobject]
    rfl
  show ((e.setState session state).objects x).map (·.state) = _
  rw [hobjects, update_apply]
  split <;> rfl

theorem isSome_of_isLive {session : Nat} (h : e.isLive session = true) :
    (e.stateOf session).isSome = true := by
  rcases isLive_iff.mp h with h | h <;> rw [h] <;> rfl

theorem endSession_cases (e : MainEndpoint) (session : Nat) (state : WorkerSessionState) :
    (e.isLive session = false ∧ e.endSession session state = e) ∨
      (e.isLive session = true ∧ Ends e session state (e.endSession session state)) := by
  unfold endSession
  cases hlive : e.isLive session with
  | false => exact .inl ⟨rfl, rfl⟩
  | true =>
    rw [if_pos rfl]
    obtain ⟨hclosed, hstate, htails, hepochs, hattempts, hpublished⟩ :=
      notified_setState (isSome_of_isLive hlive) state
    exact .inr ⟨rfl, ⟨hclosed, hstate, htails, hepochs, hattempts, hpublished⟩, rfl, fun _ => rfl⟩

theorem Ends.isLive_iff {session : Nat} {state : WorkerSessionState} (h : Ends e session state e')
    (hended : Ended state) {x : Nat} : e'.isLive x = true ↔ e.isLive x = true ∧ x ≠ session := by
  rw [MainEndpoint.isLive_iff, MainEndpoint.isLive_iff, h.stateOf]
  split
  · next heq =>
    rcases hended with rfl | rfl <;> simp [heq]
  · next hne => simp [hne]

/-! ## The invariant -/

structure Attached (e : MainEndpoint) : Prop where
  live : ∀ x, x ∈ e.sessions ↔ e.isLive x = true
  nodup : e.sessions.Nodup

/-- The current sessions are the published ones that are live, but for the one that is about
to be replaced. -/
structure Current (e : MainEndpoint) (replaced : Option Nat) : Prop where
  live : ∀ w x, e.current w = some x → e.isLive x = true ∧ ∃ epoch, ⟨w, x, epoch⟩ ∈ e.published
  published : ∀ p ∈ e.published, e.isLive p.session = true → some p.session ≠ replaced →
    e.current p.workerId = some p.session
  known : ∀ p ∈ e.published, (e.stateOf p.session).isSome = true

def Races (e : MainEndpoint) : Prop :=
  ∀ {i : Nat} {a : RegistrationAttempt}, e.attempts[i]? = some a → a.phase = .racing none →
    e.stateOf a.session = some .authenticating

def lastEpoch (e : MainEndpoint) (workerId : PortableId) : FencingEpoch :=
  (e.lastEpochs workerId).getD 0

/-- The epochs of a worker: those published were noted, and the next one to be published is
newer than all of them. -/
structure Epochs (e : MainEndpoint) : Prop where
  noted : ∀ p ∈ e.published, p.epoch ≤ e.lastEpoch p.workerId
  next : ∀ {i : Nat} {a : RegistrationAttempt} {epoch : FencingEpoch}, e.attempts[i]? = some a →
    a.phase = .allocated (.ok epoch) → epoch ≤ e.lastEpoch a.workerId ∧
      ∀ p ∈ e.published, p.workerId = a.workerId → p.epoch < epoch
  increasing : e.published.Pairwise fun newer older =>
    newer.workerId = older.workerId → older.epoch < newer.epoch

/-- **The invariant** of an endpoint. -/
structure Consistent (e : MainEndpoint) (replaced : Option Nat) : Prop where
  attached : e.Attached
  current : e.Current replaced
  races : e.Races
  epochs : e.Epochs
  chained : Chained e.attempts e.registrationTails

theorem consistent_new : new.Consistent none where
  attached := ⟨fun x => by simp [new, isLive, stateOf], nodup_nil⟩
  current := ⟨fun _ _ h => absurd h (by simp [new]), fun _ h => absurd h not_mem_nil,
    fun _ h => absurd h not_mem_nil⟩
  races := fun h => absurd h (by simp [new])
  epochs := ⟨fun _ h => absurd h not_mem_nil, fun h => absurd h (by simp [new]), List.Pairwise.nil⟩
  chained := by
    refine ⟨?_, ?_, ?_, ?_, ?_⟩ <;> intros <;> simp_all [new]

section Notified

variable {session : Nat} {state : WorkerSessionState} (hnotified : Notified e session state e')

include hnotified in
theorem Notified.races (h : e.Races) : e'.Races := by
  intro i a' ha' hphase
  rw [hnotified.attempts, getElem?_map, map_eq_some_iff] at ha'
  obtain ⟨a, ha, rfl⟩ := ha'
  split at hphase
  · rcases rejectClosed_cases a with ⟨heq, hne⟩ | hsettled
    · rw [heq] at hphase
      exact absurd hphase hne
    · rw [hsettled] at hphase
      cases hphase
  · next hne =>
    rw [if_neg hne, hnotified.stateOf, if_neg hne]
    exact h ha hphase

include hnotified in
theorem Notified.keepsEpochs (h : e.Epochs) : e'.Epochs := by
  have hlast : ∀ w, e'.lastEpoch w = e.lastEpoch w := fun w => by
    rw [lastEpoch, hnotified.epochs, lastEpoch]
  refine ⟨fun p hp => ?_, fun {i a' epoch} ha' hphase => ?_, hnotified.published ▸ h.increasing⟩
  · rw [hlast]
    exact h.noted p (hnotified.published ▸ hp)
  · rw [hnotified.attempts, getElem?_map, map_eq_some_iff] at ha'
    obtain ⟨a, ha, rfl⟩ := ha'
    have hsame : (if a.session = session then rejectClosed a else a) = a := by
      split at hphase
      · rcases rejectClosed_cases a with ⟨heq, -⟩ | hsettled
        · rw [if_pos ‹_›, heq]
        · rw [hsettled] at hphase
          cases hphase
      · rw [if_neg ‹_›]
    rw [hsame] at hphase ⊢
    rw [hlast, hnotified.published]
    exact h.next ha hphase

include hnotified in
theorem Notified.chained (h : Chained e.attempts e.registrationTails) :
    Chained e'.attempts e'.registrationTails := by
  rw [hnotified.attempts, hnotified.tails]
  have hadvance : ∀ a : RegistrationAttempt,
      Advance a (if a.session = session then rejectClosed a else a) := by
    intro a
    split
    · exact rejectClosed_advance a
    · exact .refl a
  refine h.advance (.map hadvance) ?_
  intro j b b' hb hb' hchained hstarted
  rw [getElem?_map, hb] at hb'
  obtain rfl := some.inj hb'
  -- a registration that has not started is in no race
  have hphase : b.phase = .chained := by
    unfold isChained at hchained
    split at hchained
    · assumption
    · cases hchained
  have hsame : (if b.session = session then rejectClosed b else b) = b := by
    rw [rejectClosed, hphase, ite_self]
  rw [show (fun a : RegistrationAttempt =>
    if a.session = session then rejectClosed a else a) b = b from hsame, hchained] at hstarted
  cases hstarted

end Notified

/-- **A session ends**, and the invariant is kept. -/
theorem Consistent.ends {session : Nat} (h : e.Consistent (some session)) {state : WorkerSessionState}
    (hended : Ended state) (hends : Ends e session state e') : e'.Consistent none where
  attached := by
    refine ⟨fun x => ?_, hends.sessions ▸ h.attached.nodup.erase _⟩
    rw [hends.sessions, h.attached.nodup.mem_erase_iff, h.attached.live, hends.isLive_iff hended,
      and_comm]
  current := by
    refine ⟨fun w x hcurrent => ?_, fun p hp hlive _ => ?_, fun p hp => ?_⟩
    · rw [hends.current] at hcurrent
      split at hcurrent
      · cases hcurrent
      next hne =>
      obtain ⟨hlive, hpublished⟩ := h.current.live w x hcurrent
      rw [hends.isLive_iff hended, hends.published]
      exact ⟨⟨hlive, fun heq => hne (heq ▸ hcurrent)⟩, hpublished⟩
    · rw [hends.published] at hp
      obtain ⟨hlive, hne⟩ := (hends.isLive_iff hended).mp hlive
      have hother : some p.session ≠ some session := fun heq => hne (some.inj heq)
      have hcurrent := h.current.published p hp hlive hother
      rw [hends.current, hcurrent, if_neg hother]
    · rw [hends.stateOf]
      split
      · rfl
      · exact h.current.known p (hends.published ▸ hp)
  races := hends.toNotified.races h.races
  epochs := hends.toNotified.keepsEpochs h.epochs
  chained := hends.toNotified.chained h.chained

theorem Consistent.endSession {session : Nat} (h : e.Consistent (some session))
    {state : WorkerSessionState} (hended : Ended state) :
    (e.endSession session state).Consistent none := by
  rcases endSession_cases e session state with ⟨hdead, heq⟩ | ⟨-, hends⟩
  · rw [heq]
    refine ⟨h.attached, ⟨h.current.live, fun p hp hlive _ => ?_, h.current.known⟩, h.races, h.epochs,
      h.chained⟩
    refine h.current.published p hp hlive fun hsame => ?_
    rw [some.inj hsame, hdead] at hlive
    cases hlive
  · exact h.ends hended hends

theorem Consistent.weaken (h : e.Consistent none) (replaced : Option Nat) : e.Consistent replaced :=
  ⟨h.attached, ⟨h.current.live, fun p hp hlive _ => h.current.published p hp hlive (by simp),
    h.current.known⟩, h.races, h.epochs, h.chained⟩

/-! ## Steps that keep it -/

variable {i : Nat} {a : RegistrationAttempt}

theorem Consistent.setAttempt (h : e.Consistent none) {a' : RegistrationAttempt}
    (ha : e.attempts[i]? = some a) (hadvance : Advance a a')
    (hstart : a.isChained = true → a'.isChained = false →
      ∀ p, a.predecessor = some p → (e.attempts[p]?).any (·.done) = true)
    (hrace : a'.phase = .racing none → e.stateOf a.session = some .authenticating)
    (hnext : ∀ epoch, a'.phase = .allocated (.ok epoch) → epoch ≤ e.lastEpoch a.workerId ∧
      ∀ p ∈ e.published, p.workerId = a.workerId → p.epoch < epoch) :
    (e.setAttempt i a').Consistent none := by
  refine ⟨⟨h.attached.live, h.attached.nodup⟩,
    ⟨h.current.live, h.current.published, h.current.known⟩, fun {j b} hb hphase => ?_,
    ⟨h.epochs.noted, fun {j b epoch} hb hphase => ?_, h.epochs.increasing⟩,
    h.chained.set ha hadvance hstart⟩
  · rcases getElem?_set_cases hb with ⟨-, rfl⟩ | ⟨-, hb⟩
    · rw [hadvance.session]
      exact hrace hphase
    · exact h.races hb hphase
  · rcases getElem?_set_cases hb with ⟨-, rfl⟩ | ⟨-, hb⟩
    · rw [hadvance.workerId]
      exact hnext epoch hphase
    · exact h.epochs.next hb hphase

/-! ## The steps of a registration -/

variable {epoch : FencingEpoch} {result : EpochResult}

/-- Noting an epoch changes the table of the epochs, and no other. -/
structure NotesEpoch (e e' : MainEndpoint) : Prop where
  closed : e'.closed = e.closed
  objects : e'.objects = e.objects
  attempts : e'.attempts = e.attempts
  published : e'.published = e.published

theorem recordAllocatedEpoch_frame {w : PortableId} {fresh : Bool}
    (h : e.recordAllocatedEpoch w epoch = .ok (fresh, e')) : NotesEpoch e e' := by
  unfold recordAllocatedEpoch at h
  split at h
  · cases h
  split at h <;> cases h <;> exact ⟨rfl, rfl, rfl, rfl⟩

theorem raceSettled_frame (e : MainEndpoint) (w : PortableId) (outcome : EpochResult) :
    NotesEpoch e (e.raceSettled w outcome).2 := by
  unfold raceSettled
  split
  · exact ⟨rfl, rfl, rfl, rfl⟩
  split
  · exact ⟨rfl, rfl, rfl, rfl⟩
  · exact recordAllocatedEpoch_frame ‹_›
  · exact recordAllocatedEpoch_frame ‹_›

/-- A late epoch is noted, when it can be. -/
def noteLate (e : MainEndpoint) (w : PortableId) (epoch : FencingEpoch) : MainEndpoint :=
  match e.recordAllocatedEpoch w epoch with
  | .ok (_, e) => e
  | .error _ => e

theorem noteLate_frame (e : MainEndpoint) (w : PortableId) (epoch : FencingEpoch) :
    NotesEpoch e (e.noteLate w epoch) := by
  unfold noteLate
  split
  · exact recordAllocatedEpoch_frame ‹_›
  · exact ⟨rfl, rfl, rfl, rfl⟩

theorem start_spec (h : e.start i = some e') :
    ∃ a, e.attempts[i]? = some a ∧ a.phase = .chained ∧ e.released a = true ∧
      e' = e.setAttempt i { a with phase := e.claimRegistration a } := by
  unfold start at h
  repeat' split at h
  all_goals cases h
  exact ⟨_, ‹_›, ‹_›, ‹_›, rfl⟩

theorem allocationSettled_spec (h : e.allocationSettled i result = some e') :
    ∃ a, e.attempts[i]? = some a ∧ a.phase ≠ .chained ∧
      e' = e.setAttempt i
        { a with phase := settleRace result a.phase, allocation := some result } := by
  unfold allocationSettled at h
  repeat' split at h
  all_goals cases h
  exact ⟨_, ‹_›, ‹_›, rfl⟩

theorem allocateEpoch_spec (h : e.allocateEpoch i = some e') :
    ∃ a outcome late, e.attempts[i]? = some a ∧ a.phase = .racing (some outcome) ∧
      e' = (e.raceSettled a.workerId outcome).2.setAttempt i
        { a with phase := .allocated (e.raceSettled a.workerId outcome).1, late := late } := by
  unfold allocateEpoch at h
  split at h
  swap
  · cases h
  split at h <;> cases h
  exact ⟨_, _, _, ‹_›, ‹_›, rfl⟩

theorem recordLate_spec (h : e.recordLate i = some e') :
    ∃ a epoch, e.attempts[i]? = some a ∧ a.late = true ∧
      e' = (e.noteLate a.workerId epoch).setAttempt i { a with late := false } := by
  unfold recordLate at h
  split at h
  swap
  · cases h
  split at h <;> cases h
  exact ⟨_, _, ‹_›, ‹_›, rfl⟩

theorem claim_spec {publishable : Bool} (h : e.claim i publishable = some e') :
    ∃ a result e₁, e.attempts[i]? = some a ∧ a.phase = .allocated result ∧
      e₁ = e.setAttempt i { a with phase := .settled (e.claimResult a publishable result) } ∧
      (e' = e₁ ∨ ∃ epoch, e.claimResult a publishable result = .ok epoch ∧
        e' = e₁.publish a epoch) := by
  unfold claim at h
  split at h
  swap
  · cases h
  split at h
  swap
  · cases h
  dsimp only at h
  split at h <;> cases h
  · exact ⟨_, _, _, ‹_›, ‹_›, rfl, .inr ⟨_, ‹_›, rfl⟩⟩
  · exact ⟨_, _, _, ‹_›, ‹_›, rfl, .inl rfl⟩

theorem finish_spec (h : e.finish i = some e') :
    ∃ a result, e.attempts[i]? = some a ∧ a.phase = .settled result ∧
      e' = { e.setAttempt i { a with phase := .finished result } with
        registrationTails :=
          if e.registrationTails a.workerId = some i then
            Function.update e.registrationTails a.workerId none
          else e.registrationTails } := by
  unfold finish at h
  split at h
  swap
  · cases h
  split at h <;> cases h
  exact ⟨_, _, ‹_›, ‹_›, rfl⟩

/-! ## What the steps of a registration keep -/

theorem Consistent.recordAllocatedEpoch (h : e.Consistent none) {w : PortableId}
    {fresh : Bool}
    (hrecord : e.recordAllocatedEpoch w epoch = .ok (fresh, e')) :
    e'.Consistent none ∧ (fresh = true → epoch ≤ e'.lastEpoch w ∧
      ∀ p ∈ e'.published, p.workerId = w → p.epoch < epoch) := by
  unfold MainEndpoint.recordAllocatedEpoch at hrecord
  split at hrecord
  · cases hrecord
  split at hrecord
  · cases hrecord
    exact ⟨h, fun hfresh => absurd hfresh (by decide)⟩
  next hnew =>
  cases hrecord
  rw [not_le] at hnew
  have hlast : ∀ v, e.lastEpoch v ≤ (Function.update e.lastEpochs w (some epoch) v).getD 0 := by
    intro v
    rw [update_apply]
    split
    · next heq =>
      rw [heq]
      exact hnew.le
    · exact le_rfl
  refine ⟨⟨⟨h.attached.live, h.attached.nodup⟩,
    ⟨h.current.live, h.current.published, h.current.known⟩, h.races,
    ⟨fun p hp => ?_, fun {i a n} ha hphase => ?_, h.epochs.increasing⟩, h.chained⟩,
    fun _ => ⟨?_, fun p hp hworker => ?_⟩⟩
  · exact (h.epochs.noted p hp).trans (hlast _)
  · obtain ⟨hle, hnewer⟩ := h.epochs.next ha hphase
    exact ⟨hle.trans (hlast _), hnewer⟩
  · show epoch ≤ (Function.update e.lastEpochs w (some epoch) w).getD 0
    rw [update_self]
    exact le_rfl
  · have hnoted := h.epochs.noted p hp
    rw [hworker] at hnoted
    exact hnoted.trans_lt hnew

/-- **A session is published**, and the one before is replaced. -/
theorem Consistent.publish (h : e.Consistent none)
    (hstate : e.stateOf a.session = some .authenticating)
    (hnoted : epoch ≤ e.lastEpoch a.workerId)
    (hnewer : ∀ p ∈ e.published, p.workerId = a.workerId → p.epoch < epoch)
    (hidle : ∀ {i : Nat} {b : RegistrationAttempt} {n : FencingEpoch}, e.attempts[i]? = some b →
      b.workerId = a.workerId → b.phase ≠ .allocated (.ok n)) :
    (e.publish a epoch).Consistent none := by
  have hlive : e.isLive a.session = true := isLive_iff.mpr (.inl hstate)
  -- before the session that was current is told
  have hset : MainEndpoint.Consistent
      { e with
        current := Function.update e.current a.workerId (some a.session)
        registrations := Function.update e.registrations a.workerId (some a.registration)
        published := ⟨a.workerId, a.session, epoch⟩ :: e.published } (e.current a.workerId) := by
    refine ⟨⟨h.attached.live, h.attached.nodup⟩, ⟨fun w x hcurrent => ?_, fun p hp hplive hother => ?_,
      fun p hp => ?_⟩, h.races, ⟨fun p hp => ?_, fun {i b n} hb hphase => ?_, ?_⟩, h.chained⟩
    · dsimp only at hcurrent
      rw [update_apply] at hcurrent
      split at hcurrent
      · next heq =>
        obtain rfl := some.inj hcurrent
        exact ⟨hlive, epoch, heq ▸ mem_cons_self⟩
      · obtain ⟨hxlive, n, hmem⟩ := h.current.live w x hcurrent
        exact ⟨hxlive, n, mem_cons_of_mem _ hmem⟩
    · dsimp only
      rw [update_apply]
      rcases mem_cons.mp hp with rfl | hp
      · exact if_pos rfl
      · have hcurrent := h.current.published p hp hplive (by simp)
        split
        · next heq =>
          rw [heq] at hcurrent
          exact absurd hcurrent.symm hother
        · exact hcurrent
    · rcases mem_cons.mp hp with rfl | hp
      · exact isSome_of_isLive hlive
      · exact h.current.known p hp
    · rcases mem_cons.mp hp with rfl | hp
      · exact hnoted
      · exact h.epochs.noted p hp
    · obtain ⟨hle, hall⟩ := h.epochs.next hb hphase
      refine ⟨hle, fun p hp hworker => ?_⟩
      rcases mem_cons.mp hp with rfl | hp
      · exact absurd hphase (hidle hb hworker.symm)
      · exact hall p hp hworker
    · exact pairwise_cons.mpr ⟨fun p hp hworker => hnewer p hp hworker.symm, h.epochs.increasing⟩
  unfold MainEndpoint.publish
  cases hcurrent : e.current a.workerId with
  | none =>
    rw [hcurrent] at hset
    exact hset
  | some session =>
    rw [hcurrent] at hset
    exact hset.endSession (.inr rfl)

theorem assertRegistrationCandidate_ok {session : Nat}
    (h : e.assertRegistrationCandidate session = .ok ()) :
    e.closed = false ∧ e.stateOf session = some .authenticating := by
  unfold assertRegistrationCandidate at h
  split at h
  · cases h
  next hopen =>
  split at h
  · cases h
  next hcandidate =>
  rw [Bool.or_eq_true, decide_eq_true_iff, not_or, not_not] at hcandidate
  exact ⟨Bool.eq_false_iff.mpr hopen, hcandidate.2⟩

theorem claimRegistration_cases (e : MainEndpoint) (a : RegistrationAttempt) :
    (∃ thrown, e.claimRegistration a = .settled (.error thrown)) ∨
      (e.stateOf a.session = some .authenticating ∧ e.claimRegistration a = .racing none) := by
  unfold claimRegistration
  split
  · exact .inl ⟨_, rfl⟩
  next hok =>
  have hstate := (assertRegistrationCandidate_ok hok).2
  exact .inr ⟨hstate, by rw [if_neg (not_not.mpr hstate)]⟩

theorem settleRace_cases (result : EpochResult) (phase : RegistrationPhase) :
    (settleRace result phase = phase ∧ phase ≠ .racing none) ∨
      settleRace result phase = .racing (some result) := by
  unfold settleRace
  split
  · exact .inr rfl
  · next h => exact .inl ⟨rfl, h⟩

theorem Consistent.start (h : e.Consistent none) (hstep : e.start i = some e') :
    e'.Consistent none := by
  obtain ⟨a, ha, hphase, hreleased, rfl⟩ := start_spec hstep
  refine h.setAttempt ha ⟨rfl, rfl, rfl, ?_, ?_⟩ (fun _ _ p hp => ?_) (fun hrace => ?_)
    (fun epoch hallocated => ?_)
  · simp [done, hphase]
  · simp [isChained, hphase]
  · rw [released, hp] at hreleased
    exact hreleased
  · rcases e.claimRegistration_cases a with ⟨thrown, hsettled⟩ | ⟨hstate, -⟩
    · cases hsettled.symm.trans hrace
    · exact hstate
  · rcases e.claimRegistration_cases a with ⟨thrown, hsettled⟩ | ⟨-, hracing⟩
    · cases hsettled.symm.trans hallocated
    · cases hracing.symm.trans hallocated

theorem Consistent.allocationSettled (h : e.Consistent none)
    (hstep : e.allocationSettled i result = some e') : e'.Consistent none := by
  obtain ⟨a, ha, hphase, rfl⟩ := allocationSettled_spec hstep
  have hcases := settleRace_cases result a.phase
  refine h.setAttempt ha ⟨rfl, rfl, rfl, fun hdone => ?_, fun _ => ?_⟩ (fun hchained => ?_)
    (fun hrace => ?_) (fun epoch hallocated => ?_)
  · rcases hcases with ⟨heq, -⟩ | hsettled
    · rw [done] at hdone ⊢
      rwa [heq]
    · unfold settleRace at hsettled
      split at hsettled
      · next hracing =>
        rw [done, hracing] at hdone
        cases hdone
      · rw [done, hsettled] at hdone
        cases hdone
  · rcases hcases with ⟨heq, -⟩ | hsettled
    · rw [isChained, heq]
      split
      · next heq' => exact absurd heq' hphase
      · rfl
    · rw [isChained, hsettled]
  · unfold isChained at hchained
    split at hchained
    · next heq' => exact absurd heq' hphase
    · cases hchained
  · rcases hcases with ⟨heq, hne⟩ | hsettled
    · exact absurd (heq.symm.trans hrace) hne
    · cases hsettled.symm.trans hrace
  · rcases hcases with ⟨heq, -⟩ | hsettled
    · exact h.epochs.next ha (heq.symm.trans hallocated)
    · cases hsettled.symm.trans hallocated

theorem Consistent.raceSettled (h : e.Consistent none) (w : PortableId) (outcome : EpochResult) :
    (e.raceSettled w outcome).2.Consistent none ∧
      ∀ epoch, (e.raceSettled w outcome).1 = .ok epoch →
        epoch ≤ (e.raceSettled w outcome).2.lastEpoch w ∧
          ∀ p ∈ (e.raceSettled w outcome).2.published, p.workerId = w → p.epoch < epoch := by
  unfold MainEndpoint.raceSettled
  split
  · exact ⟨h, fun _ hok => by cases hok⟩
  split
  · exact ⟨h, fun _ hok => by cases hok⟩
  · next hrecord => exact ⟨(h.recordAllocatedEpoch hrecord).1, fun _ hok => by cases hok⟩
  · next hrecord =>
    obtain ⟨hconsistent, hfresh⟩ := h.recordAllocatedEpoch hrecord
    refine ⟨hconsistent, fun epoch hok => ?_⟩
    cases hok
    exact hfresh rfl

theorem Consistent.allocateEpoch (h : e.Consistent none)
    (hstep : e.allocateEpoch i = some e') : e'.Consistent none := by
  obtain ⟨a, outcome, late, ha, hphase, rfl⟩ := allocateEpoch_spec hstep
  obtain ⟨hconsistent, hnext⟩ := h.raceSettled a.workerId outcome
  rw [← (e.raceSettled_frame a.workerId outcome).attempts] at ha
  refine hconsistent.setAttempt ha ⟨rfl, rfl, rfl, ?_, fun _ => rfl⟩
    (fun hchained => ?_) (fun hrace => ?_) (fun epoch hallocated => ?_)
  · simp [done, hphase]
  · rw [isChained, hphase] at hchained
    cases hchained
  · cases hrace
  · exact hnext epoch (RegistrationPhase.allocated.inj hallocated)

theorem Consistent.noteLate (h : e.Consistent none) (w : PortableId) (epoch : FencingEpoch) :
    (e.noteLate w epoch).Consistent none := by
  unfold MainEndpoint.noteLate
  split
  · next hrecord => exact (h.recordAllocatedEpoch hrecord).1
  · exact h

theorem Consistent.recordLate (h : e.Consistent none)
    (hstep : e.recordLate i = some e') : e'.Consistent none := by
  obtain ⟨a, lateEpoch, ha, -, rfl⟩ := recordLate_spec hstep
  have hconsistent := h.noteLate a.workerId lateEpoch
  rw [← (e.noteLate_frame a.workerId lateEpoch).attempts] at ha
  exact hconsistent.setAttempt ha ⟨rfl, rfl, rfl, id, id⟩
    (fun hchained hstarted => by
      rw [show RegistrationAttempt.isChained { a with late := false } = a.isChained from rfl,
        hchained] at hstarted
      cases hstarted)
    (fun hrace => hconsistent.races ha hrace)
    (fun epoch hallocated => hconsistent.epochs.next ha hallocated)

theorem claimResult_ok {publishable : Bool} (h : e.claimResult a publishable result = .ok epoch) :
    result = .ok epoch ∧ e.closed = false ∧ e.stateOf a.session = some .authenticating := by
  unfold claimResult at h
  split at h
  · cases h
  split at h
  · cases h
  next hok =>
  split at h
  · obtain rfl := Except.ok.inj h
    exact ⟨rfl, assertRegistrationCandidate_ok hok⟩
  · cases h

theorem Consistent.claim (h : e.Consistent none) {publishable : Bool}
    (hstep : e.claim i publishable = some e') : e'.Consistent none := by
  obtain ⟨a, result, e₁, ha, hphase, rfl, hcases⟩ := claim_spec hstep
  have hset : (e.setAttempt i
      { a with phase := .settled (e.claimResult a publishable result) }).Consistent none := by
    refine h.setAttempt ha ⟨rfl, rfl, rfl, fun _ => rfl, fun _ => rfl⟩ (fun hchained => ?_)
      (fun hrace => ?_) (fun epoch hallocated => ?_)
    · rw [isChained, hphase] at hchained
      cases hchained
    · cases hrace
    · cases hallocated
  rcases hcases with rfl | ⟨epoch, hok, rfl⟩
  · exact hset
  · obtain ⟨rfl, -, hstate⟩ := claimResult_ok hok
    obtain ⟨hnoted, hnewer⟩ := h.epochs.next ha hphase
    refine hset.publish hstate hnoted hnewer fun {j b n} hb hworker hallocated => ?_
    -- another one that is under way would be before or after this one in the chain
    have hstarted : ∀ {c : RegistrationAttempt} {r : EpochResult}, c.phase = .allocated r →
        c.isChained = false ∧ c.done = false := by
      intro c r hc
      rw [isChained, done, hc]
      exact ⟨rfl, rfl⟩
    rcases getElem?_set_cases hb with ⟨-, rfl⟩ | ⟨hne, hb'⟩
    · cases hallocated
    · rcases Nat.lt_or_gt_of_ne hne.symm with hlt | hgt
      · have hdone := h.chained.ordered hlt ha hb' hworker.symm (hstarted hallocated).1
        rw [(hstarted hphase).2] at hdone
        cases hdone
      · have hdone := h.chained.ordered hgt hb' ha hworker (hstarted hphase).1
        rw [(hstarted hallocated).2] at hdone
        cases hdone

theorem Consistent.finish (h : e.Consistent none) (hstep : e.finish i = some e') :
    e'.Consistent none := by
  obtain ⟨a, result, ha, hphase, rfl⟩ := finish_spec hstep
  have hset : (e.setAttempt i { a with phase := .finished result }).Consistent none := by
    refine h.setAttempt ha ⟨rfl, rfl, rfl, fun _ => rfl, fun _ => rfl⟩ (fun hchained => ?_)
      (fun hrace => ?_) (fun epoch hallocated => ?_)
    · rw [isChained, hphase] at hchained
      cases hchained
    · cases hrace
    · cases hallocated
  have ha' : (e.setAttempt i { a with phase := .finished result }).attempts[i]? =
      some { a with phase := .finished result } := by
    obtain ⟨hlt, -⟩ := List.getElem?_eq_some_iff.mp ha
    show (e.attempts.set i _)[i]? = _
    rw [getElem?_set_self hlt]
  exact ⟨⟨hset.attached.live, hset.attached.nodup⟩,
    ⟨hset.current.live, hset.current.published, hset.current.known⟩, hset.races,
    ⟨hset.epochs.noted, hset.epochs.next, hset.epochs.increasing⟩,
    Chained.drop (a := { a with phase := .finished result }) hset.chained ha' rfl⟩

theorem stateOf_attach {session : Nat} (hstep : e.attach session = some e') (x : Nat) :
    e'.stateOf x = if x = session then some .authenticating else e.stateOf x := by
  unfold attach at hstep
  split at hstep
  · cases hstep
  cases hstep
  show (Function.update e.objects session _ x).map (·.state) = _
  rw [update_apply]
  split <;> rfl

theorem Consistent.attach (h : e.Consistent none) {session : Nat}
    (hstep : e.attach session = some e') : e'.Consistent none := by
  have hstate := stateOf_attach hstep
  unfold MainEndpoint.attach at hstep
  split at hstep
  · cases hstep
  next hnew =>
  have hnone : e.stateOf session = none := by
    rw [Bool.or_eq_true, not_or, Bool.not_eq_true, Bool.not_eq_true, isSome_eq_false_iff,
      isNone_iff_eq_none] at hnew
    rw [stateOf, hnew.2]
    rfl
  have hdead : e.isLive session = false := by
    rw [isLive, hnone]
    rfl
  have hlive : ∀ x, e'.isLive x = true ↔ x = session ∨ e.isLive x = true := by
    intro x
    rw [isLive_iff, isLive_iff, hstate]
    split
    · next heq => simp [heq]
    · next hne => simp [hne]
  cases hstep
  refine ⟨⟨fun x => ?_, ?_⟩, ⟨fun w x hcurrent => ?_, fun p hp hplive _ => ?_, fun p hp => ?_⟩,
    fun {i a} ha hphase => ?_, ⟨h.epochs.noted, h.epochs.next, h.epochs.increasing⟩, h.chained⟩
  · rw [hlive, mem_append, mem_singleton, h.attached.live, or_comm]
  · refine h.attached.nodup.append (nodup_singleton session) ?_
    rw [disjoint_singleton, h.attached.live, hdead]
    exact Bool.false_ne_true
  · obtain ⟨hxlive, hpublished⟩ := h.current.live w x hcurrent
    exact ⟨(hlive x).mpr (.inr hxlive), hpublished⟩
  · rcases (hlive p.session).mp hplive with heq | hplive
    · have hknown := h.current.known p hp
      rw [heq, hnone] at hknown
      cases hknown
    · exact h.current.published p hp hplive (by simp)
  · rw [hstate]
    split
    · rfl
    · exact h.current.known p hp
  · rw [hstate]
    split
    · rfl
    · exact h.races ha hphase

theorem register_frame {session : Nat} {registration : WorkerRegistration}
    (hstep : e.register session registration = some e') :
    e'.closed = e.closed ∧ e'.published = e.published ∧ ∀ x, e'.stateOf x = e.stateOf x := by
  unfold register at hstep
  split at hstep
  swap
  · cases hstep
  next hobject =>
  cases hstep
  refine ⟨rfl, rfl, fun x => ?_⟩
  show (Function.update e.objects session _ x).map (·.state) = _
  rw [update_apply]
  split
  · next heq =>
    rw [heq, stateOf, hobject]
    rfl
  · rfl

theorem Consistent.register (h : e.Consistent none) {session : Nat}
    {registration : WorkerRegistration} (hstep : e.register session registration = some e') :
    e'.Consistent none := by
  have hstate := (register_frame hstep).2.2
  have hlive : ∀ x, e'.isLive x = e.isLive x := fun x => isLive_congr (hstate x)
  unfold MainEndpoint.register at hstep
  split at hstep
  swap
  · cases hstep
  cases hstep
  refine ⟨⟨fun x => ?_, h.attached.nodup⟩, ⟨fun w x hcurrent => ?_, fun p hp hplive _ => ?_,
    fun p hp => ?_⟩, fun {i a} ha hphase => ?_, ⟨h.epochs.noted, fun {i a epoch} ha hphase => ?_,
    h.epochs.increasing⟩, h.chained.register rfl rfl⟩
  · rw [hlive]
    exact h.attached.live x
  · rw [hlive]
    exact h.current.live w x hcurrent
  · rw [hlive] at hplive
    exact h.current.published p hp hplive (by simp)
  · rw [hstate]
    exact h.current.known p hp
  · rw [hstate]
    rcases getElem?_concat_cases ha with ha | ⟨-, rfl⟩
    · exact h.races ha hphase
    · cases hphase
  · rcases getElem?_concat_cases ha with ha | ⟨-, rfl⟩
    · exact h.epochs.next ha hphase
    · cases hphase

theorem Consistent.becomeReady (h : e.Consistent none)
    (hstep : e.becomeReady i = some e') : e'.Consistent none ∧
      (∀ x, e'.isLive x = e.isLive x) ∧ (∀ x, (e'.stateOf x).isSome = (e.stateOf x).isSome) ∧
      e'.closed = e.closed ∧ e'.published = e.published := by
  unfold MainEndpoint.becomeReady at hstep
  split at hstep
  swap
  · cases hstep
  next a ha =>
  split at hstep
  swap
  · cases hstep
  split at hstep
  swap
  · cases hstep
  next hauthenticating =>
  have hknown : (e.stateOf a.session).isSome = true := by
    rw [hauthenticating]
    rfl
  have hnotified := notified_setState hknown .ready
  cases hstep
  have hlive : ∀ x, ((e.setState a.session .ready).notifyState a.session).isLive x = e.isLive x := by
    intro x
    rw [Bool.eq_iff_iff, isLive_iff, isLive_iff, hnotified.stateOf]
    split
    · next heq => simp [heq, hauthenticating]
    · rfl
  have hknown : ∀ x, (((e.setState a.session .ready).notifyState a.session).stateOf x).isSome =
      (e.stateOf x).isSome := by
    intro x
    rw [hnotified.stateOf]
    split
    · next heq =>
      rw [heq, hauthenticating]
      rfl
    · rfl
  refine ⟨⟨⟨fun x => ?_, h.attached.nodup⟩, ⟨fun w x hcurrent => ?_, fun p hp hplive _ => ?_,
    fun p hp => ?_⟩, hnotified.races h.races, hnotified.keepsEpochs h.epochs,
    hnotified.chained h.chained⟩, hlive, hknown, rfl, rfl⟩
  · rw [hlive]
    exact h.attached.live x
  · rw [hlive]
    exact h.current.live w x hcurrent
  · rw [hlive] at hplive
    exact h.current.published p hp hplive (by simp)
  · rw [hknown]
    exact h.current.known p hp

/-! ## What a step never undoes -/

/-- Closing, and the end of a session, are for good. -/
structure Later (e e' : MainEndpoint) : Prop where
  closed : e.closed = true → e'.closed = true
  known : ∀ x, (e.stateOf x).isSome = true → (e'.stateOf x).isSome = true
  ended : ∀ x, (e.stateOf x).isSome = true → e.isLive x = false → e'.isLive x = false

theorem Later.refl (e : MainEndpoint) : Later e e := ⟨id, fun _ => id, fun _ _ => id⟩

theorem Later.trans {e'' : MainEndpoint} (h : Later e e') (h' : Later e' e'') : Later e e'' :=
  ⟨fun hc => h'.closed (h.closed hc), fun x hx => h'.known x (h.known x hx),
    fun x hx hl => h'.ended x (h.known x hx) (h.ended x hx hl)⟩

theorem Later.of_objects (hclosed : e'.closed = e.closed) (hobjects : e'.objects = e.objects) :
    Later e e' := by
  have hstate : ∀ x, e'.stateOf x = e.stateOf x := fun x => by rw [stateOf, hobjects, stateOf]
  exact ⟨fun hc => hclosed.trans hc, fun x hx => by rwa [hstate],
    fun x _ hl => (isLive_congr (hstate x)).trans hl⟩

theorem later_endSession (e : MainEndpoint) {session : Nat} {state : WorkerSessionState}
    (hended : Ended state) : Later e (e.endSession session state) := by
  rcases endSession_cases e session state with ⟨-, heq⟩ | ⟨-, hends⟩
  · rw [heq]
    exact .refl e
  · refine ⟨fun hc => hends.closed.trans hc, fun x hx => ?_, fun x _ hl => ?_⟩
    · rw [hends.stateOf]
      split
      · rfl
      · exact hx
    · rw [Bool.eq_false_iff]
      intro hlive
      rw [((hends.isLive_iff hended).mp hlive).1] at hl
      cases hl

theorem published_endSession (e : MainEndpoint) (session : Nat) (state : WorkerSessionState) :
    (e.endSession session state).published = e.published := by
  rcases endSession_cases e session state with ⟨-, heq⟩ | ⟨-, hends⟩
  · rw [heq]
  · exact hends.published

theorem Consistent.closeSessions (h : e.Consistent none) (sessions : List Nat) :
    (sessions.foldl (fun e session => e.endSession session .closed) e).Consistent none ∧
      Later e (sessions.foldl (fun e session => e.endSession session .closed) e) ∧
      (sessions.foldl (fun e session => e.endSession session .closed) e).published = e.published ∧
      ∀ x, (sessions.foldl (fun e session => e.endSession session .closed) e).isLive x = true →
        e.isLive x = true ∧ x ∉ sessions := by
  induction sessions generalizing e with
  | nil => exact ⟨h, .refl e, rfl, fun x hx => ⟨hx, not_mem_nil⟩⟩
  | cons session sessions ih =>
    have hone : (e.endSession session .closed).Consistent none :=
      (h.weaken (some session)).endSession (.inl rfl)
    obtain ⟨hconsistent, hlater, hpublished, hlive⟩ := ih hone
    rw [foldl_cons]
    refine ⟨hconsistent, (later_endSession e (.inl rfl)).trans hlater,
      hpublished.trans (published_endSession e session .closed), fun x hx => ?_⟩
    obtain ⟨hlive', hmem⟩ := hlive x hx
    rcases endSession_cases e session .closed with ⟨hdead, heq⟩ | ⟨-, hends⟩
    · rw [heq] at hlive'
      refine ⟨hlive', fun hcons => ?_⟩
      rcases mem_cons.mp hcons with rfl | hin
      · rw [hdead] at hlive'
        cases hlive'
      · exact hmem hin
    · obtain ⟨hbefore, hne⟩ := (hends.isLive_iff (.inl rfl)).mp hlive'
      exact ⟨hbefore, fun hcons => (mem_cons.mp hcons).elim hne hmem⟩

/-- What holds after closing: no session is live. -/
def Stopped (e : MainEndpoint) : Prop := e.closed = true → ∀ x, e.isLive x = false

theorem Consistent.close (h : e.Consistent none) (hstopped : e.Stopped) :
    e.close.Consistent none ∧ e.close.Stopped ∧ Later e e.close ∧
      e.close.published = e.published := by
  unfold MainEndpoint.close
  split
  · exact ⟨h, hstopped, .refl e, rfl⟩
  have hclosed : MainEndpoint.Consistent { e with closed := true } none :=
    ⟨⟨h.attached.live, h.attached.nodup⟩,
      ⟨h.current.live, h.current.published, h.current.known⟩, h.races,
      ⟨h.epochs.noted, h.epochs.next, h.epochs.increasing⟩, h.chained⟩
  obtain ⟨hconsistent, hlater, hpublished, hlive⟩ := hclosed.closeSessions e.sessions
  refine ⟨hconsistent, fun _ x => ?_, ⟨fun _ => hlater.closed rfl, hlater.known, hlater.ended⟩,
    hpublished⟩
  rw [Bool.eq_false_iff]
  intro hx
  obtain ⟨hx, hmem⟩ := hlive x hx
  exact hmem ((h.attached.live x).mpr hx)

theorem Consistent.closeTables (h : e.Consistent none) (hstopped : ∀ x, e.isLive x = false) :
    e.closeTables.Consistent none := by
  have hdead : ∀ x, e.closeTables.isLive x = false := hstopped
  refine ⟨⟨fun x => ?_, nodup_nil⟩, ⟨fun w x hcurrent => ?_, fun p _ hlive => ?_,
    h.current.known⟩, h.races, ⟨h.epochs.noted, h.epochs.next, h.epochs.increasing⟩, h.chained⟩
  · rw [hdead]
    exact iff_of_false not_mem_nil Bool.false_ne_true
  · cases hcurrent
  · rw [hdead] at hlive
    cases hlive

/-! ## Runs -/

/-- What one step does to the history: nothing is published after closing. -/
def Extends (e e' : MainEndpoint) : Prop :=
  e'.published = e.published ∨ (e.closed = false ∧ ∃ p, e'.published = p :: e.published)

/-- What a step does, beyond keeping the invariant. -/
structure Progress (e e' : MainEndpoint) : Prop where
  consistent : e'.Consistent none
  stopped : e'.Stopped
  later : Later e e'
  history : e.Extends e'

theorem Progress.of_objects (hconsistent : e'.Consistent none) (hstopped : e.Stopped)
    (hclosed : e'.closed = e.closed) (hobjects : e'.objects = e.objects)
    (hpublished : e'.published = e.published) : Progress e e' := by
  refine ⟨hconsistent, fun hc x => ?_, .of_objects hclosed hobjects, .inl hpublished⟩
  have hlive : e'.isLive x = e.isLive x := isLive_congr (by rw [stateOf, hobjects, stateOf])
  rw [hlive]
  exact hstopped (hclosed ▸ hc) x

theorem publish_frame (e : MainEndpoint) (a : RegistrationAttempt) (epoch : FencingEpoch) :
    Later e (e.publish a epoch) ∧ (e.publish a epoch).closed = e.closed ∧
      (e.publish a epoch).published = ⟨a.workerId, a.session, epoch⟩ :: e.published := by
  unfold publish
  cases e.current a.workerId with
  | none => exact ⟨.of_objects rfl rfl, rfl, rfl⟩
  | some session =>
    have hclosed : ∀ e₁ : MainEndpoint, (e₁.endSession session .unavailable).closed = e₁.closed := by
      intro e₁
      rcases endSession_cases e₁ session .unavailable with ⟨-, heq⟩ | ⟨-, hends⟩
      · rw [heq]
      · exact hends.closed
    have hlater : ∀ e₁ : MainEndpoint, e₁.closed = e.closed → e₁.objects = e.objects →
        Later e (e₁.endSession session .unavailable) := fun e₁ hclosed hobjects =>
      (Later.of_objects hclosed hobjects).trans (later_endSession e₁ (.inr rfl))
    exact ⟨hlater _ rfl rfl, hclosed _, published_endSession _ _ _⟩

theorem Progress.endSession (h : e.Consistent none) (hstopped : e.Stopped) {session : Nat}
    {state : WorkerSessionState} (hended : Ended state) :
    Progress e (e.endSession session state) := by
  refine ⟨(h.weaken (some session)).endSession hended, fun hc x => ?_, later_endSession e hended,
    .inl (published_endSession e session state)⟩
  rcases endSession_cases e session state with ⟨-, heq⟩ | ⟨-, hends⟩
  · rw [heq] at hc ⊢
    exact hstopped hc x
  · rw [Bool.eq_false_iff]
    intro hlive
    have hx := ((hends.isLive_iff hended).mp hlive).1
    rw [hstopped (hends.closed ▸ hc) x] at hx
    cases hx

theorem attach_frame {session : Nat} (h : e.attach session = some e') :
    e.closed = false ∧ e.stateOf session = none ∧ e'.closed = e.closed ∧
      e'.published = e.published := by
  unfold attach at h
  split at h
  · cases h
  next hnew =>
  rw [Bool.or_eq_true, not_or, Bool.not_eq_true, Bool.not_eq_true, isSome_eq_false_iff,
    isNone_iff_eq_none] at hnew
  cases h
  refine ⟨hnew.1, ?_, rfl, rfl⟩
  rw [stateOf, hnew.2]
  rfl

/-- **One step** keeps the invariant and undoes nothing. -/
theorem progress (h : e.Consistent none) (hstopped : e.Stopped) {l : EndpointLabel}
    (hstep : e.step l = some e') : Progress e e' := by
  cases l with
  | attach session =>
    have hstate := stateOf_attach hstep
    obtain ⟨hopen, hnone, hclosed, hpublished⟩ := attach_frame hstep
    refine ⟨h.attach hstep, fun hc => ?_, ⟨fun hc => hclosed.trans hc, fun x hx => ?_,
      fun x hx hl => ?_⟩, .inl hpublished⟩
    · rw [hclosed, hopen] at hc
      cases hc
    · rw [hstate]
      split
      · rfl
      · exact hx
    · have hne : x ≠ session := by
        rintro rfl
        rw [hnone] at hx
        cases hx
      rwa [isLive_congr ((hstate x).trans (if_neg hne))]
  | register session registration =>
    obtain ⟨hclosed, hpublished, hstate⟩ := register_frame hstep
    refine ⟨h.register hstep, fun hc x => ?_, ⟨fun hc => hclosed.trans hc, fun x hx => ?_,
      fun x _ hl => ?_⟩, .inl hpublished⟩
    · rw [isLive_congr (hstate x)]
      exact hstopped (hclosed ▸ hc) x
    · rwa [hstate]
    · rwa [isLive_congr (hstate x)]
  | start i =>
    obtain ⟨a, -, -, -, rfl⟩ := start_spec hstep
    exact .of_objects (h.start hstep) hstopped rfl rfl rfl
  | allocationSettled i result =>
    obtain ⟨a, -, -, rfl⟩ := allocationSettled_spec hstep
    exact .of_objects (h.allocationSettled hstep) hstopped rfl rfl rfl
  | finish i =>
    obtain ⟨a, result, -, -, rfl⟩ := finish_spec hstep
    exact .of_objects (h.finish hstep) hstopped rfl rfl rfl
  | allocateEpoch i =>
    obtain ⟨a, outcome, late, -, -, rfl⟩ := allocateEpoch_spec hstep
    obtain ⟨hclosed, hobjects, -, hpublished⟩ := e.raceSettled_frame a.workerId outcome
    exact .of_objects (h.allocateEpoch hstep) hstopped hclosed hobjects hpublished
  | recordLate i =>
    obtain ⟨a, epoch, -, -, rfl⟩ := recordLate_spec hstep
    obtain ⟨hclosed, hobjects, -, hpublished⟩ := e.noteLate_frame a.workerId epoch
    exact .of_objects (h.recordLate hstep) hstopped hclosed hobjects hpublished
  | claim i publishable =>
    have hkeep := h.claim hstep
    obtain ⟨a, result, e₁, -, -, hset, rfl | ⟨epoch, hok, rfl⟩⟩ := claim_spec hstep
    · rw [hset] at hkeep ⊢
      exact .of_objects hkeep hstopped rfl rfl rfl
    · obtain ⟨-, hopen, -⟩ := claimResult_ok hok
      obtain ⟨hlater, hclosed, hpublished⟩ := publish_frame e₁ a epoch
      subst hset
      refine ⟨hkeep, fun hc => ?_, ⟨hlater.closed, hlater.known, hlater.ended⟩,
        .inr ⟨hopen, _, hpublished⟩⟩
      rw [hclosed] at hc
      cases hopen.symm.trans hc
  | becomeReady i =>
    obtain ⟨hkeep, hlive, hknown, hclosed, hpublished⟩ := h.becomeReady hstep
    refine ⟨hkeep, fun hc x => ?_, ⟨fun hc => hclosed.trans hc, fun x hx => ?_, fun x _ hl => ?_⟩,
      .inl hpublished⟩
    · rw [hlive]
      exact hstopped (hclosed ▸ hc) x
    · rwa [hknown]
    · rwa [hlive]
  | closeSession session =>
    cases hstep
    exact .endSession h hstopped (.inl rfl)
  | expire session =>
    cases hstep
    exact .endSession h hstopped (.inr rfl)
  | close =>
    cases hstep
    obtain ⟨hkeep, hstop, hlater, hpublished⟩ := h.close hstopped
    exact ⟨hkeep, hstop, hlater, .inl hpublished⟩
  | closeTables =>
    unfold step at hstep
    dsimp only at hstep
    split at hstep
    · next hclosed =>
      cases hstep
      exact .of_objects (h.closeTables (hstopped hclosed)) hstopped rfl rfl rfl
    · cases hstep

/-! ## Nothing waits for a closed session -/

/-- How many callbacks a registration has left. -/
def weight (a : RegistrationAttempt) : Nat :=
  (match a.phase with
    | .chained => 8
    | .racing _ => 6
    | .allocated _ => 4
    | .settled _ => 2
    | .finished _ => 0) + if a.late then 1 else 0

theorem weight_lt_of_allocated (h : a.phase = .allocated result) : weight a < 6 := by
  unfold weight
  rw [h]
  dsimp only
  split <;> omega

theorem le_weight_of_racing {outcome : Option EpochResult}
    (h : a.phase = .racing outcome) : 6 ≤ weight a := by
  unfold weight
  rw [h]
  exact Nat.le_add_right 6 _

def size (e : MainEndpoint) : Nat := (e.attempts.map weight).sum

theorem weight_rejectClosed (a : RegistrationAttempt) : weight (rejectClosed a) = weight a := by
  unfold rejectClosed
  split
  · next h => simp [weight, h]
  · rfl

theorem size_endSession (e : MainEndpoint) (session : Nat) (state : WorkerSessionState) :
    (e.endSession session state).size = e.size := by
  rcases endSession_cases e session state with ⟨-, heq⟩ | ⟨-, hends⟩
  · rw [heq]
  · rw [size, hends.attempts, List.map_map, size]
    congr 1
    refine map_congr_left fun a _ => ?_
    show weight (if a.session = session then rejectClosed a else a) = weight a
    split
    · exact weight_rejectClosed a
    · rfl

theorem size_publish (e : MainEndpoint) (a : RegistrationAttempt) (epoch : FencingEpoch) :
    (e.publish a epoch).size = e.size := by
  unfold publish
  cases e.current a.workerId with
  | none => rfl
  | some session => exact size_endSession _ session .unavailable

theorem NotesEpoch.size_eq (h : NotesEpoch e e') : e'.size = e.size := by
  rw [size, h.attempts, size]

theorem size_setAttempt {a' : RegistrationAttempt} (ha : e.attempts[i]? = some a)
    (hlt : weight a' < weight a) : (e.setAttempt i a').size < e.size := by
  show ((e.attempts.set i a').map weight).sum < (e.attempts.map weight).sum
  generalize e.attempts = l at ha ⊢
  induction l generalizing i with
  | nil => cases ha
  | cons b l ih =>
    cases i with
    | zero =>
      obtain rfl : b = a := some.inj ha
      rw [set_cons_zero, map_cons, map_cons, sum_cons, sum_cons]
      exact Nat.add_lt_add_right hlt _
    | succ i =>
      rw [set_cons_succ, map_cons, map_cons, sum_cons, sum_cons]
      exact Nat.add_lt_add_left (ih ha) _

theorem size_lt {l : EndpointLabel} (hmicrotask : l.isMicrotask = true)
    (hstep : e.step l = some e') : e'.size < e.size := by
  cases l with
  | attach | register | allocationSettled | becomeReady | closeSession | expire | close
    | closeTables => cases hmicrotask
  | start i =>
    obtain ⟨a, ha, hphase, -, rfl⟩ := start_spec hstep
    refine size_setAttempt ha ?_
    rcases e.claimRegistration_cases a with ⟨thrown, hsettled⟩ | ⟨-, hracing⟩
    · simp [weight, hphase, hsettled]
    · simp [weight, hphase, hracing]
  | allocateEpoch i =>
    obtain ⟨a, outcome, late, ha, hphase, rfl⟩ := allocateEpoch_spec hstep
    have hnotes := e.raceSettled_frame a.workerId outcome
    rw [← hnotes.attempts] at ha
    rw [← hnotes.size_eq]
    exact size_setAttempt ha (Nat.lt_of_lt_of_le (weight_lt_of_allocated rfl)
      (le_weight_of_racing hphase))
  | recordLate i =>
    obtain ⟨a, epoch, ha, hlate, rfl⟩ := recordLate_spec hstep
    have hnotes := e.noteLate_frame a.workerId epoch
    rw [← hnotes.attempts] at ha
    rw [← hnotes.size_eq]
    refine size_setAttempt ha ?_
    unfold weight
    rw [hlate]
    simp
  | claim i publishable =>
    obtain ⟨a, result, e₁, ha, hphase, rfl, hcases⟩ := claim_spec hstep
    have hlt : weight { a with phase := .settled (e.claimResult a publishable result) } <
        weight a := by simp [weight, hphase]
    rcases hcases with rfl | ⟨epoch, -, rfl⟩
    · exact size_setAttempt ha hlt
    · rw [size_publish]
      exact size_setAttempt ha hlt
  | finish i =>
    obtain ⟨a, result, ha, hphase, rfl⟩ := finish_spec hstep
    refine size_setAttempt ha ?_
    simp [weight, hphase]

/-- **What a registration waits for** once all callbacks have run: another of its worker,
whose session still authenticates and whose allocation has not settled. -/
theorem waits_of_quiescent (h : e.Consistent none)
    (hquiet : machine.Quiescent EndpointLabel.isMicrotask e) {j : Nat} {b : RegistrationAttempt}
    (hb : e.attempts[j]? = some b) (hchained : b.phase = .chained) :
    ∃ (i : Nat) (a : RegistrationAttempt), i < j ∧ e.attempts[i]? = some a ∧
      a.workerId = b.workerId ∧ a.phase = .racing none ∧
      e.stateOf a.session = some .authenticating := by
  induction j using Nat.strongRecOn generalizing b with
  | _ j ih =>
    have hstart : e.start j = none := hquiet (.start j) rfl
    rw [start, hb] at hstart
    dsimp only at hstart
    rw [hchained] at hstart
    dsimp only at hstart
    split at hstart
    · cases hstart
    next hreleased =>
    unfold released at hreleased
    split at hreleased
    · exact absurd rfl hreleased
    next p hp =>
    obtain ⟨hlt, ⟨a, ha, hworker⟩, -⟩ := h.chained.behind hb hp
    rw [ha] at hreleased
    cases hphase : a.phase with
    | chained =>
      obtain ⟨i, c, hi, hc, hcworker, hcases⟩ := ih p hlt ha hphase
      exact ⟨i, c, hi.trans hlt, hc, hcworker.trans hworker, hcases⟩
    | racing outcome =>
      cases outcome with
      | none => exact ⟨p, a, hlt, ha, hworker, hphase, h.races ha hphase⟩
      | some outcome =>
        have hstep : e.allocateEpoch p = none := hquiet (.allocateEpoch p) rfl
        rw [allocateEpoch, ha] at hstep
        dsimp only at hstep
        rw [hphase] at hstep
        cases hstep
    | allocated result =>
      have hstep : e.claim p true = none := hquiet (.claim p true) rfl
      rw [claim, ha] at hstep
      dsimp only at hstep
      rw [hphase] at hstep
      dsimp only at hstep
      split at hstep <;> cases hstep
    | settled result =>
      refine absurd ?_ hreleased
      show a.done = true
      rw [done, hphase]
    | finished result =>
      refine absurd ?_ hreleased
      show a.done = true
      rw [done, hphase]

/-! ## The main result -/

/-- **Registration is safe** at a moment of a run. -/
structure RegistrationSafe (e : MainEndpoint) : Prop where
  /-- What is current is live and was published. -/
  current : ∀ w x, e.current w = some x → e.isLive x = true ∧ ∃ epoch, ⟨w, x, epoch⟩ ∈ e.published
  /-- At most one of the sessions published for a worker is live, and it is the current one. -/
  single : ∀ p ∈ e.published, e.isLive p.session = true → e.current p.workerId = some p.session
  /-- The epochs published for a worker increase. -/
  increasing : e.published.Pairwise fun newer older =>
    newer.workerId = older.workerId → older.epoch < newer.epoch
  /-- A session that was replaced is never current again. -/
  replaced : ∀ p ∈ e.published, e.current p.workerId ≠ some p.session →
    ∀ ls e', machine.run e ls = some e' → ∀ w, e'.current w ≠ some p.session
  /-- A session that has closed is never current again. -/
  ended : ∀ x, (e.stateOf x).isSome = true → e.isLive x = false →
    ∀ ls e', machine.run e ls = some e' → ∀ w, e'.current w ≠ some x
  closed : e.closed = true → ∀ ls e', machine.run e ls = some e' →
    e'.published = e.published ∧ ∀ w, e'.current w = none
  /-- The callbacks run out, and then a registration waits for none whose session closed. -/
  settles : ∃ ls e', (∀ l ∈ ls, l.isMicrotask = true) ∧ machine.run e ls = some e' ∧
    machine.Quiescent EndpointLabel.isMicrotask e'
  waits : machine.Quiescent EndpointLabel.isMicrotask e →
    ∀ (j : Nat) (b : RegistrationAttempt), e.attempts[j]? = some b → b.phase = .chained →
      ∃ (i : Nat) (a : RegistrationAttempt), i < j ∧ e.attempts[i]? = some a ∧
        a.workerId = b.workerId ∧ a.phase = .racing none ∧
        e.stateOf a.session = some .authenticating

theorem invariant (hr : machine.Reachable e) : e.Consistent none ∧ e.Stopped :=
  Machine.ReachableVia.invariant (I := fun e => e.Consistent none ∧ e.Stopped)
    (by
      rintro _ rfl
      exact ⟨consistent_new, fun hc => by cases hc⟩)
    (fun _ _ _ _ h hstep _ => ⟨(progress h.1 h.2 hstep).consistent, (progress h.1 h.2 hstep).stopped⟩)
    hr

theorem later_of_run {ls : List EndpointLabel} (h : e.Consistent none) (hstopped : e.Stopped)
    (hrun : machine.run e ls = some e') : e'.Consistent none ∧ e'.Stopped ∧ Later e e' ∧
      (e.closed = true → e'.published = e.published) := by
  induction ls generalizing e with
  | nil =>
    obtain rfl := some.inj hrun
    exact ⟨h, hstopped, .refl _, fun _ => rfl⟩
  | cons l ls ih =>
    rw [Machine.run_cons, bind_eq_some_iff] at hrun
    obtain ⟨e₁, hstep, hrest⟩ := hrun
    have hprogress := progress h hstopped hstep
    obtain ⟨hconsistent, hstop, hlater, hpublished⟩ :=
      ih hprogress.consistent hprogress.stopped hrest
    refine ⟨hconsistent, hstop, hprogress.later.trans hlater, fun hc => ?_⟩
    rw [hpublished (hprogress.later.closed hc)]
    rcases hprogress.history with heq | ⟨hopen, -⟩
    · exact heq
    · rw [hopen] at hc
      cases hc

theorem registration_safe (hr : machine.Reachable e) : RegistrationSafe e := by
  obtain ⟨h, hstopped⟩ := invariant hr
  have hended : ∀ x, (e.stateOf x).isSome = true → e.isLive x = false →
      ∀ ls e', machine.run e ls = some e' → ∀ w, e'.current w ≠ some x := by
    intro x hknown hdead ls e' hrun w hcurrent
    obtain ⟨hconsistent, -, hlater, -⟩ := later_of_run h hstopped hrun
    have hlive := (hconsistent.current.live w x hcurrent).1
    rw [hlater.ended x hknown hdead] at hlive
    cases hlive
  refine ⟨h.current.live, fun p hp hlive => h.current.published p hp hlive (by simp),
    h.epochs.increasing, fun p hp hne => ?_, hended, fun hc ls e' hrun => ?_,
    Machine.exists_quiescent size (fun _ _ _ hm hs => size_lt hm hs) e,
    fun hquiet _ _ hb hchained => waits_of_quiescent h hquiet hb hchained⟩
  · -- a published session that is not current is not live
    refine hended p.session (h.current.known p hp) ?_
    rw [Bool.eq_false_iff]
    exact fun hlive => hne (h.current.published p hp hlive (by simp))
  · obtain ⟨hconsistent, hstop, hlater, hpublished⟩ := later_of_run h hstopped hrun
    refine ⟨hpublished hc, fun w => ?_⟩
    cases hcurrent : e'.current w with
    | none => rfl
    | some x =>
      have hlive := (hconsistent.current.live w x hcurrent).1
      rw [hstop (hlater.closed hc) x] at hlive
      cases hlive

/-- Two sessions of a worker: the first closes while its allocation hangs, and its epoch
arrives when the second is current. -/
def lateEpochRun : List EndpointLabel :=
  let registration : WorkerRegistration := ⟨⟨Text.js "worker", by decide⟩, [], [], [.process], []⟩
  [.attach 0, .register 0 registration, .start 0, .attach 1, .register 1 registration,
    .closeSession 0, .allocateEpoch 0, .claim 0 true, .finish 0, .start 1,
    .allocationSettled 1 (.ok 1), .allocateEpoch 1, .claim 1 true, .finish 1, .becomeReady 1,
    .allocationSettled 0 (.ok 2), .recordLate 0]

theorem registration_safe_lateEpochRun :
    ∃ e, machine.run new lateEpochRun = some e ∧ RegistrationSafe e :=
  ⟨_, rfl, registration_safe (@Machine.Reachable.of_init_run _ _ machine new _ lateEpochRun rfl rfl)⟩

end MainEndpoint

end TegoNext
