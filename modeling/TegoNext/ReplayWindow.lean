/-
Numbered messages, and a bounded memory of the ones that came last.

A receiver takes messages `0`, `1`, `2`, … and each of them once. It remembers identity and
fingerprint of the last few: what comes under a number of the past is a replay when it is
remembered just so, and refused otherwise, and an identity that is still remembered is
refused under the next number. `Remembers` says what the memory holds.
-/
import Mathlib.Data.List.AList

set_option autoImplicit false

namespace TegoNext

open List AList

variable {ι φ : Type} [DecidableEq ι]

structure RetainedReplay (ι φ : Type) where
  messageId : ι
  fingerprint : φ

structure ReplayWindow (ι φ : Type) where
  expectedSequence : Nat
  receivedFingerprints : AList fun _ : ι => φ
  receivedReplayOrder : List (RetainedReplay ι φ)

inductive ReplayVerdict where
  | replayed
  | equivocated
  | gap
  | next
  deriving DecidableEq

namespace ReplayWindow

def empty : ReplayWindow ι φ where
  expectedSequence := 0
  receivedFingerprints := ∅
  receivedReplayOrder := []

/-- Is it the next message, or one that was here before? -/
def judge [DecidableEq φ] (w : ReplayWindow ι φ) (sequence : Nat) (replay : RetainedReplay ι φ) :
    ReplayVerdict :=
  let retained := w.receivedFingerprints.lookup replay.messageId
  if sequence < w.expectedSequence then
    if retained = some replay.fingerprint then .replayed else .equivocated
  else if w.expectedSequence < sequence then .gap
  else if retained.isSome then .equivocated
  else .next

/-- Forget the oldest entries until no more than `retention` are left. -/
def evict (retention : Nat) : (AList fun _ : ι => φ) → List (RetainedReplay ι φ) →
    (AList fun _ : ι => φ) × List (RetainedReplay ι φ)
  | fingerprints, [] => (fingerprints, [])
  | fingerprints, removed :: order =>
    if retention < (removed :: order).length then
      evict retention (fingerprints.erase removed.messageId) order
    else (fingerprints, removed :: order)

def retain (retention : Nat) (w : ReplayWindow ι φ) (replay : RetainedReplay ι φ) :
    ReplayWindow ι φ :=
  let kept := evict retention (w.receivedFingerprints.insert replay.messageId replay.fingerprint)
    (w.receivedReplayOrder ++ [replay])
  { expectedSequence := w.expectedSequence + 1
    receivedFingerprints := kept.1
    receivedReplayOrder := kept.2 }

/-! ## What a window remembers -/

/-- The map has the entries of the list, which has no identity twice. -/
structure Indexes (fingerprints : AList fun _ : ι => φ) (order : List (RetainedReplay ι φ)) :
    Prop where
  nodup : (order.map (·.messageId)).Nodup
  lookup : ∀ replay : RetainedReplay ι φ,
    fingerprints.lookup replay.messageId = some replay.fingerprint ↔ replay ∈ order

/-- The window after some messages: the last `retention` of them are remembered. -/
structure Remembers (retention : Nat) (w : ReplayWindow ι φ)
    (accepted : List (RetainedReplay ι φ)) : Prop where
  expected : w.expectedSequence = accepted.length
  order : w.receivedReplayOrder = accepted.drop (accepted.length - retention)
  indexes : Indexes w.receivedFingerprints w.receivedReplayOrder

variable {retention : Nat} {w : ReplayWindow ι φ} {fingerprints : AList fun _ : ι => φ}
  {order accepted : List (RetainedReplay ι φ)} {replay : RetainedReplay ι φ}

theorem Indexes.lookup_eq_none (h : Indexes fingerprints order) {id : ι} :
    fingerprints.lookup id = none ↔ id ∉ order.map (·.messageId) := by
  constructor
  · intro hnone hmem
    obtain ⟨replay, hreplay, rfl⟩ := mem_map.mp hmem
    rw [(h.lookup replay).mpr hreplay] at hnone
    cases hnone
  · intro hnot
    rw [← Option.not_isSome_iff_eq_none]
    intro hsome
    obtain ⟨fingerprint, hlookup⟩ := Option.isSome_iff_exists.mp hsome
    exact hnot (mem_map.mpr ⟨⟨id, fingerprint⟩, (h.lookup ⟨id, fingerprint⟩).mp hlookup, rfl⟩)

theorem Indexes.insert (h : Indexes fingerprints order)
    (hnew : fingerprints.lookup replay.messageId = none) :
    Indexes (fingerprints.insert replay.messageId replay.fingerprint) (order ++ [replay]) := by
  have hnotMem := h.lookup_eq_none.mp hnew
  refine ⟨?_, fun other => ?_⟩
  · rw [map_append, map_singleton]
    exact nodup_append.mpr ⟨h.nodup, nodup_singleton _, fun id hid id' hid' heq => by
      rw [mem_singleton] at hid'
      exact hnotMem (hid' ▸ heq ▸ hid)⟩
  · rw [mem_append, mem_singleton, ← h.lookup other]
    by_cases hid : other.messageId = replay.messageId
    · rw [hid, lookup_insert, hnew, Option.some.injEq]
      refine ⟨fun heq => .inr ?_, fun hor => ?_⟩
      · obtain ⟨_, _⟩ := other
        obtain ⟨_, _⟩ := replay
        cases hid
        cases heq
        rfl
      · obtain hfalse | rfl := hor
        · cases hfalse
        · rfl
    · rw [lookup_insert_ne hid]
      refine ⟨.inl, fun hor => hor.resolve_right ?_⟩
      rintro rfl
      exact hid rfl

theorem Indexes.erase (h : Indexes fingerprints (replay :: order)) :
    Indexes (fingerprints.erase replay.messageId) order := by
  have hnodup := h.nodup
  rw [map_cons, nodup_cons] at hnodup
  refine ⟨hnodup.2, fun other => ?_⟩
  by_cases hid : other.messageId = replay.messageId
  · rw [hid, lookup_erase]
    refine ⟨fun hnone => (by cases hnone), fun hmem => ?_⟩
    exact absurd (mem_map.mpr ⟨other, hmem, hid⟩) hnodup.1
  rw [lookup_erase_ne hid, h.lookup other, mem_cons]
  refine ⟨fun hor => hor.resolve_left ?_, .inr⟩
  rintro rfl
  exact hid rfl

theorem evict_spec (h : Indexes fingerprints order) :
    Indexes (evict retention fingerprints order).1 (evict retention fingerprints order).2 ∧
      (evict retention fingerprints order).2 = order.drop (order.length - retention) := by
  induction order generalizing fingerprints with
  | nil => exact ⟨h, (drop_nil).symm⟩
  | cons removed order ih =>
    rw [evict]
    split
    · next hlong =>
      rw [length_cons] at hlong ⊢
      obtain ⟨hindexes, hdrop⟩ := ih h.erase
      refine ⟨hindexes, hdrop.trans ?_⟩
      rw [Nat.succ_sub (Nat.le_of_lt_succ hlong), drop_succ_cons]
    · next hshort =>
      rw [Nat.sub_eq_zero_of_le (Nat.le_of_not_lt hshort)]
      exact ⟨h, rfl⟩

theorem remembers_empty (retention : Nat) : Remembers retention (empty : ReplayWindow ι φ) [] where
  expected := rfl
  order := drop_nil.symm
  indexes := ⟨nodup_nil, fun replay => by
    rw [empty, lookup_empty]
    exact ⟨fun hnone => (by cases hnone), fun hmem => (by cases hmem)⟩⟩

/-- **One more message**, under an identity that is not remembered. -/
theorem Remembers.retain (h : Remembers retention w accepted)
    (hnew : w.receivedFingerprints.lookup replay.messageId = none) :
    Remembers retention (w.retain retention replay) (accepted ++ [replay]) := by
  have hevicted : Indexes (evict retention _ _).1 (evict retention _ _).2 ∧ _ :=
    evict_spec (h.indexes.insert hnew)
  obtain ⟨hindexes, hdrop⟩ := hevicted
  refine ⟨?_, hdrop.trans ?_, hindexes⟩
  · rw [ReplayWindow.retain, h.expected, length_append, length_singleton]
  · -- what was forgotten before stays forgotten
    rw [h.order, length_append, length_append, length_drop, length_singleton,
      ← drop_append_of_le_length (Nat.sub_le _ _), drop_drop]
    congr 1
    omega

/-! ## The verdict -/

section Verdict

variable [DecidableEq φ] {sequence : Nat}

theorem judge_next :
    w.judge sequence replay = .next ↔
      sequence = w.expectedSequence ∧ w.receivedFingerprints.lookup replay.messageId = none := by
  unfold judge
  by_cases hpast : sequence < w.expectedSequence
  · rw [if_pos hpast]
    refine ⟨fun h => ?_, fun ⟨heq, _⟩ => absurd hpast (heq ▸ Nat.lt_irrefl _)⟩
    split at h
    · cases h
    · cases h
  · rw [if_neg hpast]
    by_cases hgap : w.expectedSequence < sequence
    · rw [if_pos hgap]
      exact ⟨fun h => (by cases h), fun ⟨heq, _⟩ => absurd hgap (heq ▸ Nat.lt_irrefl _)⟩
    rw [if_neg hgap]
    have heq : sequence = w.expectedSequence :=
      Nat.le_antisymm (Nat.le_of_not_lt hgap) (Nat.le_of_not_lt hpast)
    cases hlookup : w.receivedFingerprints.lookup replay.messageId with
    | none => exact ⟨fun _ => ⟨heq, rfl⟩, fun _ => rfl⟩
    | some fingerprint => exact ⟨fun h => (by cases h), fun h => (by cases h.2)⟩

theorem judge_replayed :
    w.judge sequence replay = .replayed ↔
      sequence < w.expectedSequence ∧
        w.receivedFingerprints.lookup replay.messageId = some replay.fingerprint := by
  unfold judge
  by_cases hpast : sequence < w.expectedSequence
  · rw [if_pos hpast]
    by_cases hsame : w.receivedFingerprints.lookup replay.messageId = some replay.fingerprint
    · rw [if_pos hsame]
      exact ⟨fun _ => ⟨hpast, hsame⟩, fun _ => rfl⟩
    · rw [if_neg hsame]
      exact ⟨fun h => (by cases h), fun h => absurd h.2 hsame⟩
  · rw [if_neg hpast]
    refine ⟨fun h => ?_, fun h => absurd h.1 hpast⟩
    split at h
    · cases h
    split at h
    · cases h
    · cases h

end Verdict

end ReplayWindow

end TegoNext
