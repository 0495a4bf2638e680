/-
Versioned records, conditional commits and fences: the abstract store that optimistic concurrency
is about.

Every record carries the revision of the commit that wrote it, and a commit names what it expects
to find. If a commit against the revision of a copy succeeds, the copy *was* the record
(`IsCopy.record_eq_of_matches`), because revisions never repeat. `Evolves` is a preorder that every
commit respects, and `IsCopy` a fact that it preserves.
-/
import Mathlib.Data.List.Nodup

set_option autoImplicit false

namespace TegoNext

open List Option Function

/-- A value together with the revision of the commit that wrote it. -/
structure Versioned (ν : Type) where
  value : ν
  revision : Nat
  deriving DecidableEq, Repr

inductive Expected where
  | any
  | absent
  | at (revision : Nat)
  deriving DecidableEq, Repr

/-- Does the stored record meet the expectation? -/
def Expected.matches {ν : Type} : Expected → Option (Versioned ν) → Bool
  | .any, _ => true
  | .absent, c => c.isNone
  | .at r, c => c.any fun v => v.revision == r

/-- One conditional write; `none` deletes. -/
structure CasWrite (κ ν : Type) where
  key : κ
  value : Option ν
  expected : Expected

inductive CasError where
  | conflict
  | staleFence
  deriving DecidableEq, Repr

/-- Records under keys `κ`, fences under resources `φ`. -/
structure CasStore (κ ν φ : Type) where
  revision : Nat
  record : κ → Option (Versioned ν)
  fence : φ → Option Nat

namespace CasStore

variable {κ ν φ : Type}

def empty : CasStore κ ν φ where
  revision := 0
  record _ := none
  fence _ := none

/-- Does a write change anything? Deleting what is not there does not. -/
def applies (s : CasStore κ ν φ) (w : CasWrite κ ν) : Bool :=
  w.value.isSome || (s.record w.key).isSome

/-- The fence admits `epoch` under `resource`. -/
def admits (s : CasStore κ ν φ) (fencing : Option (φ × Nat)) : Bool :=
  fencing.all fun f => (s.fence f.1).all fun e => decide (e ≤ f.2)

/-- `epoch` is larger than everything the resource was fenced with. -/
def advances (s : CasStore κ ν φ) (fencing : Option (φ × Nat)) : Bool :=
  fencing.any fun f => (s.fence f.1).all fun e => decide (e < f.2)

section Commit

variable [DecidableEq κ] [DecidableEq φ]

/-- The records after one write at revision `r`. -/
def write (r : Nat) (record : κ → Option (Versioned ν)) (w : CasWrite κ ν) :
    κ → Option (Versioned ν) :=
  Function.update record w.key (w.value.map fun v => ⟨v, r⟩)

/-- The fences after a commit under `fencing`. -/
def raise (fence : φ → Option Nat) : Option (φ × Nat) → φ → Option Nat
  | none => fence
  | some f => Function.update fence f.1 (some f.2)

/-- All expectations are checked against the store before the commit, then the
fence; nothing changes unless a write applies, the fence advances, or the commit
carries something other than writes. -/
def commit (s : CasStore κ ν φ) (ws : List (CasWrite κ ν)) (fencing : Option (φ × Nat))
    (other : Bool) : Except CasError (CasStore κ ν φ) :=
  if ws.all (fun w => w.expected.matches (s.record w.key)) then
    if s.admits fencing then
      if ws.any s.applies || other || s.advances fencing then
        .ok { revision := s.revision + 1
              record := ws.foldl (write (s.revision + 1)) s.record
              fence := raise s.fence fencing }
      else .ok s
    else .error .staleFence
  else .error .conflict

end Commit

/-! ## Well-formed stores, evolution and copies -/

/-- No record is newer than the store. -/
def WellFormed (s : CasStore κ ν φ) : Prop := ∀ k c, s.record k = some c → c.revision ≤ s.revision

/-- What any number of commits may have done to a store: revisions and fences
have not gone back, and a record that changed is newer than the old store. -/
structure Evolves (s t : CasStore κ ν φ) : Prop where
  revision_le : s.revision ≤ t.revision
  record : ∀ k c, t.record k = some c → s.record k = some c ∨ s.revision < c.revision
  fence : ∀ f e, s.fence f = some e → ∃ e', t.fence f = some e' ∧ e ≤ e'

/-- `c` is a copy of a record of `k` this store, or an ancestor, once held: it
is the only value its revision can stand for. -/
structure IsCopy (s : CasStore κ ν φ) (k : κ) (c : Versioned ν) : Prop where
  revision_le : c.revision ≤ s.revision
  unique : ∀ c', s.record k = some c' → c'.revision = c.revision → c' = c

theorem wellFormed_empty : (empty : CasStore κ ν φ).WellFormed := by
  intro k c h
  simp [empty] at h

namespace Evolves

theorem refl (s : CasStore κ ν φ) : Evolves s s :=
  ⟨Nat.le_refl _, fun _ _ h => .inl h, fun _ e h => ⟨e, h, Nat.le_refl _⟩⟩

theorem trans {s t u : CasStore κ ν φ} (hst : Evolves s t) (htu : Evolves t u) : Evolves s u where
  revision_le := Nat.le_trans hst.revision_le htu.revision_le
  record k c h := by
    rcases htu.record k c h with h | h
    · exact hst.record k c h
    · exact .inr (Nat.lt_of_le_of_lt hst.revision_le h)
  fence f e h := by
    obtain ⟨e₁, h₁, hle₁⟩ := hst.fence f e h
    obtain ⟨e₂, h₂, hle₂⟩ := htu.fence f e₁ h₁
    exact ⟨e₂, h₂, Nat.le_trans hle₁ hle₂⟩

end Evolves

namespace IsCopy

variable {s : CasStore κ ν φ} {c : Versioned ν}

theorem of_record (hwf : s.WellFormed) {k : κ} (h : s.record k = some c) : IsCopy s k c :=
  ⟨hwf k c h, fun _ h' _ => some.inj (h'.symm.trans h)⟩

theorem mono {t : CasStore κ ν φ} {k : κ} (h : IsCopy s k c)
    (hst : Evolves s t) : IsCopy t k c where
  revision_le := Nat.le_trans h.revision_le hst.revision_le
  unique c' hc' hr := by
    rcases hst.record k c' hc' with hc' | hlt
    · exact h.unique c' hc' hr
    · have := h.revision_le
      omega

/-- **Optimistic concurrency.** A store that meets the expectation "still at the
copy's revision" still holds the copy. -/
theorem record_eq_of_matches {k : κ} (h : IsCopy s k c)
    (hm : (Expected.at c.revision).matches (s.record k) = true) : s.record k = some c := by
  cases hk : s.record k with
  | none => simp [Expected.matches, hk] at hm
  | some c' =>
    have hr : c'.revision = c.revision := by simpa [Expected.matches, hk] using hm
    rw [h.unique c' hk hr]

end IsCopy

/-! ## What a commit does -/

section Commit

variable [DecidableEq κ] [DecidableEq φ]

variable {s t : CasStore κ ν φ} {ws : List (CasWrite κ ν)} {fencing : Option (φ × Nat)}
  {other : Bool}

/-- A commit that succeeds changes nothing or is one new revision. -/
theorem commit_ok_cases (h : s.commit ws fencing other = .ok t) :
    (∀ w ∈ ws, w.expected.matches (s.record w.key) = true) ∧ s.admits fencing = true ∧
    ((t = s ∧ (∀ w ∈ ws, s.applies w = false) ∧ s.advances fencing = false) ∨
      t = { revision := s.revision + 1
            record := ws.foldl (write (s.revision + 1)) s.record
            fence := raise s.fence fencing }) := by
  unfold commit at h
  split at h
  · next hall =>
    split at h
    · next hadm =>
      refine ⟨List.all_eq_true.mp hall, hadm, ?_⟩
      split at h
      · exact .inr (Except.ok.inj h).symm
      next hmut =>
      simp only [Bool.or_eq_true, not_or, Bool.not_eq_true, List.any_eq_false] at hmut
      exact .inl ⟨(Except.ok.inj h).symm, hmut.1.1, hmut.2⟩
    · cases h
  · cases h

theorem foldl_write_cases (r : Nat) (ws : List (CasWrite κ ν)) (record : κ → Option (Versioned ν))
    (k : κ) {c : Versioned ν} (h : ws.foldl (write r) record k = some c) :
    record k = some c ∨ c.revision = r := by
  induction ws generalizing record with
  | nil => exact .inl h
  | cons w ws ih =>
    rcases ih (write r record w) h with h | h
    · by_cases hk : k = w.key
      · subst hk
        rw [write, update_self, map_eq_some_iff] at h
        obtain ⟨v, -, rfl⟩ := h
        exact .inr rfl
      · rw [write, update_of_ne hk] at h
        exact .inl h
    · exact .inr h

theorem foldl_write_of_forall_ne (r : Nat) (ws : List (CasWrite κ ν))
    (record : κ → Option (Versioned ν)) {k : κ} (h : ∀ w ∈ ws, k ≠ w.key) :
    ws.foldl (write r) record k = record k := by
  induction ws generalizing record with
  | nil => rfl
  | cons w ws ih =>
    rw [foldl_cons, ih _ fun w' hw' => h w' (mem_cons_of_mem _ hw'), write,
      update_of_ne (h w mem_cons_self)]

theorem foldl_write_of_mem (r : Nat)
    (record : κ → Option (Versioned ν)) (hnd : (ws.map (·.key)).Nodup) {w : CasWrite κ ν}
    (hw : w ∈ ws) : ws.foldl (write r) record w.key = w.value.map fun v => ⟨v, r⟩ := by
  induction ws generalizing record with
  | nil => cases hw
  | cons w' ws ih =>
    rw [map_cons, nodup_cons] at hnd
    rcases mem_cons.mp hw with rfl | hw
    · have hne : ∀ w' ∈ ws, w.key ≠ w'.key := fun w' hw' hk =>
        hnd.1 (List.mem_map.mpr ⟨w', hw', hk.symm⟩)
      rw [foldl_cons, foldl_write_of_forall_ne r ws _ hne, write, update_self]
    · exact ih _ hnd.2 hw

omit [DecidableEq φ] in
theorem foldl_write_filter (s : CasStore κ ν φ) (r : Nat) {ws : List (CasWrite κ ν)}
    (hnd : (ws.map (·.key)).Nodup) :
    (ws.filter s.applies).foldl (write r) s.record = ws.foldl (write r) s.record := by
  have hsub : ((ws.filter s.applies).map (·.key)).Sublist (ws.map (·.key)) := filter_sublist.map _
  funext k
  by_cases hk : ∃ w ∈ ws, w.key = k
  · obtain ⟨w, hw, rfl⟩ := hk
    rw [foldl_write_of_mem r s.record hnd hw]
    by_cases happ : s.applies w = true
    · exact foldl_write_of_mem r s.record (hnd.sublist hsub) (mem_filter.mpr ⟨hw, happ⟩)
    have hne : ∀ w' ∈ ws.filter s.applies, w.key ≠ w'.key := fun w' hw' heq => by
      -- no key is written twice, so the write would be this one
      obtain ⟨hmem, happ'⟩ := mem_filter.mp hw'
      exact happ ((inj_on_of_nodup_map hnd hw hmem heq) ▸ happ')
    rw [applies, Bool.or_eq_true, not_or, Bool.not_eq_true, Bool.not_eq_true,
      isSome_eq_false_iff, isSome_eq_false_iff, isNone_iff_eq_none,
      isNone_iff_eq_none] at happ
    rw [foldl_write_of_forall_ne r _ _ hne, happ.1, happ.2, map_none]
  · have hne : ∀ w ∈ ws, k ≠ w.key := fun w hw heq => hk ⟨w, hw, heq.symm⟩
    rw [foldl_write_of_forall_ne r _ _ hne,
      foldl_write_of_forall_ne r _ _ fun w hw => hne w (mem_of_mem_filter hw)]

omit [DecidableEq κ] [DecidableEq φ] in
theorem fence_le_of_admits {s : CasStore κ ν φ} {f : φ} {e e' : Nat}
    (h : s.admits (some (f, e')) = true) (hf : s.fence f = some e) : e ≤ e' := by
  simpa [admits, hf] using h

theorem evolves_commit (h : s.commit ws fencing other = .ok t) : Evolves s t := by
  obtain ⟨-, hadm, ⟨rfl, -, -⟩ | rfl⟩ := commit_ok_cases h
  · exact Evolves.refl t
  · refine ⟨Nat.le_succ _, fun k c hc => ?_, fun f e hf => ?_⟩
    · rcases foldl_write_cases _ ws s.record k hc with hc | hc
      · exact .inl hc
      · exact .inr (by omega)
    · cases fencing with
      | none => exact ⟨e, hf, Nat.le_refl _⟩
      | some g =>
        by_cases hg : f = g.1
        · subst hg
          exact ⟨g.2, by simp [raise], fence_le_of_admits hadm hf⟩
        · exact ⟨e, by simpa [raise, update_of_ne hg] using hf, Nat.le_refl _⟩

theorem wellFormed_commit (hwf : s.WellFormed) (h : s.commit ws fencing other = .ok t) :
    t.WellFormed := by
  obtain ⟨-, -, ⟨rfl, -, -⟩ | rfl⟩ := commit_ok_cases h
  · exact hwf
  · intro k c hc
    rcases foldl_write_cases _ ws s.record k hc with hc | hc
    · exact Nat.le_succ_of_le (hwf k c hc)
    · exact Nat.le_of_eq hc

theorem fence_commit {f : φ} {e : Nat}
    (h : s.commit ws (some (f, e)) other = .ok t) : t.fence f = some e := by
  obtain ⟨-, hadm, ⟨rfl, -, hadv⟩ | rfl⟩ := commit_ok_cases h
  · cases hf : t.fence f with
    | none => simp [advances, hf] at hadv
    | some e' =>
      have h₁ : e' ≤ e := fence_le_of_admits hadm hf
      have h₂ : ¬ e' < e := by simpa [advances, hf] using hadv
      exact congrArg some (by omega)
  · simp [raise]

/-- One conditional put writes the value at the next revision, and no other key. -/
theorem commit_put {k : κ} {v : ν} {e : Expected}
    (h : s.commit [⟨k, some v, e⟩] fencing other = .ok t) :
    e.matches (s.record k) = true ∧ s.admits fencing = true ∧
      t.record = Function.update s.record k (some ⟨v, s.revision + 1⟩) := by
  obtain ⟨hm, hadm, ⟨-, happ, -⟩ | rfl⟩ := commit_ok_cases h
  · have := happ _ mem_cons_self
    simp [applies] at this
  · exact ⟨hm _ mem_cons_self, hadm, rfl⟩

/-- **Read, compute, commit.** A put conditional on the revision of a copy
replaces exactly that copy. -/
theorem commit_put_of_isCopy {k : κ} {v : ν} {c : Versioned ν} (hc : IsCopy s k c)
    (h : s.commit [⟨k, some v, .at c.revision⟩] fencing other = .ok t) :
    s.record k = some c ∧ t.record = Function.update s.record k (some ⟨v, s.revision + 1⟩) := by
  obtain ⟨hm, -, ht⟩ := commit_put h
  exact ⟨hc.record_eq_of_matches hm, ht⟩

end Commit

end CasStore

end TegoNext
