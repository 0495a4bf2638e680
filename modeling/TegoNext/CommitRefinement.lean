/-
The commit of a memory store, and the abstract commit it refines.

`applyMutations` walks the staged mutations, checking as it goes against records from which earlier
deletions are already gone, and `publish` puts the rest afterwards. A key is staged at most once, so
none of this order is visible: `commit_refines`.
-/
import TegoNext.MemoryStateStore
import TegoNext.CasStore

set_option autoImplicit false

namespace TegoNext

open List Function Except AList

namespace MemoryStateStore

variable {V : Type}

/-- A staged mutation with the key it is staged under. -/
abbrev Entry (V : Type) : Type := Sigma fun _ : StateKey => Mutation V

/-! ## The loop over the mutations -/

/-- Does a mutation change anything in these records? -/
def entryApplies (records : Records V) (entry : Entry V) : Bool :=
  match entry.2 with
  | .put _ _ => true
  | .delete _ => (records.lookup entry.1).isSome

/-- What the loop has done to the record of a key it has visited. -/
def afterDeletes (records : Records V) (entry : Entry V) : Option (StoredRecord V) :=
  match entry.2 with
  | .put _ _ => records.lookup entry.1
  | .delete _ => none

variable {records next : Records V} {app : List (Entry V)} {entry : Entry V}

theorem applyMutations_cons {applied : List (Entry V)}
    {rest : List (Entry V)}
    (h : applyMutations records applied (entry :: rest) = .ok (next, app)) :
    matchesExpectedRevision (records.lookup entry.1) entry.2.expectedRevision = true ∧
    ∃ records', applyMutations records'
        (if entryApplies records entry then applied ++ [entry] else applied) rest = .ok (next, app) ∧
      records'.lookup entry.1 = afterDeletes records entry ∧
      ∀ k, k ≠ entry.1 → records'.lookup k = records.lookup k := by
  obtain ⟨key, mutation⟩ := entry
  unfold applyMutations at h
  dsimp only at h
  split at h
  · next hmatch =>
    refine ⟨hmatch, ?_⟩
    cases mutation with
    | put value expected => exact ⟨records, h, rfl, fun _ _ => rfl⟩
    | delete expected =>
      dsimp only at h
      split at h
      · next hsome =>
        have happ : entryApplies records ⟨key, .delete expected⟩ = true := hsome
        exact ⟨records.erase key, by rwa [if_pos happ], lookup_erase key records,
          fun k hk => lookup_erase_ne hk⟩
      · next hnone =>
        have happ : ¬ entryApplies records ⟨key, .delete expected⟩ = true := hnone
        refine ⟨records, by rwa [if_neg happ], ?_, fun _ _ => rfl⟩
        rwa [Option.not_isSome_iff_eq_none] at hnone
  · cases h

abbrev entryKeys (entries : List (Entry V)) : List StateKey := entries.map (·.1)

variable {entries : List (Entry V)}

/-- **The loop, as a whole**, over mutations of distinct keys. -/
theorem applyMutations_spec {applied : List (Entry V)}
    (hnd : (entryKeys entries).Nodup) (h : applyMutations records applied entries = .ok (next, app)) :
    (∀ entry ∈ entries,
      matchesExpectedRevision (records.lookup entry.1) entry.2.expectedRevision = true) ∧
    app = applied ++ entries.filter (entryApplies records) ∧
    (∀ entry ∈ entries, next.lookup entry.1 = afterDeletes records entry) ∧
    ∀ k, k ∉ entryKeys entries → next.lookup k = records.lookup k := by
  induction entries generalizing records applied with
  | nil =>
    obtain ⟨rfl, rfl⟩ := Prod.mk.inj (ok.inj h)
    simp
  | cons entry rest ih =>
    obtain ⟨hmatch, records', hrest, hkey, hother⟩ := applyMutations_cons h
    rw [entryKeys, map_cons, nodup_cons] at hnd
    obtain ⟨ih₁, ih₂, ih₃, ih₄⟩ := ih hnd.2 hrest
    have hsame : ∀ e ∈ rest, records'.lookup e.1 = records.lookup e.1 := fun e he =>
      hother e.1 fun hk => hnd.1 (mem_map.mpr ⟨e, he, hk⟩)
    have hafter : ∀ e ∈ rest, afterDeletes records' e = afterDeletes records e := fun e he => by
      unfold afterDeletes
      rw [hsame e he]
    have happlies : rest.filter (entryApplies records') = rest.filter (entryApplies records) :=
      filter_congr fun e he => by
        unfold entryApplies
        rw [hsame e he]
    refine ⟨?_, ?_, ?_, ?_⟩
    · intro e he
      rcases mem_cons.mp he with rfl | he
      · exact hmatch
      · rw [← hsame e he]
        exact ih₁ e he
    · rw [ih₂, happlies, filter_cons]
      split <;> simp
    · intro e he
      rcases mem_cons.mp he with rfl | he
      · rw [ih₄ e.1 hnd.1, hkey]
      · rw [ih₃ e he, hafter e he]
    · intro k hk
      rw [entryKeys, map_cons, mem_cons, not_or] at hk
      rw [ih₄ k hk.2, hother k hk.1]

/-! ## The puts of a commit -/

theorem lookup_putRecord_of_ne {r : Revision}
    {k : StateKey} (h : k ≠ entry.1) : (putRecord r records entry).lookup k = records.lookup k := by
  unfold putRecord
  split
  · exact lookup_insert_ne h
  · rfl

theorem lookup_foldl_putRecord_of_notMem {r : Revision}
    {k : StateKey} (h : k ∉ entryKeys entries) :
    (entries.foldl (putRecord r) records).lookup k = records.lookup k := by
  induction entries generalizing records with
  | nil => rfl
  | cons entry rest ih =>
    rw [entryKeys, map_cons, mem_cons, not_or] at h
    rw [foldl_cons, ih h.2, lookup_putRecord_of_ne h.1]

/-- The record a mutation leaves under its key. -/
def written (r : Revision) (entry : Entry V) : Option (StoredRecord V) :=
  match entry.2 with
  | .put value _ => some ⟨value, r⟩
  | .delete _ => none

theorem lookup_foldl_putRecord_of_mem {r : Revision} (hnd : (entryKeys entries).Nodup)
    (he : entry ∈ entries) :
    (entries.foldl (putRecord r) records).lookup entry.1 =
      (written r entry).or (records.lookup entry.1) := by
  induction entries generalizing records with
  | nil => cases he
  | cons e rest ih =>
    rw [entryKeys, map_cons, nodup_cons] at hnd
    rw [foldl_cons]
    rcases mem_cons.mp he with rfl | he
    · rw [lookup_foldl_putRecord_of_notMem hnd.1]
      obtain ⟨key, mutation⟩ := entry
      cases mutation with
      | put value expected => exact lookup_insert records
      | delete expected => rfl
    · have hne : entry.1 ≠ e.1 := fun hk => hnd.1 (mem_map.mpr ⟨entry, he, hk⟩)
      rw [ih hnd.2 he, lookup_putRecord_of_ne hne]

theorem lookup_published {r : Revision} {records next : Records V} {app entries : List (Entry V)}
    (hnd : (entryKeys entries).Nodup) (h : applyMutations records [] entries = .ok (next, app)) :
    (∀ entry ∈ entries, (app.foldl (putRecord r) next).lookup entry.1 = written r entry) ∧
    ∀ k, k ∉ entryKeys entries → (app.foldl (putRecord r) next).lookup k = records.lookup k := by
  obtain ⟨-, happ, hafter, hother⟩ := applyMutations_spec hnd h
  rw [nil_append] at happ
  have hsub : (entryKeys app).Sublist (entryKeys entries) := by
    rw [happ]
    exact filter_sublist.map _
  refine ⟨fun entry he => ?_, fun k hk => ?_⟩
  · by_cases hin : entryApplies records entry = true
    · have hmem : entry ∈ app := by
        rw [happ]
        exact mem_filter.mpr ⟨he, hin⟩
      rw [lookup_foldl_putRecord_of_mem (hnd.sublist hsub) hmem, hafter entry he]
      unfold written afterDeletes
      split <;> rfl
    · have hnot : entry.1 ∉ entryKeys app := by
        -- the key is staged once, and its mutation was filtered out
        intro hmem
        obtain ⟨e, he', hk⟩ := mem_map.mp hmem
        rw [happ, mem_filter] at he'
        have : e = entry := inj_on_of_nodup_map hnd he'.1 he hk
        exact hin (this ▸ he'.2)
      rw [lookup_foldl_putRecord_of_notMem hnot, hafter entry he]
      obtain ⟨key, mutation⟩ := entry
      cases mutation with
      | put value expected => exact absurd rfl hin
      | delete expected => rfl
  · have hnot : k ∉ entryKeys app := fun hmem => hk (hsub.subset hmem)
    rw [lookup_foldl_putRecord_of_notMem hnot, hother k hk]

/-! ## The commit -/

section Commit

variable [WireValue V]

theorem commit_ok {store store' : MemoryStateStore V} {fencing : Option StateFencing}
    {identity : Option IdempotencyIdentity} {staged : StagedTransaction V} {result : V}
    (h : store.commit fencing identity staged result = .ok store') :
    store.lifecycle = .open ∧
    ∃ next applied newOutbox advancesFence,
      applyMutations store.records [] staged.mutations = .ok (next, applied) ∧
      stageOutbox store.outbox [] staged.outbox = .ok newOutbox ∧
      store.assertFence fencing = .ok advancesFence ∧
      store' =
        (if !applied.isEmpty || !staged.operations.isEmpty || !newOutbox.isEmpty || advancesFence then
          store.publish next applied staged.operations newOutbox fencing advancesFence
        else store).remember identity result := by
  unfold commit at h
  simp only [bind, Except.bind] at h
  unfold assertOpen at h
  split at h
  · cases h
  next hopen =>
  split at hopen
  · next hlife =>
    refine ⟨hlife, ?_⟩
    split at h
    · cases h
    next pair hpair =>
    split at h
    · cases h
    next newOutbox hout =>
    split at h
    · cases h
    next advances hfence =>
    exact ⟨pair.1, pair.2, newOutbox, advances, hpair, hout, hfence, (ok.inj h).symm⟩
  · cases hopen

end Commit

/-! ## The abstract store -/

/-- What a transaction expects, abstractly. -/
def toExpected : ExpectedRevision → Expected
  | .undefined => .any
  | .absent => .absent
  | .revision r => .at r

def toVersioned (record : StoredRecord V) : Versioned V := ⟨record.value, record.revision⟩

def toWrite (entry : Entry V) : CasWrite StateKey V where
  key := entry.1
  value := match entry.2 with
    | .put value _ => some value
    | .delete _ => none
  expected := toExpected entry.2.expectedRevision

def toFence (fencing : StateFencing) : JsString × Nat := (fencing.resource, fencing.epoch)

/-- Records and fences are all the abstract store knows. -/
def abs (store : MemoryStateStore V) : CasStore StateKey V JsString where
  revision := store.revision
  record k := (store.records.lookup k).map toVersioned
  fence resource := store.fences.lookup resource

theorem matches_toExpected (expected : ExpectedRevision) (record : Option (StoredRecord V)) :
    (toExpected expected).matches (record.map toVersioned) =
      matchesExpectedRevision record expected := by
  cases expected <;> cases record <;> rfl

theorem applies_toWrite (store : MemoryStateStore V) (entry : Entry V) :
    store.abs.applies (toWrite entry) = entryApplies store.records entry := by
  obtain ⟨key, mutation⟩ := entry
  cases mutation <;> simp [CasStore.applies, toWrite, entryApplies, abs]

variable {store : MemoryStateStore V} {fencing : Option StateFencing}

theorem assertFence_ok {advances : Bool} (h : store.assertFence fencing = .ok advances) :
    store.abs.admits (fencing.map toFence) = true ∧
      store.abs.advances (fencing.map toFence) = advances := by
  cases fencing with
  | none => exact ⟨rfl, ok.inj h⟩
  | some fencing =>
    simp only [assertFence] at h
    cases hf : store.fences.lookup fencing.resource with
    | none =>
      rw [hf] at h
      simpa [CasStore.admits, CasStore.advances, abs, toFence, hf] using ok.inj h
    | some current =>
      rw [hf] at h
      dsimp only at h
      split at h
      · cases h
      next hlt =>
      have hle : current ≤ fencing.epoch := Nat.le_of_not_lt hlt
      simpa [CasStore.admits, CasStore.advances, abs, toFence, hf, hle] using ok.inj h

theorem raise_abs_fence
    {advances : Bool} (h : store.assertFence fencing = .ok advances) (resource : JsString) :
    CasStore.raise store.abs.fence (fencing.map toFence) resource =
      (if advances then (store.advanceFence fencing).fences else store.fences).lookup resource := by
  obtain ⟨hadmits, hadvances⟩ := assertFence_ok h
  cases fencing with
  | none => cases advances <;> rfl
  | some fencing =>
    by_cases hr : resource = fencing.resource
    · subst hr
      have hraise : CasStore.raise store.abs.fence (some (toFence fencing)) fencing.resource =
          some fencing.epoch := update_self ..
      rw [Option.map_some, hraise]
      cases advances with
      | true => exact (lookup_insert store.fences).symm
      | false =>
        cases hf : store.fences.lookup fencing.resource with
        | none => simp [CasStore.advances, abs, toFence, hf] at hadvances
        | some current =>
          have h₁ : current ≤ fencing.epoch := by
            simpa [CasStore.admits, abs, toFence, hf] using hadmits
          have h₂ : fencing.epoch ≤ current := by
            simpa [CasStore.advances, abs, toFence, hf] using hadvances
          simp [hf, Nat.le_antisymm h₁ h₂]
    · have hraise : CasStore.raise store.abs.fence (some (toFence fencing)) resource =
          store.fences.lookup resource := update_of_ne hr ..
      rw [Option.map_some, hraise]
      cases advances with
      | true => exact (lookup_insert_ne hr).symm
      | false => rfl

theorem toWrite_keys (entries : List (Entry V)) :
    (entries.map toWrite).map (·.key) = entryKeys entries := by
  simp [entryKeys, toWrite, comp_def]

/-- The records of a commit are the abstract writes, applied one after the
other. -/
theorem foldl_write_abs (hnd : (entryKeys entries).Nodup)
    (h : applyMutations store.records [] entries = .ok (next, app)) (r : Revision) :
    (entries.map toWrite).foldl (CasStore.write r) store.abs.record =
      fun k => ((app.foldl (putRecord r) next).lookup k).map toVersioned := by
  obtain ⟨hin, hout⟩ := lookup_published (r := r) hnd h
  funext k
  by_cases hk : k ∈ entryKeys entries
  · obtain ⟨entry, he, rfl⟩ := mem_map.mp hk
    have hw := CasStore.foldl_write_of_mem r store.abs.record
      ((toWrite_keys entries).symm ▸ hnd) (mem_map_of_mem he)
    rw [hin entry he]
    refine hw.trans ?_
    obtain ⟨key, mutation⟩ := entry
    cases mutation <;> rfl
  · have hne : ∀ w ∈ entries.map toWrite, k ≠ w.key := by
      intro w hw hkw
      refine hk ?_
      rw [← toWrite_keys entries, hkw]
      exact mem_map_of_mem hw
    rw [CasStore.foldl_write_of_forall_ne r _ _ hne, hout k hk]
    rfl

/-- **A commit of the memory store is a commit of the abstract store.** `other` says whether
journal entries or outbox messages make it a change even when no mutation applies. -/
theorem commit_refines [WireValue V] {store' : MemoryStateStore V}
    {identity : Option IdempotencyIdentity}
    {staged : StagedTransaction V} {result : V} (hnd : (entryKeys staged.mutations).Nodup)
    (h : store.commit fencing identity staged result = .ok store') :
    ∃ other, store.abs.commit (staged.mutations.map toWrite) (fencing.map toFence) other =
      .ok store'.abs := by
  obtain ⟨-, next, app, newOutbox, advances, hmut, -, hfence, rfl⟩ := commit_ok h
  obtain ⟨hadmits, hadvances⟩ := assertFence_ok hfence
  obtain ⟨hmatch, happ, -, -⟩ := applyMutations_spec hnd hmut
  rw [nil_append] at happ
  refine ⟨!staged.operations.isEmpty || !newOutbox.isEmpty, ?_⟩
  have hall : (staged.mutations.map toWrite).all
      (fun w => w.expected.matches (store.abs.record w.key)) = true := by
    rw [all_map, all_eq_true]
    intro entry he
    exact (matches_toExpected _ _).trans (hmatch entry he)
  have hany : (staged.mutations.map toWrite).any store.abs.applies = !app.isEmpty := by
    rw [any_map, happ, Bool.eq_iff_iff]
    simp [comp_def, applies_toWrite, filter_eq_nil_iff]
  have hrecord := foldl_write_abs hnd hmut (store.revision + 1)
  have hraise : CasStore.raise store.abs.fence (fencing.map toFence) = fun resource =>
      (if advances then (store.advanceFence fencing).fences else store.fences).lookup resource :=
    funext (raise_abs_fence hfence)
  rw [CasStore.commit, if_pos hall, if_pos hadmits, hany, hadvances, ← Bool.or_assoc]
  by_cases hmutates : (!app.isEmpty || !staged.operations.isEmpty || !newOutbox.isEmpty ||
      advances) = true
  · rw [if_pos hmutates, if_pos hmutates, hraise]
    simp only [abs, remember_records, remember_fences, remember_revision, publish]
    exact congrArg (fun record => Except.ok (CasStore.mk (store.revision + 1) record _)) hrecord
  · rw [if_neg hmutates, if_neg hmutates]
    simp [abs]

end MemoryStateStore

end TegoNext
