/-
The memory store, over whole runs, as the abstract store of versioned records.

A commit is an abstract commit of its staged writes, a claim or an acknowledgement one without
writes, and every other step leaves the abstract store alone. What a run logs is newer than the
store it starts with.
-/
import TegoNext.StateWatch
import TegoNext.ExpectedRevisions

set_option autoImplicit false

namespace TegoNext

open MemoryStateStore List Option Relation

namespace CasStore

variable {κ ν φ : Type} [DecidableEq κ] [DecidableEq φ] {s t : CasStore κ ν φ}

/-- Any number of commits that succeed. -/
def Commits : CasStore κ ν φ → CasStore κ ν φ → Prop :=
  ReflTransGen fun s t => ∃ ws fencing other, s.commit ws fencing other = .ok t

theorem Commits.evolves (h : s.Commits t) : Evolves s t := by
  induction h with
  | refl => exact .refl s
  | tail _ hstep ih =>
    obtain ⟨ws, fencing, other, hcommit⟩ := hstep
    exact ih.trans (evolves_commit hcommit)

end CasStore

variable {V : Type}

namespace MemoryStateStore

variable {store store' store'' : MemoryStateStore V} {fencing : Option StateFencing}

theorem abs_of_same (h : store.SameState store') : store'.abs = store.abs := by
  simp only [abs, h.records, h.fences, h.revision]

theorem wellFormed_of_logInv (h : LogInv store) : store.abs.WellFormed := by
  intro key v hv
  rw [← h.replay] at hv
  rcases LogInv.mem_of_replay hv with hnone | ⟨c, hc, -, hrevision, -⟩
  · cases hnone
  · exact hrevision ▸ h.below c hc

theorem fence_advanceFence (store : MemoryStateStore V) (fencing : Option StateFencing) :
    (store.advanceFence fencing).abs.fence =
      CasStore.raise store.abs.fence (fencing.map toFence) := by
  cases fencing with
  | none => rfl
  | some fencing =>
    have hraise : CasStore.raise store.abs.fence (some (toFence fencing)) =
        Function.update store.abs.fence fencing.resource (some fencing.epoch) := rfl
    rw [Option.map_some, hraise]
    funext resource
    by_cases hr : resource = fencing.resource
    · rw [hr, Function.update_self]
      exact AList.lookup_insert _
    · rw [Function.update_of_ne hr]
      exact AList.lookup_insert_ne hr

/-! ## The jobs of the outbox -/

/-- **A commit without writes**, under an epoch the fence admits. -/
theorem commits_outbox {advances : Bool} (h : store.assertFence fencing = .ok advances)
    (hrecords : store'.records = store.records) (hrevision : store'.revision = store.revision + 1)
    (hfence : store'.abs.fence = CasStore.raise store.abs.fence (fencing.map toFence)) :
    store.abs.Commits store'.abs := by
  have hstore' : store'.abs = ⟨store.abs.revision + 1, store.abs.record,
      CasStore.raise store.abs.fence (fencing.map toFence)⟩ := by
    rw [← hfence]
    simp only [abs, hrecords, hrevision]
  refine .single ⟨[], fencing.map toFence, true, ?_⟩
  simp [CasStore.commit, (assertFence_ok h).1, hstore']

theorem commits_claimOutbox (store : MemoryStateStore V) (request : OutboxClaimRequest)
    (limit : Nat) (now : JsDate.Instant) :
    store.abs.Commits (store.claimOutbox request limit now).2.1.abs := by
  unfold claimOutbox
  split
  · exact .refl
  split
  · exact .refl
  next advances hfence =>
  dsimp only
  split
  · exact .refl
  split
  · refine commits_outbox hfence ?_ ?_ (fence_advanceFence _ _) <;> cases request.fencing <;> rfl
  · exact .refl

theorem commits_acknowledgeOutbox (store : MemoryStateStore V)
    (request : OutboxAcknowledgementRequest) (now : JsDate.Instant) :
    store.abs.Commits (store.acknowledgeOutbox request now).2.abs := by
  unfold acknowledgeOutbox
  split
  · exact .refl
  split
  · exact .refl
  next advances hfence =>
  split
  · exact .refl
  split
  · split
    · exact .refl
    split
    · refine commits_outbox hfence ?_ ?_ (fence_advanceFence _ _) <;> cases request.fencing <;> rfl
    · exact .refl
  split
  · exact .refl
  split
  · dsimp only
    refine commits_outbox hfence ?_ ?_ ?_
    · split <;> cases request.fencing <;> rfl
    · split <;> cases request.fencing <;> rfl
    · -- an epoch that does not advance the fence is the one the fence has
      refine Eq.trans ?_ (funext (raise_abs_fence hfence)).symm
      split <;> cases request.fencing <;> rfl
  · exact .refl

/-- What a run does to the store: commits, and changes logged at later revisions. -/
structure LeadsTo (store store' : MemoryStateStore V) : Prop where
  commits : store.abs.Commits store'.abs
  revision : store.revision ≤ store'.revision
  logged : ∃ logged, store'.changes = store.changes ++ logged ∧
    ∀ c ∈ logged, store.revision < c.revision

theorem LeadsTo.trans (h : LeadsTo store store') (h' : LeadsTo store' store'') :
    LeadsTo store store'' := by
  obtain ⟨logged, hchanges, hnew⟩ := h.logged
  obtain ⟨logged', hchanges', hnew'⟩ := h'.logged
  refine ⟨h.commits.trans h'.commits, h.revision.trans h'.revision, logged ++ logged', ?_, ?_⟩
  · rw [hchanges', hchanges, append_assoc]
  · exact forall_mem_append.mpr ⟨hnew, fun c hc => Nat.lt_of_le_of_lt h.revision (hnew' c hc)⟩

end MemoryStateStore

/-! ## Steps and runs -/

namespace StoreWorld

variable [WireValue V] {w w' : StoreWorld V}

theorem commits_runJob {now : JsDate.Instant} {job : StoreJob V}
    (hjob : ∀ call issued staged result, job = .commit call issued staged result →
      (entryKeys staged.mutations).Nodup) (hs : w.runJob now job = some w') :
    w.store.abs.Commits w'.store.abs := by
  cases job with
  | commit i issued staged result =>
    obtain ⟨call, phase, -, rfl | ⟨store, hstore, rfl⟩⟩ := commitJob_cases hs
    · exact .refl
    · obtain ⟨other, hcommit⟩ := commit_refines (hjob _ _ _ _ rfl) hstore
      exact .single ⟨_, _, other, hcommit⟩
  | claim request limit =>
    cases hs
    exact commits_claimOutbox ..
  | acknowledge request =>
    cases hs
    exact commits_acknowledgeOutbox ..

theorem leadsTo_step {e : StoreEvent V} (h : w.StagesOnce) (hs : w.step e = some w') :
    LeadsTo w.store w'.store := by
  obtain ⟨logged, hchanges, hrevision, hlogged⟩ :=
    WatchedStore.logged_of_logStep (logStep_step h hs).1
  refine ⟨?_, hrevision, logged, hchanges, fun c hc => (hlogged c hc).1⟩
  by_cases hturn : ∃ now, e = .turn now
  · obtain ⟨now, rfl⟩ := hturn
    obtain ⟨job, jobs, hjobs, hrun⟩ := turn_cases hs
    refine commits_runJob (w := { w with jobs }) (fun call issued staged result hjob => ?_) hrun
    exact h call issued staged result (hjobs ▸ hjob ▸ mem_cons_self)
  · rw [abs_of_same (rests_step hs (not_exists.mp hturn)).store]
    exact .refl

theorem leadsTo_run {es : List (StoreEvent V)} (h : w.StagesOnce)
    (hrun : (machine V).run w es = some w') : LeadsTo w.store w'.store := by
  induction es generalizing w with
  | nil =>
    cases hrun
    exact ⟨.refl, le_rfl, [], (append_nil _).symm, fun c hc => absurd hc not_mem_nil⟩
  | cons e es ih =>
    obtain ⟨w₁, hs, hrun⟩ := bind_eq_some_iff.mp hrun
    exact (leadsTo_step h hs).trans (ih (logStep_step h hs).2 hrun)

theorem log_of_reachable (hr : (machine V).Reachable w) : w.StagesOnce ∧ LogInv w.store := by
  refine hr.invariant (I := fun w => w.StagesOnce ∧ LogInv w.store) ?_
    fun _ _ _ _ h hs _ => ⟨(logStep_step h.1 hs).2, h.2.step (logStep_step h.1 hs).1⟩
  rintro w rfl
  exact ⟨fun _ _ _ _ hmem => absurd hmem not_mem_nil, .new⟩

/-- **The memory store refines the abstract one**: what a run does to it is a sequence of abstract
commits, and a record read before the run is still there if one of its revision is. -/
theorem store_refines {es : List (StoreEvent V)} (hr : (machine V).Reachable w)
    (hrun : (machine V).run w es = some w') :
    w.store.abs.Commits w'.store.abs ∧
    ∀ key record, w.store.records.lookup key = some record →
      matchesExpectedRevision (w'.store.records.lookup key) (.revision record.revision) = true →
      w'.store.records.lookup key = some record := by
  obtain ⟨hstages, hlog⟩ := log_of_reachable hr
  have hcommits := (leadsTo_run hstages hrun).commits
  refine ⟨hcommits, fun key record hrecord hmatch => ?_⟩
  have hcopy := (CasStore.IsCopy.of_record (wellFormed_of_logInv hlog)
    (map_eq_some_iff.mpr ⟨_, hrecord, rfl⟩)).mono hcommits.evolves
  rw [← matches_toExpected] at hmatch
  obtain ⟨⟨value, revision⟩, hfound, heq⟩ :=
    map_eq_some_iff.mp (hcopy.record_eq_of_matches hmatch)
  cases heq
  exact hfound

/-- **A snapshot catches up**: the changes after its revision lead from its records to those of
the store, whatever the run in between has done. -/
theorem snapshot_catches_up {es : List (StoreEvent V)} (hr : (machine V).Reachable w)
    (hrun : (machine V).run w es = some w') :
    (changesAfter w.store.revision w'.store.changes).foldl applyChange w.store.abs.record =
      w'.store.abs.record := by
  obtain ⟨hstages, hlog⟩ := log_of_reachable hr
  obtain ⟨-, -, logged, hchanges, hnew⟩ := leadsTo_run hstages hrun
  have hold : changesAfter w.store.revision w.store.changes = [] :=
    filter_eq_nil_iff.mpr fun c hc => by simpa using hlog.below c hc
  rw [hchanges, WatchedStore.changesAfter_append le_rfl hnew, hold, nil_append, ← hlog.replay,
    ← (log_of_reachable (hr.of_run hrun)).2.replay, replayChanges, replayChanges, hchanges,
    foldl_append]

/-! ## A record created and replaced -/

theorem run_replaceRun : ∃ w w' : StoreWorld Unit, (machine Unit).Reachable w ∧
    (machine Unit).run w (replaceRun.drop 5) = some w' := by
  have hrun : (((machine Unit).run initial (replaceRun.take 5)).bind fun w =>
      (machine Unit).run w (replaceRun.drop 5)).isSome = true := by decide +kernel
  obtain ⟨w', hw'⟩ := isSome_iff_exists.mp hrun
  obtain ⟨w, hw, hw'⟩ := bind_eq_some_iff.mp hw'
  exact ⟨w, w', .of_init_run rfl hw, hw'⟩

theorem store_refines_replaceRun : ∃ w w' : StoreWorld Unit,
    (machine Unit).run w (replaceRun.drop 5) = some w' ∧ w.store.abs.Commits w'.store.abs := by
  obtain ⟨w, w', hw, hw'⟩ := run_replaceRun
  exact ⟨w, w', hw', (store_refines hw hw').1⟩

theorem snapshot_catches_up_replaceRun : ∃ w w' : StoreWorld Unit,
    (machine Unit).run w (replaceRun.drop 5) = some w' ∧
    (changesAfter w.store.revision w'.store.changes).foldl applyChange w.store.abs.record =
      w'.store.abs.record := by
  obtain ⟨w, w', hw, hw'⟩ := run_replaceRun
  exact ⟨w, w', hw', snapshot_catches_up hw hw'⟩

end StoreWorld

end TegoNext
