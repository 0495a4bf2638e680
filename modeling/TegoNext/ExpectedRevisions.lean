/-
Compare-and-set, over whole runs of the memory store.

A transaction validates, at its commit point, the mutations it has staged, one per key: what is
validated for a key is the expectation of the *last* call on it. As long as no call replaces a
staged expectation by a different one, each is still staged when the transaction commits;
`laterCall_drops_expectation` is a run in which one does.
-/
import TegoNext.StoreWorld
import TegoNext.CommitRefinement

set_option autoImplicit false

namespace TegoNext

open MemoryStateStore List Option AList

variable {V : Type}

/-! ## The law -/

/-- The compare-and-set law: every expectation a `put` or `delete` carried was met
by the records before the commit, and no key changed that none of them named. -/
def CommitRecord.MeetsExpectations (c : CommitRecord V) : Prop :=
  (∀ call ∈ c.issued, matchesExpectedRevision (c.before.lookup call.1) call.2 = true) ∧
  ∀ key, c.after.lookup key ≠ c.before.lookup key → ∃ expected, (key, expected) ∈ c.issued

def StoreWorld.stagedExpectation (w : StoreWorld V) (i : Nat) (key : StateKey) : ExpectedRevision :=
  ((w.calls[i]?.bind fun call => call.tx.mutations.lookup key).map
    (·.expectedRevision)).getD .undefined

/-- No call replaces a staged expectation by a different one. -/
def StoreWorld.keepsExpectation (w : StoreWorld V) : StoreEvent V → Bool
  | .put i key _ expected =>
    w.stagedExpectation i key == .undefined || w.stagedExpectation i key == expected
  | .delete i key expected =>
    w.stagedExpectation i key == .undefined || w.stagedExpectation i key == expected
  | _ => true

/-! ## Expectations on their way to the commit -/

/-- Mutations `staged` carry every expectation of `issued`, and nothing that was
not issued. -/
structure Carries (issued : List (StateKey × ExpectedRevision))
    (staged : StateKey → Option (Mutation V)) : Prop where
  expectation : ∀ p ∈ issued, p.2 = .undefined ∨
    ∃ mutation, staged p.1 = some mutation ∧ mutation.expectedRevision = p.2
  key : ∀ key mutation, staged key = some mutation → ∃ expected, (key, expected) ∈ issued

def TransactCall.Tracks (call : TransactCall V) : Prop :=
  Carries call.issued fun key => call.tx.mutations.lookup key

/-- The expectations of a queued commit are those of its staged mutations. -/
def StoreJob.Tracks : StoreJob V → Prop
  | .commit _ issued staged _ => ∃ tx : MemoryTransaction V,
      staged.mutations = tx.sortedMutations ∧ Carries issued fun key => tx.mutations.lookup key
  | _ => True

structure StoreWorld.Tracks (w : StoreWorld V) : Prop where
  calls : ∀ call ∈ w.calls, call.Tracks
  jobs : ∀ job ∈ w.jobs, job.Tracks
  commits : ∀ c ∈ w.commits, c.MeetsExpectations

namespace Carries

theorem empty : Carries (V := V) [] fun key => (∅ : AList fun _ => Mutation V).lookup key :=
  ⟨fun _ h => absurd h not_mem_nil, fun key mutation h => by simp at h⟩

/-- A call on a key whose staged expectation is none, or the same, adds its own
and loses none. -/
theorem stage {issued : List (StateKey × ExpectedRevision)}
    {mutations : AList fun _ : StateKey => Mutation V}
    (h : Carries issued fun key => mutations.lookup key) {key : StateKey} {mutation : Mutation V}
    (hkeep : ∀ old, mutations.lookup key = some old →
      old.expectedRevision = .undefined ∨ old.expectedRevision = mutation.expectedRevision) :
    Carries (issued ++ [(key, mutation.expectedRevision)])
      fun k => (mutations.insert key mutation).lookup k := by
  refine ⟨fun p hp => ?_, fun k m hm => ?_⟩
  · rcases mem_append.mp hp with hp | hp
    · rcases h.expectation p hp with hu | ⟨old, hold, he⟩
      · exact .inl hu
      · by_cases hk : p.1 = key
        · rw [hk] at hold
          rcases hkeep old hold with hu | hsame
          · exact .inl (he ▸ hu)
          · exact .inr ⟨mutation, by rw [hk, lookup_insert], hsame ▸ he⟩
        · exact .inr ⟨old, by rw [lookup_insert_ne hk, hold], he⟩
    · rw [mem_singleton] at hp
      subst hp
      exact .inr ⟨mutation, lookup_insert _, rfl⟩
  · by_cases hk : k = key
    · exact ⟨mutation.expectedRevision, by simp [hk]⟩
    · rw [lookup_insert_ne hk] at hm
      obtain ⟨expected, hmem⟩ := h.key k m hm
      exact ⟨expected, mem_append_left _ hmem⟩

end Carries

/-- **The commit point.** A commit whose staged mutations carry the issued
expectations meets all of them. -/
theorem meetsExpectations_of_commit [WireValue V] {store store' : MemoryStateStore V}
    {fencing : Option StateFencing} {identity : Option IdempotencyIdentity}
    {staged : StagedTransaction V} {result : V} {tx : MemoryTransaction V}
    {issued : List (StateKey × ExpectedRevision)} (call : Nat)
    (hstaged : staged.mutations = tx.sortedMutations)
    (hcarries : Carries issued fun key => tx.mutations.lookup key)
    (h : store.commit fencing identity staged result = .ok store') :
    (CommitRecord.mk call issued store.records store'.records).MeetsExpectations := by
  have hnd : (entryKeys staged.mutations).Nodup := hstaged ▸ tx.nodupKeys_sortedMutations
  obtain ⟨-, next, app, newOutbox, advances, hmut, -, -, rfl⟩ := commit_ok h
  obtain ⟨hmatch, happ, -, -⟩ := applyMutations_spec hnd hmut
  refine ⟨fun p hp => ?_, fun key hkey => ?_⟩
  · rcases hcarries.expectation p hp with hu | ⟨mutation, hm, he⟩
    · rw [hu]
      rfl
    · rw [← he]
      exact hmatch ⟨p.1, mutation⟩ (hstaged ▸ MemoryTransaction.mem_sortedMutations.mpr hm)
  · by_contra hnone
    refine hkey ?_
    have hout : key ∉ entryKeys staged.mutations := by
      intro hin
      obtain ⟨entry, he, rfl⟩ := List.mem_map.mp hin
      rw [hstaged] at he
      exact hnone (hcarries.key _ _ (MemoryTransaction.mem_sortedMutations.mp he))
    rw [remember_records]
    split
    · exact (lookup_published hnd hmut).2 key hout
    · rfl

/-! ## The invariant -/

namespace StoreWorld

variable {w : StoreWorld V}

theorem tracks_setCall {i : Nat} {call : TransactCall V} (h : w.Tracks)
    (hcall : call.Tracks) : (w.setCall i call).Tracks where
  calls c hc := by
    rcases mem_or_eq_of_mem_set hc with hc | rfl
    · exact h.calls c hc
    · exact hcall
  jobs := h.jobs
  commits := h.commits

theorem tracks_addJob {job : StoreJob V} (h : w.Tracks) (hjob : job.Tracks) :
    ({ w with jobs := w.jobs ++ [job] } : StoreWorld V).Tracks where
  calls := h.calls
  jobs j hj := by
    rcases mem_append.mp hj with hj | hj
    · exact h.jobs j hj
    · exact mem_singleton.mp hj ▸ hjob
  commits := h.commits

/-- A `put` or `delete` that keeps the staged expectation. -/
theorem tracks_stage {w' : StoreWorld V} {i : Nat} {key : StateKey} (mutation : Mutation V)
    (h : w.Tracks)
    (hkeep : (w.stagedExpectation i key == .undefined ||
      w.stagedExpectation i key == mutation.expectedRevision) = true)
    (hs : w.body i [(key, mutation.expectedRevision)] (fun tx => tx.stage key mutation) = some w') :
    w'.Tracks := by
  rcases body_cases hs with rfl | ⟨call, tx, hcall, htx, rfl⟩
  · exact h
  · have htracks := h.calls call (mem_of_getElem? hcall)
    rw [MemoryTransaction.stage_ok htx]
    refine tracks_setCall h (Carries.stage htracks fun old hold => ?_)
    simpa [stagedExpectation, hcall, hold] using hkeep

theorem tracks_body {w' : StoreWorld V} {i : Nat}
    {method : MemoryTransaction V → Except StateError (MemoryTransaction V)} (h : w.Tracks)
    (hmethod : ∀ tx tx', method tx = .ok tx' → tx'.mutations = tx.mutations)
    (hs : w.body i [] method = some w') : w'.Tracks := by
  rcases body_cases hs with rfl | ⟨call, tx, hcall, htx, rfl⟩
  · exact h
  · have htracks := h.calls call (mem_of_getElem? hcall)
    refine tracks_setCall h ?_
    rw [TransactCall.Tracks, hmethod _ _ htx, append_nil]
    exact htracks

section Turn

variable [WireValue V]

theorem tracks_runJob {w w' : StoreWorld V} {now : JsDate.Instant} {job : StoreJob V}
    (h : w.Tracks) (hjob : job.Tracks) (hs : w.runJob now job = some w') : w'.Tracks := by
  cases job with
  | commit i issued staged result =>
    obtain ⟨tx, hstaged, hcarries⟩ := hjob
    obtain ⟨call, phase, hcall, rfl | ⟨store, hstore, rfl⟩⟩ := commitJob_cases hs
    · exact tracks_setCall h (h.calls call (mem_of_getElem? hcall))
    · have hset : (w.setCall i { call with phase := phase }).Tracks :=
        tracks_setCall h (h.calls call (mem_of_getElem? hcall))
      refine ⟨hset.calls, hset.jobs, fun c hc => ?_⟩
      rcases mem_append.mp hc with hc | hc
      · exact h.commits c hc
      · rw [mem_singleton.mp hc]
        exact meetsExpectations_of_commit i hstaged hcarries hstore
  | claim request limit | acknowledge request =>
    cases some.inj hs
    exact ⟨h.calls, h.jobs, h.commits⟩

theorem tracks_step {w w' : StoreWorld V} {e : StoreEvent V} (h : w.Tracks)
    (hkeep : w.keepsExpectation e = true) (hs : w.step e = some w') : w'.Tracks := by
  cases e with
  | openStore =>
    simp only [step] at hs
    split at hs <;> cases some.inj hs <;> exact ⟨h.calls, h.jobs, h.commits⟩
  | close =>
    cases some.inj hs
    exact ⟨h.calls, h.jobs, h.commits⟩
  | transact options =>
    obtain ⟨inFlight, call, heq, hissued, hmut, -⟩ := transact_cases w options
    cases (some.inj hs).symm.trans heq
    refine ⟨fun c hc => ?_, h.jobs, h.commits⟩
    rcases mem_append.mp hc with hc | hc
    · exact h.calls c hc
    · rw [mem_singleton.mp hc, TransactCall.Tracks, hissued, hmut]
      exact Carries.empty
  | put i key value expected => exact tracks_stage (.put value expected) h hkeep hs
  | delete i key expected => exact tracks_stage (.delete expected) h hkeep hs
  | appendOperation i entry =>
    refine tracks_body h (fun tx tx' (hok : tx.appendOperation entry = .ok tx') => ?_) hs
    rw [(MemoryTransaction.appendOperation_ok hok).2]
  | enqueueOutbox i message =>
    refine tracks_body h (fun tx tx' (hok : tx.enqueueOutbox message = .ok tx') => ?_) hs
    rw [MemoryTransaction.enqueueOutbox_ok hok]
  | resolve i result =>
    obtain ⟨call, staged, tx, hcall, hfin, rfl⟩ := resolve_cases hs
    obtain ⟨hmut, -, rfl⟩ := MemoryTransaction.finish_ok hfin
    have htracks := h.calls call (mem_of_getElem? hcall)
    exact tracks_addJob (tracks_setCall h htracks) ⟨call.tx, hmut, htracks⟩
  | reject i =>
    obtain ⟨call, hcall, rfl⟩ := reject_cases hs
    exact tracks_setCall h (h.calls call (mem_of_getElem? hcall))
  | deliver i =>
    rcases deliver_cases hs with ⟨inFlight, rfl⟩ | ⟨call, outcome, hcall, rfl⟩
    · exact ⟨h.calls, h.jobs, h.commits⟩
    · exact tracks_setCall h (h.calls call (mem_of_getElem? hcall))
  | claimOutbox request =>
    cases some.inj hs
    rcases enqueueClaim_cases w request with heq | ⟨limit, heq⟩ <;> rw [heq]
    · exact h
    · exact tracks_addJob h trivial
  | acknowledgeOutbox request =>
    cases some.inj hs
    rcases enqueueAcknowledge_cases w request with heq | heq <;> rw [heq]
    · exact h
    · exact tracks_addJob h trivial
  | turn now =>
    obtain ⟨job, jobs, hjobs, hrun⟩ := turn_cases hs
    have hrest : ({ w with jobs := jobs } : StoreWorld V).Tracks :=
      ⟨h.calls, fun j hj => h.jobs j (hjobs ▸ mem_cons_of_mem job hj), h.commits⟩
    exact tracks_runJob hrest (h.jobs job (hjobs ▸ mem_cons_self)) hrun

/-- **Compare-and-set over runs.** In every run in which no call replaces a staged expectation by
a different one, every commit meets its expectations. -/
theorem commits_meetExpectations {w : StoreWorld V}
    (hr : (machine V).ReachableVia (fun w e _ => w.keepsExpectation e = true) w) :
    ∀ c ∈ w.commits, c.MeetsExpectations := by
  have htracks : w.Tracks := by
    refine hr.invariant (I := Tracks) ?_ fun _ _ _ _ h hs hkeep => tracks_step h hkeep hs
    rintro w rfl
    exact ⟨fun _ h => absurd h not_mem_nil, fun _ h => absurd h not_mem_nil,
      fun _ h => absurd h not_mem_nil⟩
  exact htracks.commits

end Turn

/-! ## A run that keeps the law, and one that does not -/

def sampleKey : StateKey := ⟨Text.js "plugins", Text.js "installed", Text.js "a"⟩

/-- A transaction without fence or idempotency key. -/
def plainOptions : StateTransactionOptions := ⟨none, none, none⟩

/-- One transaction creates the record, the next replaces exactly that
revision. -/
def replaceRun : List (StoreEvent Unit) :=
  [.openStore, .transact plainOptions, .put 0 sampleKey () .absent, .resolve 0 (),
    .turn JsDate.epochStart, .transact plainOptions, .put 1 sampleKey () (.revision 1),
    .put 1 sampleKey () (.revision 1), .resolve 1 (), .turn JsDate.epochStart]

theorem commits_meetExpectations_replaceRun :
    ∃ w, (machine Unit).runIf keepsExpectation initial replaceRun = some w ∧
      w.commits.length = 2 ∧ ∀ c ∈ w.commits, c.MeetsExpectations := by
  have hlen : ((machine Unit).runIf keepsExpectation initial replaceRun).map
      (fun w => w.commits.length) = some 2 := by decide +kernel
  obtain ⟨w, hw, hlen⟩ := map_eq_some_iff.mp hlen
  exact ⟨w, hw, hlen, commits_meetExpectations (.of_runIf (.init rfl) hw)⟩

/-- Two transactions start on an empty store. The first creates the record; the
second expects it absent, writes it a second time without an expectation, and
commits after the first. -/
def laterCallRun : List (StoreEvent Unit) :=
  [.openStore, .transact plainOptions, .transact plainOptions,
    .put 0 sampleKey () .absent, .put 1 sampleKey () .absent, .put 1 sampleKey () .undefined,
    .resolve 0 (), .resolve 1 (), .turn JsDate.epochStart, .turn JsDate.epochStart]

/-- **A later call drops the expectation of an earlier one**, that the record is absent. -/
theorem laterCall_drops_expectation :
    ¬ ∀ w : StoreWorld Unit, (machine Unit).Reachable w → ∀ c ∈ w.commits, c.MeetsExpectations := by
  intro hlaw
  have hrun : ((machine Unit).run initial laterCallRun).map (fun w => w.commits.map fun c =>
      c.issued.all fun p => matchesExpectedRevision (c.before.lookup p.1) p.2) =
        some [true, false] := by decide +kernel
  obtain ⟨w, hw, hmeets⟩ := map_eq_some_iff.mp hrun
  have hall := hlaw w (.of_init_run rfl hw)
  obtain ⟨c, hc, hfalse⟩ : ∃ c ∈ w.commits,
      (c.issued.all fun p => matchesExpectedRevision (c.before.lookup p.1) p.2) = false :=
    List.mem_map.mp (hmeets ▸ by simp)
  rw [List.all_eq_true.mpr (hall c hc).1] at hfalse
  cases hfalse

end StoreWorld

end TegoNext
