/-
The change log of the memory store and its watchers, over whole runs.

A commit appends its changes to the log at the revision after the store's (`LogInv`). A watcher
starts with the logged changes after its cursor and is pushed every change that is logged later.
That is the same thing unless the cursor is ahead of the store (`futureCursor_yields_earlier`).
Every step of `StoreWorld` hands the watchers what it appended.
-/
import TegoNext.StoreWorld
import TegoNext.CommitRefinement
import TegoNext.WatchIterator

set_option autoImplicit false

namespace TegoNext

open MemoryStateStore List Option

variable {V : Type}

/-! ## The log -/

def applyChange (record : StateKey → Option (Versioned V)) (c : StateChange V) :
    StateKey → Option (Versioned V) :=
  CasStore.write c.revision record ⟨c.key, c.value, .any⟩

/-- The change log folded over the empty map. -/
def replayChanges (changes : List (StateChange V)) : StateKey → Option (Versioned V) :=
  changes.foldl applyChange fun _ => none

def changesAfter (cursor : Revision) (changes : List (StateChange V)) : List (StateChange V) :=
  changes.filter fun change => cursor < change.revision

/-- How the log and the records belong together. -/
structure LogInv (store : MemoryStateStore V) : Prop where
  /-- Nothing in the log is newer than the store. -/
  below : ∀ c ∈ store.changes, c.revision ≤ store.revision
  ordered : (store.changes.map (·.revision)).Pairwise (· ≤ ·)
  /-- No key is logged twice at one revision. -/
  distinct : (store.changes.map fun c => (c.key, c.revision)).Nodup
  replay : replayChanges store.changes = store.abs.record

inductive LogStep (store store' : MemoryStateStore V) : Prop
  | quiet (hrecords : store'.records = store.records) (hchanges : store'.changes = store.changes)
      (hrevision : store.revision ≤ store'.revision)
  | commit {entries app : List (Entry V)} {next : Records V} (hnd : (entryKeys entries).Nodup)
      (hmutations : applyMutations store.records [] entries = .ok (next, app))
      (hrecords : store'.records = app.foldl (putRecord (store.revision + 1)) next)
      (hchanges : store'.changes = store.changes ++ app.map (change (store.revision + 1)))
      (hrevision : store'.revision = store.revision + 1)

namespace LogInv

variable {store store' : MemoryStateStore V}

theorem new : LogInv (MemoryStateStore.new : MemoryStateStore V) where
  below _ h := by cases h
  ordered := List.Pairwise.nil
  distinct := nodup_nil
  replay := rfl

theorem foldl_applyChange (r : Revision) (app : List (Entry V))
    (record : StateKey → Option (Versioned V)) :
    (app.map (change r)).foldl applyChange record = (app.map toWrite).foldl (CasStore.write r) record := by
  induction app generalizing record with
  | nil => rfl
  | cons entry rest ih => exact ih _

theorem step (h : LogInv store) (hstep : LogStep store store') : LogInv store' := by
  cases hstep with
  | quiet hrecords hchanges hrevision =>
    refine ⟨?_, ?_, ?_, ?_⟩
    · rw [hchanges]
      exact fun c hc => (h.below c hc).trans hrevision
    · rw [hchanges]
      exact h.ordered
    · rw [hchanges]
      exact h.distinct
    · rw [hchanges, h.replay]
      unfold MemoryStateStore.abs
      rw [hrecords]
  | @commit entries app next hnd hmutations hrecords hchanges hrevision =>
    obtain ⟨-, happ, -, -⟩ := applyMutations_spec hnd hmutations
    rw [nil_append] at happ
    have hnew : ∀ c ∈ app.map (change (store.revision + 1)), c.revision = store.revision + 1 :=
      fun c hc => by
        obtain ⟨entry, -, rfl⟩ := List.mem_map.mp hc
        rfl
    have hkeys : (entryKeys app).Nodup := by
      rw [happ]
      exact hnd.sublist (filter_sublist.map _)
    refine ⟨?_, ?_, ?_, ?_⟩
    · rw [hchanges, hrevision]
      intro c hc
      obtain hc | hc := mem_append.mp hc
      · exact Nat.le_succ_of_le (h.below c hc)
      · exact (hnew c hc).le
    · rw [hchanges, map_append, pairwise_append]
      refine ⟨h.ordered, ?_, fun old hold new hmem => ?_⟩
      · refine pairwise_map.mpr (pairwise_of_forall_mem_list fun c hc c' hc' => ?_)
        rw [hnew c hc, hnew c' hc']
      · obtain ⟨c, hc, rfl⟩ := List.mem_map.mp hold
        obtain ⟨c', hc', rfl⟩ := List.mem_map.mp hmem
        rw [hnew c' hc']
        exact Nat.le_succ_of_le (h.below c hc)
    · rw [hchanges, map_append, nodup_append]
      refine ⟨h.distinct, ?_, fun old hold new hmem heq => ?_⟩
      · rw [List.map_map]
        refine List.Nodup.of_map Prod.fst ?_
        rw [List.map_map]
        exact hkeys
      · obtain ⟨c, hc, rfl⟩ := List.mem_map.mp hold
        obtain ⟨c', hc', rfl⟩ := List.mem_map.mp hmem
        have hle := h.below c hc
        rw [(Prod.mk.inj heq).2, hnew c' hc'] at hle
        exact absurd hle (Nat.not_succ_le_self _)
    · have hfilter : app.map toWrite = (entries.map toWrite).filter store.abs.applies := by
        rw [List.filter_map, happ]
        exact congrArg (List.map toWrite) (filter_congr fun entry _ =>
          (applies_toWrite store entry).symm)
      have hwrites := CasStore.foldl_write_filter store.abs (store.revision + 1)
        ((toWrite_keys entries).symm ▸ hnd)
      rw [replayChanges, hchanges, foldl_append, ← replayChanges, h.replay,
        foldl_applyChange, hfilter, hwrites, foldl_write_abs hnd hmutations]
      unfold MemoryStateStore.abs
      rw [hrecords]

theorem eq_of_key (h : LogInv store) {c c' : StateChange V} (hc : c ∈ store.changes)
    (hc' : c' ∈ store.changes) (hkey : c.key = c'.key) (hrevision : c.revision = c'.revision) :
    c = c' :=
  inj_on_of_nodup_map h.distinct hc hc' (Prod.ext hkey hrevision)

theorem mem_of_replay {changes : List (StateChange V)} {record : StateKey → Option (Versioned V)}
    {key : StateKey} {v : Versioned V} (h : changes.foldl applyChange record key = some v) :
    record key = some v ∨
      ∃ c ∈ changes, c.key = key ∧ c.revision = v.revision ∧ c.value = some v.value := by
  induction changes generalizing record with
  | nil => exact .inl h
  | cons c rest ih =>
    obtain hrecord | ⟨c', hc', hsame⟩ := ih h
    · by_cases hkey : key = c.key
      · subst hkey
        rw [applyChange, CasStore.write, Function.update_self, map_eq_some_iff] at hrecord
        obtain ⟨value, hvalue, rfl⟩ := hrecord
        exact .inr ⟨c, mem_cons_self, rfl, rfl, hvalue⟩
      · rw [applyChange, CasStore.write, Function.update_of_ne hkey] at hrecord
        exact .inl hrecord
    · exact .inr ⟨c', mem_cons_of_mem _ hc', hsame⟩

theorem value_of_record (h : LogInv store) {key : StateKey} {record : StoredRecord V}
    (hrecord : store.records.lookup key = some record) {c : StateChange V}
    (hc : c ∈ store.changes) (hkey : c.key = key) (hrevision : c.revision = record.revision) :
    c.value = some record.value := by
  have habs : store.abs.record key = some (toVersioned record) := by
    change (store.records.lookup key).map toVersioned = _
    rw [hrecord, map_some]
  rw [← h.replay] at habs
  obtain hnone | ⟨c', hc', hkey', hrevision', hvalue⟩ := mem_of_replay habs
  · cases hnone
  · rw [h.eq_of_key hc hc' (hkey.trans hkey'.symm) (hrevision.trans hrevision'.symm)]
    exact hvalue

end LogInv

/-! ## What the jobs do to the log -/

section Jobs

theorem LogStep.of_rewrites {store store' : MemoryStateStore V} (h : store.Rewrites store') :
    LogStep store store' :=
  .quiet ((congrArg records h.rest).trans rfl) ((congrArg changes h.rest).trans rfl) h.revision

variable [WireValue V]

theorem logStep_commit {store store' : MemoryStateStore V} {fencing : Option StateFencing}
    {identity : Option IdempotencyIdentity} {staged : StagedTransaction V} {result : V}
    (hnd : (entryKeys staged.mutations).Nodup)
    (h : store.commit fencing identity staged result = .ok store') : LogStep store store' := by
  obtain ⟨-, next, app, newOutbox, advances, hmutations, -, -, rfl⟩ := commit_ok h
  have hchanges : ∀ s : MemoryStateStore V, (s.remember identity result).changes = s.changes :=
    fun s => by cases identity <;> rfl
  split
  · refine .commit hnd hmutations ?_ ?_ ?_
    · rw [remember_records]
      rfl
    · rw [hchanges]
      rfl
    · rw [remember_revision]
      rfl
  · exact .quiet (remember_records ..) (hchanges _) (remember_revision ..).ge

end Jobs

/-! ## What the steps of the store do to it -/

namespace StoreWorld

def StagesOnce (w : StoreWorld V) : Prop :=
  ∀ call issued staged result, StoreJob.commit call issued staged result ∈ w.jobs →
    (entryKeys staged.mutations).Nodup

variable {w w' : StoreWorld V} {e : StoreEvent V}

theorem StagesOnce.of_jobs (h : w.StagesOnce)
    (hjobs : ∀ call issued staged result, StoreJob.commit call issued staged result ∈ w'.jobs →
      StoreJob.commit call issued staged result ∈ w.jobs) : w'.StagesOnce :=
  fun call issued staged result hjob => h call issued staged result (hjobs _ _ _ _ hjob)

theorem logStep_runJob [WireValue V] {now : JsDate.Instant} {job : StoreJob V}
    (hjob : ∀ call issued staged result, job = .commit call issued staged result →
      (entryKeys staged.mutations).Nodup) (hs : w.runJob now job = some w') :
    LogStep w.store w'.store ∧ w'.jobs = w.jobs := by
  cases job with
  | commit i issued staged result =>
    obtain ⟨call, phase, -, rfl | ⟨store, hstore, rfl⟩⟩ := commitJob_cases hs
    · exact ⟨.quiet rfl rfl le_rfl, rfl⟩
    · exact ⟨logStep_commit (hjob _ _ _ _ rfl) hstore, rfl⟩
  | claim request limit =>
    obtain rfl := some.inj hs
    exact ⟨.of_rewrites (claimOutbox_rewrites ..), rfl⟩
  | acknowledge request =>
    obtain rfl := some.inj hs
    exact ⟨.of_rewrites (acknowledgeOutbox_rewrites ..), rfl⟩

/-- **One step of the store** commits at the next revision, or leaves the log alone. -/
theorem logStep_step [WireValue V] (h : w.StagesOnce) (hs : w.step e = some w') :
    LogStep w.store w'.store ∧ w'.StagesOnce := by
  by_cases hturn : ∃ now, e = .turn now
  · obtain ⟨now, rfl⟩ := hturn
    obtain ⟨job, jobs, hjobs, hrun⟩ := turn_cases hs
    have hjob : ∀ call issued staged result, job = .commit call issued staged result →
        (entryKeys staged.mutations).Nodup := fun call issued staged result hjob =>
      h call issued staged result (by
        rw [hjobs, hjob]
        exact mem_cons_self)
    obtain ⟨hlog, hkept⟩ := logStep_runJob hjob hrun
    refine ⟨hlog, h.of_jobs fun _ _ _ _ hmem => ?_⟩
    rw [hkept] at hmem
    rw [hjobs]
    exact mem_cons_of_mem job hmem
  · have hrests := rests_step hs (not_exists.mp hturn)
    refine ⟨.quiet hrests.store.records hrests.store.changes hrests.store.revision.ge, ?_⟩
    obtain ⟨added, hjobs, hadded⟩ := hrests.jobs
    intro call issued staged result hmem
    rw [hjobs] at hmem
    rcases mem_append.mp hmem with hmem | hmem
    · exact h call issued staged result hmem
    · -- what a transaction stages, it stages once
      obtain ⟨_, _, -, hfin⟩ := hadded _ hmem
      rw [(MemoryTransaction.finish_ok hfin).1]
      exact MemoryTransaction.nodupKeys_sortedMutations _

end StoreWorld

/-! ## Watchers -/

/-- A watcher, and the cursor `watch` was called with. -/
structure StateWatcher (V : Type) where
  cursor : Revision
  iterator : WatchIterator (StateChange V)

/-- A store with everyone who ever watched it, and the revisions that were committed. -/
structure WatchedStore (V : Type) where
  world : StoreWorld V
  watchers : List (StateWatcher V)
  committed : List Revision

inductive WatchEvent (V : Type) where
  | store (e : StoreEvent V)
  | watch (cursor : Revision)
  | next (watcher : Nat)
  | return (watcher : Nat)

namespace StateWatcher

/-- The watcher of a store that has just logged `changes`. -/
def pushAll (watcher : StateWatcher V) (changes : List (StateChange V)) : StateWatcher V :=
  { watcher with iterator := changes.foldl WatchIterator.push watcher.iterator }

def close (watcher : StateWatcher V) : StateWatcher V :=
  { watcher with iterator := watcher.iterator.close }

def next (watcher : StateWatcher V) : StateWatcher V :=
  { watcher with iterator := watcher.iterator.next }

end StateWatcher

namespace WatchedStore

def initial : WatchedStore V where
  world := .initial
  watchers := []
  committed := []

/-- A step of the store: the changes it logged are pushed, and `close` closes the watchers. -/
def storeStep [WireValue V] (w : WatchedStore V) (e : StoreEvent V) : Option (WatchedStore V) :=
  match w.world.step e with
  | none => none
  | some world =>
    let logged := world.store.changes.drop w.world.store.changes.length
    let watchers := w.watchers.map (·.pushAll logged)
    some {
      world := world
      watchers := match e with
        | .close => watchers.map (·.close)
        | _ => watchers
      committed :=
        if world.store.revision = w.world.store.revision then w.committed
        else w.committed ++ [world.store.revision] }

def step [WireValue V] (w : WatchedStore V) : WatchEvent V → Option (WatchedStore V)
  | .store e => w.storeStep e
  | .watch cursor =>
    match w.world.store.watch cursor with
    | .error _ => some w
    | .ok changes => some { w with watchers := w.watchers ++ [⟨cursor, .start changes⟩] }
  | .next i => (w.watchers[i]?).map fun watcher =>
    { w with watchers := w.watchers.set i watcher.next }
  | .return i => (w.watchers[i]?).map fun watcher =>
    { w with watchers := w.watchers.set i watcher.close }

def machine (V : Type) [WireValue V] : Machine (WatchedStore V) (WatchEvent V) where
  Init w := w = initial
  step := step

/-! ## The law -/

def RevisionsIncrease (w : WatchedStore V) : Prop :=
  w.committed.Pairwise (· < ·) ∧ (w.world.store.changes.map (·.revision)).Pairwise (· ≤ ·) ∧
    ∀ c ∈ w.world.store.changes, c.revision ∈ w.committed

def ValuesUnique (store : MemoryStateStore V) : Prop :=
  (∀ c ∈ store.changes, ∀ c' ∈ store.changes, c.key = c'.key → c.revision = c'.revision →
    c.value = c'.value) ∧
  ∀ key record, store.records.lookup key = some record → ∀ c ∈ store.changes, c.key = key →
    c.revision = record.revision → c.value = some record.value

/-- Every watcher is handed the changes after its cursor, each once and in the order of the
commits; what an open watcher was not handed yet is stored. -/
def WatchersDeliver (w : WatchedStore V) : Prop :=
  ∀ watcher ∈ w.watchers,
    watcher.iterator.Delivers (changesAfter watcher.cursor w.world.store.changes)

structure Lawful (w : WatchedStore V) : Prop where
  revisions : w.RevisionsIncrease
  values : ValuesUnique w.world.store
  replay : ∀ key, replayChanges w.world.store.changes key =
    (w.world.store.records.lookup key).map toVersioned
  watchers : w.WatchersDeliver

/-- `watch` is called with a cursor that is not ahead of the store. -/
def cursorReached (w : WatchedStore V) : WatchEvent V → Bool
  | .watch cursor => decide (cursor ≤ w.world.store.revision)
  | _ => true

/-! ## The invariant -/

structure Inv (w : WatchedStore V) : Prop where
  stages : w.world.StagesOnce
  log : LogInv w.world.store
  committed : w.committed.Pairwise (· < ·)
  /-- Every revision in the log was committed, and none is newer than the store. -/
  logged : ∀ c ∈ w.world.store.changes, c.revision ∈ w.committed
  below : ∀ r ∈ w.committed, r ≤ w.world.store.revision
  cursors : ∀ watcher ∈ w.watchers, watcher.cursor ≤ w.world.store.revision
  watchers : w.WatchersDeliver

theorem Inv.lawful {w : WatchedStore V} (h : w.Inv) : w.Lawful where
  revisions := ⟨h.committed, h.log.ordered, h.logged⟩
  values := ⟨fun _ hc _ hc' hkey hrevision => by rw [h.log.eq_of_key hc hc' hkey hrevision],
    fun _ _ hrecord _ hc hkey hrevision => h.log.value_of_record hrecord hc hkey hrevision⟩
  replay key := congrFun h.log.replay key
  watchers := h.watchers

theorem inv_initial : (initial : WatchedStore V).Inv where
  stages _ _ _ _ h := by cases h
  log := LogInv.new
  committed := List.Pairwise.nil
  logged _ h := by cases h
  below _ h := by cases h
  cursors _ h := by cases h
  watchers _ h := by cases h

theorem logged_of_logStep {store store' : MemoryStateStore V} (h : LogStep store store') :
    ∃ logged, store'.changes = store.changes ++ logged ∧ store.revision ≤ store'.revision ∧
      ∀ c ∈ logged, store.revision < c.revision ∧ c.revision = store'.revision := by
  cases h with
  | quiet hrecords hchanges hrevision =>
    exact ⟨[], by rw [hchanges, append_nil], hrevision, fun _ h => by cases h⟩
  | commit hnd hmutations hrecords hchanges hrevision =>
    refine ⟨_, hchanges, hrevision ▸ Nat.le_succ _, fun c hc => ?_⟩
    obtain ⟨entry, -, rfl⟩ := List.mem_map.mp hc
    rw [hrevision]
    exact ⟨Nat.lt_succ_self _, rfl⟩

theorem changesAfter_append {cursor revision : Revision} {changes logged : List (StateChange V)}
    (hcursor : cursor ≤ revision) (hlogged : ∀ c ∈ logged, revision < c.revision) :
    changesAfter cursor (changes ++ logged) = changesAfter cursor changes ++ logged := by
  rw [changesAfter, filter_append, changesAfter, filter_eq_self.mpr fun c hc =>
    decide_eq_true (Nat.lt_of_le_of_lt hcursor (hlogged c hc))]

theorem delivers_pushAll {watcher : StateWatcher V} {revision : Revision}
    {changes logged : List (StateChange V)} (hcursor : watcher.cursor ≤ revision)
    (hlogged : ∀ c ∈ logged, revision < c.revision)
    (h : watcher.iterator.Delivers (changesAfter watcher.cursor changes)) :
    (watcher.pushAll logged).iterator.Delivers
      (changesAfter watcher.cursor (changes ++ logged)) := by
  rw [changesAfter_append hcursor hlogged]
  exact h.pushAll logged

section Runs

variable [WireValue V] {w w' : WatchedStore V}

theorem inv_storeStep {e : StoreEvent V} (h : w.Inv) (hs : w.storeStep e = some w') : w'.Inv := by
  unfold storeStep at hs
  split at hs
  · cases hs
  next world hworld =>
  obtain ⟨hstep, hstages⟩ := StoreWorld.logStep_step h.stages hworld
  obtain ⟨logged, hchanges, hrevision, hlogged⟩ := logged_of_logStep hstep
  have hdrop : world.store.changes.drop w.world.store.changes.length = logged := by
    rw [hchanges, drop_left]
  rw [hdrop] at hs
  have hpushed : ∀ watcher ∈ w.watchers, watcher.cursor ≤ world.store.revision ∧
      (watcher.pushAll logged).iterator.Delivers
        (changesAfter watcher.cursor world.store.changes) := fun watcher hmem => by
    have hcursor := h.cursors watcher hmem
    rw [hchanges]
    exact ⟨hcursor.trans hrevision,
      delivers_pushAll hcursor (fun c hc => (hlogged c hc).1) (h.watchers watcher hmem)⟩
  have hwatchers : ∀ watcher ∈ w'.watchers, watcher.cursor ≤ world.store.revision ∧
      watcher.iterator.Delivers (changesAfter watcher.cursor world.store.changes) := by
    intro watcher hmem
    obtain rfl := some.inj hs
    split at hmem
    · obtain ⟨pushed, hpush, rfl⟩ := List.mem_map.mp hmem
      obtain ⟨old, hold, rfl⟩ := List.mem_map.mp hpush
      obtain ⟨hcursor, hdelivers⟩ := hpushed old hold
      exact ⟨hcursor, hdelivers.close⟩
    · obtain ⟨old, hold, rfl⟩ := List.mem_map.mp hmem
      exact hpushed old hold
  have hcommitted : w'.committed.Pairwise (· < ·) ∧
      (∀ c ∈ world.store.changes, c.revision ∈ w'.committed) ∧
      ∀ r ∈ w'.committed, r ≤ world.store.revision := by
    obtain rfl := some.inj hs
    by_cases hsame : world.store.revision = w.world.store.revision
    · rw [if_pos hsame]
      refine ⟨h.committed, fun c hc => ?_, fun r hr => (h.below r hr).trans hrevision⟩
      rw [hchanges] at hc
      obtain hc | hc := mem_append.mp hc
      · exact h.logged c hc
      · obtain ⟨hlt, heq⟩ := hlogged c hc
        rw [heq, hsame] at hlt
        exact absurd hlt (Nat.lt_irrefl _)
    · rw [if_neg hsame]
      have hlt : w.world.store.revision < world.store.revision :=
        Nat.lt_of_le_of_ne hrevision fun heq => hsame heq.symm
      refine ⟨?_, fun c hc => ?_, fun r hr => ?_⟩
      · refine pairwise_append.mpr ⟨h.committed, pairwise_singleton _ _, ?_⟩
        intro r hr r' hr'
        rw [mem_singleton.mp hr']
        exact Nat.lt_of_le_of_lt (h.below r hr) hlt
      · rw [hchanges] at hc
        obtain hc | hc := mem_append.mp hc
        · exact mem_append_left _ (h.logged c hc)
        · rw [(hlogged c hc).2]
          exact mem_append_right _ (mem_singleton_self _)
      · obtain hr | hr := mem_append.mp hr
        · exact (h.below r hr).trans hrevision
        · exact (mem_singleton.mp hr).le
  have hworld' : w'.world = world := by
    obtain rfl := some.inj hs
    rfl
  refine ⟨?_, ?_, hcommitted.1, ?_, ?_, ?_, ?_⟩
  · rw [hworld']
    exact hstages
  · rw [hworld']
    exact h.log.step hstep
  · rw [hworld']
    exact hcommitted.2.1
  · rw [hworld']
    exact hcommitted.2.2
  · rw [hworld']
    exact fun watcher hmem => (hwatchers watcher hmem).1
  · intro watcher hmem
    rw [hworld']
    exact (hwatchers watcher hmem).2

omit [WireValue V] in
theorem inv_set {i : Nat} {watcher watcher' : StateWatcher V} (h : w.Inv)
    (hwatcher : w.watchers[i]? = some watcher) (hcursor : watcher'.cursor = watcher.cursor)
    (hdelivers : ∀ feed, watcher.iterator.Delivers feed → watcher'.iterator.Delivers feed) :
    ({ w with watchers := w.watchers.set i watcher' } : WatchedStore V).Inv := by
  have hmem := mem_of_getElem? hwatcher
  refine { h with cursors := fun other hother => ?_, watchers := fun other hother => ?_ }
  · obtain hother | rfl := mem_or_eq_of_mem_set hother
    · exact h.cursors other hother
    · rw [hcursor]
      exact h.cursors watcher hmem
  · obtain hother | rfl := mem_or_eq_of_mem_set hother
    · exact h.watchers other hother
    · rw [hcursor]
      exact hdelivers _ (h.watchers watcher hmem)

theorem inv_step {e : WatchEvent V} (h : w.Inv) (hcursor : w.cursorReached e = true)
    (hs : w.step e = some w') : w'.Inv := by
  cases e with
  | store e => exact inv_storeStep h hs
  | watch cursor =>
    rw [step] at hs
    split at hs
    · obtain rfl := some.inj hs
      exact h
    next changes hchanges =>
    obtain rfl := some.inj hs
    have hstart : changes = changesAfter cursor w.world.store.changes := by
      unfold MemoryStateStore.watch MemoryStateStore.assertOpen at hchanges
      split at hchanges
      · exact (Except.ok.inj hchanges).symm
      · cases hchanges
    refine { h with cursors := fun watcher hmem => ?_, watchers := fun watcher hmem => ?_ }
    · obtain hmem | hmem := mem_append.mp hmem
      · exact h.cursors watcher hmem
      · rw [mem_singleton.mp hmem]
        exact of_decide_eq_true hcursor
    · obtain hmem | hmem := mem_append.mp hmem
      · exact h.watchers watcher hmem
      · rw [mem_singleton.mp hmem, hstart]
        exact .start _
  | next i =>
    obtain ⟨watcher, hwatcher, rfl⟩ := map_eq_some_iff.mp hs
    exact inv_set h hwatcher rfl fun _ hdelivers => hdelivers.next
  | «return» i =>
    obtain ⟨watcher, hwatcher, rfl⟩ := map_eq_some_iff.mp hs
    exact inv_set h hwatcher rfl fun _ hdelivers => hdelivers.close

/-- **The store and its watchers**, in every run in which `watch` is called with cursors that are
not ahead of the store. -/
theorem store_and_watchers
    (hr : (machine V).ReachableVia (fun w e _ => w.cursorReached e = true) w) : w.Lawful := by
  refine (hr.invariant (I := Inv) ?_ fun _ _ _ _ h hs hcursor => inv_step h hcursor hs).lawful
  rintro w rfl
  exact inv_initial

end Runs

/-! ## A run that keeps the law, and one that does not -/

def commitOnce : List (WatchEvent Unit) :=
  [.store (.transact ⟨none, none, none⟩),
    .store (.put 0 ⟨Text.js "plugins", Text.js "enabled", Text.js "a"⟩ () .absent),
    .store (.resolve 0 ()), .store (.turn JsDate.epochStart)]

theorem store_and_watchers_commitOnce : ∃ w : WatchedStore Unit,
    (machine Unit).runIf cursorReached initial
      ([.store .openStore, .watch 0, .next 0] ++ commitOnce) = some w ∧ w.Lawful := by
  have hrun : ((machine Unit).runIf cursorReached initial
      ([.store .openStore, .watch 0, .next 0] ++ commitOnce)).isSome := by decide +kernel
  obtain ⟨w, hw⟩ := isSome_iff_exists.mp hrun
  exact ⟨w, hw, store_and_watchers (.of_runIf (.init rfl) hw)⟩

/-- **A cursor ahead of the store** is forgotten: after revision `5` comes `1`. -/
theorem futureCursor_yields_earlier :
    ¬ ∀ w : WatchedStore Unit, (machine Unit).Reachable w → w.Lawful := by
  intro hall
  have hrun : ((machine Unit).run initial
      ([.store .openStore, .watch 5, .next 0] ++ commitOnce)).map
        (fun w => w.watchers.map fun watcher =>
          (watcher.iterator.closed, watcher.iterator.yielded.length,
            (changesAfter watcher.cursor w.world.store.changes).length)) =
          some [(false, 1, 0)] := by decide +kernel
  obtain ⟨w, hw, hmap⟩ := map_eq_some_iff.mp hrun
  obtain ⟨watcher, hmem, hwatcher⟩ := List.mem_map.mp (hmap ▸ mem_singleton_self _)
  obtain ⟨hopen, hlengths⟩ := Prod.mk.inj hwatcher
  obtain ⟨hyielded, hafter⟩ := Prod.mk.inj hlengths
  have hstored := ((hall w (.of_init_run rfl hw)).watchers watcher hmem).stored hopen
  have hlength := congrArg List.length hstored
  rw [length_append, hyielded, hafter] at hlength
  omega

end WatchedStore

end TegoNext
