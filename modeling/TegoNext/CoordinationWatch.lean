/-
The watch of the PostgreSQL coordination provider.

Calls of `next` that find nothing in the queue wait, and a pump scans the table of changes for as
long as calls wait; what it has read goes to the calls and into the queue in the order of the
revisions. When no call waits any more the pump returns; the flag that says it runs is cleared in
a later callback, and a call that comes in between waits for nobody (`waits_for_nobody`).
-/
import TegoNext.CanonicalJson
import TegoNext.Machine

set_option autoImplicit false

namespace TegoNext

open Text List Option

structure CoordinationChange where
  key : JsString
  value : JsonValue
  revision : Nat

inductive Pump where
  | idle
  /-- The query of `#scanChanges` has been sent. -/
  | scanning
  | scanned (changes : List CoordinationChange)
  /-- `#waitForWake`. -/
  | waiting
  /-- The loop has ended; its callback comes next. -/
  | returned
  | failed

/-- The pump will scan again, or its callback will reject the calls that wait. -/
def Pump.serves : Pump → Bool
  | .idle | .returned => false
  | _ => true

/-- `pending` counts the calls of `next` that wait; `yielded` is what the calls have returned. -/
structure CoordinationWatch where
  changes : List CoordinationChange
  start : Nat
  cursor : Nat
  queue : List CoordinationChange
  pending : Nat
  closed : Bool
  pumping : Bool
  pump : Pump
  yielded : List CoordinationChange

namespace CoordinationWatch

def after (changes : List CoordinationChange) (revision : Nat) : List CoordinationChange :=
  changes.filter fun change => revision < change.revision

/-- The query of `#scanChanges`, with `WATCH_BATCH_SIZE`. -/
def scanChanges (changes : List CoordinationChange) (cursor : Nat) : List CoordinationChange :=
  (after changes cursor).take 100

/-- The head of the loop of `#pump`. -/
def turn (s : CoordinationWatch) : CoordinationWatch :=
  { s with pump := if !s.closed && decide (0 < s.pending) then .scanning else .returned }

/-- One change that was read. -/
def take (s : CoordinationWatch) (change : CoordinationChange) : CoordinationWatch :=
  if s.pending = 0 then { s with cursor := change.revision, queue := s.queue ++ [change] }
  else { s with
    cursor := change.revision
    pending := s.pending - 1
    yielded := s.yielded ++ [change] }

/-- A change is committed, `next` and `close` are called, the query runs, its answer is taken up, a
scan fails, a notification or the timer wakes the pump, its callback runs. -/
inductive WatchStep where
  | commit (change : CoordinationChange)
  | next
  | close
  | query
  | resume
  | fail
  | wake
  | settle

def step (s : CoordinationWatch) : WatchStep → Option CoordinationWatch
  | .commit change =>
    if ∀ earlier ∈ s.changes, earlier.revision < change.revision then
      some { s with changes := s.changes ++ [change] }
    else none
  | .next =>
    match s.queue with
    | change :: queue => some { s with queue, yielded := s.yielded ++ [change] }
    | [] =>
      if s.closed then some s
      else if s.pumping then some { s with pending := s.pending + 1 }
      else some { s with pending := s.pending + 1, pumping := true }.turn
  | .close => some { s with closed := true, queue := [], pending := 0 }
  | .query =>
    match s.pump with
    | .scanning => some { s with pump := .scanned (scanChanges s.changes s.cursor) }
    | _ => none
  | .resume =>
    match s.pump with
    | .scanned changes =>
      if s.closed then some { s with pump := .returned }
      else if changes.isEmpty then some { s with pump := .waiting }
      else some (changes.foldl take s).turn
    | _ => none
  | .fail =>
    match s.pump with
    | .scanning | .scanned _ => some { s with pump := .failed }
    | _ => none
  | .wake =>
    match s.pump with
    | .waiting => some s.turn
    | _ => none
  | .settle =>
    match s.pump with
    | .returned => some { s with pumping := false, pump := .idle }
    | .failed => some { s with pumping := false, pump := .idle, pending := 0 }
    | _ => none

def machine : Machine CoordinationWatch WatchStep where
  Init s := s.changes.Pairwise (·.revision < ·.revision) ∧ s.cursor = s.start ∧ s.queue = [] ∧
    s.pending = 0 ∧ s.closed = false ∧ s.pumping = false ∧ s.pump = .idle ∧ s.yielded = []
  step := step

/-! ## What holds of a watch -/

/-- No call waits for nobody, and the changes after the start are yielded in order, each once: on
an open watch, what is neither yielded nor queued is what the next scan reads. -/
structure Lawful (s : CoordinationWatch) : Prop where
  served : s.closed = false → 0 < s.pending → s.pump.serves = true
  ordered : s.yielded <+: after s.changes s.start
  remaining : s.closed = false →
    s.yielded ++ s.queue ++ after s.changes s.cursor = after s.changes s.start

/-- No call starts to wait between the end of a pump and its callback. -/
def timely (s : CoordinationWatch) : WatchStep → Bool
  | .next =>
    match s.queue, s.pump with
    | [], .returned => s.closed
    | _, _ => true
  | _ => true

/-! ## Changes in order -/

theorem after_append (changes others : List CoordinationChange) (revision : Nat) :
    after (changes ++ others) revision = after changes revision ++ after others revision :=
  filter_append ..

/-- Past the first of the changes after a revision, the others are left. -/
theorem after_head {changes rest : List CoordinationChange} {change : CoordinationChange}
    {revision : Nat} (hsorted : changes.Pairwise (·.revision < ·.revision))
    (h : after changes revision = change :: rest) : after changes change.revision = rest := by
  have hmem : change ∈ after changes revision := h ▸ mem_cons_self
  have hlater : revision < change.revision := of_decide_eq_true (mem_filter.mp hmem).2
  have htwice : after changes change.revision =
      (after changes revision).filter fun other => change.revision < other.revision := by
    rw [after, after, List.filter_filter]
    refine filter_congr fun other _ => ?_
    by_cases hother : change.revision < other.revision
    · rw [decide_eq_true hother, decide_eq_true (Nat.lt_trans hlater hother)]
      rfl
    · rw [decide_eq_false hother]
      rfl
  have hrow : (change :: rest).Pairwise (·.revision < ·.revision) := h ▸ hsorted.filter _
  rw [htwice, h, filter_cons_of_neg (by simp), filter_eq_self]
  intro other hother
  exact decide_eq_true ((pairwise_cons.mp hrow).1 other hother)

/-! ## The invariant -/

structure WatchInv (s : CoordinationWatch) : Prop where
  sorted : s.changes.Pairwise (·.revision < ·.revision)
  /-- The cursor is where the watch started, or at a later change. -/
  reached : s.cursor = s.start ∨
    s.start < s.cursor ∧ ∃ change ∈ s.changes, change.revision = s.cursor
  ordered : s.yielded <+: after s.changes s.start
  remaining : s.closed = false →
    s.yielded ++ s.queue ++ after s.changes s.cursor = after s.changes s.start
  batch : ∀ changes, s.pump = .scanned changes → changes <+: after s.changes s.cursor
  empty : s.pending = 0 ∨ s.queue = []
  ended : s.closed = true → s.queue = []
  flag : s.pumping = false ↔ s.pump = .idle

variable {s s' : CoordinationWatch}

/-- The loop of the pump is entered, or goes on. -/
theorem WatchInv.turn (h : WatchInv s) : WatchInv { s with pumping := true }.turn := by
  have hpump : { s with pumping := true }.turn.pump = .scanning ∨
      { s with pumping := true }.turn.pump = .returned := by
    unfold CoordinationWatch.turn
    split
    · exact .inl rfl
    · exact .inr rfl
  exact { h with
    batch := fun changes heq => by
      rcases hpump with hp | hp <;> rw [hp] at heq <;> cases heq
    flag := by
      rcases hpump with hp | hp <;> rw [hp] <;> simp [CoordinationWatch.turn] }

theorem pumping_set (h : s.pumping = true) : { s with pumping := true } = s := by
  rw [← h]

/-- Where the pump is not idle it runs. -/
theorem WatchInv.runs (h : WatchInv s) (hpump : s.pump ≠ .idle) : s.pumping = true :=
  Bool.of_not_eq_false fun hflag => hpump (h.flag.mp hflag)

/-- A pump that goes on serves the calls that wait. -/
theorem serves_turn (hopen : s.closed = false) (hpending : 0 < s.pending) :
    s.turn.pump.serves = true := by
  rw [CoordinationWatch.turn, hopen, decide_eq_true hpending]
  rfl

/-- What a change that was read moves, and what it leaves. -/
theorem take_fields (change : CoordinationChange) (hempty : s.pending = 0 ∨ s.queue = []) :
    (s.take change).changes = s.changes ∧ (s.take change).start = s.start ∧
      (s.take change).cursor = change.revision ∧ (s.take change).closed = s.closed ∧
      (s.take change).pumping = s.pumping ∧ (s.take change).pump = s.pump ∧
      (s.take change).yielded ++ (s.take change).queue = s.yielded ++ s.queue ++ [change] ∧
      ((s.take change).pending = 0 ∨ (s.take change).queue = []) := by
  unfold take
  by_cases hpending : s.pending = 0
  · rw [if_pos hpending]
    exact ⟨rfl, rfl, rfl, rfl, rfl, rfl, (append_assoc ..).symm, .inl hpending⟩
  rw [if_neg hpending]
  have hqueue := hempty.resolve_left hpending
  refine ⟨rfl, rfl, rfl, rfl, rfl, rfl, ?_, .inr hqueue⟩
  rw [hqueue, append_nil, append_nil]

/-- **One change taken** keeps the invariant: the cursor goes where the change is. -/
theorem WatchInv.take {change : CoordinationChange} {rest : List CoordinationChange}
    (h : WatchInv s) (hopen : s.closed = false) (hpump : ∀ batch, s.pump ≠ .scanned batch)
    (hnext : after s.changes s.cursor = change :: rest) :
    WatchInv (s.take change) ∧ after (s.take change).changes (s.take change).cursor = rest := by
  have hafter := after_head h.sorted hnext
  obtain ⟨hmem, hlater⟩ := mem_filter.mp (hnext ▸ mem_cons_self : change ∈ after s.changes s.cursor)
  rw [decide_eq_true_eq] at hlater
  have hstarted : s.start ≤ s.cursor := h.reached.elim (fun heq => heq.ge) fun hlt => hlt.1.le
  obtain ⟨hchanges, hstart, hcursor, hclosed, hpumping, hsame, hrow, hempty⟩ :=
    take_fields change h.empty
  have hall : (s.take change).yielded ++ (s.take change).queue ++ rest =
      after s.changes s.start := by
    rw [hrow, append_assoc, singleton_append, ← hnext]
    exact h.remaining hopen
  constructor
  · constructor
    · rw [hchanges]
      exact h.sorted
    · rw [hchanges, hstart, hcursor]
      exact .inr ⟨Nat.lt_of_le_of_lt hstarted hlater, change, hmem, rfl⟩
    · rw [hchanges, hstart, ← hall, append_assoc]
      exact prefix_append ..
    · intro _
      rw [hchanges, hstart, hcursor, hafter]
      exact hall
    · intro batch hbatch
      exact absurd (hsame ▸ hbatch) (hpump batch)
    · exact hempty
    · intro hend
      rw [hclosed, hopen] at hend
      cases hend
    · rw [hpumping, hsame]
      exact h.flag
  · rw [hchanges, hcursor]
    exact hafter

/-- **A batch taken** keeps the invariant. By induction on what is left of the batch. -/
theorem WatchInv.foldl_take (changes : List CoordinationChange) :
    ∀ {s : CoordinationWatch}, WatchInv s → s.closed = false →
      (∀ batch, s.pump ≠ .scanned batch) → changes <+: after s.changes s.cursor →
      WatchInv (changes.foldl CoordinationWatch.take s) ∧
        (changes.foldl CoordinationWatch.take s).closed = false ∧
        (changes.foldl CoordinationWatch.take s).pumping = s.pumping := by
  induction changes with
  | nil => exact fun h hopen _ _ => ⟨h, hopen, rfl⟩
  | cons change changes ih =>
    intro s h hopen hpump hbefore
    obtain ⟨rest, hrest⟩ := hbefore
    obtain ⟨-, -, -, hclosed, hpumping, hsame, -, -⟩ := take_fields change h.empty
    obtain ⟨hinv, hleft⟩ := h.take hopen hpump hrest.symm
    rw [foldl_cons, ← hpumping]
    apply ih hinv
    · rw [hclosed, hopen]
    · rw [hsame]
      exact hpump
    · rw [hleft]
      exact prefix_append ..

/-- Taking changes does not look at where the pump is. -/
theorem foldl_take_pump (changes : List CoordinationChange) (pump : Pump) :
    ∀ s : CoordinationWatch, changes.foldl CoordinationWatch.take { s with pump } =
      { changes.foldl CoordinationWatch.take s with pump } := by
  induction changes with
  | nil => exact fun _ => rfl
  | cons change changes ih =>
    intro s
    have htake : { s with pump }.take change = { s.take change with pump } := by
      unfold CoordinationWatch.take
      by_cases hpending : s.pending = 0
      · rw [if_pos hpending, if_pos hpending]
      · rw [if_neg hpending, if_neg hpending]
    rw [foldl_cons, foldl_cons, htake, ih]

/-- **A scan that answered**: its changes are taken, and the loop goes on. -/
theorem WatchInv.scanned {changes : List CoordinationChange}
    (h : WatchInv { s with pump := .scanning }) (hopen : s.closed = false)
    (hruns : s.pumping = true) (hbefore : changes <+: after s.changes s.cursor) :
    WatchInv (changes.foldl CoordinationWatch.take s).turn := by
  obtain ⟨hinv, -, hpumping⟩ := h.foldl_take changes hopen (by nofun) hbefore
  have hturn := hinv.turn
  rw [pumping_set (hpumping.trans hruns), foldl_take_pump] at hturn
  exact hturn

/-- A change that is committed is after the cursor exactly if it is after the start. -/
theorem WatchInv.commit {change : CoordinationChange} (h : WatchInv s)
    (hlast : ∀ earlier ∈ s.changes, earlier.revision < change.revision) :
    after [change] s.cursor = after [change] s.start := by
  rcases h.reached with hstart | ⟨hlater, earlier, hmem, heq⟩
  · rw [hstart]
  · have hbehind : s.cursor < change.revision := heq ▸ hlast earlier hmem
    simp [after, hbehind, Nat.lt_trans hlater hbehind]

/-- **One step** keeps the invariant, whatever it is. -/
theorem WatchInv.step {e : WatchStep} (h : WatchInv s)
    (hstep : CoordinationWatch.step s e = some s') : WatchInv s' := by
  cases e with
  | commit change =>
    simp only [CoordinationWatch.step, ite_none_right_eq_some, some.injEq] at hstep
    obtain ⟨hlast, rfl⟩ := hstep
    have hsame := h.commit hlast
    exact { h with
      sorted := pairwise_append.mpr ⟨h.sorted, pairwise_singleton _ _,
        fun earlier hmem _ hlate => mem_singleton.mp hlate ▸ hlast earlier hmem⟩
      reached := h.reached.imp_right fun ⟨hlater, earlier, hmem, heq⟩ =>
        ⟨hlater, earlier, mem_append_left _ hmem, heq⟩
      ordered := by
        rw [after_append]
        exact h.ordered.trans (prefix_append ..)
      remaining := fun hopen => by
        rw [after_append, after_append, hsame, ← append_assoc, h.remaining hopen]
      batch := fun batch hbatch => by
        rw [after_append]
        exact (h.batch batch hbatch).trans (prefix_append ..) }
  | next =>
    simp only [CoordinationWatch.step] at hstep
    split at hstep
    · next change queue hqueue =>
      cases hstep
      have hopen : s.closed = false := by
        by_contra hclosed
        rw [h.ended (Bool.of_not_eq_false hclosed)] at hqueue
        cases hqueue
      have hrow : s.yielded ++ [change] ++ queue ++ after s.changes s.cursor =
          after s.changes s.start := by
        rw [← h.remaining hopen, hqueue, append_assoc s.yielded, singleton_append]
      exact { h with
        ordered := by
          rw [← hrow, append_assoc (s.yielded ++ [change])]
          exact prefix_append ..
        remaining := fun _ => hrow
        empty := h.empty.imp_right fun hnone => by
          rw [hqueue] at hnone
          cases hnone
        ended := fun hclosed => by
          rw [hopen] at hclosed
          cases hclosed }
    · next hqueue =>
      split at hstep
      · cases hstep
        exact h
      have hwaits : WatchInv { s with pending := s.pending + 1 } := { h with empty := .inr hqueue }
      split at hstep
      · cases hstep
        exact hwaits
      · cases hstep
        exact hwaits.turn
  | close =>
    cases hstep
    exact { h with remaining := nofun, empty := .inl rfl, ended := fun _ => rfl }
  | query =>
    simp only [CoordinationWatch.step] at hstep
    split at hstep
    · next hpump =>
      cases hstep
      exact { h with
        batch := fun batch hbatch => Pump.scanned.inj hbatch ▸ take_prefix ..
        flag := by
          rw [h.flag, hpump]
          simp }
    · cases hstep
  | resume =>
    simp only [CoordinationWatch.step] at hstep
    split at hstep
    · next changes hpump =>
      have hruns := h.runs (by rw [hpump]; nofun)
      have hidle (pump : Pump) (hp : pump ≠ .idle) (hbatch : ∀ batch, pump ≠ .scanned batch) :
          WatchInv { s with pump } := { h with
        batch := fun batch heq => absurd heq (hbatch batch)
        flag := by simp [hruns, hp] }
      split at hstep
      · cases hstep
        exact hidle .returned nofun nofun
      next hclosed =>
      split at hstep
      · cases hstep
        exact hidle .waiting nofun nofun
      cases hstep
      exact (hidle .scanning nofun nofun).scanned (Bool.of_not_eq_true hclosed) hruns
        (h.batch changes hpump)
    · cases hstep
  | fail =>
    have hfailed (hpump : s.pump ≠ .idle) : WatchInv { s with pump := .failed } := { h with
      batch := nofun
      flag := by simp [h.runs hpump] }
    simp only [CoordinationWatch.step] at hstep
    split at hstep
    · next hpump =>
      cases hstep
      exact hfailed (by rw [hpump]; nofun)
    · next hpump =>
      cases hstep
      exact hfailed (by rw [hpump]; nofun)
    · cases hstep
  | wake =>
    simp only [CoordinationWatch.step] at hstep
    split at hstep
    · next hpump =>
      cases hstep
      rw [← pumping_set (h.runs (by rw [hpump]; nofun))]
      exact h.turn
    · cases hstep
  | settle =>
    simp only [CoordinationWatch.step] at hstep
    split at hstep
    · cases hstep
      exact { h with batch := nofun, flag := by simp }
    · cases hstep
      exact { h with batch := nofun, empty := .inl rfl, flag := by simp }
    · cases hstep

/-- **One timely step** leaves no call waiting for nobody: a call that comes finds the pump at work
or starts it, and the pump goes on while calls wait. -/
theorem served_step {e : WatchStep} (h : WatchInv s)
    (hserved : s.closed = false → 0 < s.pending → s.pump.serves = true)
    (hstep : CoordinationWatch.step s e = some s') (htimely : timely s e = true) :
    s'.closed = false → 0 < s'.pending → s'.pump.serves = true := by
  intro hopen hpending
  cases e with
  | commit change =>
    simp only [CoordinationWatch.step, ite_none_right_eq_some, some.injEq] at hstep
    obtain ⟨-, rfl⟩ := hstep
    exact hserved hopen hpending
  | next =>
    simp only [CoordinationWatch.step] at hstep
    split at hstep
    · cases hstep
      exact hserved hopen hpending
    next hqueue =>
    split at hstep
    · cases hstep
      exact hserved hopen hpending
    next hclosed =>
    split at hstep
    · next hruns =>
      cases hstep
      -- The flag is up and the loop has not ended, so the pump is in the loop.
      have hidle : s.pump ≠ .idle := fun hp => by
        rw [h.flag.mpr hp] at hruns
        cases hruns
      simp only [timely, hqueue] at htimely
      cases hpump : s.pump <;> simp_all [Pump.serves]
    · cases hstep
      exact serves_turn (Bool.of_not_eq_true hclosed) (Nat.succ_pos _)
  | close =>
    cases hstep
    cases hopen
  | query =>
    simp only [CoordinationWatch.step] at hstep
    split at hstep
    · cases hstep
      rfl
    · cases hstep
  | resume =>
    simp only [CoordinationWatch.step] at hstep
    split at hstep
    · split at hstep
      · next hclosed =>
        cases hstep
        rw [hclosed] at hopen
        cases hopen
      · split at hstep
        · cases hstep
          rfl
        · cases hstep
          exact serves_turn hopen hpending
    · cases hstep
  | fail =>
    simp only [CoordinationWatch.step] at hstep
    split at hstep
    all_goals cases hstep
    all_goals rfl
  | wake =>
    simp only [CoordinationWatch.step] at hstep
    split at hstep
    · cases hstep
      exact serves_turn hopen hpending
    · cases hstep
  | settle =>
    simp only [CoordinationWatch.step] at hstep
    split at hstep
    · next hpump =>
      cases hstep
      have hnone := hserved hopen hpending
      rw [hpump] at hnone
      cases hnone
    · cases hstep
      cases hpending
    · cases hstep

/-! ## Whole runs -/

theorem reachable_watchInv {C : CoordinationWatch → WatchStep → CoordinationWatch → Prop}
    (hr : machine.ReachableVia C s) : WatchInv s := by
  refine hr.invariant ?_ fun _ _ _ _ h hstep _ => h.step hstep
  intro s ⟨hsorted, hcursor, hqueue, hpending, hclosed, hpumping, hpump, hyielded⟩
  constructor
  · exact hsorted
  · exact .inl hcursor
  · rw [hyielded]
    exact nil_prefix
  · intro _
    rw [hyielded, hqueue, hcursor]
    rfl
  · intro changes hbatch
    rw [hpump] at hbatch
    cases hbatch
  · exact .inl hpending
  · exact fun _ => hqueue
  · simp [hpumping, hpump]

/-- **A watch that is called in time** is lawful. -/
theorem watch_serves (hr : machine.ReachableVia (fun s e _ => timely s e = true) s) : Lawful s := by
  have hinv := reachable_watchInv hr
  refine ⟨?_, hinv.ordered, hinv.remaining⟩
  refine hr.invariant (I := fun s => s.closed = false → 0 < s.pending → s.pump.serves = true) ?_
    fun s e s' hs hserved hstep htimely => served_step (reachable_watchInv hs) hserved hstep htimely
  intro s hinit _ hpending
  rw [hinit.2.2.2.1] at hpending
  cases hpending

/-! ## Runs -/

def opened : CoordinationWatch where
  changes := []
  start := 0
  cursor := 0
  queue := []
  pending := 0
  closed := false
  pumping := false
  pump := .idle
  yielded := []

def leaderChange : CoordinationChange := ⟨js "leader", .null, 1⟩

theorem opened_init : machine.Init opened := ⟨.nil, rfl, rfl, rfl, rfl, rfl, rfl, rfl⟩

theorem watch_serves_answered : ∃ s, machine.runIf timely opened [.commit leaderChange, .next,
    .query, .resume, .settle, .next, .query, .resume] = some s ∧ s.pending = 1 ∧
    s.pump = .waiting ∧ Lawful s := by
  obtain ⟨s, hs, hpending, hpump⟩ : ∃ s, machine.runIf timely opened [.commit leaderChange, .next,
      .query, .resume, .settle, .next, .query, .resume] = some s ∧ s.pending = 1 ∧
      s.pump = .waiting := ⟨_, rfl, rfl, rfl⟩
  exact ⟨s, hs, hpending, hpump, watch_serves (.of_runIf (.init opened_init) hs)⟩

/-- A consumer that calls `next` as soon as its change is there comes before the callback that
clears the flag, and waits for nobody, whatever is committed later. -/
theorem waits_for_nobody : ∃ s, machine.run opened [.commit leaderChange, .next, .query, .resume,
    .next, .settle] = some s ∧ machine.Reachable s ∧ ¬ Lawful s := by
  obtain ⟨s, hs, hpending, hopen, hpump⟩ : ∃ s, machine.run opened [.commit leaderChange, .next,
      .query, .resume, .next, .settle] = some s ∧ s.pending = 1 ∧ s.closed = false ∧
      s.pump = .idle := ⟨_, rfl, rfl, rfl, rfl⟩
  refine ⟨s, hs, .of_init_run opened_init hs, fun hlawful => ?_⟩
  have hserved := hlawful.served hopen (hpending ▸ Nat.one_pos)
  rw [hpump] at hserved
  cases hserved

end CoordinationWatch

end TegoNext
