/-
What happens to a task record over a run.

The law of the services (`TaskLaw`) says of every turn how it changes a stored record. All changes
but one are computed from the record they replace. An uncertain settlement writes a copy that was
made before, so a cancellation or an authority recorded since is gone; `SettlesCurrent` says of a
step that it does not do that.
-/
import TegoNext.TaskCalls

set_option autoImplicit false

namespace TegoNext

open Text Option

/-- What a durable change of a record must respect. -/
structure LawfulChange (r r' : TaskRecord) : Prop where
  same : SameTask r r'
  forward : r.state.rank ≤ r'.state.rank
  final : r.state = .terminal → r' = r
  cancellation : KeepsCancellation r r'
  epoch : KeepsEpoch r r'

namespace LawfulChange

theorem refl (r : TaskRecord) : LawfulChange r r :=
  ⟨.refl r, Nat.le_refl _, fun _ => rfl, fun h => h, fun a h => ⟨a, h, Nat.le_refl _⟩⟩

theorem trans {r r' r'' : TaskRecord} (h : LawfulChange r r') (h' : LawfulChange r' r'') :
    LawfulChange r r'' where
  same := h.same.trans h'.same
  forward := Nat.le_trans h.forward h'.forward
  final hterminal := by
    have heq := h.final hterminal
    subst heq
    exact h'.final hterminal
  cancellation hc := h'.cancellation (h.cancellation hc)
  epoch a ha := by
    obtain ⟨a', ha', hle⟩ := h.epoch a ha
    obtain ⟨a'', ha'', hle'⟩ := h'.epoch a' ha'
    exact ⟨a'', ha'', Nat.le_trans hle hle'⟩

end LawfulChange

/-- If the step writes an uncertain settlement, the copy it was made from still has
the cancellation and the authority of the stored record. -/
def SettlesCurrent (s t : TaskWorld) : Prop :=
  ∀ copy r, t.events = .settled copy :: s.events → s.taskRecord copy.taskId = some r →
    KeepsCancellation r copy ∧ KeepsEpoch r copy

theorem RecordStep.lawful {s t : TaskWorld} {id : PortableId} {r r' : TaskRecord}
    (h : RecordStep s t r r') (hid : r.taskId = id) (hr : s.taskRecord id = some r)
    (hcurrent : SettlesCurrent s t) : LawfulChange r r' := by
  cases h with
  | kept h => exact h ▸ .refl r
  | rewritten hopen same rank note events how =>
    have hfinal : r.state = .terminal → r' = r := fun h => absurd h hopen
    cases how with
    | updated _ cancellation epoch => exact ⟨same, rank, hfinal, cancellation, epoch⟩
    | settled copy hnote hcopy cancellation authority =>
      subst hnote
      obtain ⟨hkeeps, hepoch⟩ := hcurrent copy r events (by rw [hcopy, hid, hr])
      refine ⟨same, rank, hfinal, fun h => ?_, fun a ha => ?_⟩
      · rw [cancellation]
        exact hkeeps h
      · rw [authority]
        exact hepoch a ha

namespace TaskService

variable (platform : TaskPlatform) (leadership : JsString)

/-- The steps that settle current copies only. -/
def settlesCurrent : World TaskWorld TaskAnswer → Sched (Nat × TaskCall) TaskAnswer →
    World TaskWorld TaskAnswer → Prop :=
  fun w _ w' => SettlesCurrent w.mem w'.mem

/-- **The records of a run, from any point of it on, only change lawfully.** -/
theorem records_lawful {w₀ w : World TaskWorld TaskAnswer}
    (hr₀ : (machine platform leadership).ReachableVia settlesCurrent w₀) {id : PortableId}
    {r : TaskRecord} (hr : w₀.mem.taskRecord id = some r)
    (hrun : Relation.ReflTransGen ((machine platform leadership).StepVia settlesCurrent) w₀ w) :
    ∃ r', w.mem.taskRecord id = some r' ∧ LawfulChange r r' := by
  induction hrun with
  | refl => exact ⟨r, hr, .refl r⟩
  | tail hsteps hstep ih =>
    obtain ⟨r₁, hr₁, hlawful⟩ := ih
    obtain ⟨l, hs, hc⟩ := hstep
    have hreach := hr₀.of_steps hsteps
    rcases law_of_step platform leadership hreach.reachable hs with heq | hlaw
    · exact ⟨r₁, by rw [heq, hr₁], hlawful⟩
    · obtain ⟨r₂, hr₂, hchange⟩ := hlaw.task id r₁ hr₁
      have hinv := inv_of_reachable platform leadership hreach.reachable
      exact ⟨r₂, hr₂, hlawful.trans
        (hchange.lawful (hinv.taskId_of_taskRecord hr₁) hr₁ hc)⟩

end TaskService

/-! ## A run that keeps the law, and one that loses a cancellation -/

/-- A runtime for the runs below; it accepts every record. -/
def samplePlatform : TaskPlatform where
  numberText _ := ⟨js "0", by decide⟩
  bindingMatches _ _ _ := true
  serializedBytes _ := 0
  outputBytes _ := 0

/-- The leadership of the runs below. -/
def sampleLeadership : JsString := js "l"

def sampleTaskId : PortableId := ⟨js "t", by decide⟩

def sampleRequest (operationId : Option PortableId) : RunTaskRequest where
  applicationId := sampleTaskId
  pluginId := sampleTaskId
  componentId := sampleTaskId
  input := .null
  deadline := js "d"
  orphanPolicy := .cancel
  operationId := operationId

/-- The thread executor answers for the target. -/
def sampleSelection : TaskExecutorSelection where
  target := ⟨sampleTaskId, 1, js "d", ⟨js "e", .thread, none, by decide⟩⟩
  binding := ⟨js "b", .null⟩
  executor := ⟨js "e", .thread, false⟩

namespace TaskService

/-- No activity and no memory. -/
def sampleStart : World TaskWorld TaskAnswer := ⟨.initial, []⟩

def tell (i : Nat) (reply : TaskReply) : Sched (Nat × TaskCall) TaskAnswer :=
  .resume i ⟨JsDate.epochStart, reply⟩

/-- Resume the activity `i` for `n` turns in which everything works. -/
def turns (i n : Nat) : List (Sched (Nat × TaskCall) TaskAnswer) := List.replicate n (tell i .done)

/-- The service becomes the leader. -/
def leadRun : List (Sched (Nat × TaskCall) TaskAnswer) :=
  .call (0, .setAuthority (some 1)) :: turns 0 3 ++ [tell 0 (.tasks [])] ++ turns 0 1

def admitRun (operationId : Option PortableId) : List (Sched (Nat × TaskCall) TaskAnswer) :=
  [.call (0, .run (sampleRequest operationId)), tell 0 .done,
    tell 0 (.identity ⟨sampleTaskId, sampleTaskId⟩), tell 0 (.selected sampleSelection)] ++
    turns 0 13

/-- The dispatch records the task as running; the completion waits for its result. -/
def dispatchRun : List (Sched (Nat × TaskCall) TaskAnswer) :=
  turns 0 1 ++ turns 1 2 ++ [tell 1 (.handle sampleTaskId sampleTaskId)] ++ turns 1 11 ++
    [tell 2 .done, tell 0 .done]

def cancelRun : List (Sched (Nat × TaskCall) TaskAnswer) :=
  [.call (0, .cancel sampleTaskId), tell 1 .done] ++ turns 1 1 ++ turns 2 12

/-- The result gets lost, and the completion is about to settle the task. -/
def resultLostRun : List (Sched (Nat × TaskCall) TaskAnswer) := tell 0 (.failed none) :: turns 2 7

/-- The step is no uncertain settlement. -/
def settlesNothing (w : World TaskWorld TaskAnswer) (_ : Sched (Nat × TaskCall) TaskAnswer)
    (w' : World TaskWorld TaskAnswer) : Bool :=
  w'.mem.events.length = w.mem.events.length ||
    match w'.mem.events.head? with
    | some (.settled _) => false
    | _ => true

theorem settlesCurrent_of_settlesNothing (w : World TaskWorld TaskAnswer)
    (l : Sched (Nat × TaskCall) TaskAnswer) (w' : World TaskWorld TaskAnswer)
    (h : settlesNothing w l w' = true) : settlesCurrent w l w' := by
  intro copy r hevents _
  rw [settlesNothing, hevents] at h
  simp at h

theorem records_lawful_cancelRun :
    ∃ (w₀ w : World TaskWorld TaskAnswer) (r : TaskRecord),
      w₀.mem.taskRecord sampleTaskId = some r ∧ r.state = .running ∧
      ∃ r', w.mem.taskRecord sampleTaskId = some r' ∧ r'.cancellation.isSome = true ∧
        LawfulChange r r' := by
  have hrun : ((machine samplePlatform sampleLeadership).runVia settlesNothing sampleStart
      (leadRun ++ admitRun none ++ dispatchRun)).bind (fun w₀ =>
        ((machine samplePlatform sampleLeadership).runVia settlesNothing w₀ cancelRun).map
          fun w => ((w₀.mem.taskRecord sampleTaskId).map (·.state),
            (w.mem.taskRecord sampleTaskId).map (·.cancellation.isSome))) =
      some (some .running, some true) := by decide +kernel
  obtain ⟨w₀, hw₀, hrest⟩ := bind_eq_some_iff.mp hrun
  obtain ⟨w, hw, hpair⟩ := map_eq_some_iff.mp hrest
  obtain ⟨hstate, hcancellation⟩ := Prod.mk.inj hpair
  obtain ⟨r, hr, hrunning⟩ := map_eq_some_iff.mp hstate
  obtain ⟨r', hr', hsome⟩ := map_eq_some_iff.mp hcancellation
  have hsteps := Machine.steps_of_runVia settlesCurrent_of_settlesNothing hw₀
  have hreach : (machine samplePlatform sampleLeadership).ReachableVia settlesCurrent w₀ :=
    Machine.ReachableVia.of_steps (.init ⟨rfl, rfl⟩) hsteps
  obtain ⟨r'', hr'', hlawful⟩ := records_lawful samplePlatform sampleLeadership hreach hr
    (Machine.steps_of_runVia settlesCurrent_of_settlesNothing hw)
  obtain rfl := some.inj (hr'.symm.trans hr'')
  exact ⟨w₀, w, r, hr, hrunning, r', hr', hsome, hlawful⟩

/-- **A settlement loses a cancellation.** The cancellation is recorded after the
completion read the task and before it settles it. -/
theorem settlement_loses_cancellation :
    ¬ ∀ (w w' : World TaskWorld TaskAnswer) (l : Sched (Nat × TaskCall) TaskAnswer),
      (machine samplePlatform sampleLeadership).Reachable w →
      (machine samplePlatform sampleLeadership).step w l = some w' →
      ∀ id r, w.mem.taskRecord id = some r →
        ∃ r', w'.mem.taskRecord id = some r' ∧ LawfulChange r r' := by
  intro hlaw
  have hrun : ((machine samplePlatform sampleLeadership).run sampleStart
      (leadRun ++ admitRun none ++ dispatchRun ++ cancelRun ++ resultLostRun)).bind (fun w =>
        ((machine samplePlatform sampleLeadership).step w (tell 2 .done)).map fun w' =>
          ((w.mem.taskRecord sampleTaskId).map (·.cancellation.isSome),
            (w'.mem.taskRecord sampleTaskId).map (·.cancellation.isSome))) =
      some (some true, some false) := by decide +kernel
  obtain ⟨w, hw, hrest⟩ := bind_eq_some_iff.mp hrun
  obtain ⟨w', hw', hpair⟩ := map_eq_some_iff.mp hrest
  obtain ⟨hbefore, hafter⟩ := Prod.mk.inj hpair
  obtain ⟨r, hr, hsome⟩ := map_eq_some_iff.mp hbefore
  obtain ⟨r', hr', hlawful⟩ := hlaw w w' _ (.of_init_run ⟨rfl, rfl⟩ hw) hw' sampleTaskId r hr
  rw [hr', map_some, hlawful.cancellation hsome] at hafter
  cases hafter

end TaskService

end TegoNext
