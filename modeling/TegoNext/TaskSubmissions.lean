/-
How often a task is submitted to its executor.

A dispatch that is under way stands in the map of its service and keeps others out, and it takes
the record out of the state accepted before it leaves the map. But a dispatch may be started from a
copy of the record that is out of date, and may end without its outcome having reached the store.
`DispatchOrder` says of a step that it does neither.
-/
import TegoNext.TaskRecordLaw

set_option autoImplicit false

namespace TegoNext

open List Option

/-- A dispatch starts only while the stored record is accepted, and one that has
submitted ends only when the stored record is accepted no more. -/
structure DispatchOrder (s t : TaskWorld) : Prop where
  started : ∀ me id p, t.events = .dispatchStarted me id p :: s.events →
    ∃ r, s.taskRecord id = some r ∧ r.state = .accepted
  ended : ∀ me id p, t.events = .dispatchEnded me id p :: s.events →
    (∃ request, .submitted me request p ∈ s.events) →
    ∃ r, s.taskRecord id = some r ∧ r.state ≠ .accepted

def TaskEvent.isSubmission (me : Nat) (taskId attemptId : PortableId) : TaskEvent → Bool
  | .submitted me' request _ =>
    me' = me && request.taskId = taskId && request.attemptId = attemptId
  | _ => false

def Left (s : TaskWorld) (id : PortableId) : Prop :=
  ∃ r, s.taskRecord id = some r ∧ r.state ≠ .accepted

/-- What the dispatches of a run maintain. -/
structure SubmissionInv (s : TaskWorld) : Prop where
  /-- A submitted task is still being dispatched, or its record has left accepted. -/
  covered : ∀ me request p, .submitted me request p ∈ s.events →
    (s.services me).dispatches request.taskId = some p ∨ Left s request.taskId
  /-- While a dispatch is under way, the submissions of its task are its own. -/
  own : ∀ me id p, (s.services me).dispatches id = some p → ∀ request p',
    .submitted me request p' ∈ s.events → request.taskId = id → p' = p
  once : s.events.Pairwise fun e e' => ∀ me request p request' p',
    e = .submitted me request p → e' = .submitted me request' p' → request.taskId ≠ request'.taskId

theorem Left.mono {s t : TaskWorld} {id : PortableId} (h : Left s id) (hlaw : TaskLaw s t) :
    Left t id := by
  obtain ⟨r, hr, hstate⟩ := h
  obtain ⟨r', hr', hstep⟩ := hlaw.task id r hr
  refine ⟨r', hr', ?_⟩
  cases hstep with
  | kept h => exact h ▸ hstate
  | rewritten _ _ rank _ _ _ =>
    intro haccepted
    rw [haccepted] at rank
    cases h : r.state with
    | accepted => exact hstate h
    | running => rw [h] at rank; cases rank
    | terminal => rw [h] at rank; cases rank

namespace SubmissionInv

variable {s t : TaskWorld}

theorem idle (h : SubmissionInv s) (hlaw : TaskLaw s t)
    (hdispatches : ∀ me, (t.services me).dispatches = (s.services me).dispatches)
    (hevents : t.events.filter TaskEvent.isDispatch = s.events.filter TaskEvent.isDispatch) :
    SubmissionInv t := by
  have hmem : ∀ me request p, .submitted me request p ∈ t.events ↔
      .submitted me request p ∈ s.events := by
    intro me request p
    have hfilter : ∀ events : List TaskEvent, .submitted me request p ∈ events ↔
        .submitted me request p ∈ events.filter TaskEvent.isDispatch :=
      fun events => (mem_filter.trans (and_iff_left rfl)).symm
    rw [hfilter, hfilter s.events, hevents]
  refine ⟨fun me request p hp => ?_, fun me id p hp request p' hp' => ?_, ?_⟩
  · rcases h.covered me request p ((hmem me request p).mp hp) with hd | hleft
    · exact .inl (by rw [hdispatches]; exact hd)
    · exact .inr (hleft.mono hlaw)
  · exact h.own me id p (by rw [← hdispatches]; exact hp) request p' ((hmem _ _ _).mp hp')
  · -- only submissions matter, and these are the same
    have honce : (t.events.filter TaskEvent.isDispatch).Pairwise fun e e' =>
        ∀ me request p request' p', e = .submitted me request p →
          e' = .submitted me request' p' → request.taskId ≠ request'.taskId :=
      hevents ▸ h.once.filter _
    refine (pairwise_filter.mp honce).imp fun {e e'} hpair => ?_
    rintro me request p request' p' rfl rfl
    exact hpair rfl rfl me request p request' p' rfl rfl

theorem of_event (h : SubmissionInv s) {e : TaskEvent} (hevents : t.events = e :: s.events)
    (he : ∀ me request p, e ≠ .submitted me request p)
    (hcovered : ∀ me request p, .submitted me request p ∈ s.events →
      (t.services me).dispatches request.taskId = some p ∨ Left t request.taskId)
    (hown : ∀ me id p, (t.services me).dispatches id = some p → ∀ request p',
      .submitted me request p' ∈ s.events → request.taskId = id → p' = p) :
    SubmissionInv t := by
  have hmem : ∀ me request p, .submitted me request p ∈ t.events →
      .submitted me request p ∈ s.events := by
    intro me request p hp
    rw [hevents] at hp
    exact (mem_cons.mp hp).resolve_left fun heq => he me request p heq.symm
  refine ⟨fun me request p hp => hcovered me request p (hmem me request p hp),
    fun me id p hp request p' hp' => hown me id p hp request p' (hmem me request p' hp'), ?_⟩
  rw [hevents]
  exact pairwise_cons.mpr ⟨fun _ _ me request p _ _ heq => absurd heq (he me request p), h.once⟩

theorem step (h : SubmissionInv s) (hlaw : TaskLaw s t) (horder : DispatchOrder s t) :
    SubmissionInv t := by
  cases hlaw.dispatch with
  | idle dispatches events => exact h.idle hlaw dispatches events
  | started me id free dispatches events =>
    obtain ⟨r, hr, haccepted⟩ := horder.started me id _ events
    -- the task was not submitted before: no dispatch is under way, and it is accepted
    have hnone : ∀ request p, .submitted me request p ∈ s.events → request.taskId ≠ id := by
      rintro request p hp rfl
      rcases h.covered me request p hp with hd | ⟨r', hr', hstate⟩
      · rw [free] at hd
        cases hd
      · obtain rfl := some.inj (hr.symm.trans hr')
        exact hstate haccepted
    refine h.of_event events (fun _ _ _ heq => nomatch heq) (fun me' request p hp => ?_)
      fun me' id' p hp request p' hp' hid' => ?_
    · rw [dispatches, if_neg]
      · exact (h.covered me' request p hp).imp_right fun hleft => hleft.mono hlaw
      · rintro ⟨rfl, hid⟩
        exact hnone request p hp hid
    · rw [dispatches, if_neg] at hp
      · exact h.own me' id' p hp request p' hp' hid'
      · rintro ⟨rfl, rfl⟩
        exact hnone request p' hp' hid'
  | submitted me request p mine first dispatches events =>
    have hmem : ∀ me' request' p', .submitted me' request' p' ∈ t.events →
        (me' = me ∧ request' = request ∧ p' = p) ∨ .submitted me' request' p' ∈ s.events := by
      intro me' request' p' hp'
      rw [events] at hp'
      rcases mem_cons.mp hp' with heq | hp'
      · cases heq
        exact .inl ⟨rfl, rfl, rfl⟩
      · exact .inr hp'
    refine ⟨fun me' request' p' hp' => ?_, fun me' id q hq request' p' hp' hid => ?_, ?_⟩
    · rw [dispatches]
      rcases hmem me' request' p' hp' with ⟨rfl, rfl, rfl⟩ | hp'
      · exact .inl mine
      · exact (h.covered me' request' p' hp').imp_right fun hleft => hleft.mono hlaw
    · rw [dispatches] at hq
      rcases hmem me' request' p' hp' with ⟨rfl, rfl, rfl⟩ | hp'
      · subst hid
        exact some.inj (mine.symm.trans hq)
      · exact h.own me' id q hq request' p' hp' hid
    · rw [events]
      refine pairwise_cons.mpr ⟨fun e he me' request₁ p₁ request₂ p₂ heq heq₂ hid => ?_, h.once⟩
      cases heq
      subst heq₂
      -- an older submission of the task would be one of this dispatch
      obtain rfl := h.own me request.taskId p mine request₂ p₂ he hid.symm
      exact first _ _ he
  | ended me id p dispatches events =>
    refine h.of_event events (fun _ _ _ heq => nomatch heq) (fun me' request q hq => ?_)
      fun me' id' q hq request p' hp' hid' => ?_
    · rcases h.covered me' request q hq with hd | hleft
      · rw [dispatches]
        by_cases hend : me' = me ∧ request.taskId = id ∧ (s.services me).dispatches id = some p
        · obtain ⟨rfl, rfl, hp⟩ := hend
          obtain rfl := some.inj (hd.symm.trans hp)
          exact .inr (Left.mono (horder.ended me' _ q events ⟨request, hq⟩) hlaw)
        · rw [if_neg hend]
          exact .inl hd
      · exact .inr (hleft.mono hlaw)
    · rw [dispatches] at hq
      split at hq
      · cases hq
      · exact h.own me' id' q hq request p' hp' hid'

theorem count_le_one (h : SubmissionInv s) (me : Nat) (taskId attemptId : PortableId) :
    (s.events.filter (TaskEvent.isSubmission me taskId attemptId)).length ≤ 1 := by
  have honce := h.once.filter (TaskEvent.isSubmission me taskId attemptId)
  have hall : ∀ e ∈ s.events.filter (TaskEvent.isSubmission me taskId attemptId),
      ∃ request p, e = .submitted me request p ∧ request.taskId = taskId := by
    intro e he
    have hsub := (mem_filter.mp he).2
    unfold TaskEvent.isSubmission at hsub
    split at hsub
    · next me' request p =>
      simp only [Bool.and_eq_true, decide_eq_true_eq] at hsub
      obtain ⟨⟨rfl, hid⟩, -⟩ := hsub
      exact ⟨request, p, rfl, hid⟩
    · cases hsub
  match hlist : s.events.filter (TaskEvent.isSubmission me taskId attemptId) with
  | [] => exact Nat.zero_le _
  | [_] => exact Nat.le_refl _
  | e :: e' :: rest =>
    rw [hlist] at honce hall
    obtain ⟨request, p, rfl, hid⟩ := hall e mem_cons_self
    obtain ⟨request', p', rfl, hid'⟩ := hall e' (mem_cons_of_mem _ mem_cons_self)
    exact absurd (hid.trans hid'.symm) ((pairwise_cons.mp honce).1 _ mem_cons_self me
      request p request' p' rfl rfl)

end SubmissionInv

namespace TaskService

variable (platform : TaskPlatform) (leadership : JsString)

/-- The steps that keep the order of the dispatches. -/
def dispatchOrder : World TaskWorld TaskAnswer → Sched (Nat × TaskCall) TaskAnswer →
    World TaskWorld TaskAnswer → Prop :=
  fun w _ w' => DispatchOrder w.mem w'.mem

/-- **Each service submits an attempt at most once.** -/
theorem submissions_le_one {w : World TaskWorld TaskAnswer}
    (hr : (machine platform leadership).ReachableVia dispatchOrder w) (me : Nat)
    (taskId attemptId : PortableId) :
    (w.mem.events.filter (TaskEvent.isSubmission me taskId attemptId)).length ≤ 1 := by
  have hinv : SubmissionInv w.mem := by
    refine hr.invariant (I := fun w => SubmissionInv w.mem) ?_ fun w l w' hreach h hs hc => ?_
    · rintro w ⟨hstart, -⟩
      rw [hstart]
      exact ⟨fun _ _ _ h => (nomatch h), fun _ _ _ _ _ _ h => (nomatch h), List.Pairwise.nil⟩
    · rcases law_of_step platform leadership hreach.reachable hs with heq | hlaw
      · rw [heq]
        exact h
      · exact h.step hlaw hc
  exact hinv.count_le_one me taskId attemptId

/-! ## A run in order, and one with two submissions -/

def storedAccepted (s : TaskWorld) (id : PortableId) : Bool :=
  (s.taskRecord id).any fun r => r.state = .accepted

/-- The stored record of the task has left accepted. -/
def storedLeft (s : TaskWorld) (id : PortableId) : Bool :=
  (s.taskRecord id).any fun r => r.state ≠ .accepted

/-- `dispatchOrder`, evaluated. -/
def keepsOrder (w : World TaskWorld TaskAnswer) (_ : Sched (Nat × TaskCall) TaskAnswer)
    (w' : World TaskWorld TaskAnswer) : Bool :=
  w'.mem.events.length = w.mem.events.length ||
    match w'.mem.events.head? with
    | some (.dispatchStarted _ id _) => storedAccepted w.mem id
    | some (.dispatchEnded _ id _) => storedLeft w.mem id
    | _ => true

theorem dispatchOrder_of_keepsOrder (w : World TaskWorld TaskAnswer)
    (l : Sched (Nat × TaskCall) TaskAnswer) (w' : World TaskWorld TaskAnswer)
    (h : keepsOrder w l w' = true) : dispatchOrder w l w' := by
  have hany : ∀ {id : PortableId} {q : TaskRecord → Bool}, (w.mem.taskRecord id).any q = true →
      ∃ r, w.mem.taskRecord id = some r ∧ q r = true := by
    intro id q hq
    cases hr : w.mem.taskRecord id with
    | none =>
      rw [hr] at hq
      cases hq
    | some r =>
      rw [hr] at hq
      exact ⟨r, rfl, hq⟩
  refine ⟨fun me id p hevents => ?_, fun me id p hevents _ => ?_⟩
  · rw [keepsOrder, hevents] at h
    obtain ⟨r, hr, hstate⟩ := hany (by simpa [storedAccepted] using h)
    exact ⟨r, hr, by simpa using hstate⟩
  · rw [keepsOrder, hevents] at h
    obtain ⟨r, hr, hstate⟩ := hany (by simpa [storedLeft] using h)
    exact ⟨r, hr, by simpa using hstate⟩

theorem submissions_le_one_dispatchRun :
    ∃ w : World TaskWorld TaskAnswer,
      (machine samplePlatform sampleLeadership).ReachableVia dispatchOrder w ∧
      (w.mem.events.any (TaskEvent.isSubmission 0 sampleTaskId sampleTaskId)) = true ∧
      (w.mem.events.filter (TaskEvent.isSubmission 0 sampleTaskId sampleTaskId)).length ≤ 1 := by
  have hrun : ((machine samplePlatform sampleLeadership).runVia keepsOrder sampleStart
      (leadRun ++ admitRun none ++ dispatchRun)).map (fun w =>
        w.mem.events.any (TaskEvent.isSubmission 0 sampleTaskId sampleTaskId)) = some true := by
    decide +kernel
  obtain ⟨w, hw, hany⟩ := map_eq_some_iff.mp hrun
  have hreach : (machine samplePlatform sampleLeadership).ReachableVia dispatchOrder w :=
    Machine.ReachableVia.of_steps (.init ⟨rfl, rfl⟩)
      (Machine.steps_of_runVia dispatchOrder_of_keepsOrder hw)
  exact ⟨w, hreach, hany, submissions_le_one samplePlatform sampleLeadership hreach 0 _ _⟩

def isSetAuthority : Sched (Nat × TaskCall) TaskAnswer → Bool
  | .call (_, .setAuthority _) => true
  | _ => false

def admitOperationRun : List (Sched (Nat × TaskCall) TaskAnswer) :=
  .call (0, .run (sampleRequest (some sampleTaskId))) :: turns 0 3 ++
    [tell 0 (.identity ⟨sampleTaskId, sampleTaskId⟩), tell 0 (.selected sampleSelection)] ++
    turns 0 8

/-- A second call finds the accepted record and asks the executor about it. -/
def secondCallRun : List (Sched (Nat × TaskCall) TaskAnswer) :=
  .call (0, .run (sampleRequest (some sampleTaskId))) :: turns 1 10 ++
    [tell 1 (.selected sampleSelection)] ++ turns 1 3

def firstDispatchRun : List (Sched (Nat × TaskCall) TaskAnswer) :=
  turns 0 1 ++ turns 1 7 ++ turns 2 2 ++ [tell 2 (.handle sampleTaskId sampleTaskId)] ++
    turns 2 11 ++ [tell 3 .done]

/-- The second call learns that the attempt was not known, and dispatches again. -/
def secondDispatchRun : List (Sched (Nat × TaskCall) TaskAnswer) :=
  tell 0 (.observed none) :: turns 2 3 ++ turns 3 2

/-- **An attempt is submitted twice**, from a record that was read before. -/
theorem attempt_submitted_twice :
    ¬ ∀ (es : List (Sched (Nat × TaskCall) TaskAnswer)) (w : World TaskWorld TaskAnswer),
      (es.filter isSetAuthority).length ≤ 1 →
      (machine samplePlatform sampleLeadership).run sampleStart es = some w →
      ∀ me taskId attemptId,
        (w.mem.events.filter (TaskEvent.isSubmission me taskId attemptId)).length ≤ 1 := by
  intro hlaw
  have hrun : ((machine samplePlatform sampleLeadership).run sampleStart
      (leadRun ++ admitOperationRun ++ secondCallRun ++ firstDispatchRun ++ secondDispatchRun)).map
        (fun w => (w.mem.events.filter
          (TaskEvent.isSubmission 0 sampleTaskId sampleTaskId)).length) = some 2 := by
    decide +kernel
  obtain ⟨w, hw, hlen⟩ := map_eq_some_iff.mp hrun
  have hle := hlaw _ w (by decide) hw 0 sampleTaskId sampleTaskId
  omega

end TaskService

end TegoNext
