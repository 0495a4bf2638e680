/-
What holds in every run of worker runtimes.

An attempt is executed at most once, by the runtime that created its record. The session
of a message is looked at when the message arrives and not when it is handled. A commit that
ends after persistence has become unavailable leaves its attempt as it was; as long as none
does, buffered, listed and reported results are the ones of terminal attempts.
-/
import TegoNext.WorkerHydration

set_option autoImplicit false

namespace TegoNext

open Async WorkerWorld Text List Option

theorem WorkerRuntime.grows_of_steps (platform : WorkerPlatform)
    {w w' : World WorkerWorld WorkerAnswer} (hr : (machine platform).Reachable w)
    (h : Relation.ReflTransGen ((machine platform).StepVia fun _ _ _ => True) w w') :
    WorkerGrows w.mem w'.mem := by
  induction h with
  | refl => exact .refl _
  | tail hpath hstep ih =>
    obtain ⟨l, hs, -⟩ := hstep
    exact ih.trans (law_of_step platform (Machine.ReachableVia.of_steps hr hpath) hs).grows

/-! ## Sample runs -/

namespace WorkerRuntime

def sampleWorker : PortableId := ⟨js "edge-1", rfl⟩

/-- The epoch of a session is one more than its number; every size is one byte. -/
def samplePlatform : WorkerPlatform where
  options _ :=
    { workerId := sampleWorker
      maxAssignments := 10
      maxAssignmentBytes := 1000
      maxInventoryItems := 10
      maxResultBytes := 100
      maxBufferedResults := 10
      maxBufferedBytes := 1000
      retentionMs := 1000
      resultStore := none }
  epoch session := session + 1
  requestBytes _ := 1
  resultBytes _ := 1
  requestFingerprint request := request.content

def sampleRequest (taskId : PortableId) : RemoteRequest where
  taskId := taskId
  attemptId := sampleWorker
  orphanPolicy := .finishAndBuffer
  workerId := some sampleWorker
  content := js "content"

def sampleTask : PortableId := ⟨js "render", rfl⟩

def otherTask : PortableId := ⟨js "upload", rfl⟩

/-- Everything works, and the local executor succeeds. -/
def sampleAnswer : WorkerAnswer where
  now := 0
  ok := true
  outcome := .done
  parsed := .valid
  keys := []
  rounds := 5
  localResult := some {
    taskId := sampleTask
    attemptId := sampleWorker
    workerId := sampleWorker
    status := .succeeded
    code := none
    message := []
    output := none
    completedAt := 0 }

def resumes (turns activity : Nat) : List (Sched WorkerCall WorkerAnswer) :=
  List.replicate turns (.resume activity sampleAnswer)

def attachFirst : List (Sched WorkerCall WorkerAnswer) :=
  .call (.attach 0 0) :: (resumes 5 0 ++ resumes 6 1 ++ resumes 7 0)

/-- An assignment arrives on it. -/
def assignSample : List (Sched WorkerCall WorkerAnswer) :=
  attachFirst ++ [.call (.message 0 0 (.assign (some (sampleRequest sampleTask))))]

end WorkerRuntime

/-! ## Executions -/

namespace WorkerWorld

/-- The identities that have been submitted to local executors. -/
def submissions (s : WorkerWorld) : List (PortableId × PortableId) :=
  s.events.filterMap fun event => match event with
    | .submitted i => (s.attempts[i]?).map fun a => (a.request.taskId, a.request.attemptId)
    | _ => none

end WorkerWorld

theorem WorkerAttempt.key_of_identity {a b : WorkerAttempt}
    (h : (a.request.taskId, a.request.attemptId) = (b.request.taskId, b.request.attemptId)) :
    a.key = b.key := by
  obtain ⟨htask, hattempt⟩ := Prod.mk.inj h
  rw [WorkerAttempt.key, WorkerAttempt.key, RemoteRequest.key, RemoteRequest.key, htask, hattempt]

variable {s : WorkerWorld}

theorem WorkerInv.assigned_of_submitted (hs : WorkerInv s) {i : Nat}
    (h : .submitted i ∈ s.events) : ∃ a, s.attempts[i]? = some a ∧ a.origin = .assigned := by
  obtain ⟨me, work, hlaunched⟩ := hs.submitted i h
  exact hs.launched me i work hlaunched

theorem WorkerInv.submissions_nodup (hs : WorkerInv s) : s.submissions.Nodup := by
  rw [submissions, List.Nodup, pairwise_filterMap]
  refine hs.submittedOnce.imp_of_mem fun {e e'} he he' hne => ?_
  intro identity hidentity identity' hidentity' hsame
  subst hsame
  split at hidentity
  · next i =>
    split at hidentity'
    · next j =>
      obtain ⟨a, ha, hao⟩ := hs.assigned_of_submitted he
      obtain ⟨b, hb, hbo⟩ := hs.assigned_of_submitted he'
      rw [ha] at hidentity
      rw [hb] at hidentity'
      -- one identity has one assigned attempt
      have hkey : a.key = b.key := WorkerAttempt.key_of_identity
        (some.inj (hidentity.trans hidentity'.symm))
      obtain rfl := hs.assigned i j a b ha hb hao hbo hkey
      exact hne i rfl rfl
    · cases hidentity'
  · cases hidentity

/-- An attempt its runtime may execute: it wrote the first record of the attempt, and has no
other one of it, hydrated ones included. -/
def WorkerWorld.Executable (s : WorkerWorld) (i : Nat) : Prop :=
  ∃ a, s.attempts[i]? = some a ∧ a.origin = .assigned ∧ ∀ (j : Nat) (b : WorkerAttempt),
    s.attempts[j]? = some b → b.worker = a.worker → b.key = a.key → b.Recorded → j = i

theorem WorkerInv.executable_of_submitted (hs : WorkerInv s) {i : Nat}
    (h : .submitted i ∈ s.events) : s.Executable i := by
  obtain ⟨a, ha, hao⟩ := hs.assigned_of_submitted h
  refine ⟨a, ha, hao, fun j b hb hw hk hr => hs.unique j i b a hb ha hr ?_ hw hk⟩
  rw [WorkerAttempt.Recorded, hao]
  exact AttemptOrigin.noConfusion

/-- **At most one execution.** Over every run, with any number of restarts, an identity is
submitted once. Once it has a record, be it expired, terminal or unfinished, no attempt of it
is created any more: only the one that wrote the record may be executed. -/
theorem WorkerRuntime.executions_at_most_once (platform : WorkerPlatform)
    {w w' : World WorkerWorld WorkerAnswer} (hr : (machine platform).Reachable w)
    (hsteps : Relation.ReflTransGen ((machine platform).StepVia fun _ _ _ => True) w w') :
    w.mem.submissions.Nodup ∧
    (∀ i, .submitted i ∈ w.mem.events → w.mem.Executable i) ∧
    (∀ l w₁, (machine platform).step w l = some w₁ → ∃ new, w₁.mem.events = new ++ w.mem.events ∧
      ∀ i, .submitted i ∈ new → .submitted i ∉ w.mem.events ∧
        ∃ a, w.mem.attempts[i]? = some a ∧ a.origin = .assigned ∧ a.state ≠ .terminal) ∧
    (∀ i a, .submitted i ∈ w'.mem.events → w'.mem.attempts[i]? = some a →
      w.mem.records a.key ≠ none → ∃ b, w.mem.attempts[i]? = some b ∧ b.origin = .assigned) := by
  have hinv := inv_of_reachable platform hr
  refine ⟨hinv.submissions_nodup, fun i => hinv.executable_of_submitted, fun l w₁ hstep => ?_,
    fun i a hi ha hrecord => ?_⟩
  · obtain ⟨new, hnew, hlaw⟩ := (law_of_step platform hr hstep).effects
    exact ⟨new, hnew, fun i hi => hlaw _ hi⟩
  · obtain ⟨b, hb, hbo⟩ := (inv_of_reachable platform
      (Machine.ReachableVia.of_steps hr hsteps)).assigned_of_submitted hi
    obtain rfl := some.inj (ha.symm.trans hb)
    rcases (grows_of_steps platform hr hsteps).assigned i a ha hbo with h | h
    · exact h
    · exact absurd h hrecord

theorem WorkerRuntime.executions_at_most_once_sample :
    ∃ w : World WorkerWorld WorkerAnswer, w.mem.submissions = [(sampleTask, sampleWorker)] ∧
      w.mem.submissions.Nodup ∧ ∀ i, .submitted i ∈ w.mem.events → w.mem.Executable i := by
  have hrun : ((machine samplePlatform).run ⟨.initial, []⟩ (assignSample ++ resumes 25 0)).map
      (fun w => w.mem.submissions) = some [(sampleTask, sampleWorker)] := by
    decide +kernel
  obtain ⟨w, hw, hsubmissions⟩ := map_eq_some_iff.mp hrun
  obtain ⟨hnodup, hexecutable, -⟩ := executions_at_most_once samplePlatform
    (.of_init_run ⟨rfl, rfl⟩ hw) .refl
  exact ⟨w, hsubmissions, hnodup, hexecutable⟩

/-! ## Sessions -/

namespace WorkerWorld

def attached (s : WorkerWorld) (me : Nat) : Option Nat := (s.workers me).attached

def Current (s : WorkerWorld) (me work : Nat) : Prop :=
  ∃ x, s.works[work]? = some x ∧ x.worker = me ∧ s.attached me = some x.session

end WorkerWorld

def WorkerEvent.work : WorkerEvent → Option (Nat × Nat)
  | .created me _ work => some (me, work)
  | .launched me _ work => some (me, work)
  | .cancelled me _ work => work.map fun work => (me, work)
  | .acknowledged me _ work => some (me, work)
  | _ => none

/-- Sessions change between messages: a runtime attaches another session only when no
message is being handled, and what comes in is of the session attached last. -/
def Unhurried (w : World WorkerWorld WorkerAnswer) (_ : Sched WorkerCall WorkerAnswer)
    (w' : World WorkerWorld WorkerAnswer) : Prop :=
  (∀ x ∈ w.mem.works, x.closed = false → w'.mem.attached x.worker = w.mem.attached x.worker) ∧
  ∀ x ∈ w'.mem.works.drop w.mem.works.length, w'.mem.attached x.worker = some x.session

instance (w : World WorkerWorld WorkerAnswer) (l : Sched WorkerCall WorkerAnswer)
    (w' : World WorkerWorld WorkerAnswer) : Decidable (Unhurried w l w') :=
  inferInstanceAs (Decidable (_ ∧ _))

/-- Work that is going on is for the session attached last. -/
def WorkerWorld.Fenced (s : WorkerWorld) : Prop :=
  ∀ (work : Nat) (x : WorkerWork), s.works[work]? = some x → x.closed = false →
    s.attached x.worker = some x.session

theorem WorkerWorld.Fenced.step {w w' : World WorkerWorld WorkerAnswer}
    {l : Sched WorkerCall WorkerAnswer} (h : w.mem.Fenced) (hlaw : WorkerLaw w.mem w'.mem)
    (hunhurried : Unhurried w l w') : w'.mem.Fenced := by
  intro work x' hx' hopen
  by_cases hnew : w.mem.works.length ≤ work
  · refine hunhurried.2 x' (mem_of_getElem? (i := work - w.mem.works.length) ?_)
    rw [getElem?_drop, Nat.add_sub_cancel' hnew]
    exact hx'
  have hx := getElem?_eq_getElem (Nat.lt_of_not_le hnew)
  obtain ⟨x'', hx'', hworker, hsession, hclosed⟩ := hlaw.grows.works work _ hx
  obtain rfl := some.inj (hx'.symm.trans hx'')
  have hstill : (w.mem.works.get ⟨work, Nat.lt_of_not_le hnew⟩).closed = false := by
    rw [Bool.eq_false_iff]
    intro h
    rw [hclosed h] at hopen
    cases hopen
  rw [hworker, hsession, hunhurried.1 _ (getElem_mem _) hstill]
  exact h work _ hx hstill

theorem WorkerWorld.Fenced.current (h : s.Fenced) {e : WorkerEvent}
    (he : EffectLaw s e) {me work : Nat} (hwork : e.work = some (me, work)) : s.Current me work := by
  have hcurrent : s.Working me work → s.Current me work := by
    rintro ⟨x, hx, hw, hopen⟩
    refine ⟨x, hx, hw, ?_⟩
    rw [← hw]
    exact h work x hx hopen
  cases e with
  | created _ _ _ | launched _ _ _ | acknowledged _ _ _ =>
    obtain ⟨rfl, rfl⟩ := Prod.mk.inj (some.inj hwork)
    exact hcurrent he
  | cancelled me' i work' =>
    obtain ⟨k, rfl, hk⟩ := map_eq_some_iff.mp hwork
    obtain ⟨rfl, rfl⟩ := Prod.mk.inj hk
    exact hcurrent he
  | submitted _ | reported _ _ _ | inventory _ _ _ | restored _ _ | ignored _ | replaced _ =>
    cases hwork

namespace WorkerWorld

/-- Attempts and results fit together. -/
structure Coherent (s : WorkerWorld) : Prop where
  buffered : ∀ me key i r, (key, i) ∈ s.entries me → s.buffered me key = some r →
    ∃ a, s.attempts[i]? = some a ∧ a.Settled r
  inventory : ∀ me unfinished terminal, .inventory me unfinished terminal ∈ s.events →
    ∀ key ∈ unfinished, key ∉ terminal
  reported : ∀ me key r r', .reported me key r ∈ s.events → .reported me key r' ∈ s.events → r = r'

end WorkerWorld

/-- No commit of an attempt that is not terminal ends once persistence is unavailable, and
no terminal attempt takes over another result from the store. -/
def Heeded (w : World WorkerWorld WorkerAnswer) (_ : Sched WorkerCall WorkerAnswer)
    (w' : World WorkerWorld WorkerAnswer) : Prop :=
  w.mem.Clean → w'.mem.Clean

theorem WorkerInv.coherent (hs : WorkerInv s) (hc : s.Clean) : s.Coherent where
  buffered me key i r hentry hbuffered := by
    obtain ⟨a, ha, rfl, rfl, hr⟩ := hs.entry me key i hentry
    exact ⟨a, ha, hs.bufferedResult hc i a r ha hr hbuffered⟩
  inventory := hs.inventory hc
  reported me key r r' h h' :=
    hs.reportable_unique (hs.reported hc me key r h) (hs.reported hc me key r' h')

/-- **Results are coherent** in runs whose commits all take effect: one result is reported of each
attempt. -/
theorem WorkerRuntime.results_coherent (platform : WorkerPlatform)
    {w : World WorkerWorld WorkerAnswer} (hr : (machine platform).ReachableVia Heeded w) :
    w.mem.Coherent := by
  have hclean : w.mem.Clean := by
    refine hr.invariant (I := fun w => w.mem.Clean) ?_ fun w l w' _ h _ hheeded => hheeded h
    rintro w ⟨hw, -⟩ i
    rw [hw]
    exact ⟨not_mem_nil, not_mem_nil⟩
  exact (inv_of_reachable platform hr.reachable).coherent hclean

/-- The commits of a run have all taken effect. -/
def WorkerRuntime.allHeeded (w : World WorkerWorld WorkerAnswer) : Bool :=
  w.mem.events.all fun event => match event with
    | .ignored _ | .replaced _ => false
    | _ => true

theorem WorkerRuntime.heeded_of_allHeeded (w : World WorkerWorld WorkerAnswer)
    (l : Sched WorkerCall WorkerAnswer) (w' : World WorkerWorld WorkerAnswer)
    (h : allHeeded w' = true) : Heeded w l w' := by
  have hall := List.all_eq_true.mp h
  refine fun _ i => ⟨fun hi => ?_, fun hi => ?_⟩
  · cases hall _ hi
  · cases hall _ hi

theorem WorkerRuntime.results_coherent_sample :
    ∃ w : World WorkerWorld WorkerAnswer, w.mem.events.length = 5 ∧ w.mem.Coherent := by
  have hrun : ((machine samplePlatform).runVia (fun _ _ w' => allHeeded w') ⟨.initial, []⟩
      (assignSample ++ resumes 32 0 ++ resumes 11 1 ++ resumes 5 2 ++
        .call (.publication 0) :: resumes 2 2)).map (fun w => w.mem.events.length) = some 5 := by
    decide +kernel
  obtain ⟨w, hw, hlength⟩ := map_eq_some_iff.mp hrun
  exact ⟨w, hlength, results_coherent samplePlatform (.of_steps (.init ⟨rfl, rfl⟩)
    (Machine.steps_of_runVia heeded_of_allHeeded hw))⟩

/-- While the attempt is being committed, the store fails for another assignment; the commit
then has no effect, but its result is buffered. -/
def WorkerRuntime.ignoredCommit : List (Sched WorkerCall WorkerAnswer) :=
  assignSample ++ resumes 32 0 ++ resumes 1 1 ++
    .call (.message 0 0 (.assign (some (sampleRequest otherTask)))) ::
      (resumes 11 2 ++ .resume 2 { sampleAnswer with outcome := .failed false } :: resumes 3 2 ++
        resumes 10 1 ++ resumes 3 2 ++ .call (.message 0 0 .inventory) :: resumes 7 3)

/-- **A commit without effect.** -/
theorem WorkerRuntime.ignoredCommit_incoherent :
    ¬ ∀ w : World WorkerWorld WorkerAnswer, (machine samplePlatform).Reachable w →
      w.mem.Coherent := by
  intro hlaw
  have hrun : ((machine samplePlatform).run ⟨.initial, []⟩ ignoredCommit).map
      (fun w => w.mem.events.findSome? fun event => match event with
        | .inventory me unfinished terminal => some (me, unfinished, terminal)
        | _ => none) = some (some (0, [(sampleRequest sampleTask).key],
          [(sampleRequest sampleTask).key])) := by
    decide +kernel
  obtain ⟨w, hw, hfound⟩ := map_eq_some_iff.mp hrun
  obtain ⟨e, he, hevent⟩ := exists_of_findSome?_eq_some hfound
  split at hevent
  · next me unfinished terminal =>
    simp only [some.injEq, Prod.mk.injEq] at hevent
    obtain ⟨rfl, rfl, rfl⟩ := hevent
    exact (hlaw w (.of_init_run ⟨rfl, rfl⟩ hw)).inventory _ _ _ he _ (mem_singleton_self _)
      (mem_singleton_self _)
  · cases hevent

end TegoNext
