/-
The leadership controller: it campaigns, tells its owner what it has acquired and lost, and
releases what it holds when it is stopped.

A race that both sides may have won is decided either way. The calls of `onAcquired` and `onLost`
come in pairs, and every handle is lost, released or in the hands of the loop, whenever callbacks
fail, leadership is lost and `stop` is called. A `stop` before `start` stops nothing
(`stop_before_start`).
-/
import TegoNext.Machine
import TegoNext.TaskRecord

set_option autoImplicit false

namespace TegoNext

/-- What `parseLeadership` makes of the leadership, whether `lost` has settled, and whether
`release` was called. -/
structure LeadershipHandle where
  leadership : Option RuntimeAuthority
  lost : Bool
  released : Bool

inductive CallbackCall where
  | onAcquired (leadership : RuntimeAuthority)
  | onLost (leadership : RuntimeAuthority)
  deriving DecidableEq

inductive Campaign where
  | pending
  | fulfilled (handle : Nat)
  | rejected

inductive LossReason where
  | callbackFailed
  | shutdown
  | lost

/-- What `#run` waits for. -/
inductive CampaignLoop where
  | idle
  | campaigning (campaign : Campaign)
  | acquiring (handle : Nat) (leadership : RuntimeAuthority)
  | holding (handle : Nat) (leadership : RuntimeAuthority)
  | losing (handle : Nat) (leadership : RuntimeAuthority) (reason : LossReason)
  | releasing (reason : LossReason) (errors : Bool)
  | releasingInvalid
  | backoff
  | ended

/-- `late` is the campaign that a stop has overtaken; `idleStop` and `stopReturned` say that a
`stop` has settled that was called before `start`, or after it. -/
structure LeadershipController where
  resource : JsString
  running : Bool
  stopped : Bool
  loop : CampaignLoop
  late : Campaign
  handles : List LeadershipHandle
  calls : List CallbackCall
  idleStop : Bool
  stopReturned : Bool

namespace LeadershipController

inductive ControllerStep where
  | start
  | stop
  | stopReturns
  | campaignFulfilled (leadership : Option RuntimeAuthority)
  | campaignRejected
  | raceCampaign
  | raceStopped
  | acquiredReturns (ok : Bool)
  /-- `lost` settles, in either way. -/
  | lostSettles (handle : Nat)
  | raceLost
  | lostReturns (ok : Bool)
  | releaseReturns (ok : Bool)
  | sleepReturns (ok : Bool)
  | lateFulfilled (leadership : Option RuntimeAuthority)
  | lateRelease

section

variable (s : LeadershipController)

def endLoop : LeadershipController :=
  { s with running := false, loop := .ended }

/-- A round, or a `#backoff`, begins if the controller still runs. -/
def proceed (loop : CampaignLoop) : LeadershipController :=
  if s.running then { s with loop } else s.endLoop

def release (handle : Nat) : LeadershipController :=
  { s with handles := s.handles.modify handle ({ · with released := true }) }

def notifyLost (handle : Nat) (leadership : RuntimeAuthority)
    (reason : LossReason) : LeadershipController :=
  { s with calls := s.calls ++ [.onLost leadership], loop := .losing handle leadership reason }

def validateLeadership (handle : Nat) : Option RuntimeAuthority :=
  (s.handles[handle]?.bind LeadershipHandle.leadership).filter fun leadership =>
    leadership.resource = s.resource

def step : ControllerStep → Option LeadershipController
  | .start =>
    match s.loop with
    | .idle => some { s with running := true, loop := .campaigning .pending }
    | _ => some s
  | .stop =>
    match s.loop with
    | .idle => some { s with idleStop := true }
    | _ =>
      if s.running then some { s with running := false, stopped := true }
      else some s
  | .stopReturns =>
    match s.loop with
    | .ended => some { s with stopReturned := true }
    | _ => none
  | .campaignFulfilled leadership =>
    match s.loop with
    | .campaigning .pending => some { s with
        handles := s.handles ++ [⟨leadership, false, false⟩]
        loop := .campaigning (.fulfilled s.handles.length) }
    | _ => none
  | .campaignRejected =>
    match s.loop with
    | .campaigning .pending => some { s with loop := .campaigning .rejected }
    | _ => none
  | .raceCampaign =>
    match s.loop with
    | .campaigning .rejected => some (s.proceed .backoff)
    | .campaigning (.fulfilled handle) =>
      match s.validateLeadership handle with
      | none => some { s.release handle with loop := .releasingInvalid }
      | some leadership => some { s with
          calls := s.calls ++ [.onAcquired leadership]
          loop := .acquiring handle leadership }
    | _ => none
  | .raceStopped =>
    if s.stopped then
      match s.loop with
      | .campaigning campaign => some { s.endLoop with late := campaign }
      | .holding handle leadership => some (s.notifyLost handle leadership .shutdown)
      | _ => none
    else none
  | .acquiredReturns ok =>
    match s.loop with
    | .acquiring handle leadership =>
      if ok then
        if s.running then some { s with loop := .holding handle leadership }
        else some (s.notifyLost handle leadership .shutdown)
      else some (s.notifyLost handle leadership .callbackFailed)
    | _ => none
  | .lostSettles handle =>
    some { s with handles := s.handles.modify handle ({ · with lost := true }) }
  | .raceLost =>
    match s.loop with
    | .holding handle leadership =>
      if s.handles[handle]?.any LeadershipHandle.lost then
        some (s.notifyLost handle leadership .lost)
      else none
    | _ => none
  | .lostReturns ok =>
    match s.loop with
    | .losing _ _ .lost => some (if ok then s.proceed (.campaigning .pending) else s.endLoop)
    | .losing handle _ reason => some { s.release handle with loop := .releasing reason (!ok) }
    | _ => none
  | .releaseReturns ok =>
    match s.loop with
    | .releasing .callbackFailed false => some (if ok then s.proceed .backoff else s.endLoop)
    | .releasing _ _ | .releasingInvalid => some s.endLoop
    | _ => none
  | .sleepReturns ok =>
    match s.loop with
    | .backoff => some (if ok then s.proceed (.campaigning .pending) else s.endLoop)
    | _ => none
  | .lateFulfilled leadership =>
    match s.late with
    | .pending => some { s with
        handles := s.handles ++ [⟨leadership, false, false⟩]
        late := .fulfilled s.handles.length }
    | _ => none
  | .lateRelease =>
    match s.late with
    | .fulfilled handle => some { s.release handle with late := .rejected }
    | _ => none

end

def new (resource : JsString) : LeadershipController where
  resource := resource
  running := false
  stopped := false
  loop := .idle
  late := .rejected
  handles := []
  calls := []
  idleStop := false
  stopReturned := false

def machine : Machine LeadershipController ControllerStep where
  Init s := ∃ resource, s = new resource
  step := step

/-! ## What holds of a controller -/

def InHand (s : LeadershipController) (handle : Nat) : Prop :=
  s.late = .fulfilled handle ∨
    match s.loop with
    | .campaigning (.fulfilled held) | .acquiring held _ | .holding held _
    | .losing held _ .callbackFailed | .losing held _ .shutdown => held = handle
    | _ => False

def Disposed (handles : List LeadershipHandle) (held : Nat → Prop) : Prop :=
  ∀ i handle, handles[i]? = some handle → handle.lost = true ∨ handle.released = true ∨ held i

/-- The calls for leaderships that were acquired and lost. -/
def pairs (past : List RuntimeAuthority) : List CallbackCall :=
  past.flatMap fun leadership => [.onAcquired leadership, .onLost leadership]

/-- The calls alternate, each pair with one leadership; at most one is active. A handle in nobody's
hands is lost or released. Once a `stop` after `start` has settled, no callback is called. -/
structure Lawful (s : LeadershipController) : Prop where
  alternate : ∃ past, ∃ active : Option RuntimeAuthority,
    s.calls = pairs past ++ active.toList.map .onAcquired
  disposed : Disposed s.handles s.InHand
  silent : s.stopReturned = true → (∃ past, s.calls = pairs past) ∧
    ∀ es s', machine.run s es = some s' → s'.calls = s.calls

/-! ## Handles -/

variable {handles : List LeadershipHandle} {held held' : Nat → Prop}

theorem Disposed.mono (h : Disposed handles held) (hheld : ∀ i, held i → held' i) :
    Disposed handles held' :=
  fun i handle hi => (h i handle hi).imp_right fun hrest => hrest.imp_right (hheld i)

theorem Disposed.append (h : Disposed handles held) (handle : LeadershipHandle)
    (hheld : ∀ i, held i → held' i) (hlast : held' handles.length) :
    Disposed (handles ++ [handle]) held' := by
  intro i other hi
  rcases getElem?_concat_cases hi with hi | ⟨rfl, -⟩
  · exact h.mono hheld i other hi
  · exact .inr (.inr hlast)

theorem Disposed.modify (h : Disposed handles held) (i : Nat)
    {f : LeadershipHandle → LeadershipHandle}
    (hf : ∀ handle, (f handle).lost = true ∨ (f handle).released = true)
    (hheld : ∀ j, held j → j ≠ i → held' j) : Disposed (handles.modify i f) held' := by
  intro j other hj
  rw [List.getElem?_modify] at hj
  obtain ⟨handle, hhandle, rfl⟩ := Option.map_eq_some_iff.mp hj
  by_cases hij : i = j
  · rw [if_pos hij]
    exact (hf handle).imp_right .inl
  · rw [if_neg hij]
    exact (h j handle hhandle).imp_right fun hrest =>
      hrest.imp_right fun hheldj => hheld j hheldj (Ne.symm hij)

/-- A handle that is lost may be put down. -/
theorem Disposed.lost (h : Disposed handles held) {i : Nat}
    (hi : handles[i]?.any LeadershipHandle.lost = true) (hheld : ∀ j, held j → j ≠ i → held' j) :
    Disposed handles held' := by
  intro j handle hj
  by_cases hij : j = i
  · subst hij
    rw [hj] at hi
    exact .inl hi
  · exact (h j handle hj).imp_right fun hrest => hrest.imp_right fun hheldj => hheld j hheldj hij

/-! ## The invariant -/

variable {s s' : LeadershipController}

/-- The leadership that was acquired and is not lost yet. -/
def active (s : LeadershipController) : Option RuntimeAuthority :=
  match s.loop with
  | .acquiring _ leadership | .holding _ leadership => some leadership
  | _ => none

structure ControllerInv (s : LeadershipController) : Prop where
  alternate : ∃ past, s.calls = pairs past ++ s.active.toList.map .onAcquired
  disposed : Disposed s.handles s.InHand

theorem ControllerInv.of_same (h : ControllerInv s) (hcalls : s'.calls = s.calls)
    (hactive : s'.active = s.active) (hdisposed : Disposed s'.handles s'.InHand) :
    ControllerInv s' := by
  refine ⟨?_, hdisposed⟩
  rw [hcalls, hactive]
  exact h.alternate

/-- What was acquired is lost. -/
theorem ControllerInv.notifyLost (h : ControllerInv s) {handle : Nat}
    {leadership : RuntimeAuthority} (hactive : s.active = some leadership) {reason : LossReason}
    (hdisposed : Disposed s.handles (s.notifyLost handle leadership reason).InHand) :
    ControllerInv (s.notifyLost handle leadership reason) := by
  obtain ⟨past, hpast⟩ := h.alternate
  refine ⟨⟨past ++ [leadership], ?_⟩, hdisposed⟩
  rw [hactive] at hpast
  simp [LeadershipController.notifyLost, active, pairs, hpast]

/-- What ends, or begins again, when the loop has nothing in its hands. -/
theorem ControllerInv.proceed (h : ControllerInv s) (hactive : s.active = none)
    (hheld : ∀ i, s.InHand i → s.late = .fulfilled i) {loop : CampaignLoop}
    (hloop : { s with loop }.active = none) (ok : Bool) :
    ControllerInv (if ok then s.proceed loop else s.endLoop) := by
  have hdisposed (held : Nat → Prop) : Disposed s.handles fun i => s.late = .fulfilled i ∨ held i :=
    h.disposed.mono fun i hi => .inl (hheld i hi)
  unfold LeadershipController.proceed
  repeat' split
  · exact h.of_same rfl (hloop.trans hactive.symm) (hdisposed _)
  · exact h.of_same rfl hactive.symm (hdisposed _)
  · exact h.of_same rfl hactive.symm (hdisposed _)

/-- Only an ended loop has left a campaign behind, or lets a `stop` settle. -/
def Over (s : LeadershipController) : Prop :=
  s.stopReturned = true ∨ s.late ≠ .rejected → s.loop = .ended

theorem over_step {e : ControllerStep} (h : Over s) (hstep : step s e = some s') : Over s' := by
  unfold Over at h ⊢
  cases e <;> simp only [step, proceed, endLoop, release, notifyLost] at hstep <;>
    repeat' split at hstep
  all_goals simp_all
  all_goals cases hstep
  all_goals simp_all

/-- An ended loop stays ended, and calls nobody. -/
theorem ended_step {e : ControllerStep} (h : s.loop = .ended) (hstep : step s e = some s') :
    s'.loop = .ended ∧ s'.calls = s.calls := by
  cases e <;> simp only [step, release, h] at hstep <;> repeat' split at hstep
  all_goals simp_all
  all_goals cases hstep
  all_goals simp_all

/-- **One step** keeps the calls in pairs and loses no handle. -/
theorem ControllerInv.step {e : ControllerStep} (h : ControllerInv s) (hover : Over s)
    (hstep : LeadershipController.step s e = some s') : ControllerInv s' := by
  cases e with
  | start | stop | stopReturns | campaignRejected =>
    simp only [LeadershipController.step] at hstep
    have hsame : s'.calls = s.calls ∧ s'.active = s.active ∧ s'.handles = s.handles ∧
        ∀ i, s.InHand i → s'.InHand i := by
      (repeat' split at hstep) <;> cases hstep <;> simp_all [active, InHand]
    exact h.of_same hsame.1 hsame.2.1 (hsame.2.2.1 ▸ h.disposed.mono hsame.2.2.2)
  | campaignFulfilled leadership =>
    simp only [LeadershipController.step] at hstep
    split at hstep <;> cases hstep
    next hloop =>
      refine h.of_same rfl (by simp [active, hloop])
        (h.disposed.append _ (fun i hi => ?_) (.inr rfl))
      simp only [InHand, hloop, or_false] at hi
      exact .inl hi
  | raceCampaign =>
    simp only [LeadershipController.step] at hstep
    split at hstep
    · next hloop =>
      cases hstep
      exact h.proceed (by simp [active, hloop]) (fun i hi => by simpa [InHand, hloop] using hi)
        rfl true
    · next handle hloop =>
      have hnone : s.active = none := by simp [active, hloop]
      split at hstep <;> cases hstep
      · -- the leadership is not valid: the handle is released
        refine h.of_same rfl hnone.symm (h.disposed.modify handle (fun _ => .inr rfl) ?_)
        intro j hj hne
        simp only [InHand, hloop] at hj
        exact .inl (hj.resolve_right fun heq => hne heq.symm)
      · next leadership _ =>
        obtain ⟨past, hpast⟩ := h.alternate
        refine ⟨⟨past, ?_⟩, h.disposed.mono fun i hi => by simpa [InHand, hloop] using hi⟩
        rw [hnone] at hpast
        simp [active, hpast]
    · cases hstep
  | raceStopped =>
    simp only [LeadershipController.step] at hstep
    split at hstep
    · split at hstep <;> cases hstep
      · next campaign hloop =>
        have hlate : s.late = .rejected := by
          by_contra hne
          rw [hover (.inr hne)] at hloop
          cases hloop
        refine h.of_same rfl (by simp [active, hloop, endLoop]) (h.disposed.mono fun i hi => ?_)
        simp only [InHand, hloop, hlate, reduceCtorEq, false_or] at hi
        split at hi
        · next heq =>
          cases heq
          exact .inl (congrArg _ hi)
        all_goals simp_all
      · next handle leadership hloop =>
        refine h.notifyLost (by simp [active, hloop]) (h.disposed.mono fun i hi => ?_)
        simpa [InHand, hloop, LeadershipController.notifyLost] using hi
    · cases hstep
  | acquiredReturns ok =>
    simp only [LeadershipController.step] at hstep
    split at hstep
    · next handle leadership hloop =>
      have hactive : s.active = some leadership := by simp [active, hloop]
      have hlost {reason : LossReason} (hreason : reason ≠ .lost) :
          ControllerInv (s.notifyLost handle leadership reason) := by
        refine h.notifyLost hactive (h.disposed.mono fun i hi => ?_)
        cases reason <;> simp_all [InHand, LeadershipController.notifyLost]
      split at hstep
      · split at hstep <;> cases hstep
        · refine h.of_same rfl hactive.symm (h.disposed.mono fun i hi => ?_)
          simpa [InHand, hloop] using hi
        · exact hlost nofun
      · cases hstep
        exact hlost nofun
    · cases hstep
  | lostSettles handle =>
    cases hstep
    exact h.of_same rfl rfl (h.disposed.modify handle (fun _ => .inl rfl) fun _ hj _ => hj)
  | raceLost =>
    simp only [LeadershipController.step] at hstep
    split at hstep
    · next handle leadership hloop =>
      split at hstep <;> cases hstep
      next hlost =>
        refine h.notifyLost (by simp [active, hloop]) (h.disposed.lost hlost fun j hj hne => ?_)
        simp only [InHand, hloop] at hj
        exact .inl (hj.resolve_right fun heq => hne heq.symm)
    · cases hstep
  | lostReturns ok =>
    simp only [LeadershipController.step] at hstep
    split at hstep <;> cases hstep
    · next hloop =>
      exact h.proceed (by simp [active, hloop]) (fun i hi => by simpa [InHand, hloop] using hi)
        rfl ok
    · next handle leadership reason hreason hloop =>
      refine h.of_same rfl (by simp [active, hloop])
        (h.disposed.modify handle (fun _ => .inr rfl) ?_)
      intro j hj hne
      have hother : handle ≠ j := Ne.symm hne
      cases reason <;> simp_all [InHand, LeadershipController.release]
  | releaseReturns ok =>
    simp only [LeadershipController.step] at hstep
    split at hstep <;> cases hstep
    all_goals next hloop =>
      have hactive : s.active = none := by simp [active, hloop]
      have hheld : ∀ i, s.InHand i → s.late = .fulfilled i := fun i hi => by
        simpa [InHand, hloop] using hi
      first
      | exact h.proceed hactive hheld rfl ok
      | exact h.proceed hactive hheld (show { s with loop := .ended }.active = none from rfl) false
  | sleepReturns ok =>
    simp only [LeadershipController.step] at hstep
    split at hstep <;> cases hstep
    next hloop =>
      exact h.proceed (by simp [active, hloop]) (fun i hi => by simpa [InHand, hloop] using hi)
        rfl ok
  | lateFulfilled leadership =>
    simp only [LeadershipController.step] at hstep
    split at hstep <;> cases hstep
    next hlate =>
      refine h.of_same rfl rfl (h.disposed.append _ (fun i hi => ?_) (.inl rfl))
      simp only [InHand, hlate, reduceCtorEq, false_or] at hi
      exact .inr hi
  | lateRelease =>
    simp only [LeadershipController.step] at hstep
    split at hstep <;> cases hstep
    next handle hlate =>
      refine h.of_same rfl rfl (h.disposed.modify handle (fun _ => .inr rfl) ?_)
      intro j hj hne
      simp only [InHand, hlate, Campaign.fulfilled.injEq] at hj
      exact .inr (hj.resolve_left (Ne.symm hne))

/-! ## Whole runs -/

theorem calls_run {es : List ControllerStep} (h : s.loop = .ended)
    (hrun : machine.run s es = some s') : s'.calls = s.calls := by
  induction es generalizing s with
  | nil =>
    cases hrun
    rfl
  | cons e es ih =>
    obtain ⟨t, hstep, hrest⟩ := Option.bind_eq_some_iff.mp hrun
    obtain ⟨hloop, hcalls⟩ := ended_step h hstep
    rw [ih hloop hrest, hcalls]

theorem reachable_inv (hr : machine.Reachable s) : ControllerInv s ∧ Over s := by
  refine Machine.ReachableVia.invariant (I := fun s => ControllerInv s ∧ Over s) ?_
    (fun _ _ _ _ h hstep _ => ⟨h.1.step h.2 hstep, over_step h.2 hstep⟩) hr
  rintro s ⟨resource, rfl⟩
  refine ⟨⟨⟨[], rfl⟩, nofun⟩, ?_⟩
  rintro (hstop | hlate)
  · cases hstop
  · exact absurd rfl hlate

/-- **What is acquired is lost or released, and said to be**, in every run. -/
theorem controller_lawful (hr : machine.Reachable s) : Lawful s := by
  obtain ⟨hinv, hover⟩ := reachable_inv hr
  obtain ⟨past, hpast⟩ := hinv.alternate
  refine ⟨⟨past, s.active, hpast⟩, hinv.disposed, fun hstop => ?_⟩
  have hended := hover (.inl hstop)
  refine ⟨⟨past, ?_⟩, fun es s' hrun => calls_run hended hrun⟩
  rw [active, hended] at hpast
  simpa using hpast

/-! ## Runs -/

def sampleLeadership : RuntimeAuthority := ⟨[109], 1⟩

/-- Leadership is acquired and lost, and the next campaign is overtaken by a stop. -/
theorem controller_lawful_stopped : ∃ s, machine.run (new [109]) [.start,
    .campaignFulfilled (some sampleLeadership), .raceCampaign, .acquiredReturns true,
    .lostSettles 0, .raceLost, .lostReturns true, .stop, .raceStopped, .stopReturns] = some s ∧
    Lawful s := by
  obtain ⟨s, hs⟩ : ∃ s, machine.run (new [109]) [.start, .campaignFulfilled (some sampleLeadership),
      .raceCampaign, .acquiredReturns true, .lostSettles 0, .raceLost, .lostReturns true, .stop,
      .raceStopped, .stopReturns] = some s := ⟨_, rfl⟩
  exact ⟨s, hs, controller_lawful (.of_init_run ⟨_, rfl⟩ hs)⟩

/-- A controller that was stopped before it was started acquires leadership. -/
theorem stop_before_start : ¬ ∀ s, machine.Reachable s → s.idleStop = true →
    ∀ es s', machine.run s es = some s' → s'.calls = s.calls := by
  intro hall
  have hstop : machine.Reachable { new [109] with idleStop := true } :=
    .of_init_run ⟨[109], rfl⟩ (show machine.run (new [109]) [.stop] = _ from rfl)
  have hcalls := hall _ hstop rfl [.start, .campaignFulfilled (some sampleLeadership),
    .raceCampaign] _ rfl
  cases hcalls

end LeadershipController

end TegoNext
