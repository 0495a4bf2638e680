/-
Deadlines of the hooks of a component.

A hook of the plugin races against a signal, which is aborted by the deadline and, of a run, by a
cancellation. The deadline is armed before the race listens to the signal, and a listener that
comes late hears nothing. So a deadline that is past when it is armed aborts the signal in vain.
-/
import TegoNext.Machine
import TegoNext.Text

set_option autoImplicit false

namespace TegoNext

open Text

/-- Who races: `#executeRun`, `#invokeCapability`, or `#invokeHook` of a hook. -/
inductive HookKind where
  | run
  | capability
  | hook (name : JsString)
  deriving DecidableEq

inductive RunCancellation where
  | cancelled
  | timedOut
  deriving DecidableEq

inductive HookOutcome (Value : Type) where
  | value (value : Value)
  | error (error : Value)
  | aborted
  deriving DecidableEq

/-- What the clock was asked to call. -/
inductive DeadlineCallback where
  | schedule
  | onDeadline
  deriving DecidableEq

/-- One race. A clock may call what it was given more than once, and after its timer is
cancelled. -/
structure HookRace (Value : Type) where
  armed : Bool
  cleared : Bool
  timer : Option DeadlineCallback
  aborted : Bool
  cancellation : Option RunCancellation
  /-- The race is set up, and the hook called. -/
  listening : Bool
  /-- The promise of the hook is settled. -/
  completed : Bool
  outcome : Option (HookOutcome Value)
  /-- The signal was aborted before the hook completed. -/
  interrupted : Bool
  deriving DecidableEq

inductive HookLabel (Value : Type) where
  | arm (now : Int)
  | timer (now : Int)
  | listen
  | settled (outcome : Except Value Value)
  | cancel
  | resumed

namespace HookRace

variable {Value : Type} (kind : HookKind) (deadline now : Int) (s : HookRace Value)

def new : HookRace Value := ⟨false, false, none, false, none, false, false, none, false⟩

/-- `controller.abort`: the listener is called once, if it is there. -/
def abort : HookRace Value :=
  if s.aborted then s
  else { s with
    aborted := true
    interrupted := !s.completed
    outcome := if s.listening then s.outcome.or (some .aborted) else s.outcome }

def onDeadline : HookRace Value :=
  abort (if kind = .run then { s with cancellation := some .timedOut } else s)

/-- `schedule` of `armDeadline`; the bound is `MAX_TIMER_DELAY`. -/
def schedule : HookRace Value :=
  if s.cleared then s
  else if deadline - now ≤ 0 then s.onDeadline kind
  else { s with timer := some (if deadline - now > 2147483647 then .schedule else .onDeadline) }

def step : HookLabel Value → Option (HookRace Value)
  | .arm now => if s.armed then none else some ({ s with armed := true }.schedule kind deadline now)
  | .timer now =>
    match s.timer with
    | none => none
    | some .schedule => some (s.schedule kind deadline now)
    | some .onDeadline => some (s.onDeadline kind)
  | .listen => if s.armed && !s.listening then some { s with listening := true } else none
  | .settled outcome =>
    if s.listening && !s.completed then
      some { s with
        completed := true
        outcome := s.outcome.or (some (match outcome with
          | .ok value => .value value
          | .error error => .error error)) }
    else none
  | .cancel =>
    -- `#cancel`: of a run that is registered and not aborted
    if kind = .run ∧ s.listening ∧ s.aborted = false then
      some (abort { s with cancellation := some .cancelled })
    else none
  | .resumed => if s.outcome.isSome then some { s with cleared := true } else none

def machine : Machine (HookRace Value) (HookLabel Value) where
  Init s := s = new
  step s l := s.step kind deadline l

/-- The result of the hook: the status of a run, its output, or what is thrown. -/
inductive HookResult (Value : Type) where
  | status (cancellation : RunCancellation)
  | succeeded (value : Value)
  | thrown (error : Value)
  | exceeded (message : JsString)
  deriving DecidableEq

def result : Option (HookResult Value) :=
  s.outcome.map fun outcome =>
    match outcome, kind with
    | .value value, _ => .succeeded value
    | .error error, _ => .thrown error
    | .aborted, .run => .status (s.cancellation.getD .cancelled)
    | .aborted, .capability =>
      .exceeded (js "Component invokeCapability hook exceeded its deadline")
    | .aborted, .hook name =>
      .exceeded (js "Component " ++ name ++ js " hook exceeded its deadline")

def fires : HookLabel Value → Bool
  | .arm now => deadline - now ≤ 0
  | .timer now => s.timer = some .onDeadline || s.timer = some .schedule && deadline - now ≤ 0
  | _ => false

/-! ## What a race keeps -/

/-- Who was aborted in time has lost the race, to the signal. -/
structure Kept (s : HookRace Value) : Prop where
  unheard : s.listening = false → s.aborted = false
  lost : s.interrupted = true → s.outcome = some .aborted
  quiet : s.aborted = false → s.interrupted = false
  running : s.completed = false → s.aborted = false → s.outcome = none

variable {kind deadline now s}

theorem Kept.abort (h : s.Kept) (hlistening : s.listening = true) : s.abort.Kept := by
  unfold HookRace.abort
  by_cases haborted : s.aborted = true
  · rw [if_pos haborted]
    exact h
  rw [if_neg haborted, if_pos hlistening]
  rw [Bool.not_eq_true] at haborted
  refine ⟨fun hnot => ?_, fun hnot => ?_, nofun, nofun⟩
  · rw [hlistening] at hnot
    cases hnot
  · have hrunning : s.completed = false := by simpa using hnot
    rw [h.running hrunning haborted]
    rfl

theorem Kept.cancellation (h : s.Kept) (value : Option RunCancellation) :
    { s with cancellation := value }.Kept :=
  ⟨h.unheard, h.lost, h.quiet, h.running⟩

theorem Kept.onDeadline (h : s.Kept) (hlistening : s.listening = true) :
    (s.onDeadline kind).Kept := by
  unfold HookRace.onDeadline
  split
  · exact (h.cancellation _).abort hlistening
  · exact h.abort hlistening

theorem Kept.schedule (h : s.Kept) (hfires : s.listening = false → ¬deadline - now ≤ 0) :
    (s.schedule kind deadline now).Kept := by
  unfold HookRace.schedule
  split
  · exact h
  split
  · next hpast =>
    refine h.onDeadline ?_
    by_contra hnot
    exact hfires (Bool.not_eq_true _ ▸ hnot) hpast
  · exact ⟨h.unheard, h.lost, h.quiet, h.running⟩

theorem Kept.step {s' : HookRace Value} {l : HookLabel Value} (h : s.Kept)
    (hstep : s.step kind deadline l = some s')
    (hfires : s.listening = false → s.fires deadline l = false) : s'.Kept := by
  cases l with
  | arm now =>
    rw [HookRace.step] at hstep
    split at hstep
    · cases hstep
    · cases hstep
      have harmed : { s with armed := true }.Kept := ⟨h.unheard, h.lost, h.quiet, h.running⟩
      exact harmed.schedule fun hnot => of_decide_eq_false (hfires hnot)
  | timer now =>
    unfold HookRace.step at hstep
    dsimp only at hstep
    split at hstep
    · cases hstep
    · next htimer =>
      cases hstep
      refine h.schedule fun hnot hpast => ?_
      have hquiet := hfires hnot
      rw [fires, htimer, decide_eq_true hpast] at hquiet
      cases hquiet
    · next htimer =>
      cases hstep
      refine h.onDeadline (Bool.of_not_eq_false fun hnot => ?_)
      have hquiet := hfires hnot
      rw [fires, htimer] at hquiet
      cases hquiet
  | listen =>
    rw [HookRace.step] at hstep
    split at hstep
    · cases hstep
      exact ⟨nofun, h.lost, h.quiet, h.running⟩
    · cases hstep
  | settled outcome =>
    unfold HookRace.step at hstep
    dsimp only at hstep
    split at hstep
    · cases hstep
      refine ⟨h.unheard, fun hlost => ?_, h.quiet, nofun⟩
      rw [h.lost hlost]
      rfl
    · cases hstep
  | cancel =>
    rw [HookRace.step] at hstep
    split at hstep
    · next hrun =>
      cases hstep
      exact (h.cancellation _).abort hrun.2.1
    · cases hstep
  | resumed =>
    rw [HookRace.step] at hstep
    split at hstep
    · cases hstep
      exact ⟨h.unheard, h.lost, h.quiet, h.running⟩
    · cases hstep

/-- **Who is aborted before the hook completes ends as aborted**, in every run in which the
deadline does not fire while it is armed. -/
theorem aborted_of_interrupted
    (h : (machine kind deadline).ReachableVia
      (fun s l _ => s.listening = false → s.fires deadline l = false) s)
    (hinterrupted : s.interrupted = true) :
    s.outcome = some .aborted ∧ ∃ result, s.result kind = some result ∧
      ∀ value, result ≠ .succeeded value := by
  have hkept : s.Kept := by
    refine h.invariant (fun s hinit => ?_) fun s l s' _ hs hstep hfires => hs.step hstep hfires
    rw [show s = new from hinit]
    exact ⟨fun _ => rfl, nofun, fun _ => rfl, fun _ _ => rfl⟩
  have houtcome := hkept.lost hinterrupted
  refine ⟨houtcome, ?_⟩
  rw [result, houtcome]
  cases kind <;> exact ⟨_, rfl, nofun⟩

/-- A deadline that fires after the race is set up. -/
theorem aborted_of_interrupted_later :
    ∃ s : HookRace Nat, (machine .run 5).run new [.arm 0, .listen, .timer 5] = some s ∧
      s.outcome = some .aborted := by
  have hnew : (machine .run 5).ReachableVia (fun (s : HookRace Nat) l _ =>
      s.listening = false → s.fires 5 l = false) new := .init rfl
  have harmed := @Machine.ReachableVia.step _ _ _ _ _ _ (.arm 0) hnew rfl fun _ => rfl
  have hlistening := @Machine.ReachableVia.step _ _ _ _ _ _ .listen harmed rfl fun _ => rfl
  have hfired := @Machine.ReachableVia.step _ _ _ _ _ _ (.timer 5) hlistening rfl nofun
  exact ⟨_, rfl, (aborted_of_interrupted hfired rfl).1⟩

/-- A deadline that is past when it is armed: the run succeeds, and waited for the plugin. -/
theorem interrupted_succeeds :
    ¬∀ (labels : List (HookLabel Nat)) (s : HookRace Nat),
      (machine .run 5).run new labels = some s → s.listening = true → s.interrupted = true →
        s.outcome = some .aborted := by
  intro h
  have hwaits := h [.arm 5, .listen] _ rfl rfl rfl
  cases hwaits

end HookRace

end TegoNext
