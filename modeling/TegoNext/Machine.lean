/-
Labelled transition systems with a partial step function, and the one induction every safety
argument of this development rests on.

A label the state does not allow is `none`. `run` executes a list of labels. `ReachableVia`
collects the states of every run whose steps all meet a condition on the pre-state, the label and
the post-state, and `invariant` is how something is proved of them.
-/
import Mathlib.Data.List.AList

set_option autoImplicit false

namespace TegoNext

open List Option

/-- A transition system: where runs start and what one label does. -/
structure Machine (σ Λ : Type*) where
  Init : σ → Prop
  step : σ → Λ → Option σ

namespace Machine

variable {σ Λ : Type*} (M : Machine σ Λ)

/-- Execute a list of labels; `none` as soon as one is not allowed. -/
def run : σ → List Λ → Option σ
  | s, [] => some s
  | s, e :: es => (M.step s e).bind fun s' => run s' es

@[simp] theorem run_nil (s : σ) : M.run s [] = some s := rfl

theorem run_cons (s : σ) (e : Λ) (es : List Λ) :
    M.run s (e :: es) = (M.step s e).bind fun s' => M.run s' es := rfl

/-- The states of the runs whose every step meets `C`. -/
inductive ReachableVia (C : σ → Λ → σ → Prop) : σ → Prop
  | init {s : σ} (h : M.Init s) : ReachableVia C s
  | step {s s' : σ} {e : Λ} (hr : ReachableVia C s) (hs : M.step s e = some s')
      (hc : C s e s') : ReachableVia C s'

/-- The states of all runs. -/
def Reachable : σ → Prop := M.ReachableVia fun _ _ _ => True

variable {M}

theorem Reachable.init {s : σ} (h : M.Init s) : M.Reachable s := ReachableVia.init h

theorem Reachable.step {s s' : σ} {e : Λ} (hr : M.Reachable s) (hs : M.step s e = some s') :
    M.Reachable s' :=
  ReachableVia.step hr hs trivial

/-- **The invariant rule.** What holds initially and is preserved by every step
that meets `C` from a reachable state holds of every state such runs reach. -/
theorem ReachableVia.invariant {C : σ → Λ → σ → Prop} {I : σ → Prop} (h0 : ∀ s, M.Init s → I s)
    (hstep : ∀ s e s', M.ReachableVia C s → I s → M.step s e = some s' → C s e s' → I s')
    {s : σ} (hr : M.ReachableVia C s) : I s := by
  induction hr with
  | init h => exact h0 _ h
  | step hr hs hc ih => exact hstep _ _ _ hr ih hs hc

theorem ReachableVia.mono {C D : σ → Λ → σ → Prop} (h : ∀ s e s', C s e s' → D s e s')
    {s : σ} (hr : M.ReachableVia C s) : M.ReachableVia D s := by
  induction hr with
  | init h0 => exact .init h0
  | step _ hs hc ih => exact .step ih hs (h _ _ _ hc)

theorem ReachableVia.reachable {C : σ → Λ → σ → Prop} {s : σ} (hr : M.ReachableVia C s) :
    M.Reachable s :=
  hr.mono fun _ _ _ _ => trivial

theorem Reachable.of_run {s s' : σ} {es : List Λ} (hr : M.Reachable s)
    (h : M.run s es = some s') : M.Reachable s' := by
  induction es generalizing s with
  | nil =>
    rw [run_nil, some.injEq] at h
    exact h ▸ hr
  | cons e es ih =>
    rw [run_cons, bind_eq_some_iff] at h
    obtain ⟨s₁, h₁, h₂⟩ := h
    exact ih (hr.step h₁) h₂

/-- Execute a list of labels, checking a condition before each step. -/
def runIf (M : Machine σ Λ) (C : σ → Λ → Bool) : σ → List Λ → Option σ
  | s, [] => some s
  | s, e :: es => if C s e then (M.step s e).bind fun s' => runIf M C s' es else none

/-- A run that passes the checks is a run that meets the condition. -/
theorem ReachableVia.of_runIf {C : σ → Λ → Bool} {s s' : σ} {es : List Λ}
    (hr : M.ReachableVia (fun s e _ => C s e = true) s) (h : M.runIf C s es = some s') :
    M.ReachableVia (fun s e _ => C s e = true) s' := by
  induction es generalizing s with
  | nil =>
    cases some.inj h
    exact hr
  | cons e es ih =>
    rw [runIf] at h
    split at h
    · next hc =>
      obtain ⟨s₁, h₁, h₂⟩ := bind_eq_some_iff.mp h
      exact ih (.step hr h₁ hc) h₂
    · cases h

/-- One step that meets `C`. -/
def StepVia (M : Machine σ Λ) (C : σ → Λ → σ → Prop) (s s' : σ) : Prop :=
  ∃ e, M.step s e = some s' ∧ C s e s'

theorem ReachableVia.of_steps {C : σ → Λ → σ → Prop} {s s' : σ} (hr : M.ReachableVia C s)
    (h : Relation.ReflTransGen (M.StepVia C) s s') : M.ReachableVia C s' := by
  induction h with
  | refl => exact hr
  | tail _ hstep ih =>
    obtain ⟨e, hs, hc⟩ := hstep
    exact .step ih hs hc

/-- Execute a list of labels, checking a condition on each step. -/
def runVia (M : Machine σ Λ) (C : σ → Λ → σ → Bool) : σ → List Λ → Option σ
  | s, [] => some s
  | s, e :: es => (M.step s e).bind fun s' => if C s e s' then runVia M C s' es else none

/-- A run that passes the checks is a sequence of steps that meet the condition. -/
theorem steps_of_runVia {C : σ → Λ → σ → Bool} {D : σ → Λ → σ → Prop}
    (hC : ∀ s e s', C s e s' = true → D s e s') {s s' : σ} {es : List Λ}
    (h : M.runVia C s es = some s') : Relation.ReflTransGen (M.StepVia D) s s' := by
  induction es generalizing s with
  | nil =>
    cases some.inj h
    exact .refl
  | cons e es ih =>
    obtain ⟨s₁, h₁, h₂⟩ := bind_eq_some_iff.mp h
    split at h₂
    · next hc => exact .head ⟨e, h₁, hC s e s₁ hc⟩ (ih h₂)
    · cases h₂

/-- A run from an initial state ends in a reachable state: how a concrete
schedule enters a statement about reachable states. -/
theorem Reachable.of_init_run {s s' : σ} {es : List Λ} (h0 : M.Init s)
    (h : M.run s es = some s') : M.Reachable s' :=
  (Reachable.init h0).of_run h

/-! ## What holds all along a run -/

/-- Every state of the run is of the kind. -/
def Always (M : Machine σ Λ) (P : σ → Prop) (s : σ) (es : List Λ) : Prop :=
  ∀ n s', M.run s (es.take n) = some s' → P s'

/-- Every step the run takes meets the condition, of the state before it and the label. -/
def EveryStep (M : Machine σ Λ) (C : σ → Λ → Prop) (s : σ) (es : List Λ) : Prop :=
  ∀ n s' e s'', M.run s (es.take n) = some s' → es[n]? = some e → M.step s' e = some s'' → C s' e

theorem always_cons {P : σ → Prop} {s s' : σ} {e : Λ} {es : List Λ} (h : M.step s e = some s') :
    M.Always P s (e :: es) ↔ P s ∧ M.Always P s' es := by
  constructor
  · refine fun hall => ⟨hall 0 s rfl, fun n s'' hrun => hall (n + 1) s'' ?_⟩
    rw [take_succ_cons, run_cons, h]
    exact hrun
  · rintro ⟨hs, hall⟩ (_ | n) s'' hrun
    · cases some.inj hrun
      exact hs
    · rw [take_succ_cons, run_cons, h] at hrun
      exact hall n s'' hrun

theorem everyStep_cons {C : σ → Λ → Prop} {s s' : σ} {e : Λ} {es : List Λ}
    (h : M.step s e = some s') :
    M.EveryStep C s (e :: es) ↔ C s e ∧ M.EveryStep C s' es := by
  constructor
  · refine fun hall => ⟨hall 0 s e s' rfl rfl h, fun n s'' f s₃ hrun hf => ?_⟩
    refine hall (n + 1) s'' f s₃ ?_ hf
    rw [take_succ_cons, run_cons, h]
    exact hrun
  · rintro ⟨hs, hall⟩ (_ | n) s'' f s₃ hrun hf hstep
    · cases some.inj hrun
      cases some.inj hf
      exact hs
    · rw [take_succ_cons, run_cons, h] at hrun
      exact hall n s'' f s₃ hrun hf hstep

/-- Where a step keeps `P` exactly if it meets `C`, a run keeps `P` all along exactly if all its
steps meet `C`. -/
theorem always_iff_everyStep {P I : σ → Prop} {C : σ → Λ → Prop}
    (hI : ∀ s e s', I s → M.step s e = some s' → I s')
    (hstep : ∀ s e s', I s → P s → M.step s e = some s' → (P s' ↔ C s e)) {s : σ} (hi : I s)
    (hp : P s) (es : List Λ) : M.Always P s es ↔ M.EveryStep C s es := by
  induction es generalizing s with
  | nil =>
    refine ⟨fun _ n s' e s'' _ he => (nomatch he), fun _ n s' hrun => ?_⟩
    rw [take_nil] at hrun
    exact some.inj hrun ▸ hp
  | cons e es ih =>
    cases hs : M.step s e with
    | none =>
      -- The run ends here.
      constructor
      · rintro - (_ | n) s' f s'' hrun hf hallowed
        · cases some.inj hrun
          cases some.inj hf
          rw [hs] at hallowed
          cases hallowed
        · rw [take_succ_cons, run_cons, hs] at hrun
          cases hrun
      · rintro - (_ | n) s' hrun
        · exact some.inj hrun ▸ hp
        · rw [take_succ_cons, run_cons, hs] at hrun
          cases hrun
    | some s' =>
      rw [always_cons hs, everyStep_cons hs]
      have hexact := hstep s e s' hi hp hs
      constructor
      · rintro ⟨_, hall⟩
        have hp' : P s' := hall 0 s' rfl
        exact ⟨hexact.mp hp', (ih (hI s e s' hi hs) hp').mp hall⟩
      · rintro ⟨hc, hall⟩
        exact ⟨hp, (ih (hI s e s' hi hs) (hexact.mpr hc)).mpr hall⟩

/-- No step of the kind is allowed. -/
def Quiescent (M : Machine σ Λ) (K : Λ → Bool) (s : σ) : Prop := ∀ e, K e = true → M.step s e = none

theorem exists_quiescent {K : Λ → Bool} (size : σ → Nat)
    (hsize : ∀ s e s', K e = true → M.step s e = some s' → size s' < size s) (s : σ) :
    ∃ es s', (∀ e ∈ es, K e = true) ∧ M.run s es = some s' ∧ M.Quiescent K s' := by
  induction hn : size s using Nat.strongRecOn generalizing s with
  | _ n ih =>
    by_cases hquiet : M.Quiescent K s
    · exact ⟨[], s, fun e he => absurd he not_mem_nil, rfl, hquiet⟩
    obtain ⟨e, hkind, hallowed⟩ : ∃ e, K e = true ∧ M.step s e ≠ none := by
      simpa [Quiescent] using hquiet
    obtain ⟨s₁, hs₁⟩ := ne_none_iff_exists'.mp hallowed
    obtain ⟨es, s', hes, hrun, hq⟩ := ih _ (hn ▸ hsize s e s₁ hkind hs₁) s₁ rfl
    refine ⟨e :: es, s', ?_, ?_, hq⟩
    · intro e' he'
      rcases mem_cons.mp he' with rfl | hmem
      · exact hkind
      · exact hes e' hmem
    · rw [run_cons, hs₁]
      exact hrun

end Machine

/-! ## Lists and tables that steps add to -/

section

variable {α : Type} {l : List α} {a b : α} {i j : Nat}

theorem getElem?_append_of_some {l' : List α} (h : l[i]? = some a) : (l ++ l')[i]? = some a :=
  (getElem?_append_left (List.getElem?_eq_some_iff.mp h).1).trans h

theorem getElem?_concat_cases (h : (l ++ [a])[i]? = some b) :
    l[i]? = some b ∨ i = l.length ∧ b = a := by
  rcases Nat.lt_or_ge i l.length with hlt | hge
  · rw [getElem?_append_left hlt] at h
    exact .inl h
  · rw [getElem?_append_right hge, getElem?_singleton] at h
    split at h
    · next hzero => exact .inr ⟨by omega, (some.inj h).symm⟩
    · cases h

theorem getElem?_set_cases (h : (l.set i a)[j]? = some b) :
    j = i ∧ b = a ∨ j ≠ i ∧ l[j]? = some b := by
  rw [getElem?_set] at h
  split at h
  · next hsame =>
    split at h
    · exact .inl ⟨hsame.symm, (some.inj h).symm⟩
    · cases h
  · next hother => exact .inr ⟨fun heq => hother heq.symm, h⟩

theorem lookup_insert_cases {κ : Type} [DecidableEq κ] {table : AList fun _ : κ => α} {key k : κ}
    (h : (table.insert key a).lookup k = some b) :
    k = key ∧ b = a ∨ k ≠ key ∧ table.lookup k = some b := by
  by_cases hk : k = key
  · rw [hk, AList.lookup_insert] at h
    exact .inl ⟨hk, (some.inj h).symm⟩
  · rw [AList.lookup_insert_ne hk] at h
    exact .inr ⟨hk, h⟩

end

end TegoNext
