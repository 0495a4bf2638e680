/-
Programs that may throw, with and without a state, and the results of two runs.

Two results agree when both return the same value or both throw the same error; what then holds
between the two states is a relation for each of the two ways to end. Agreement passes through
`>>=`, so that two runs of one program agree as soon as its basic operations do.
-/
set_option autoImplicit false

namespace TegoNext

/-! ## Without a state -/

section Steps

variable {α β ε : Type}

theorem bind_eq_ok {x : Except ε α} {f : α → Except ε β} {b : β} :
    x >>= f = .ok b ↔ ∃ a, x = .ok a ∧ f a = .ok b := by
  cases x with
  | error e | ok a => simp [bind, Except.bind]

@[simp] theorem pure_eq_ok {a b : α} : (pure a : Except ε α) = .ok b ↔ a = b := by
  simp [pure, Except.pure]

@[simp] theorem throw_eq_ok {e : ε} {b : α} : (throw e : Except ε α) = .ok b ↔ False := by
  simp [throw, throwThe, MonadExceptOf.throw]

theorem guard_bind_eq_ok {γ : Type} {c : Prop} [Decidable c] {e : ε} {f : γ → Except ε β}
    {x : Except ε β} {b : β} :
    (if c then (throw e : Except ε γ) >>= f else x) = .ok b ↔ ¬c ∧ x = .ok b := by
  by_cases hc : c
  · simp [hc, throw, throwThe, MonadExceptOf.throw, bind, Except.bind]
  · simp [hc]

end Steps

namespace StatePrograms

variable {ε σ α β : Type} {R E : σ → σ → Prop}

/-! ## One run -/

section Runs

variable {m : EStateM ε σ α} {f : α → EStateM ε σ β} {s : σ}

theorem run_bind_eq_ok {b : β} {s'' : σ} :
    (m >>= f) s = .ok b s'' ↔ ∃ a s', m s = .ok a s' ∧ f a s' = .ok b s'' := by
  show EStateM.bind m f s = _ ↔ _
  unfold EStateM.bind
  cases hm : m s with
  | ok a s' =>
    refine ⟨fun h => ⟨a, s', rfl, h⟩, ?_⟩
    rintro ⟨a', t, h, hf⟩
    injection h with ha hs
    rw [ha, hs]
    exact hf
  | error e s' =>
    refine ⟨fun h => ?_, ?_⟩
    · injection h
    · rintro ⟨a', t, h, -⟩
      injection h

end Runs

/-! ## Two runs -/

/-- Both return the same value, or both throw the same. -/
inductive Agree (R E : σ → σ → Prop) : EStateM.Result ε σ α → EStateM.Result ε σ α → Prop
  | ok (a : α) {s t : σ} (h : R s t) : Agree R E (.ok a s) (.ok a t)
  | error (e : ε) {s t : σ} (h : E s t) : Agree R E (.error e s) (.error e t)

theorem Agree.bind_of {m m' : EStateM ε σ α} {f f' : α → EStateM ε σ β} {s t : σ}
    (h : Agree R E (m s) (m' t))
    (hf : ∀ a s' t', m s = .ok a s' → R s' t' → Agree R E (f a s') (f' a t')) :
    Agree R E ((m >>= f) s) ((m' >>= f') t) := by
  show Agree R E (EStateM.bind m f s) (EStateM.bind m' f' t)
  unfold EStateM.bind
  generalize m s = r, m' t = r' at h hf ⊢
  cases h with
  | ok a h => exact hf a _ _ rfl h
  | error e h => exact .error e h

theorem Agree.bind {m m' : EStateM ε σ α} {f f' : α → EStateM ε σ β} {s t : σ}
    (h : Agree R E (m s) (m' t)) (hf : ∀ a s t, R s t → Agree R E (f a s) (f' a t)) :
    Agree R E ((m >>= f) s) ((m' >>= f') t) :=
  h.bind_of fun a s' t' _ => hf a s' t'

end StatePrograms

end TegoNext
