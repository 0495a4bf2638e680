/-
Specifications of async functions: triples that say nothing about errors, and the
rules a proof that follows a program uses.

An activity may keep an assertion across its turns when the assertion is `Stable`.
The rules for sequencing, `try`/`catch` and `finally` carry one stable assertion
along. A function that uses no token is specified once, with the empty set, and
`Spec.keep` lets an owner of tokens call it.
-/
import TegoNext.Async

set_option autoImplicit false

namespace TegoNext

namespace Async

variable {σ ρ ε ι α β : Type} {K : Contract σ ι} {uses : Set ι}

/-- The assertion survives whatever others do while the tokens are owned. -/
def Stable (K : Contract σ ι) (uses : Set ι) (R : σ → Prop) : Prop :=
  ∀ s t, K.rely s t → (∀ i ∈ uses, K.frame i s t) → R s → R t

namespace Stable

variable {R : σ → Prop}

theorem and {R' : σ → Prop} (h : Stable K uses R) (h' : Stable K uses R') :
    Stable K uses fun s => R s ∧ R' s :=
  fun s t hst hf hr => ⟨h s t hst hf hr.1, h' s t hst hf hr.2⟩

theorem const (p : Prop) : Stable K uses fun _ => p := fun _ _ _ _ h => h

theorem all {γ : Sort*} {R : γ → σ → Prop} (h : ∀ c, Stable K uses (R c)) :
    Stable K uses fun s => ∀ c, R c s :=
  fun s t hst hf hr c => h c s t hst hf (hr c)

theorem imp {p : Prop} (h : p → Stable K uses R) : Stable K uses fun s => p → R s :=
  fun s t hst hf hr hp => h hp s t hst hf (hr hp)

theorem mono {uses' : Set ι} (h : Stable K uses R) (hsub : uses ⊆ uses') : Stable K uses' R :=
  fun s t hst hf hr => h s t hst (fun i hi => hf i (hsub hi)) hr

theorem of_rely (h : ∀ s t, K.rely s t → R s → R t) : Stable K uses R :=
  fun s t hst _ hr => h s t hst hr

end Stable

/-- The contract allows a turn that changes nothing. -/
def Stutters (K : Contract σ ι) : Prop := ∀ s, K.inv s → K.law s s

theorem Stutters.turn (hK : Stutters K) {s : σ} (hs : K.inv s) : Turn K uses s s :=
  ⟨hs, hK s hs, fun i _ _ => K.frame_refl i s⟩

/-- Started where `P` holds, the program keeps the contract and returns only where
`Q` holds of the result. -/
def Spec (K : Contract σ ι) (uses : Set ι) (P : σ → Prop) (m : Async σ ρ ε α)
    (Q : α → σ → Prop) : Prop :=
  Triple K uses P m Q fun _ _ => True

namespace Triple

variable {P : σ → Prop} {Q : α → σ → Prop} {E : ε → σ → Prop}

theorem look {ready : σ → ρ → Bool} {f : σ → ρ → Except ε α × σ} (hK : Stutters K)
    (hP : Stable K uses P) (hmem : ∀ s r, (f s r).2 = s)
    (hok : ∀ s r a, K.inv s → P s → (f s r).1 = .ok a → Q a s)
    (herr : ∀ s r e, K.inv s → P s → (f s r).1 = .error e → E e s) :
    Triple K uses P (Async.turn ready f) Q E := by
  refine Triple.turn fun s t r hp hst hframe ht _ _ => ?_
  have hp' := hP s t hst hframe hp
  rw [hmem t r]
  exact ⟨hK.turn ht, fun a ha => hok t r a ht hp' ha, fun e he => herr t r e ht hp' he⟩

theorem of_pure {p : Prop} {m : Async σ ρ ε α} (h : p → Triple K uses P m Q E)
    (hp : ∀ s, P s → p) : Triple K uses P m Q E :=
  fun extra s k ke hextra hs => h (hp s hs) extra s k ke hextra hs

theorem of_false {m : Async σ ρ ε α} (h : ∀ s, ¬ P s) : Triple K uses P m Q E :=
  fun _ s _ _ _ hp => absurd hp (h s)

end Triple

namespace Spec

variable {P P' R : σ → Prop} {Q Q' : α → σ → Prop} {S : β → σ → Prop}

variable {m : Async σ ρ ε α}

theorem conseq (h : Spec K uses P' m Q') (hP : ∀ s, P s → P' s)
    (hQ : ∀ a s, Q' a s → Q a s) : Spec K uses P m Q :=
  Triple.conseq h (fun s _ => hP s) (fun a s _ => hQ a s) fun _ _ _ h => h

theorem pre (h : Spec K uses P' m Q) (hP : ∀ s, P s → P' s) : Spec K uses P m Q :=
  h.conseq hP fun _ _ h => h

theorem assume (P' : σ → Prop) (hP : ∀ s, P s → P' s)
    (h : Spec K uses P' m Q) : Spec K uses P m Q :=
  h.pre hP

theorem post (h : Spec K uses P m Q') (hQ : ∀ a s, Q' a s → Q a s) : Spec K uses P m Q :=
  h.conseq (fun _ h => h) hQ

theorem of_pure {p : Prop} (h : p → Spec K uses P m Q) (hp : ∀ s, P s → p) : Spec K uses P m Q :=
  Triple.of_pure h hp

theorem ret {a : α} (h : ∀ s, P s → Q a s) : Spec K uses P (pure a : Async σ ρ ε α) Q :=
  Triple.pure fun s _ => h s

theorem ret_of_inv {a : α} (h : ∀ s, K.inv s → P s → Q a s) :
    Spec K uses P (pure a : Async σ ρ ε α) Q :=
  Triple.pure h

theorem throw {e : ε} : Spec K uses P (Async.throw e : Async σ ρ ε α) Q :=
  Triple.throw fun _ _ _ => trivial

theorem ofExcept {x : Except ε α} (h : ∀ a s, x = .ok a → P s → Q a s) :
    Spec K uses P (Async.ofExcept x : Async σ ρ ε α) Q :=
  Triple.ofExcept h fun _ _ _ _ => trivial

theorem keep (h : Spec K ∅ P m Q) (hR : Stable K uses R)
    (hP : ∀ s, R s → P s) : Spec K uses R m fun a s => Q a s ∧ R s :=
  Triple.conseq (Triple.frame (R := R) h hR) (fun s _ hr => ⟨hP s hr, hr⟩) (fun _ _ _ h => h)
    fun _ _ _ _ => trivial

theorem keep_rely (h : Spec K uses P m Q) (hR : ∀ s t, K.rely s t → R s → R t) :
    Spec K uses (fun s => P s ∧ R s) m fun a s => Q a s ∧ R s :=
  Triple.conseq (Triple.keep_rely (R := R) h hR) (fun _ _ h => h) (fun _ _ _ h => h)
    fun _ _ _ _ => trivial

theorem seq {f : α → Async σ ρ ε β} (hm : Spec K ∅ P m Q)
    (hR : Stable K uses R) (hP : ∀ s, R s → P s)
    (hf : ∀ a, Spec K uses (fun s => Q a s ∧ R s) (f a) S) : Spec K uses R (m >>= f) S :=
  Triple.bind (hm.keep hR hP) hf

theorem bind {f : α → Async σ ρ ε β} (hm : Spec K uses P m Q)
    (hf : ∀ a, Spec K uses (Q a) (f a) S) : Spec K uses P (m >>= f) S :=
  Triple.bind hm hf

theorem tryCatch {ε' : Type} {h : ε → Async σ ρ ε' α}
    (hm : Spec K ∅ P m Q) (hR : Stable K uses R) (hP : ∀ s, R s → P s)
    (hh : ∀ e, Spec K uses R (h e) Q) : Spec K uses R (Async.tryCatch m h) Q := by
  refine Triple.tryCatch (E := fun _ => R) ?_ hh
  exact Triple.conseq (Triple.frame (R := R) hm hR) (fun s _ hr => ⟨hP s hr, hr⟩)
    (fun _ _ _ h => h.1) fun _ _ _ h => h.2

theorem attempt (ε' : Type) (h : Spec K uses P m Q) :
    Spec K uses P (Async.attempt m : Async σ ρ ε' (Except ε α)) fun outcome s =>
      ∀ a, outcome = .ok a → Q a s :=
  post (Triple.attempt (fun _ _ => True) h) fun _ _ h => h.1

theorem tryFinally {fin : Async σ ρ ε Unit} (hm : Spec K ∅ P m Q)
    (hR : Stable K ∅ R) (hP : ∀ s, R s → P s) (hQ : ∀ a, Stable K ∅ (Q a))
    (hfin : Spec K ∅ R fin fun _ _ => True) : Spec K ∅ R (Async.tryFinally m fin) Q := by
  have hm' : Triple K ∅ R m (fun a s => Q a s ∧ R s) fun _ s => R s :=
    Triple.conseq (Triple.frame (R := R) hm hR) (fun s _ hr => ⟨hP s hr, hr⟩)
      (fun _ _ _ h => h) fun _ _ _ h => h.2
  refine Triple.tryFinally hm' (fun a => ?_) fun e => ?_
  · have hf := Triple.frame (R := Q a) hfin (hQ a)
    exact Triple.conseq hf (fun s _ h => ⟨h.2, h.1⟩) (fun _ _ _ h => h.2) fun _ _ _ _ => trivial
  · exact Triple.conseq hfin (fun _ _ h => h) (fun _ _ _ _ => trivial) fun _ _ _ _ => trivial

theorem detach {p : Proc σ ρ} (h : ∀ s, K.inv s → R s → Safe K p ∅ s) :
    Spec K uses R (Async.detach p : Async σ ρ ε Unit) fun _ => R :=
  Triple.detach h

theorem safe_run (h : Spec K uses P m Q) {s : σ} (hs : K.inv s) (hp : P s) : Safe K m.run uses s :=
  Triple.safe_run h hs hp

variable {f : σ → ρ → Except ε α × σ}

theorem turn {ready : σ → ρ → Bool} (hP : Stable K uses P)
    (h : ∀ s r, K.inv s → P s → ready s r = true → K.cond s (f s r).2 →
      Turn K uses s (f s r).2 ∧ ∀ a, (f s r).1 = .ok a → Q a (f s r).2) :
    Spec K uses P (Async.turn ready f) Q := by
  refine Triple.turn fun s t r hp hst hframe ht hready hc => ?_
  obtain ⟨hturn, hq⟩ := h t r ht (hP s t hst hframe hp) hready hc
  exact ⟨hturn, hq, fun _ _ => trivial⟩

theorem look {ready : σ → ρ → Bool} (hK : Stutters K)
    (hP : Stable K uses P) (hmem : ∀ s r, (f s r).2 = s)
    (h : ∀ s r a, K.inv s → P s → (f s r).1 = .ok a → Q a s) :
    Spec K uses P (Async.turn ready f) Q := by
  refine turn hP fun s r hs hp _ _ => ?_
  rw [hmem s r]
  exact ⟨hK.turn hs, fun a => h s r a hs hp⟩

theorem query {f : σ → α} (hK : Stutters K) (hP : Stable K uses P)
    (h : ∀ s, K.inv s → P s → Q (f s) s) :
    Spec K uses P (Async.query f : Async σ ρ ε α) Q := by
  refine look hK hP (fun _ _ => rfl) fun s _ a hs hp ha => ?_
  obtain rfl := Except.ok.inj ha
  exact h s hs hp

theorem check {f : σ → ρ → Except ε α} (hK : Stutters K) (hP : Stable K uses P)
    (h : ∀ s r a, K.inv s → P s → f s r = .ok a → Q a s) :
    Spec K uses P (Async.check f) Q :=
  look hK hP (fun _ _ => rfl) h

theorem alloc {g : α → Async σ ρ ε β} (token : α → ι) (hP : Stable K uses P)
    (h : ∀ s r, K.inv s → P s → K.cond s (f s r).2 → Turn K uses s (f s r).2 ∧
      ∀ a, (f s r).1 = .ok a → token a ∈ K.fresh s (f s r).2 ∧ Q a (f s r).2)
    (hg : ∀ a, Spec K (insert (token a) uses) (Q a) (g a) S) :
    Spec K uses P (Async.atomically f >>= g) S := by
  refine Triple.alloc (fun s t r hp hst hframe ht hc => ?_) hg
  obtain ⟨hturn, hq⟩ := h t r ht (hP s t hst hframe hp) hc
  exact ⟨hturn, hq, fun _ _ => trivial⟩

theorem update {f : σ → ρ → σ} {S : σ → Prop} (hP : Stable K uses P)
    (h : ∀ s r, K.inv s → P s → K.cond s (f s r) → Turn K uses s (f s r) ∧ S (f s r)) :
    Spec K uses P (Async.update f : Async σ ρ ε Unit) fun _ => S := by
  refine turn hP fun s r hs hp _ hc => ?_
  obtain ⟨hturn, hq⟩ := h s r hs hp hc
  exact ⟨hturn, fun _ _ => hq⟩

end Spec

end Async

end TegoNext
