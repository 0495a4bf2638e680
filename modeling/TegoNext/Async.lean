/-
Cooperative asynchronous programs, their interleavings, and a rely/guarantee logic for them.

An activity runs without interruption from one `await` to the next. Suspended, it is a `Proc`: it
waits until memory and an answer of the environment allow it to go on (`ready`), updates the memory
in one turn (`act`), and is then the process `next`. A schedule lists process indices and answers.

A `Contract` fixes an invariant, the law of every turn, and what a suspended activity may rely on;
a token names a part of the memory that only its owner changes (`frame`). `Triple` is the
Hoare-style form; `World.safe` and `World.law_of_step` are what follows for runs.
-/
import TegoNext.Machine
import Mathlib.Data.Set.Lattice
import Mathlib.Order.CompletePartialOrder

set_option autoImplicit false

namespace TegoNext

/-! ## Processes -/

/-- A suspended activity over a shared memory `σ` with environment answers
`ρ`. -/
inductive Proc (σ ρ : Type) where
  | done
  | await (ready : σ → ρ → Bool) (act : σ → ρ → σ) (next : σ → ρ → Proc σ ρ)
  | fork (child rest : Proc σ ρ)

namespace Proc

variable {σ ρ : Type}

/-- The activities a process consists of; a finished process leaves nothing behind. -/
def pending : Proc σ ρ → List (Proc σ ρ)
  | done => []
  | await ready act next => [await ready act next]
  | fork child rest => child.pending ++ rest.pending

end Proc

/-- The shared memory and the suspended activities. -/
structure World (σ ρ : Type) where
  mem : σ
  procs : List (Proc σ ρ)

/-- What the scheduler may do: start an entry point, or resume a suspended
activity with an answer of the environment. -/
inductive Sched (κ ρ : Type) where
  | call (k : κ)
  | resume (i : Nat) (r : ρ)

namespace World

variable {σ ρ κ : Type}

/-- One step of the scheduler over the entry points `entry`. -/
def step (entry : κ → Proc σ ρ) (w : World σ ρ) : Sched κ ρ → Option (World σ ρ)
  | .call k => some { w with procs := w.procs ++ (entry k).pending }
  | .resume i r =>
    match w.procs[i]? with
    | some (.await ready act next) =>
      if ready w.mem r then
        some { mem := act w.mem r, procs := w.procs.eraseIdx i ++ (next w.mem r).pending }
      else none
    | _ => none

/-- The machine of all interleavings of the entry points, from the memories
`Init` allows and no activity. -/
def machine (Init : σ → Prop) (entry : κ → Proc σ ρ) : Machine (World σ ρ) (Sched κ ρ) where
  Init w := Init w.mem ∧ w.procs = []
  step := step entry

/-- What a step does, branch by branch: it starts an entry point, or it is one
turn of a suspended activity. -/
theorem step_cases {entry : κ → Proc σ ρ} {w w' : World σ ρ} {l : Sched κ ρ}
    (h : w.step entry l = some w') :
    (∃ k, l = .call k ∧ w' = { w with procs := w.procs ++ (entry k).pending }) ∨
    (∃ i r ready act next, l = .resume i r ∧ w.procs[i]? = some (.await ready act next) ∧
      ready w.mem r = true ∧
      w' = { mem := act w.mem r, procs := w.procs.eraseIdx i ++ (next w.mem r).pending }) := by
  cases l with
  | call k => exact .inl ⟨k, rfl, by simpa [step] using h.symm⟩
  | resume i r =>
    simp only [step] at h
    split at h
    · next ready act next hi =>
      split at h
      · next hready => exact .inr ⟨i, r, ready, act, next, rfl, hi, hready, by simpa using h.symm⟩
      · cases h
    · cases h

end World

/-! ## Contracts and safe processes -/

/-- What a group of interleaved activities agrees on. `cond` is a condition on
the steps of the runs considered (trivially true for a law of all runs);
`frame i` says that a step leaves alone what the token `i` names. -/
structure Contract (σ ι : Type) where
  inv : σ → Prop
  cond : σ → σ → Prop
  law : σ → σ → Prop
  rely : σ → σ → Prop
  rely_refl : ∀ s, rely s s
  rely_trans : ∀ {s t u}, rely s t → rely t u → rely s u
  rely_of_law : ∀ {s t}, inv s → law s t → rely s t
  allocated : σ → ι → Prop
  allocated_of_law : ∀ {s t i}, law s t → allocated s i → allocated t i
  frame : ι → σ → σ → Prop
  frame_refl : ∀ i s, frame i s s
  frame_trans : ∀ {i s t u}, frame i s t → frame i t u → frame i s u

/-- The tokens a step allocates. -/
def Contract.fresh {σ ι : Type} (K : Contract σ ι) (s t : σ) : Set ι :=
  { i | ¬ K.allocated s i ∧ K.allocated t i }

/-- `Safe K p owned s`: suspended since the memory was `s`, the process `p`,
which owns the tokens `owned`, respects the contract in every turn it will ever
take. -/
def Safe {σ ρ ι : Type} (K : Contract σ ι) : Proc σ ρ → Set ι → σ → Prop
  | .done, _, _ => True
  | .await ready act next, owned, s => ∀ t r, K.rely s t → (∀ i ∈ owned, K.frame i s t) →
      (∀ i ∈ owned, K.allocated t i) → K.inv t → ready t r = true → K.cond t (act t r) →
      K.inv (act t r) ∧ K.law t (act t r) ∧
        (∀ i, i ∉ owned → K.allocated t i → K.frame i t (act t r)) ∧
        Safe K (next t r) (owned ∪ K.fresh t (act t r)) (act t r)
  | .fork child rest, owned, s => ∃ given kept, Disjoint given kept ∧ given ∪ kept ⊆ owned ∧
      Safe K child given s ∧ Safe K rest kept s

/-- Each process of a list is safe with tokens of its own, all out of `pool`. -/
def SafeAll {σ ρ ι : Type} (K : Contract σ ι) (s : σ) : List (Proc σ ρ) → Set ι → Prop
  | [], _ => True
  | p :: ps, pool => ∃ owned others, Disjoint owned others ∧ owned ∪ others ⊆ pool ∧
      Safe K p owned s ∧ SafeAll K s ps others

namespace Safe

variable {σ ρ ι : Type} {K : Contract σ ι}

theorem mono {p : Proc σ ρ} {owned : Set ι} {s t : σ} (h : Safe K p owned s)
    (hst : K.rely s t) (hframe : ∀ i ∈ owned, K.frame i s t) : Safe K p owned t := by
  induction p generalizing owned s t with
  | done => trivial
  | await ready act next _ =>
    intro u r htu hframe' halloc hu hready hc
    exact h u r (K.rely_trans hst htu)
      (fun i hi => K.frame_trans (hframe i hi) (hframe' i hi)) halloc hu hready hc
  | fork child rest ihc ihr =>
    obtain ⟨given, kept, hdisj, hsub, hchild, hrest⟩ := h
    exact ⟨given, kept, hdisj, hsub,
      ihc hchild hst fun i hi => hframe i (hsub (.inl hi)),
      ihr hrest hst fun i hi => hframe i (hsub (.inr hi))⟩

theorem weaken {p : Proc σ ρ} {owned owned' : Set ι} {s : σ} (h : Safe K p owned s)
    (hsub : owned ⊆ owned') : Safe K p owned' s := by
  induction p generalizing owned owned' s with
  | done => trivial
  | await ready act next ih =>
    intro t r hst hframe halloc ht hready hc
    obtain ⟨hinv, hlaw, hguar, hnext⟩ := h t r hst (fun i hi => hframe i (hsub hi))
      (fun i hi => halloc i (hsub hi)) ht hready hc
    exact ⟨hinv, hlaw, fun i hi => hguar i fun hi' => hi (hsub hi'),
      ih t r hnext (Set.union_subset_union_left _ hsub)⟩
  | fork child rest _ _ =>
    obtain ⟨given, kept, hdisj, hsub', hchild, hrest⟩ := h
    exact ⟨given, kept, hdisj, hsub'.trans hsub, hchild, hrest⟩

end Safe

namespace SafeAll

variable {σ ρ ι : Type} {K : Contract σ ι} {s t : σ}

variable {ps : List (Proc σ ρ)} {pool : Set ι}

theorem weaken {pool' : Set ι} (h : SafeAll K s ps pool)
    (hsub : pool ⊆ pool') : SafeAll K s ps pool' := by
  cases ps with
  | nil => trivial
  | cons p ps =>
    obtain ⟨owned, others, hdisj, hsub', hp, hps⟩ := h
    exact ⟨owned, others, hdisj, hsub'.trans hsub, hp, hps⟩

theorem append {qs : List (Proc σ ρ)} {pool' : Set ι} (hp : SafeAll K s ps pool)
    (hq : SafeAll K s qs pool') (hdisj : Disjoint pool pool') :
    SafeAll K s (ps ++ qs) (pool ∪ pool') := by
  induction ps generalizing pool with
  | nil => exact hq.weaken Set.subset_union_right
  | cons p ps ih =>
    obtain ⟨owned, others, hdisj', hsub, hsafe, hrest⟩ := hp
    have howned : owned ⊆ pool := Set.subset_union_left.trans hsub
    have hothers : others ⊆ pool := Set.subset_union_right.trans hsub
    refine ⟨owned, others ∪ pool', ?_, ?_, hsafe, ih hrest (hdisj.mono_left hothers)⟩
    · exact Set.disjoint_union_right.mpr ⟨hdisj', hdisj.mono_left howned⟩
    · exact Set.union_subset (howned.trans Set.subset_union_left)
        (Set.union_subset_union_left _ hothers)

theorem getElem {i : Nat} {p : Proc σ ρ} (h : SafeAll K s ps pool) (hi : ps[i]? = some p) :
    ∃ owned others, Disjoint owned others ∧ owned ∪ others ⊆ pool ∧ Safe K p owned s ∧
      SafeAll K s (ps.eraseIdx i) others := by
  induction ps generalizing i pool with
  | nil => simp at hi
  | cons q ps ih =>
    obtain ⟨owned, others, hdisj, hsub, hsafe, hrest⟩ := h
    cases i with
    | zero =>
      obtain rfl : q = p := by simpa using hi
      exact ⟨owned, others, hdisj, hsub, hsafe, hrest⟩
    | succ i =>
      obtain ⟨mine, theirs, hdisj', hsub', hsafe', hrest'⟩ := ih hrest (by simpa using hi)
      have hmine : mine ⊆ others := Set.subset_union_left.trans hsub'
      have htheirs : theirs ⊆ others := Set.subset_union_right.trans hsub'
      refine ⟨mine, owned ∪ theirs, ?_, ?_, hsafe', owned, theirs,
        hdisj.mono_right htheirs, Set.Subset.rfl, hsafe, hrest'⟩
      · exact Set.disjoint_union_right.mpr ⟨(hdisj.mono_right hmine).symm, hdisj'⟩
      · refine (Set.union_subset ?_ (Set.union_subset ?_ ?_)).trans hsub
        · exact hmine.trans Set.subset_union_right
        · exact Set.subset_union_left
        · exact htheirs.trans Set.subset_union_right

theorem mono (h : SafeAll K s ps pool)
    (hst : K.rely s t) (hframe : ∀ i ∈ pool, K.frame i s t) : SafeAll K t ps pool := by
  induction ps generalizing pool with
  | nil => trivial
  | cons p ps ih =>
    obtain ⟨owned, others, hdisj, hsub, hsafe, hrest⟩ := h
    exact ⟨owned, others, hdisj, hsub, hsafe.mono hst fun i hi => hframe i (hsub (.inl hi)),
      ih hrest fun i hi => hframe i (hsub (.inr hi))⟩

end SafeAll

theorem Safe.pending {σ ρ ι : Type} {K : Contract σ ι} {p : Proc σ ρ} {owned : Set ι} {s : σ}
    (h : Safe K p owned s) : SafeAll K s p.pending owned := by
  induction p generalizing owned with
  | done => trivial
  | await ready act next _ =>
    exact ⟨owned, ∅, Set.disjoint_empty _, by rw [Set.union_empty], h, trivial⟩
  | fork child rest ihc ihr =>
    obtain ⟨given, kept, hdisj, hsub, hchild, hrest⟩ := h
    exact ((ihc hchild).append (ihr hrest) hdisj).weaken hsub

namespace World

variable {σ ρ κ ι : Type} {K : Contract σ ι}

/-- The condition of the contract, as a condition on scheduler steps. -/
def Via (K : Contract σ ι) : World σ ρ → Sched κ ρ → World σ ρ → Prop :=
  fun w _ w' => K.cond w.mem w'.mem

/-- Every suspended activity of the world is safe with tokens of its own. -/
def AllSafe (K : Contract σ ι) (w : World σ ρ) : Prop :=
  SafeAll K w.mem w.procs { i | K.allocated w.mem i }

variable {entry : κ → Proc σ ρ} {w : World σ ρ}

theorem allSafe_step (hentry : ∀ k s, K.inv s → Safe K (entry k) ∅ s)
    {w' : World σ ρ} {l : Sched κ ρ} (hinv : K.inv w.mem) (hsafe : w.AllSafe K)
    (hs : w.step entry l = some w') (hc : K.cond w.mem w'.mem) :
    K.inv w'.mem ∧ w'.AllSafe K ∧ (w'.mem = w.mem ∨ K.law w.mem w'.mem) := by
  obtain ⟨k, rfl, rfl⟩ | ⟨i, r, ready, act, next, rfl, hi, hready, rfl⟩ := step_cases hs
  · refine ⟨hinv, ?_, .inl rfl⟩
    exact (hsafe.append (hentry k w.mem hinv).pending (Set.disjoint_empty _)).weaken
      (by rw [Set.union_empty])
  · obtain ⟨owned, others, hdisj, hsub, hproc, hothers⟩ := hsafe.getElem hi
    obtain ⟨hinv', hlaw, hguar, hnext⟩ := hproc w.mem r (K.rely_refl _)
      (fun i _ => K.frame_refl i _) (fun i hi => hsub (.inl hi)) hinv hready hc
    refine ⟨hinv', ?_, .inr hlaw⟩
    -- what the others own was allocated before and is left alone by this turn
    have hkept : ∀ j ∈ others, K.frame j w.mem (act w.mem r) := fun j hj =>
      hguar j (fun hmine => Set.disjoint_left.mp hdisj hmine hj) (hsub (.inr hj))
    have hothers' := hothers.mono (K.rely_of_law hinv hlaw) hkept
    refine (hothers'.append hnext.pending ?_).weaken ?_
    · refine Set.disjoint_union_right.mpr ⟨hdisj.symm, Set.disjoint_left.mpr fun j hj hnew => ?_⟩
      exact hnew.1 (hsub (.inr hj))
    · rintro j (hj | hj | hj)
      · exact K.allocated_of_law hlaw (hsub (.inr hj))
      · exact K.allocated_of_law hlaw (hsub (.inl hj))
      · exact hj.2

/-- **Soundness.** If initial memories satisfy the invariant and every entry
point is safe wherever it holds, the invariant holds and every activity is safe
in every run whose steps meet the condition. -/
theorem safe {Init : σ → Prop} (hinit : ∀ s, Init s → K.inv s)
    (hentry : ∀ k s, K.inv s → Safe K (entry k) ∅ s)
    (hr : (machine Init entry).ReachableVia (Via K) w) : K.inv w.mem ∧ w.AllSafe K := by
  refine Machine.ReachableVia.invariant (I := fun w => K.inv w.mem ∧ w.AllSafe K) ?_ ?_ hr
  · rintro w ⟨h0, hp⟩
    refine ⟨hinit _ h0, ?_⟩
    rw [AllSafe, hp]
    trivial
  · rintro w l w' - ⟨hinv, hsafe⟩ hs hc
    obtain ⟨h₁, h₂, -⟩ := allSafe_step hentry hinv hsafe hs hc
    exact ⟨h₁, h₂⟩

/-- **Every step obeys the law**, in every run whose steps meet the
condition. -/
theorem law_of_step {Init : σ → Prop} (hinit : ∀ s, Init s → K.inv s)
    (hentry : ∀ k s, K.inv s → Safe K (entry k) ∅ s) {w' : World σ ρ} {l : Sched κ ρ}
    (hr : (machine Init entry).ReachableVia (Via K) w)
    (hs : (machine Init entry).step w l = some w') (hc : K.cond w.mem w'.mem) :
    w'.mem = w.mem ∨ K.law w.mem w'.mem := by
  obtain ⟨hinv, hsafe⟩ := safe hinit hentry hr
  exact (allSafe_step hentry hinv hsafe hs hc).2.2

end World

/-! ## The monad of async functions -/

/-- An async function: given what to do with its result or its error, a process. -/
def Async (σ ρ ε α : Type) : Type := (α → Proc σ ρ) → (ε → Proc σ ρ) → Proc σ ρ

namespace Async

variable {σ ρ ε ι α β γ : Type}

instance : Monad (Async σ ρ ε) where
  pure a := fun k _ => k a
  bind m f := fun k ke => m (fun a => f a k ke) ke

def throw (e : ε) : Async σ ρ ε α := fun _ ke => ke e

/-- A computation without awaits. -/
def ofExcept : Except ε α → Async σ ρ ε α
  | .ok a => pure a
  | .error e => throw e

/-- `try { m } catch (e) { h e }`. -/
def tryCatch {ε' : Type} (m : Async σ ρ ε α) (h : ε → Async σ ρ ε' α) : Async σ ρ ε' α :=
  fun k ke => m k fun e => h e k ke

/-- Run to the outcome. -/
def attempt {ε' : Type} (m : Async σ ρ ε α) : Async σ ρ ε' (Except ε α) :=
  tryCatch (m >>= fun a => pure (.ok a)) fun e => pure (.error e)

/-- `try { m } finally { fin }`. -/
def tryFinally (m : Async σ ρ ε α) (fin : Async σ ρ ε Unit) : Async σ ρ ε α :=
  fun k ke => m (fun a => fin (fun _ => k a) ke) fun e => fin (fun _ => ke e) ke

/-- Wait until `ready`, then take one atomic turn that returns or throws. -/
def turn (ready : σ → ρ → Bool) (f : σ → ρ → Except ε α × σ) : Async σ ρ ε α :=
  fun k ke => .await ready (fun s r => (f s r).2) fun s r =>
    match (f s r).1 with
    | .ok a => k a
    | .error e => ke e

def atomically (f : σ → ρ → Except ε α × σ) : Async σ ρ ε α := turn (fun _ _ => true) f

/-- A turn that only looks. -/
def query (f : σ → α) : Async σ ρ ε α := atomically fun s _ => (.ok (f s), s)

/-- A turn that looks and may throw. -/
def check (f : σ → ρ → Except ε α) : Async σ ρ ε α := atomically fun s r => (f s r, s)

/-- A turn that only changes the memory. -/
def update (f : σ → ρ → σ) : Async σ ρ ε Unit := atomically fun s r => (.ok (), f s r)

/-- Start a detached activity, `void p`. -/
def detach (p : Proc σ ρ) : Async σ ρ ε Unit := fun k _ => .fork p (k ())

/-- One atomic turn that may start an activity of its own. -/
def spawn (f : σ → ρ → Except ε (α × Option β) × σ) (child : β → Proc σ ρ) : Async σ ρ ε α :=
  fun k ke => .await (fun _ _ => true) (fun s r => (f s r).2) fun s r =>
    match (f s r).1 with
    | .ok (a, none) => k a
    | .ok (a, some b) => .fork (child b) (k a)
    | .error e => ke e

/-- The process of a detached function whose outcome nobody awaits. -/
def run (m : Async σ ρ ε α) : Proc σ ρ := m (fun _ => .done) fun _ => .done

/-! ## Triples -/

/-- Started where `P` holds, `m` respects the contract, returns only where `Q`
holds of the result and throws only where `E` holds of the error. It may change
what `uses` names; whatever else the activity owns stays (`extra`). -/
def Triple (K : Contract σ ι) (uses : Set ι) (P : σ → Prop) (m : Async σ ρ ε α)
    (Q : α → σ → Prop) (E : ε → σ → Prop) : Prop :=
  ∀ (extra : Set ι) s k ke, (∀ i ∈ extra, i ∉ uses) → P s →
    (∀ a t, K.rely s t → (∀ i ∈ extra, K.frame i s t) → K.inv t → Q a t →
      Safe K (k a) (uses ∪ extra) t) →
    (∀ e t, K.rely s t → (∀ i ∈ extra, K.frame i s t) → K.inv t → E e t →
      Safe K (ke e) (uses ∪ extra) t) →
    K.inv s → Safe K (m k ke) (uses ∪ extra) s

variable {K : Contract σ ι} {uses : Set ι} {P P' : σ → Prop} {Q Q' : α → σ → Prop}
  {E E' : ε → σ → Prop}

variable {m : Async σ ρ ε α}

theorem Triple.conseq (h : Triple K uses P' m Q' E')
    (hP : ∀ s, K.inv s → P s → P' s) (hQ : ∀ a s, K.inv s → Q' a s → Q a s)
    (hE : ∀ e s, K.inv s → E' e s → E e s) : Triple K uses P m Q E :=
  fun extra s k ke hextra hp hk hke hs => h extra s k ke hextra (hP s hs hp)
    (fun a t hst hf ht hq => hk a t hst hf ht (hQ a t ht hq))
    (fun e t hst hf ht he => hke e t hst hf ht (hE e t ht he)) hs

theorem Triple.pure {a : α} (h : ∀ s, K.inv s → P s → Q a s) :
    Triple K uses P (pure a : Async σ ρ ε α) Q E :=
  fun _ s _ _ _ hp hk _ hs => hk a s (K.rely_refl s) (fun i _ => K.frame_refl i s) hs (h s hs hp)

theorem Triple.throw {e : ε} (h : ∀ s, K.inv s → P s → E e s) :
    Triple K uses P (Async.throw e : Async σ ρ ε α) Q E :=
  fun _ s _ _ _ hp _ hke hs =>
    hke e s (K.rely_refl s) (fun i _ => K.frame_refl i s) hs (h s hs hp)

theorem Triple.ofExcept {x : Except ε α} (hok : ∀ a s, x = .ok a → P s → Q a s)
    (herr : ∀ e s, x = .error e → P s → E e s) :
    Triple K uses P (Async.ofExcept x : Async σ ρ ε α) Q E := by
  cases x with
  | ok a => exact Triple.pure fun s _ => hok a s rfl
  | error e => exact Triple.throw fun s _ => herr e s rfl

/-- What may go on at a moment may go on at any later one. -/
theorem later {γ : Type} {extra held : Set ι} {k : γ → Proc σ ρ} {S : γ → σ → Prop} {s t : σ}
    (hk : ∀ c u, K.rely s u → (∀ i ∈ extra, K.frame i s u) → K.inv u → S c u →
      Safe K (k c) held u) (hst : K.rely s t) (hframe : ∀ i ∈ extra, K.frame i s t) :
    ∀ c u, K.rely t u → (∀ i ∈ extra, K.frame i t u) → K.inv u → S c u → Safe K (k c) held u :=
  fun c u htu htu' =>
    hk c u (K.rely_trans hst htu) fun i hi => K.frame_trans (hframe i hi) (htu' i hi)

/-- Sequencing. What the first part establishes is all the second part may
assume, at the moment the first part ends. -/
theorem Triple.bind {f : α → Async σ ρ ε β} {S : β → σ → Prop}
    (hm : Triple K uses P m Q E) (hf : ∀ a, Triple K uses (Q a) (f a) S E) :
    Triple K uses P (m >>= f) S E := by
  intro extra s k ke hextra hp hk hke hs
  refine hm extra s _ _ hextra hp (fun a t hst hst' ht hq => ?_) hke hs
  exact hf a extra t k ke hextra hq (later hk hst hst') (later hke hst hst') ht

theorem Triple.tryCatch {ε' : Type} {E₂ : ε' → σ → Prop}
    {h : ε → Async σ ρ ε' α} (hm : Triple K uses P m Q E)
    (hh : ∀ e, Triple K uses (E e) (h e) Q E₂) :
    Triple K uses P (m.tryCatch h) Q E₂ := by
  intro extra s k ke hextra hp hk hke hs
  refine hm extra s _ _ hextra hp hk (fun e t hst hst' ht he => ?_) hs
  exact hh e extra t k ke hextra he (later hk hst hst') (later hke hst hst') ht

theorem Triple.attempt {ε' : Type} (E₂ : ε' → σ → Prop) (hm : Triple K uses P m Q E) :
    Triple K uses P (Async.attempt m : Async σ ρ ε' (Except ε α)) (fun outcome s =>
      (∀ a, outcome = .ok a → Q a s) ∧ (∀ e, outcome = .error e → E e s)) E₂ := by
  refine Triple.tryCatch (Triple.bind hm fun a => Triple.pure fun s _ ha => ?_) fun e =>
    Triple.pure fun s _ he => ?_
  · exact ⟨fun a' h => Except.ok.inj h ▸ ha, fun e h => (nomatch h)⟩
  · exact ⟨fun a h => (nomatch h), fun e' h => Except.error.inj h ▸ he⟩

theorem Triple.tryFinally {fin : Async σ ρ ε Unit} {Q₀ : α → σ → Prop}
    {E₀ : ε → σ → Prop} (hm : Triple K uses P m Q₀ E₀)
    (hok : ∀ a, Triple K uses (Q₀ a) fin (fun _ => Q a) E)
    (herr : ∀ e, Triple K uses (E₀ e) fin (fun _ => E e) E) :
    Triple K uses P (m.tryFinally fin) Q E := by
  intro extra s k ke hextra hp hk hke hs
  refine hm extra s _ _ hextra hp (fun a t hst hst' ht hq => ?_) (fun e t hst hst' ht he => ?_) hs
  · exact hok a extra t _ ke hextra hq (fun _ => later hk hst hst' a) (later hke hst hst') ht
  · exact herr e extra t _ ke hextra he (fun _ => later hke hst hst' e) (later hke hst hst') ht

variable {R : σ → Prop}

/-- **The frame rule.** Tokens that a program does not use keep what survives the rely
and their own frames. -/
theorem Triple.frame_union {more : Set ι} (h : Triple K uses P m Q E) (hdisj : ∀ i ∈ more, i ∉ uses)
    (hR : ∀ s t, K.rely s t → (∀ i ∈ more, K.frame i s t) → R s → R t) :
    Triple K (uses ∪ more) (fun s => P s ∧ R s) m (fun a s => Q a s ∧ R s)
      (fun e s => E e s ∧ R s) := by
  intro extra s k ke hextra hp hk hke hs
  have hrest : ∀ i ∈ more ∪ extra, i ∉ uses := by
    rintro i (hi | hi)
    · exact hdisj i hi
    · exact fun hu => hextra i hi (.inl hu)
  have hsafe := h (more ∪ extra) s k ke hrest hp.1
    (fun a t hst hst' ht hq => ?_) (fun e t hst hst' ht he => ?_) hs
  · rwa [← Set.union_assoc] at hsafe
  · rw [← Set.union_assoc]
    exact hk a t hst (fun i hi => hst' i (.inr hi)) ht
      ⟨hq, hR s t hst (fun i hi => hst' i (.inl hi)) hp.2⟩
  · rw [← Set.union_assoc]
    exact hke e t hst (fun i hi => hst' i (.inr hi)) ht
      ⟨he, hR s t hst (fun i hi => hst' i (.inl hi)) hp.2⟩

/-- A program that uses no token keeps every assertion that survives the rely and the
frames of `uses`. -/
theorem Triple.frame (h : Triple K ∅ P m Q E)
    (hR : ∀ s t, K.rely s t → (∀ i ∈ uses, K.frame i s t) → R s → R t) :
    Triple K uses (fun s => P s ∧ R s) m (fun a s => Q a s ∧ R s) (fun e s => E e s ∧ R s) := by
  have hframe := Triple.frame_union h (fun _ _ hi => (Set.mem_empty_iff_false _).mp hi) hR
  rwa [Set.empty_union] at hframe

theorem Triple.keep_rely (h : Triple K uses P m Q E) (hR : ∀ s t, K.rely s t → R s → R t) :
    Triple K uses (fun s => P s ∧ R s) m (fun a s => Q a s ∧ R s) (fun e s => E e s ∧ R s) :=
  fun extra s k ke hextra hp hk hke hs => h extra s k ke hextra hp.1
    (fun a t hst hf ht hq => hk a t hst hf ht ⟨hq, hR s t hst hp.2⟩)
    (fun e t hst hf ht he => hke e t hst hf ht ⟨he, hR s t hst hp.2⟩) hs

/-- What one turn of an activity that uses `uses` owes to the contract. -/
structure Turn (K : Contract σ ι) (uses : Set ι) (s t : σ) : Prop where
  inv : K.inv t
  law : K.law s t
  frame : ∀ i, i ∉ uses → K.allocated s i → K.frame i s t

variable {f : σ → ρ → Except ε α × σ}

/-- What a turn that returns owes, -/
theorem returned {a : α} {p : α → Prop} {q : ε → Prop} (h : p a) :
    (∀ b, (Except.ok a : Except ε α) = .ok b → p b) ∧
      ∀ e, (Except.ok a : Except ε α) = .error e → q e := by
  refine ⟨fun b hb => ?_, fun e he => nomatch he⟩
  obtain rfl := Except.ok.inj hb
  exact h

/-- and what one that throws owes. -/
theorem thrown {e : ε} {p : α → Prop} {q : ε → Prop} (h : q e) :
    (∀ b, (Except.error e : Except ε α) = .ok b → p b) ∧
      ∀ e', (Except.error e : Except ε α) = .error e' → q e' := by
  refine ⟨fun b hb => (nomatch hb), fun e' he => ?_⟩
  obtain rfl := Except.error.inj he
  exact h

/-- The rule of a turn: `P` may be used at the memory `s` where the activity
was suspended, the turn is taken at any later memory `t` the rely allows. -/
theorem Triple.turn {ready : σ → ρ → Bool}
    (h : ∀ s t r, P s → K.rely s t → (∀ i ∈ uses, K.frame i s t) → K.inv t →
      ready t r = true → K.cond t (f t r).2 →
      Turn K uses t (f t r).2 ∧
        (∀ a, (f t r).1 = .ok a → Q a (f t r).2) ∧
        (∀ e, (f t r).1 = .error e → E e (f t r).2)) :
    Triple K uses P (Async.turn ready f) Q E := by
  intro extra s k ke hextra hp hk hke hs t r hst hframe halloc ht hready hc
  obtain ⟨⟨hinv, hlaw, hguar⟩, hok, herr⟩ :=
    h s t r hp hst (fun i hi => hframe i (.inl hi)) ht hready hc
  refine ⟨hinv, hlaw, fun i hi => hguar i fun hu => hi (.inl hu), ?_⟩
  have hsu : K.rely s (f t r).2 := K.rely_trans hst (K.rely_of_law ht hlaw)
  have hsu' : ∀ i ∈ extra, K.frame i s (f t r).2 := fun i hi =>
    K.frame_trans (hframe i (.inr hi)) (hguar i (hextra i hi) (halloc i (.inr hi)))
  dsimp only
  refine Safe.weaken ?_ Set.subset_union_left
  cases hres : (f t r).1 with
  | ok a => exact hk a _ hsu hsu' hinv (hok a hres)
  | error e => exact hke e _ hsu hsu' hinv (herr e hres)

theorem Triple.atomically
    (h : ∀ s t r, P s → K.rely s t → (∀ i ∈ uses, K.frame i s t) → K.inv t →
      K.cond t (f t r).2 →
      Turn K uses t (f t r).2 ∧
        (∀ a, (f t r).1 = .ok a → Q a (f t r).2) ∧
        (∀ e, (f t r).1 = .error e → E e (f t r).2)) :
    Triple K uses P (Async.atomically f) Q E :=
  Triple.turn fun s t r hp hst hframe ht _ hc => h s t r hp hst hframe ht hc

theorem Triple.detach {p : Proc σ ρ} (h : ∀ s, K.inv s → P s → Safe K p ∅ s) :
    Triple K uses P (Async.detach p : Async σ ρ ε Unit) (fun _ => P) E :=
  fun extra s _ _ _ hp hk _ hs => ⟨∅, uses ∪ extra, Set.empty_disjoint _,
    by rw [Set.empty_union], h s hs hp,
    hk () s (K.rely_refl s) (fun i _ => K.frame_refl i s) hs hp⟩

theorem Triple.spawn {f : σ → ρ → Except ε (α × Option β) × σ} {child : β → Proc σ ρ}
    (h : ∀ s t r, P s → K.rely s t → (∀ i ∈ uses, K.frame i s t) → K.inv t →
      K.cond t (f t r).2 →
      Turn K uses t (f t r).2 ∧
        (∀ a b, (f t r).1 = .ok (a, b) → Q a (f t r).2) ∧
        (∀ a b, (f t r).1 = .ok (a, some b) → Safe K (child b) (K.fresh t (f t r).2) (f t r).2) ∧
        (∀ e, (f t r).1 = .error e → E e (f t r).2)) :
    Triple K uses P (Async.spawn f child) Q E := by
  intro extra s k ke hextra hp hk hke hs t r hst hframe halloc ht hready hc
  obtain ⟨⟨hinv, hlaw, hguar⟩, hok, hchild, herr⟩ :=
    h s t r hp hst (fun i hi => hframe i (.inl hi)) ht hc
  refine ⟨hinv, hlaw, fun i hi => hguar i fun hu => hi (.inl hu), ?_⟩
  have hsu : K.rely s (f t r).2 := K.rely_trans hst (K.rely_of_law ht hlaw)
  have hsu' : ∀ i ∈ extra, K.frame i s (f t r).2 := fun i hi =>
    K.frame_trans (hframe i (.inr hi)) (hguar i (hextra i hi) (halloc i (.inr hi)))
  dsimp only
  cases hres : (f t r).1 with
  | error e => exact (hke e _ hsu hsu' hinv (herr e hres)).weaken Set.subset_union_left
  | ok result =>
    obtain ⟨a, _ | b⟩ := result
    · exact (hk a _ hsu hsu' hinv (hok a none hres)).weaken Set.subset_union_left
    · refine ⟨K.fresh t (f t r).2, uses ∪ extra, ?_, by rw [Set.union_comm], hchild a b hres,
        hk a _ hsu hsu' hinv (hok a (some b) hres)⟩
      exact Set.disjoint_left.mpr fun i hnew hi => hnew.1 (halloc i hi)

theorem Triple.alloc {g : α → Async σ ρ ε β} {token : α → ι}
    {S : β → σ → Prop}
    (h : ∀ s t r, P s → K.rely s t → (∀ i ∈ uses, K.frame i s t) → K.inv t →
      K.cond t (f t r).2 →
      Turn K uses t (f t r).2 ∧
        (∀ a, (f t r).1 = .ok a → token a ∈ K.fresh t (f t r).2 ∧ Q a (f t r).2) ∧
        (∀ e, (f t r).1 = .error e → E e (f t r).2))
    (hg : ∀ a, Triple K (insert (token a) uses) (Q a) (g a) S E) :
    Triple K uses P (Async.atomically f >>= g) S E := by
  intro extra s k ke hextra hp hk hke hs t r hst hframe halloc ht hready hc
  obtain ⟨⟨hinv, hlaw, hguar⟩, hok, herr⟩ := h s t r hp hst (fun i hi => hframe i (.inl hi)) ht hc
  refine ⟨hinv, hlaw, fun i hi => hguar i fun hu => hi (.inl hu), ?_⟩
  have hsu : K.rely s (f t r).2 := K.rely_trans hst (K.rely_of_law ht hlaw)
  have hsu' : ∀ i ∈ extra, K.frame i s (f t r).2 := fun i hi =>
    K.frame_trans (hframe i (.inr hi)) (hguar i (hextra i hi) (halloc i (.inr hi)))
  dsimp only
  cases hres : (f t r).1 with
  | error e => exact (hke e _ hsu hsu' hinv (herr e hres)).weaken Set.subset_union_left
  | ok a =>
    obtain ⟨hfresh, hq⟩ := hok a hres
    have hdisj : ∀ i ∈ extra, i ∉ insert (token a) uses := by
      rintro i hi (rfl | hu)
      · exact hfresh.1 (halloc _ (.inr hi))
      · exact hextra i hi hu
    have hsub : insert (token a) uses ∪ extra ⊆ uses ∪ extra ∪ K.fresh t (f t r).2 := by
      rintro i ((rfl | hu) | hi)
      · exact .inr hfresh
      · exact .inl (.inl hu)
      · exact .inl (.inr hi)
    have hgive : uses ∪ extra ⊆ insert (token a) uses ∪ extra :=
      Set.union_subset_union_left _ (Set.subset_insert _ _)
    refine (hg a extra _ k ke hdisj hq (fun b u hu hu' hiu hb => ?_)
      (fun e u hu hu' hiu he => ?_) hinv).weaken hsub
    · exact (later hk hsu hsu' b u hu hu' hiu hb).weaken hgive
    · exact (later hke hsu hsu' e u hu hu' hiu he).weaken hgive

theorem Triple.safe_run (h : Triple K uses P m Q E) {s : σ}
    (hs : K.inv s) (hp : P s) : Safe K m.run uses s := by
  have hsafe := h ∅ s (fun _ => .done) (fun _ => .done) (fun _ hi => hi.elim) hp
    (fun _ _ _ _ _ _ => trivial) (fun _ _ _ _ _ _ => trivial) hs
  rwa [Set.union_empty] at hsafe

end Async

end TegoNext
