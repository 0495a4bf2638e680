/-
What the activities of worker runtimes agree on.

A record of the attempt store stays there, so an identity is created once. An attempt changes its
state and result in the transition that holds its chain, or when its persistence fails. In a `Clean`
run a terminal attempt keeps its result, which is what is buffered, published and reported.

A handled assignment owns the launch of its attempt, the execution the submission, a transition
its place on the chain, hydration the attempts of its runtime.
-/
import TegoNext.WorkerRuntime

set_option autoImplicit false

namespace TegoNext

open Async List Option

namespace WorkerAttempt

def key (a : WorkerAttempt) : JsString := a.request.key

def Recorded (a : WorkerAttempt) : Prop := a.origin ≠ .assigning

/-- The attempt is terminal with the result. -/
def Settled (a : WorkerAttempt) (result : RemoteResult) : Prop :=
  a.state = .terminal ∧ a.result = some result

/-- What the contract looks at. -/
def view (a : WorkerAttempt) : Nat × RemoteRequest × AttemptOrigin × WorkerAttemptState ×
    Option RemoteResult × Nat × Nat :=
  (a.worker, a.request, a.origin, a.state, a.result, a.issued, a.served)

end WorkerAttempt

namespace WorkerWorld

/-! ## The parts of the state -/

variable (s : WorkerWorld) (me : Nat)

def phase : InitializationPhase := (s.workers me).initialization

def entries : List (JsString × Nat) := (s.workers me).attempts

def session : Option Nat := (s.workers me).session

theorem workers_modifyWorker (f : WorkerState → WorkerState)
    (me' : Nat) : (s.modifyWorker me f).workers me' =
      if me' = me then f (s.workers me') else s.workers me' := by
  unfold modifyWorker
  by_cases h : me' = me
  · subst h
    simp
  · simp [h]

theorem getElem?_modifyAttempt (i : Nat) (f : WorkerAttempt → WorkerAttempt)
    (j : Nat) : (s.modifyAttempt i f).attempts[j]? =
      (s.attempts[j]?).map fun a => if i = j then f a else a := by
  rw [modifyAttempt, getElem?_modify]
  by_cases h : i = j
  · simp [h]
  · simp [h]

/-! ## What holds of the state -/

/-- No commit has ended without effect, and no terminal attempt has changed its result. -/
def Clean : Prop := ∀ i, WorkerEvent.ignored i ∉ s.events ∧ WorkerEvent.replaced i ∉ s.events

/-- The worker relies on its records. -/
def Good : Prop := s.Clean ∧ s.available me = true

/-- What attempt the worker has of the key, and what it buffers, has this result. -/
structure Agrees (s : WorkerWorld) (me : Nat) (key : JsString) (result : RemoteResult) : Prop where
  record : s.records key ≠ none
  phase : s.phase me = .hydrated
  buffered : ∀ r, s.buffered me key = some r → r = result
  settled : ∀ (i : Nat) (a : WorkerAttempt), s.attempts[i]? = some a → a.worker = me →
    a.key = key → a.Recorded → a.Settled result

def SettledBy (result : RemoteResult) : Prop :=
  ∃ (i : Nat) (a : WorkerAttempt), s.attempts[i]? = some a ∧ a.worker = me ∧
    a.key = result.key ∧ a.Recorded ∧ a.Settled result

/-- The worker has the result from an attempt of the key, or from its hydration. -/
def Vouched (key : JsString) (result : RemoteResult) : Prop :=
  (∃ (i : Nat) (a : WorkerAttempt), s.attempts[i]? = some a ∧ a.worker = me ∧ a.key = key ∧
    a.Recorded ∧ a.Settled result) ∨
  ∃ results, .restored me results ∈ s.events ∧ results.lookup key = some result

structure Reportable (s : WorkerWorld) (me : Nat) (key : JsString) (result : RemoteResult) :
    Prop where
  agrees : s.Agrees me key result
  vouched : s.Vouched me key result

def Working (me work : Nat) : Prop :=
  ∃ x, s.works[work]? = some x ∧ x.worker = me ∧ x.closed = false

end WorkerWorld

open WorkerWorld

/-! ## The contract -/

structure WorkerInv (s : WorkerWorld) : Prop where
  recordKey : ∀ key record, s.records key = some record → record.request.key = key
  recorded : ∀ (i : Nat) (a : WorkerAttempt), s.attempts[i]? = some a → a.Recorded →
    s.records a.key ≠ none
  durable : ∀ key result, s.durableResults key = some result →
    s.records key ≠ none ∧ result.key = key
  buffered : ∀ me key result, s.buffered me key = some result → s.records key ≠ none
  assigned : ∀ (i j : Nat) (a b : WorkerAttempt), s.attempts[i]? = some a →
    s.attempts[j]? = some b → a.origin = .assigned → b.origin = .assigned → a.key = b.key → i = j
  unique : ∀ (i j : Nat) (a b : WorkerAttempt), s.attempts[i]? = some a →
    s.attempts[j]? = some b → a.Recorded → b.Recorded → a.worker = b.worker → a.key = b.key → i = j
  entry : ∀ me key i, (key, i) ∈ s.entries me → ∃ a, s.attempts[i]? = some a ∧ a.worker = me ∧
    a.key = key ∧ a.Recorded
  phase : ∀ (i : Nat) (a : WorkerAttempt), s.attempts[i]? = some a → s.phase a.worker ≠ .idle ∧
    (a.origin ≠ .hydrated → s.phase a.worker = .hydrated)
  idle : ∀ me key, s.phase me = .idle → s.buffered me key = none
  session : ∀ me, s.session me ≠ none → s.phase me = .hydrated
  works : ∀ (w : Nat) (x : WorkerWork), s.works[w]? = some x → s.phase x.worker = .hydrated
  launched : ∀ me i w, .launched me i w ∈ s.events → ∃ a, s.attempts[i]? = some a ∧
    a.origin = .assigned
  submitted : ∀ i, .submitted i ∈ s.events → ∃ me w, .launched me i w ∈ s.events
  submittedOnce : s.events.Pairwise fun e e' => ∀ i, e = .submitted i → e' ≠ .submitted i
  result : s.Clean → ∀ (i : Nat) (a : WorkerAttempt), s.attempts[i]? = some a →
    a.state = .terminal → ∃ r, a.result = some r ∧ r.key = a.key
  terminal : s.Clean → ∀ (i : Nat) (a : WorkerAttempt), s.attempts[i]? = some a →
    a.result ≠ none → a.state = .terminal
  distinct : ∀ me, ((s.workers me).results.map (·.1)).Nodup
  bufferedResult : s.Clean → ∀ (i : Nat) (a : WorkerAttempt) r, s.attempts[i]? = some a →
    a.Recorded → s.buffered a.worker a.key = some r → a.Settled r
  publication : s.Clean → ∀ me r b, (me, r, b) ∈ s.publications → s.SettledBy me r
  held : s.Clean → ∀ me key r, s.phase me = .hydrated → s.buffered me key = some r →
    s.Vouched me key r
  restored : ∀ me results, .restored me results ∈ s.events → s.phase me = .hydrated
  restoredOnce : ∀ me results results', .restored me results ∈ s.events →
    .restored me results' ∈ s.events → results = results'
  kept : s.Clean → ∀ me results key r, .restored me results ∈ s.events →
    results.lookup key = some r → s.Agrees me key r
  reported : s.Clean → ∀ me key r, .reported me key r ∈ s.events → s.Reportable me key r
  inventory : s.Clean → ∀ me unfinished terminal, .inventory me unfinished terminal ∈ s.events →
    ∀ key ∈ unfinished, key ∉ terminal

structure AttemptGrows (clean : Prop) (a a' : WorkerAttempt) : Prop where
  worker : a'.worker = a.worker
  request : a'.request = a.request
  origin : a'.origin = a.origin ∨ a.origin = .assigning ∧ a'.origin = .assigned
  issued : a.issued ≤ a'.issued
  served : a.served ≤ a'.served
  settled : clean → ∀ r, a.Settled r → a'.Settled r

/-- What a suspended activity may rely on. -/
structure WorkerGrows (s t : WorkerWorld) : Prop where
  record : ∀ key, s.records key ≠ none → t.records key ≠ none
  attempt : ∀ (i : Nat) (a : WorkerAttempt), s.attempts[i]? = some a → ∃ a',
    t.attempts[i]? = some a' ∧ AttemptGrows t.Clean a a'
  available : ∀ me, t.available me = true → s.available me = true
  phase : ∀ me, s.phase me = .hydrated → t.phase me = .hydrated
  works : ∀ (w : Nat) (x : WorkerWork), s.works[w]? = some x → ∃ x', t.works[w]? = some x' ∧
    x'.worker = x.worker ∧ x'.session = x.session ∧ (x.closed = true → x'.closed = true)
  events : s.events <:+ t.events
  started : ∀ me, s.phase me ≠ .idle → t.phase me ≠ .idle
  failed : ∀ me, s.phase me = .failed → t.phase me = .failed
  agrees : t.Clean → ∀ me key r, s.Agrees me key r → t.Agrees me key r
  assigned : ∀ (i : Nat) (a' : WorkerAttempt), t.attempts[i]? = some a' → a'.origin = .assigned →
    (∃ a, s.attempts[i]? = some a ∧ a.origin = .assigned) ∨ s.records a'.key = none

inductive WorkerToken where
  | creation (attempt : Nat)
  | execution (attempt : Nat)
  | lock (attempt turn : Nat)
  | hydration (worker : Nat)
  | work (work : Nat)
  deriving DecidableEq

def WorkerToken.Allocated (s : WorkerWorld) : WorkerToken → Prop
  | .creation i => i < s.attempts.length
  | .execution i => ∃ me w, .launched me i w ∈ s.events
  | .lock i n => ∃ a, s.attempts[i]? = some a ∧ n < a.issued
  | .hydration me => s.phase me ≠ .idle
  | .work w => w < s.works.length

/-- What others leave alone. -/
def WorkerToken.Frame : WorkerToken → WorkerWorld → WorkerWorld → Prop
  | .creation i, s, t => (∀ me w, .launched me i w ∉ s.events) → ∀ me w, .launched me i w ∉ t.events
  | .execution i, s, t => .submitted i ∉ s.events → .submitted i ∉ t.events
  | .lock i n, s, t => (∀ me, t.Good me → s.Good me) ∧ ∀ a, s.attempts[i]? = some a →
      a.served = n → ∃ a', t.attempts[i]? = some a' ∧ a'.served = n ∧ a'.worker = a.worker ∧
        (t.Good a.worker → a'.state = a.state ∧ a'.result = a.result)
  | .hydration me, s, t => s.phase me = .loading → t.phase me = .loading ∧
      (∀ (i : Nat) (a : WorkerAttempt), t.attempts[i]? = some a → a.worker = me →
        ∃ b, s.attempts[i]? = some b ∧ b.worker = me ∧ b.key = a.key) ∧
      ∀ key r, t.buffered me key = some r → s.buffered me key = some r ∨
        ∃ (i : Nat) (a : WorkerAttempt), s.attempts[i]? = some a ∧ a.worker = me ∧ a.key = key
  | .work w, s, t => ∀ me, s.Working me w → t.Working me w

/-- What an event of a step says about the state before. -/
def EffectLaw (s : WorkerWorld) : WorkerEvent → Prop
  | .created me _ w => s.Working me w
  | .launched me _ w => s.Working me w
  | .cancelled me _ (some w) => s.Working me w
  | .acknowledged me _ w => s.Working me w
  | .submitted i => .submitted i ∉ s.events ∧
      ∃ a, s.attempts[i]? = some a ∧ a.origin = .assigned ∧ a.state ≠ .terminal
  | _ => True

structure WorkerLaw (s t : WorkerWorld) : Prop where
  grows : WorkerGrows s t
  effects : ∃ new, t.events = new ++ s.events ∧ ∀ e ∈ new, EffectLaw s e

theorem Clean.of_suffix {s t : WorkerWorld} (h : s.events <:+ t.events) (ht : t.Clean) : s.Clean :=
  fun i => ⟨fun hi => (ht i).1 (h.mem hi), fun hi => (ht i).2 (h.mem hi)⟩

namespace AttemptGrows

variable {clean clean' : Prop} {a b c : WorkerAttempt}

theorem refl (a : WorkerAttempt) : AttemptGrows clean a a :=
  ⟨rfl, rfl, .inl rfl, le_rfl, le_rfl, fun _ _ h => h⟩

theorem trans (h : AttemptGrows clean a b) (h' : AttemptGrows clean' b c) (hc : clean' → clean) :
    AttemptGrows clean' a c := by
  refine ⟨h'.worker.trans h.worker, h'.request.trans h.request, ?_, h.issued.trans h'.issued,
    h.served.trans h'.served, fun hclean r hr => h'.settled hclean r (h.settled (hc hclean) r hr)⟩
  rcases h.origin with h₁ | ⟨h₁, h₂⟩
  · rw [← h₁]
    exact h'.origin
  · rcases h'.origin with h₃ | ⟨h₃, -⟩
    · exact .inr ⟨h₁, h₃.trans h₂⟩
    · rw [h₂] at h₃
      cases h₃

theorem key (h : AttemptGrows clean a b) : b.key = a.key := by
  rw [WorkerAttempt.key, h.request]
  rfl

theorem recorded (h : AttemptGrows clean a b) (ha : a.Recorded) : b.Recorded := by
  rcases h.origin with h₁ | ⟨h₁, -⟩
  · rw [WorkerAttempt.Recorded, h₁]
    exact ha
  · exact absurd h₁ ha

theorem of_view (h : b.view = a.view) : AttemptGrows clean a b := by
  simp only [WorkerAttempt.view, Prod.mk.injEq] at h
  obtain ⟨h₁, h₂, h₃, h₄, h₅, h₆, h₇⟩ := h
  refine ⟨h₁, h₂, .inl h₃, h₆.ge, h₇.ge, fun _ r hr => ?_⟩
  rw [WorkerAttempt.Settled, h₄, h₅]
  exact hr

end AttemptGrows

namespace WorkerGrows

variable {s t u : WorkerWorld}

theorem refl (s : WorkerWorld) : WorkerGrows s s :=
  ⟨fun _ h => h, fun _ a h => ⟨a, h, .refl a⟩, fun _ h => h, fun _ h => h,
    fun _ x h => ⟨x, h, rfl, rfl, fun h => h⟩, suffix_refl _, fun _ h => h, fun _ h => h,
    fun _ _ _ _ h => h, fun _ a h ho => .inl ⟨a, h, ho⟩⟩

theorem trans (h : WorkerGrows s t) (h' : WorkerGrows t u) : WorkerGrows s u := by
  have hclean : u.Clean → t.Clean := Clean.of_suffix h'.events
  refine ⟨fun key hk => h'.record key (h.record key hk), fun i a ha => ?_,
    fun me hu => h.available me (h'.available me hu), fun me hp => h'.phase me (h.phase me hp),
    fun w x hx => ?_, h.events.trans h'.events, fun me hp => h'.started me (h.started me hp),
    fun me hp => h'.failed me (h.failed me hp),
    fun hc me key r ha => h'.agrees hc me key r (h.agrees (hclean hc) me key r ha),
    fun i c hc ho => ?_⟩
  · obtain ⟨b, hb, hab⟩ := h.attempt i a ha
    obtain ⟨c, hc, hbc⟩ := h'.attempt i b hb
    exact ⟨c, hc, hab.trans hbc hclean⟩
  · obtain ⟨y, hy, hw, hs, hclosed⟩ := h.works w x hx
    obtain ⟨z, hz, hw', hs', hclosed'⟩ := h'.works w y hy
    exact ⟨z, hz, hw'.trans hw, hs'.trans hs, fun hx => hclosed' (hclosed hx)⟩
  · rcases h'.assigned i c hc ho with ⟨b, hb, hbo⟩ | hnone
    · obtain ⟨c', hc', hbc⟩ := h'.attempt i b hb
      obtain rfl := some.inj (hc.symm.trans hc')
      rw [hbc.key]
      exact h.assigned i b hb hbo
    · refine .inr (not_ne_iff.mp fun hsome => h.record c.key hsome hnone)

end WorkerGrows

variable {key : JsString} {r : RemoteResult}

theorem WorkerWorld.Vouched.of_grows {s t : WorkerWorld} {me : Nat}
    {clean : Prop} (h : s.Vouched me key r)
    (hattempt : ∀ (i : Nat) (a : WorkerAttempt), s.attempts[i]? = some a → ∃ a',
      t.attempts[i]? = some a' ∧ AttemptGrows clean a a')
    (hevents : s.events <:+ t.events) (hc : clean) : t.Vouched me key r := by
  rcases h with ⟨i, a, ha, hw, hk, hr, hset⟩ | ⟨results, hlog, hlookup⟩
  · obtain ⟨a', ha', hg⟩ := hattempt i a ha
    exact .inl ⟨i, a', ha', hg.worker.trans hw, hg.key.trans hk, hg.recorded hr,
      hg.settled hc r hset⟩
  · exact .inr ⟨results, hevents.mem hlog, hlookup⟩

theorem WorkerWorld.Reportable.of_grows {s t : WorkerWorld} {me : Nat}
    (h : s.Reportable me key r) (hst : WorkerGrows s t) (hc : t.Clean) :
    t.Reportable me key r :=
  ⟨hst.agrees hc me key r h.agrees, h.vouched.of_grows hst.attempt hst.events hc⟩

theorem WorkerInv.reportable_unique {s : WorkerWorld} (hs : WorkerInv s) {me : Nat}
    {r' : RemoteResult} (h : s.Reportable me key r)
    (h' : s.Reportable me key r') : r = r' := by
  rcases h.vouched with ⟨i, a, ha, hw, hk, hr, hset⟩ | ⟨results, hlog, hlookup⟩
  · exact some.inj (hset.2.symm.trans (h'.agrees.settled i a ha hw hk hr).2)
  rcases h'.vouched with ⟨i, a, ha, hw, hk, hr, hset⟩ | ⟨results', hlog', hlookup'⟩
  · exact some.inj ((h.agrees.settled i a ha hw hk hr).2.symm.trans hset.2)
  · rw [hs.restoredOnce me results results' hlog hlog'] at hlookup
    exact some.inj (hlookup.symm.trans hlookup')

theorem WorkerToken.frame_trans {token : WorkerToken} {s t u : WorkerWorld}
    (h : token.Frame s t) (h' : token.Frame t u) : token.Frame s u := by
  cases token with
  | creation i | execution i => exact fun hs => h' (h hs)
  | lock i n =>
    refine ⟨fun me hu => h.1 me (h'.1 me hu), fun a ha hn => ?_⟩
    obtain ⟨b, hb, hbn, hbw, hbs⟩ := h.2 a ha hn
    obtain ⟨c, hc, hcn, hcw, hcs⟩ := h'.2 b hb hbn
    refine ⟨c, hc, hcn, hcw.trans hbw, fun hu => ?_⟩
    obtain ⟨h₁, h₂⟩ := hcs (by rw [hbw]; exact hu)
    obtain ⟨h₃, h₄⟩ := hbs (h'.1 _ hu)
    exact ⟨h₁.trans h₃, h₂.trans h₄⟩
  | hydration me =>
    intro hs
    obtain ⟨ht, hts, htb⟩ := h hs
    obtain ⟨hu, hut, hub⟩ := h' ht
    refine ⟨hu, fun i a ha hw => ?_, fun key r hr => ?_⟩
    · obtain ⟨b, hb, hbw, hbk⟩ := hut i a ha hw
      obtain ⟨c, hc, hcw, hck⟩ := hts i b hb hbw
      exact ⟨c, hc, hcw, hck.trans hbk⟩
    · rcases hub key r hr with hr' | ⟨i, a, ha, hw, hk⟩
      · exact htb key r hr'
      · obtain ⟨b, hb, hbw, hbk⟩ := hts i a ha hw
        exact .inr ⟨i, b, hb, hbw, hbk.trans hk⟩
  | work w => exact fun me hs => h' me (h me hs)

theorem WorkerToken.frame_refl (token : WorkerToken) (s : WorkerWorld) : token.Frame s s := by
  cases token with
  | creation i | execution i => exact fun h => h
  | lock i n => exact ⟨fun _ h => h, fun a ha hn => ⟨a, ha, hn, rfl, fun _ => ⟨rfl, rfl⟩⟩⟩
  | hydration me => exact fun h => ⟨h, fun i a ha hw => ⟨a, ha, hw, rfl⟩, fun _ _ h => .inl h⟩
  | work w => exact fun _ h => h

theorem WorkerToken.Allocated.of_grows {token : WorkerToken} {s t : WorkerWorld}
    (h : token.Allocated s) (hg : WorkerGrows s t) : token.Allocated t := by
  cases token with
  | creation i =>
    have hi : i < s.attempts.length := h
    obtain ⟨a', ha', -⟩ := hg.attempt i _ (getElem?_eq_getElem hi)
    exact (List.getElem?_eq_some_iff.mp ha').1
  | execution i =>
    obtain ⟨me, w, hlog⟩ := h
    exact ⟨me, w, hg.events.mem hlog⟩
  | lock i n =>
    obtain ⟨a, ha, hn⟩ := h
    obtain ⟨a', ha', hgrows⟩ := hg.attempt i a ha
    exact ⟨a', ha', Nat.lt_of_lt_of_le hn hgrows.issued⟩
  | hydration me => exact hg.started me h
  | work w =>
    have hw : w < s.works.length := h
    obtain ⟨x', hx', -⟩ := hg.works w _ (getElem?_eq_getElem hw)
    exact (List.getElem?_eq_some_iff.mp hx').1

def workerContract : Contract WorkerWorld WorkerToken where
  inv := WorkerInv
  cond _ _ := True
  law := WorkerLaw
  rely := WorkerGrows
  rely_refl := .refl
  rely_trans := .trans
  rely_of_law _ h := h.grows
  allocated s token := token.Allocated s
  allocated_of_law h ha := ha.of_grows h.grows
  frame := WorkerToken.Frame
  frame_refl := WorkerToken.frame_refl
  frame_trans := WorkerToken.frame_trans

theorem stutters_workerContract : Stutters workerContract :=
  fun s _ => ⟨.refl s, [], rfl, fun _ h => absurd h not_mem_nil⟩

/-! ## Turns -/

/-- A turn that respects the contract and every token but `own`. -/
structure WorkerTurn (own : Set WorkerToken) (s t : WorkerWorld) : Prop where
  inv : WorkerInv t
  law : WorkerLaw s t
  frame : ∀ token, token ∉ own → token.Frame s t

namespace WorkerTurn

variable {own own' uses : Set WorkerToken} {s t u : WorkerWorld}

theorem turn (h : WorkerTurn own s t) (hsub : own ⊆ uses) : Turn workerContract uses s t :=
  ⟨h.inv, h.law, fun token htoken _ => h.frame token fun hown => htoken (hsub hown)⟩

theorem keeps {G : WorkerWorld → Prop} (h : WorkerTurn own s t) (hG : Stable workerContract uses G)
    (hdisj : ∀ token ∈ uses, token ∉ own) (hs : G s) : G t :=
  hG s t h.law.grows (fun token htoken => h.frame token (hdisj token htoken)) hs

theorem keeps_always {G : WorkerWorld → Prop} (h : WorkerTurn own s t)
    (hG : Stable workerContract ∅ G) (hs : G s) : G t :=
  h.keeps hG (fun _ htoken => absurd htoken (Set.notMem_empty _)) hs

theorem refl (hs : WorkerInv s) : WorkerTurn own s s :=
  ⟨hs, stutters_workerContract s hs, fun token _ => token.frame_refl s⟩

theorem mono (h : WorkerTurn own s t) (hsub : own ⊆ own') : WorkerTurn own' s t :=
  ⟨h.inv, h.law, fun token htoken => h.frame token fun hown => htoken (hsub hown)⟩

theorem trans (h : WorkerTurn own s t) (h' : WorkerTurn own t u)
    (heffect : ∀ e, EffectLaw t e → EffectLaw s e) : WorkerTurn own s u := by
  refine ⟨h'.inv, ⟨h.law.grows.trans h'.law.grows, ?_⟩,
    fun token htoken => WorkerToken.frame_trans (h.frame token htoken) (h'.frame token htoken)⟩
  obtain ⟨new, hnew, hlaw⟩ := h.law.effects
  obtain ⟨new', hnew', hlaw'⟩ := h'.law.effects
  refine ⟨new' ++ new, by rw [hnew', hnew, append_assoc], fun e he => ?_⟩
  rcases mem_append.mp he with he | he
  · exact heffect e (hlaw' e he)
  · exact hlaw e he

theorem andThen (h : WorkerTurn own s t) (h' : WorkerTurn own t u) (hevents : u.events = t.events) :
    WorkerTurn own s u := by
  refine ⟨h'.inv, ⟨h.law.grows.trans h'.law.grows, ?_⟩,
    fun token htoken => WorkerToken.frame_trans (h.frame token htoken) (h'.frame token htoken)⟩
  rw [hevents]
  exact h.law.effects

end WorkerTurn

theorem effectLaw_of_same {s t : WorkerWorld} (hworks : t.works = s.works)
    (hevents : s.events <:+ t.events)
    (hattempts : ∀ i : Nat, (t.attempts[i]?).map WorkerAttempt.view =
      (s.attempts[i]?).map WorkerAttempt.view) (e : WorkerEvent) (h : EffectLaw t e) :
    EffectLaw s e := by
  have hworking : ∀ me w, t.Working me w → s.Working me w := by
    rintro me w ⟨x, hx, hrest⟩
    exact ⟨x, by rw [← hworks]; exact hx, hrest⟩
  cases e with
  | created me i w | launched me i w | acknowledged me key w => exact hworking me w h
  | cancelled me i work =>
    cases work with
    | none => trivial
    | some w => exact hworking me w h
  | submitted i =>
    obtain ⟨hnew, a, ha, horigin, hstate⟩ := h
    refine ⟨fun h => hnew (hevents.mem h), ?_⟩
    have hview := hattempts i
    rw [ha, map_some] at hview
    obtain ⟨b, hb, hba⟩ := map_eq_some_iff.mp hview.symm
    simp only [WorkerAttempt.view, Prod.mk.injEq] at hba
    exact ⟨b, hb, hba.2.2.1.trans horigin, by rw [hba.2.2.2.1]; exact hstate⟩
  | reported _ _ _ | inventory _ _ _ | restored _ _ | ignored _ | replaced _ => trivial

theorem WorkerTurn.before {own : Set WorkerToken} {s t u : WorkerWorld} (h : WorkerTurn own s t)
    (h' : WorkerTurn own t u) (hworks : t.works = s.works)
    (hattempts : ∀ i : Nat, (t.attempts[i]?).map WorkerAttempt.view =
      (s.attempts[i]?).map WorkerAttempt.view) : WorkerTurn own s u :=
  h.trans h' (effectLaw_of_same hworks h.law.grows.events hattempts)

/-- The result may go into the buffer; without an attempt only hydration puts one there. -/
structure Puttable (own : Set WorkerToken) (s : WorkerWorld) (me : Nat) (key : JsString)
    (r : RemoteResult) : Prop where
  record : s.records key ≠ none
  settled : s.Clean → ∀ (i : Nat) (a : WorkerAttempt), s.attempts[i]? = some a → a.worker = me →
    a.key = key → a.Recorded → a.Settled r
  attempt : (∃ (i : Nat) (a : WorkerAttempt), s.attempts[i]? = some a ∧ a.worker = me ∧
    a.key = key ∧ a.Recorded) ∨ s.phase me = .loading ∧ .hydration me ∈ own

/-- What an event needs to be added. -/
def Loggable (own : Set WorkerToken) (s : WorkerWorld) : WorkerEvent → Prop
  | .launched _ i _ => .creation i ∈ own ∧ ∃ a, s.attempts[i]? = some a ∧ a.origin = .assigned
  | .submitted i => .execution i ∈ own ∧ ∃ me w, .launched me i w ∈ s.events
  | .reported me key r => s.Clean → s.Reportable me key r
  | .inventory _ unfinished terminal => s.Clean → ∀ key ∈ unfinished, key ∉ terminal
  | .restored _ _ => False
  | _ => True

/-- What an attempt needs to be added: one that is being created needs its runtime hydrated,
one that was read from the store a runtime that is hydrating. -/
structure Addable (own : Set WorkerToken) (s : WorkerWorld) (b : WorkerAttempt) : Prop where
  started : s.phase b.worker ≠ .idle
  origin : b.origin = .assigning ∧ s.phase b.worker = .hydrated ∨
    b.origin = .hydrated ∧ s.phase b.worker = .loading ∧ .hydration b.worker ∈ own
  record : b.Recorded → s.records b.key ≠ none
  unique : b.Recorded → ∀ (j : Nat) (c : WorkerAttempt), s.attempts[j]? = some c →
    c.worker = b.worker → c.key ≠ b.key
  result : b.state = .terminal → ∃ r, b.result = some r ∧ r.key = b.key
  terminal : b.result ≠ none → b.state = .terminal
  unbuffered : b.Recorded → s.buffered b.worker b.key = none

/-! ## What a turn may change -/

section Change

variable (own : Set WorkerToken) (s : WorkerWorld)

/-- An attempt stays the attempt of its request; its record may be the first of the key. -/
structure AttemptChange (records : JsString → Option RemoteAttemptRecord) (i : Nat)
    (a a' : WorkerAttempt) : Prop where
  grows : AttemptGrows s.Clean a a'
  origin : a'.origin = a.origin ∨ a.origin ≠ .hydrated ∧ a'.origin = .assigned ∧
    s.records a.key = none ∧ records a.key ≠ none
  result : s.Clean → a'.state = .terminal → ∃ r, a'.result = some r ∧ r.key = a.key
  terminal : s.Clean → a'.result ≠ none → a'.state = .terminal
  lock : .lock i a.served ∈ own ∨ a'.served = a.served ∧
    (s.Good a.worker → a'.state = a.state ∧ a'.result = a.result)

inductive AttemptsChange (records : JsString → Option RemoteAttemptRecord)
    (workers : Nat → WorkerState) (attempts : List WorkerAttempt) : Prop
  | same (h : attempts = s.attempts)
  | changed (i : Nat) (a a' : WorkerAttempt) (ha : s.attempts[i]? = some a)
      (h : ∀ j : Nat, attempts[j]? = if j = i then some a' else s.attempts[j]?)
      (hchange : AttemptChange own s records i a a')
  | added (b : WorkerAttempt) (h : attempts = s.attempts ++ [b]) (hb : Addable own s b)
      (hnone : b.Recorded → (workers b.worker).results.lookup b.key = none)

structure RuntimeChange (events : List WorkerEvent) (me : Nat) (worker : WorkerState) : Prop where
  phase : worker.initialization = s.phase me ∨
    s.phase me = .idle ∧ worker.initialization = .loading ∨
    s.phase me = .loading ∧ .hydration me ∈ own ∧ (worker.initialization = .failed ∨
      worker.initialization = .hydrated ∧ .restored me worker.results ∈ events)
  results : ∀ key r, worker.results.lookup key = some r →
    s.buffered me key = some r ∨ Puttable own s me key r
  attempts : ∀ entry ∈ worker.attempts, entry ∈ s.entries me ∨
    ∃ a, s.attempts[entry.2]? = some a ∧ a.worker = me ∧ a.key = entry.1 ∧ a.Recorded
  distinct : (worker.results.map (·.1)).Nodup
  session : worker.session ≠ none → s.phase me = .hydrated
  available : worker.attemptPersistenceAvailable = true → s.available me = true

inductive EventsChange (workers : Nat → WorkerState) (events : List WorkerEvent) : Prop
  | same (h : events = s.events)
  | logged (e : WorkerEvent) (h : events = e :: s.events) (hlaw : EffectLaw s e)
      (hlog : Loggable own s e)
  | restored (me : Nat) (h : events = .restored me (workers me).results :: s.events)
      (hloading : s.phase me = .loading) (hphase : (workers me).initialization = .hydrated)

/-- A change of the state, part by part. -/
structure WorkerChange (t : WorkerWorld) : Prop where
  record : ∀ key, s.records key ≠ none → t.records key ≠ none
  recordKey : ∀ key record, t.records key = some record → record.request.key = key
  durable : ∀ key result, t.durableResults key = some result →
    t.records key ≠ none ∧ result.key = key
  attempts : AttemptsChange own s t.records t.workers t.attempts
  state : ∀ me, RuntimeChange own s t.events me (t.workers me)
  works : ∀ (w : Nat) (x : WorkerWork), t.works[w]? = some x → s.phase x.worker = .hydrated
  work : ∀ (w : Nat) (x : WorkerWork), s.works[w]? = some x → ∃ x', t.works[w]? = some x' ∧
    x'.worker = x.worker ∧ x'.session = x.session ∧ (x.closed = true → x'.closed = true) ∧
    (x'.closed = x.closed ∨ .work w ∈ own)
  events : EventsChange own s t.workers t.events
  publications : ∀ p ∈ t.publications, (∃ b, (p.1, p.2.1, b) ∈ s.publications) ∨
    (s.Clean → s.SettledBy p.1 p.2.1)

variable {own s} {t : WorkerWorld}

theorem AttemptChange.of_view (hs : WorkerInv s)
    {records : JsString → Option RemoteAttemptRecord} {i : Nat} {a a' : WorkerAttempt}
    (ha : s.attempts[i]? = some a) (hview : a'.view = a.view) :
    AttemptChange own s records i a a' := by
  have hgrows : AttemptGrows s.Clean a a' := .of_view hview
  simp only [WorkerAttempt.view, Prod.mk.injEq] at hview
  obtain ⟨-, -, ho, hstate, hresult, -, hserved⟩ := hview
  refine ⟨hgrows, .inl ho, fun hc h => ?_, fun hc h => ?_, .inr ⟨hserved, fun _ => ⟨hstate, hresult⟩⟩⟩
  · rw [hresult]
    exact hs.result hc i a ha (hstate.symm.trans h)
  · rw [hstate]
    exact hs.terminal hc i a ha (by rw [← hresult]; exact h)

theorem RuntimeChange.refl (hs : WorkerInv s) {events : List WorkerEvent} (me : Nat) :
    RuntimeChange own s events me (s.workers me) :=
  ⟨.inl rfl, fun _ _ h => .inl h, fun _ h => .inl h, hs.distinct me, hs.session me, fun h => h⟩

theorem WorkerChange.refl (hs : WorkerInv s) : WorkerChange own s s :=
  ⟨fun _ h => h, hs.recordKey, hs.durable, .same rfl, .refl hs, hs.works,
    fun _ x h => ⟨x, h, rfl, rfl, fun h => h, .inl rfl⟩, .same rfl, fun p hp => .inl ⟨p.2.2, hp⟩⟩

namespace WorkerChange

variable (hs : WorkerInv s) (h : WorkerChange own s t)
include h

/-! ### The parts of the state after it -/

theorem suffix : s.events <:+ t.events := by
  rcases h.events with h | ⟨e, h, -⟩ | ⟨me, h, -⟩
  · rw [h]
  · exact ⟨[e], h.symm⟩
  · exact ⟨[_], h.symm⟩

theorem clean : t.Clean → s.Clean := Clean.of_suffix h.suffix

/-- An event is an old one, one that may be added, or the end of a hydration. -/
theorem mem_events {e : WorkerEvent} (he : e ∈ t.events) : e ∈ s.events ∨ Loggable own s e ∨
    ∃ me, e = .restored me (t.workers me).results ∧ s.phase me = .loading ∧
      t.phase me = .hydrated := by
  rcases h.events with h | ⟨e', h, -, hlog⟩ | ⟨me, h, hloading, hphase⟩
  · rw [h] at he
    exact .inl he
  · rw [h] at he
    rcases mem_cons.mp he with rfl | he
    · exact .inr (.inl hlog)
    · exact .inl he
  · rw [h] at he
    rcases mem_cons.mp he with rfl | he
    · exact .inr (.inr ⟨me, rfl, hloading, hphase⟩)
    · exact .inl he

theorem mem_restored {me : Nat} {results : List (JsString × RemoteResult)}
    (he : .restored me results ∈ t.events) : .restored me results ∈ s.events ∨
      results = (t.workers me).results ∧ s.phase me = .loading ∧ t.phase me = .hydrated := by
  rcases h.mem_events he with he | hlog | ⟨me', he, hrest⟩
  · exact .inl he
  · exact absurd hlog id
  · obtain ⟨rfl, rfl⟩ := WorkerEvent.restored.inj he
    exact .inr ⟨rfl, hrest⟩

theorem hydrated {me : Nat} (hp : s.phase me = .hydrated) : t.phase me = .hydrated := by
  rcases (h.state me).phase with h | ⟨h, -⟩ | ⟨h, -⟩
  · exact h.trans hp
  · rw [hp] at h
    cases h
  · rw [hp] at h
    cases h

theorem failed {me : Nat} (hp : s.phase me = .failed) : t.phase me = .failed := by
  rcases (h.state me).phase with h | ⟨h, -⟩ | ⟨h, -⟩
  · exact h.trans hp
  · rw [hp] at h
    cases h
  · rw [hp] at h
    cases h

theorem started {me : Nat} (hp : s.phase me ≠ .idle) : t.phase me ≠ .idle := by
  rcases (h.state me).phase with h | ⟨h, -⟩ | ⟨-, -, h | ⟨h, -⟩⟩
  · rw [phase, h]
    exact hp
  · exact absurd h hp
  · rw [phase, h]
    exact InitializationPhase.noConfusion
  · rw [phase, h]
    exact InitializationPhase.noConfusion

include hs

theorem attempt {i : Nat} {a : WorkerAttempt} (ha : s.attempts[i]? = some a) :
    ∃ a', t.attempts[i]? = some a' ∧ AttemptChange own s t.records i a a' := by
  rcases h.attempts with h | ⟨j, b, b', hb, h, hchange⟩ | ⟨b, h, -⟩
  · rw [h]
    exact ⟨a, ha, .of_view hs ha rfl⟩
  · rw [h]
    by_cases hj : i = j
    · subst hj
      obtain rfl := some.inj (ha.symm.trans hb)
      exact ⟨b', if_pos rfl, hchange⟩
    · exact ⟨a, (if_neg hj).trans ha, .of_view hs ha rfl⟩
  · rw [h]
    exact ⟨a, getElem?_append_of_some ha, .of_view hs ha rfl⟩

/-- An attempt is an old one, which only one index may have changed, or is added at it. -/
theorem was : ∃ i, ∀ {j : Nat} {a' : WorkerAttempt}, t.attempts[j]? = some a' →
    (∃ a, s.attempts[j]? = some a ∧ AttemptChange own s t.records j a a' ∧ (j ≠ i → a' = a)) ∨
    j = i ∧ Addable own s a' ∧ (a'.Recorded → t.buffered a'.worker a'.key = none) := by
  rcases h.attempts with h | ⟨i, b, b', hb, h, hchange⟩ | ⟨b, h, hb, hnone⟩
  · refine ⟨0, fun {j a'} ha => .inl ⟨a', ?_, ?_⟩⟩
    · rw [← h]
      exact ha
    · rw [h] at ha
      exact ⟨.of_view hs ha rfl, fun _ => rfl⟩
  · refine ⟨i, fun {j a'} ha => .inl ?_⟩
    rw [h] at ha
    by_cases hj : j = i
    · subst hj
      rw [if_pos rfl] at ha
      obtain rfl := some.inj ha
      exact ⟨b, hb, hchange, fun hj => absurd rfl hj⟩
    · rw [if_neg hj] at ha
      exact ⟨a', ha, .of_view hs ha rfl, fun _ => rfl⟩
  · refine ⟨s.attempts.length, fun {j a'} ha => ?_⟩
    rw [h, getElem?_append] at ha
    by_cases hj : j < s.attempts.length
    · rw [if_pos hj] at ha
      exact .inl ⟨a', ha, .of_view hs ha rfl, fun _ => rfl⟩
    rw [if_neg hj] at ha
    obtain ⟨h₁, h₂⟩ := List.getElem?_eq_some_iff.mp ha
    rw [length_singleton] at h₁
    rw [getElem_singleton] at h₂
    subst h₂
    exact .inr ⟨by omega, hb, hnone⟩

/-- A recorded attempt was recorded, is recorded for the first time, or is added by hydration. -/
theorem recorded {j : Nat} {a' : WorkerAttempt} (ha' : t.attempts[j]? = some a')
    (hr : a'.Recorded) :
    (∃ a, s.attempts[j]? = some a ∧ AttemptGrows s.Clean a a' ∧ a'.origin = a.origin ∧ a.Recorded) ∨
    s.records a'.key = none ∧ t.records a'.key ≠ none ∨
    Addable own s a' ∧ s.phase a'.worker = .loading ∧ t.buffered a'.worker a'.key = none := by
  obtain ⟨i, hwas⟩ := h.was hs
  rcases hwas ha' with ⟨a, ha, hchange, -⟩ | ⟨-, hadd, hnone⟩
  · rcases hchange.origin with ho | ⟨-, -, hnone, hrecord⟩
    · exact .inl ⟨a, ha, hchange.grows, ho, by rw [WorkerAttempt.Recorded, ← ho]; exact hr⟩
    · rw [← hchange.grows.key] at hnone hrecord
      exact .inr (.inl ⟨hnone, hrecord⟩)
  · rcases hadd.origin with ⟨ho, -⟩ | ⟨-, hloading, -⟩
    · exact absurd ho hr
    · exact .inr (.inr ⟨hadd, hloading, hnone hr⟩)

/-- Two recorded attempts of one key, both assigned or of one runtime, are one. -/
theorem eq_of_key {j k : Nat} {a b : WorkerAttempt} (ha : t.attempts[j]? = some a)
    (hb : t.attempts[k]? = some b) (hra : a.Recorded) (hrb : b.Recorded) (hkey : a.key = b.key)
    (hsame : a.origin = .assigned ∧ b.origin = .assigned ∨ a.worker = b.worker) : j = k := by
  obtain ⟨i, hwas⟩ := h.was hs
  -- one of them is as it was, when they are at different indices
  have hone : ∀ {j k : Nat} {a b : WorkerAttempt}, j ≠ i → t.attempts[j]? = some a →
      t.attempts[k]? = some b → a.Recorded → b.Recorded → a.key = b.key →
      (a.origin = .assigned ∧ b.origin = .assigned ∨ a.worker = b.worker) → j = k := by
    intro j k a b hj ha hb hra hrb hkey hsame
    rcases hwas ha with ⟨a, ha, -, heq⟩ | ⟨h, -⟩
    swap
    · exact absurd h hj
    obtain rfl := heq hj
    rcases h.recorded hs hb hrb with ⟨b₀, hb₀, hg, ho, hr⟩ | ⟨hnone, -⟩ | ⟨hadd, hloading, -⟩
    · rw [hg.key] at hkey
      rcases hsame with ⟨h₁, h₂⟩ | hw
      · exact hs.assigned j k _ b₀ ha hb₀ h₁ (ho.symm.trans h₂) hkey
      · exact hs.unique j k _ b₀ ha hb₀ hra hr (hw.trans hg.worker) hkey
    · rw [← hkey] at hnone
      exact absurd hnone (hs.recorded j _ ha hra)
    · rcases hsame with ⟨-, h⟩ | hw
      · rcases hadd.origin with ⟨h', -⟩ | ⟨h', -⟩
        · exact absurd h' hrb
        · rw [h'] at h
          cases h
      · exact absurd hkey (hadd.unique hrb j _ ha hw)
  by_cases hj : j = i
  · by_cases hk : k = i
    · rw [hj, hk]
    · refine (hone hk hb ha hrb hra hkey.symm ?_).symm
      rcases hsame with ⟨h₁, h₂⟩ | h
      · exact .inl ⟨h₂, h₁⟩
      · exact .inr h.symm
  · exact hone hj ha hb hra hrb hkey hsame

theorem agrees (hc : s.Clean) {me : Nat} {key : JsString} {r : RemoteResult}
    (ha : s.Agrees me key r) : t.Agrees me key r := by
  refine ⟨h.record key ha.record, h.hydrated ha.phase, fun r' hr' => ?_,
    fun i a' ha' hw hk hr => ?_⟩
  · rcases (h.state me).results key r' hr' with hr' | hput
    · exact ha.buffered r' hr'
    · rcases hput.attempt with ⟨i, a, hi, hw, hk, hr⟩ | ⟨hloading, -⟩
      · have h₁ := hput.settled hc i a hi hw hk hr
        have h₂ := ha.settled i a hi hw hk hr
        exact some.inj (h₁.2.symm.trans h₂.2)
      · rw [ha.phase] at hloading
        cases hloading
  · rcases h.recorded hs ha' hr with ⟨a, hi, hg, -, hra⟩ | ⟨hnone, -⟩ | ⟨-, hloading, -⟩
    · exact hg.settled hc r (ha.settled i a hi (hg.worker.symm.trans hw) (hg.key.symm.trans hk) hra)
    · rw [hk] at hnone
      exact absurd hnone ha.record
    · rw [hw, ha.phase] at hloading
      cases hloading

theorem vouched (hc : s.Clean) {me : Nat} {key : JsString} {r : RemoteResult}
    (hv : s.Vouched me key r) : t.Vouched me key r := by
  refine hv.of_grows (fun i a ha => ?_) h.suffix hc
  obtain ⟨a', ha', hchange⟩ := h.attempt hs ha
  exact ⟨a', ha', hchange.grows⟩

theorem bufferedResult (hc : s.Clean) {i : Nat} {a' : WorkerAttempt} {r : RemoteResult}
    (ha' : t.attempts[i]? = some a') (hr : a'.Recorded)
    (hb : t.buffered a'.worker a'.key = some r) : a'.Settled r := by
  rcases h.recorded hs ha' hr with ⟨a, ha, hg, -, hra⟩ | ⟨hnone, -⟩ | ⟨-, -, hnone⟩
  · rw [hg.worker, hg.key] at hb
    refine hg.settled hc r ?_
    rcases (h.state a.worker).results a.key r hb with hb | hput
    · exact hs.bufferedResult hc i a r ha hra hb
    · exact hput.settled hc i a ha rfl rfl hra
  · rcases (h.state a'.worker).results a'.key r hb with hb | hput
    · exact absurd hnone (hs.buffered _ _ r hb)
    · exact absurd hnone hput.record
  · rw [hnone] at hb
    cases hb

theorem settledBy (hc : s.Clean) {me : Nat} {r : RemoteResult} (hset : s.SettledBy me r) :
    t.SettledBy me r := by
  obtain ⟨i, a, ha, hw, hk, hr, hset⟩ := hset
  obtain ⟨a', ha', hchange⟩ := h.attempt hs ha
  have hg := hchange.grows
  exact ⟨i, a', ha', hg.worker.trans hw, hg.key.trans hk, hg.recorded hr, hg.settled hc r hset⟩

/-! ### The contract after it -/

theorem inv : WorkerInv t where
  recordKey := h.recordKey
  recorded := fun i a' ha' hr => by
    rcases h.recorded hs ha' hr with ⟨a, ha, hg, -, hra⟩ | ⟨-, hrecord⟩ | ⟨hadd, -⟩
    · rw [hg.key]
      exact h.record _ (hs.recorded i a ha hra)
    · exact hrecord
    · exact h.record _ (hadd.record hr)
  durable := h.durable
  buffered := fun me key r hb => by
    rcases (h.state me).results key r hb with hb | hput
    · exact h.record key (hs.buffered me key r hb)
    · exact h.record key hput.record
  assigned := fun i j a b ha hb hao hbo hk => by
    refine h.eq_of_key hs ha hb ?_ ?_ hk (.inl ⟨hao, hbo⟩)
    · rw [WorkerAttempt.Recorded, hao]
      exact AttemptOrigin.noConfusion
    · rw [WorkerAttempt.Recorded, hbo]
      exact AttemptOrigin.noConfusion
  unique := fun i j a b ha hb hra hrb hw hk => h.eq_of_key hs ha hb hra hrb hk (.inr hw)
  entry := fun me key i he => by
    have hfound : ∃ a, s.attempts[i]? = some a ∧ a.worker = me ∧ a.key = key ∧ a.Recorded := by
      rcases (h.state me).attempts (key, i) he with he | he
      · exact hs.entry me key i he
      · exact he
    obtain ⟨a, ha, hw, hk, hr⟩ := hfound
    obtain ⟨a', ha', hchange⟩ := h.attempt hs ha
    have hg := hchange.grows
    exact ⟨a', ha', hg.worker.trans hw, hg.key.trans hk, hg.recorded hr⟩
  phase := fun i a' ha' => by
    obtain ⟨j, hwas⟩ := h.was hs
    rcases hwas ha' with ⟨a, ha, hchange, -⟩ | ⟨-, hadd, -⟩
    · obtain ⟨h₁, h₂⟩ := hs.phase i a ha
      rw [hchange.grows.worker]
      refine ⟨h.started h₁, fun ho => h.hydrated (h₂ ?_)⟩
      rcases hchange.origin with ho' | ⟨ho', -⟩
      · rw [← ho']
        exact ho
      · exact ho'
    · refine ⟨h.started hadd.started, fun ho => ?_⟩
      rcases hadd.origin with ⟨-, hp⟩ | ⟨ho', -⟩
      · exact h.hydrated hp
      · exact absurd ho' ho
  idle := fun me key hp => by
    have hidle : s.phase me = .idle := not_ne_iff.mp fun hne => h.started hne hp
    cases hb : t.buffered me key with
    | none => rfl
    | some r =>
      rcases (h.state me).results key r hb with hb | hput
      · rw [hs.idle me key hidle] at hb
        cases hb
      · rcases hput.attempt with ⟨i, a, ha, rfl, -⟩ | ⟨hloading, -⟩
        · exact absurd hidle (hs.phase i a ha).1
        · rw [hidle] at hloading
          cases hloading
  session := fun me hsession => h.hydrated ((h.state me).session hsession)
  works := fun w x hx => h.hydrated (h.works w x hx)
  launched := fun me i w he => by
    have hfound : ∃ a, s.attempts[i]? = some a ∧ a.origin = .assigned := by
      rcases h.mem_events he with he | hlog | ⟨me', he, -⟩
      · exact hs.launched me i w he
      · exact hlog.2
      · cases he
    obtain ⟨a, ha, ho⟩ := hfound
    obtain ⟨a', ha', hchange⟩ := h.attempt hs ha
    rcases hchange.origin with ho' | ⟨-, ho', -⟩
    · exact ⟨a', ha', ho'.trans ho⟩
    · exact ⟨a', ha', ho'⟩
  submitted := fun i he => by
    have hfound : ∃ me w, .launched me i w ∈ s.events := by
      rcases h.mem_events he with he | hlog | ⟨me', he, -⟩
      · exact hs.submitted i he
      · exact hlog.2
      · cases he
    obtain ⟨me, w, hlaunched⟩ := hfound
    exact ⟨me, w, h.suffix.mem hlaunched⟩
  submittedOnce := by
    rcases h.events with h | ⟨e, h, hlaw, -⟩ | ⟨me, h, -⟩
    · rw [h]
      exact hs.submittedOnce
    · rw [h]
      refine pairwise_cons.mpr ⟨?_, hs.submittedOnce⟩
      rintro e' he' i rfl rfl
      exact hlaw.1 he'
    · rw [h]
      exact pairwise_cons.mpr ⟨fun _ _ _ he => WorkerEvent.noConfusion he, hs.submittedOnce⟩
  result := fun hc i a' ha' hstate => by
    obtain ⟨j, hwas⟩ := h.was hs
    rcases hwas ha' with ⟨a, -, hchange, -⟩ | ⟨-, hadd, -⟩
    · rw [hchange.grows.key]
      exact hchange.result (h.clean hc) hstate
    · exact hadd.result hstate
  terminal := fun hc i a' ha' hresult => by
    obtain ⟨j, hwas⟩ := h.was hs
    rcases hwas ha' with ⟨a, -, hchange, -⟩ | ⟨-, hadd, -⟩
    · exact hchange.terminal (h.clean hc) hresult
    · exact hadd.terminal hresult
  distinct := fun me => (h.state me).distinct
  bufferedResult := fun hc _ _ _ ha' hr hb => h.bufferedResult hs (h.clean hc) ha' hr hb
  publication := fun hc me r b hp => by
    rcases h.publications _ hp with ⟨b', hp'⟩ | hnew
    · exact h.settledBy hs (h.clean hc) (hs.publication (h.clean hc) me r b' hp')
    · exact h.settledBy hs (h.clean hc) (hnew (h.clean hc))
  held := fun hc me key r hp hb => by
    rcases (h.state me).phase with hp' | ⟨-, hp'⟩ | ⟨-, -, hp' | ⟨-, hlog⟩⟩
    · have hphase : s.phase me = .hydrated := hp'.symm.trans hp
      refine h.vouched hs (h.clean hc) ?_
      rcases (h.state me).results key r hb with hb | hput
      · exact hs.held (h.clean hc) me key r hphase hb
      · rcases hput.attempt with ⟨i, a, ha, hw, hk, hr⟩ | ⟨hloading, -⟩
        · exact .inl ⟨i, a, ha, hw, hk, hr, hput.settled (h.clean hc) i a ha hw hk hr⟩
        · rw [hphase] at hloading
          cases hloading
    · cases hp.symm.trans hp'
    · cases hp.symm.trans hp'
    · exact .inr ⟨(t.workers me).results, hlog, hb⟩
  restored := fun me results he => by
    rcases h.mem_restored he with he | ⟨-, -, hp⟩
    · exact h.hydrated (hs.restored me results he)
    · exact hp
  restoredOnce := fun me results results' he he' => by
    rcases h.mem_restored he with he | ⟨hr, hloading, -⟩
    · rcases h.mem_restored he' with he' | ⟨-, hloading, -⟩
      · exact hs.restoredOnce me results results' he he'
      · rw [hs.restored me results he] at hloading
        cases hloading
    · rcases h.mem_restored he' with he' | ⟨hr', -⟩
      · rw [hs.restored me results' he'] at hloading
        cases hloading
      · exact hr.trans hr'.symm
  kept := fun hc me results key r he hlookup => by
    rcases h.mem_restored he with he | ⟨rfl, -, hp⟩
    · exact h.agrees hs (h.clean hc) (hs.kept (h.clean hc) me results key r he hlookup)
    · have hb : t.buffered me key = some r := hlookup
      refine ⟨?_, hp, fun r' hr' => some.inj (hr'.symm.trans hb), ?_⟩
      · rcases (h.state me).results key r hb with hb | hput
        · exact h.record key (hs.buffered me key r hb)
        · exact h.record key hput.record
      · rintro i a ha rfl rfl hr
        exact h.bufferedResult hs (h.clean hc) ha hr hb
  reported := fun hc me key r he => by
    have hold : s.Reportable me key r := by
      rcases h.mem_events he with he | hlog | ⟨me', he, -⟩
      · exact hs.reported (h.clean hc) me key r he
      · exact hlog (h.clean hc)
      · cases he
    exact ⟨h.agrees hs (h.clean hc) hold.1, h.vouched hs (h.clean hc) hold.2⟩
  inventory := fun hc me unfinished terminal he => by
    rcases h.mem_events he with he | hlog | ⟨me', he, -⟩
    · exact hs.inventory (h.clean hc) me unfinished terminal he
    · exact hlog (h.clean hc)
    · cases he

theorem grows : WorkerGrows s t where
  record := h.record
  attempt := fun i a ha => by
    obtain ⟨a', ha', hchange⟩ := h.attempt hs ha
    exact ⟨a', ha', hchange.grows.trans (.refl a') h.clean⟩
  available := fun me => (h.state me).available
  phase := fun me => h.hydrated
  works := fun w x hx => by
    obtain ⟨x', hx', hw, hsession, hclosed, -⟩ := h.work w x hx
    exact ⟨x', hx', hw, hsession, hclosed⟩
  events := h.suffix
  started := fun me => h.started
  failed := fun me => h.failed
  agrees := fun hc me key r => h.agrees hs (h.clean hc)
  assigned := fun i a' ha' ho => by
    have hr : a'.Recorded := by
      rw [WorkerAttempt.Recorded, ho]
      exact AttemptOrigin.noConfusion
    rcases h.recorded hs ha' hr with ⟨a, ha, -, ho', -⟩ | ⟨hnone, -⟩ | ⟨hadd, -⟩
    · exact .inl ⟨a, ha, ho'.symm.trans ho⟩
    · exact .inr hnone
    · rcases hadd.origin with ⟨ho', -⟩ | ⟨ho', -⟩
      · cases ho.symm.trans ho'
      · cases ho.symm.trans ho'

theorem frame (token : WorkerToken) (htoken : token ∉ own) : token.Frame s t := by
  rcases token with i | i | ⟨i, n⟩ | me | w
  · intro hnone me w he
    rcases h.mem_events he with he | hlog | ⟨me', he, -⟩
    · exact hnone me w he
    · exact htoken hlog.1
    · cases he
  · intro hnone he
    rcases h.mem_events he with he | hlog | ⟨me', he, -⟩
    · exact hnone he
    · exact htoken hlog.1
    · cases he
  · refine ⟨fun me hgood => ⟨h.clean hgood.1, (h.state me).available hgood.2⟩, ?_⟩
    rintro a ha rfl
    obtain ⟨a', ha', hchange⟩ := h.attempt hs ha
    rcases hchange.lock with hown | ⟨hserved, hsame⟩
    · exact absurd hown htoken
    · exact ⟨a', ha', hserved, hchange.grows.worker,
        fun hgood => hsame ⟨h.clean hgood.1, (h.state _).available hgood.2⟩⟩
  · intro hp
    refine ⟨?_, fun i a' ha' hw => ?_, fun key r hb => ?_⟩
    · rcases (h.state me).phase with hp' | ⟨hp', -⟩ | ⟨-, hown, -⟩
      · exact hp'.trans hp
      · rw [hp] at hp'
        cases hp'
      · exact absurd hown htoken
    · obtain ⟨j, hwas⟩ := h.was hs
      rcases hwas ha' with ⟨a, ha, hchange, -⟩ | ⟨-, hadd, -⟩
      · exact ⟨a, ha, hchange.grows.worker.symm.trans hw, hchange.grows.key.symm⟩
      · rcases hadd.origin with ⟨-, hp'⟩ | ⟨-, -, hown⟩
        · rw [hw, hp] at hp'
          cases hp'
        · rw [hw] at hown
          exact absurd hown htoken
    · rcases (h.state me).results key r hb with hb | hput
      · exact .inl hb
      · rcases hput.attempt with ⟨i, a, ha, hw, hk, -⟩ | ⟨-, hown⟩
        · exact .inr ⟨i, a, ha, hw, hk⟩
        · exact absurd hown htoken
  · rintro me ⟨x, hx, hw, hopen⟩
    obtain ⟨x', hx', hw', -, -, hclosed | hown⟩ := h.work w x hx
    · exact ⟨x', hx', hw'.trans hw, hclosed.trans hopen⟩
    · exact absurd hown htoken

theorem turn : WorkerTurn own s t := by
  refine ⟨h.inv hs, ⟨h.grows hs, ?_⟩, h.frame hs⟩
  rcases h.events with h | ⟨e, h, hlaw, -⟩ | ⟨me, h, -⟩
  · exact ⟨[], h, fun _ he => absurd he not_mem_nil⟩
  · refine ⟨[e], h, fun e' he => ?_⟩
    rw [mem_singleton.mp he]
    exact hlaw
  · refine ⟨[_], h, fun e' he => ?_⟩
    rw [mem_singleton.mp he]
    trivial

end WorkerChange

end Change

end TegoNext
