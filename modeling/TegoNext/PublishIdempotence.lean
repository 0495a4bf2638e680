/-
Publishing a result again.

A second publication of the accepted result finds it there and writes nothing. But `#publish`
rewrites candidates before it compares them. A candidate above the limit is replaced by a failure
that is stamped with the clock, and a cancellation becomes a timeout if the deadline has asked for
it in the meantime. The second publication is then rejected as a conflict with the first.
-/
import TegoNext.TerminalAttempts

set_option autoImplicit false

namespace TegoNext

open Text Option

namespace RemoteAttempt

/-- What the store has of an attempt, and what is about to be written. -/
def durable (a : RemoteAttempt) :
    RemoteAttemptState × Nat × Option TerminalResult × Option CancellationCause × Nat ×
      List AttemptTransition × Option AttemptCommit :=
  (a.state, a.epoch, a.terminal, a.cancellation, a.revision, a.transition, a.commit)

/-- The result is the terminal one, or there is none yet and the result is being published. -/
def Holds (a : RemoteAttempt) (result : TerminalResult) : Prop :=
  a.terminal = some result ∨ a.terminal = none ∧ a.publication = some result

end RemoteAttempt

namespace RemoteAttempts

open RemoteAttempt

variable {options : AttemptOptions} {e e' : RemoteAttempts}

/-! ## What a publication makes of a candidate -/

variable {a : RemoteAttempt}

/-- Two publications of one candidate publish the same result: one above the limit at the same
time only, a cancellation where the deadline has asked for it both times or neither time. -/
theorem publishedResult_eq_iff {b : RemoteAttempt} (hrequest : b.request = a.request)
    (candidate : TerminalResult) (now now' : JsString) :
    publishedResult options b candidate now' = publishedResult options a candidate now ↔
      if options.maxResultBytes < options.resultBytes candidate then now' = now
      else candidate.status = .cancelled →
        (b.cancellation = some .timedOut ↔ a.cancellation = some .timedOut) := by
  unfold publishedResult
  split
  · rw [hrequest]
    simp [failure]
  by_cases hstatus : candidate.status = .cancelled
  · have hother : { candidate with status := ExecutionTerminalStatus.timedOut } ≠ candidate := by
      intro heq
      have := congrArg TerminalResult.status heq
      rw [hstatus] at this
      cases this
    by_cases hb : b.cancellation = some .timedOut <;> by_cases ha : a.cancellation = some .timedOut
    · simp [hb, ha]
    · simp [hb, ha, hstatus, hother]
    · simp [hb, ha, hstatus, hother.symm]
    · simp [hb, ha]
  · simp [hstatus]

/-! ## Calls -/

/-- Nothing is written, nor about to be, and nothing else is observed. -/
structure Undisturbed (e e' : RemoteAttempts) : Prop where
  durable : ∀ j : Nat,
    e'.attempts[j]?.map RemoteAttempt.durable = e.attempts[j]?.map RemoteAttempt.durable
  observed : ∀ j : Nat, e'.observe j = e.observe j

/-- The result a call of `#publish` returns with, at once or when it is committed. -/
def awaited (e : RemoteAttempts) (i : Nat) : Option TerminalResult :=
  e.attempts[i]?.bind fun a => a.terminal.or a.publication

theorem Undisturbed.refl (e : RemoteAttempts) : Undisturbed e e := ⟨fun _ => rfl, fun _ => rfl⟩

theorem undisturbed_settle (e : RemoteAttempts) (i : Nat) :
    Undisturbed e (e.modifyAttempt i (·.settle)) := by
  have hentry : ∀ j : Nat, (e.modifyAttempt i (·.settle)).attempts[j]? = e.attempts[j]? ∨
      ∃ a, e.attempts[j]? = some a ∧
        (e.modifyAttempt i (·.settle)).attempts[j]? = some a.settle := by
    intro j
    have hmodified : (e.modifyAttempt i (·.settle)).attempts[j]? =
        e.attempts[j]?.map fun a => if i = j then a.settle else a := List.getElem?_modify ..
    rw [hmodified]
    by_cases hij : i = j
    · cases e.attempts[j]? with
      | none => exact .inl rfl
      | some a => exact .inr ⟨a, rfl, by simp [hij]⟩
    · left
      simp [hij]
  have hsettle : ∀ a : RemoteAttempt, a.settle.durable = a.durable ∧ a.settle.pruned = a.pruned ∧
      a.settle.status = a.status := by
    intro a
    unfold settle
    split <;> exact ⟨rfl, rfl, rfl⟩
  constructor
  · intro j
    rcases hentry j with hsame | ⟨a, ha, hsettled⟩
    · rw [hsame]
    · rw [ha, hsettled, map_some, map_some, (hsettle a).1]
  · intro j
    unfold observe
    rcases hentry j with hsame | ⟨a, ha, hsettled⟩
    · rw [hsame]
    · obtain ⟨-, hpruned, hstatus⟩ := hsettle a
      rw [ha, hsettled, filter_some, filter_some, hpruned]
      split
      · rw [map_some, map_some, hstatus]
      · rfl

variable {i : Nat} {candidate result : TerminalResult} {settle bounded : Bool} {now : JsString}

theorem publish_conflict_of_holds (ha : e.attempts[i]? = some a) (hholds : a.Holds result)
    (hidentity : candidate.taskId = a.request.taskId ∧ candidate.attemptId = a.request.attemptId)

    (hother : publishedResult options a candidate now ≠ result) :
    e.publish options i candidate settle bounded now = .error .conflict := by
  rcases hholds with hterminal | ⟨hterminal, hpublication⟩
  · simp [publish, ha, hidentity, hterminal, hother.symm]
  · simp [publish, ha, hidentity, hterminal, hpublication, hother.symm]

/-- A publication for an attempt that has the result, or is being given it. -/
theorem publish_iff_of_holds (ha : e.attempts[i]? = some a) (hholds : a.Holds result)
    (hidentity : candidate.taskId = a.request.taskId ∧ candidate.attemptId = a.request.attemptId)
    (settle bounded : Bool) (now : JsString) :
    (∃ e', e.publish options i candidate settle bounded now = .ok e' ∧ e'.awaited i = some result ∧
      Undisturbed e e') ↔ publishedResult options a candidate now = result := by
  constructor
  · rintro ⟨e', hok, -⟩
    by_contra hother
    rw [publish_conflict_of_holds ha hholds hidentity hother] at hok
    cases hok
  · intro hsame
    have hawaited : e.awaited i = some result := by
      rcases hholds with hterminal | ⟨hterminal, hpublication⟩
      · simp [awaited, ha, hterminal]
      · simp [awaited, ha, hterminal, hpublication]
    rcases hholds with hterminal | ⟨hterminal, hpublication⟩
    · cases settle with
      | false =>
        exact ⟨e, by simp [publish, ha, hidentity, hterminal, hsame], hawaited, .refl e⟩
      | true =>
        refine ⟨e.modifyAttempt i (·.settle), ?_, ?_, undisturbed_settle e i⟩
        · simp [publish, ha, hidentity, hterminal, hsame]
        · have hentry : (e.modifyAttempt i (·.settle)).attempts[i]? = some a.settle := by
            simp [modifyAttempt, ha]
          rw [awaited, hentry, bind_some, settle_terminal, hterminal]
          rfl
    · exact ⟨e, by simp [publish, ha, hidentity, hterminal, hpublication, hsame], hawaited, .refl e⟩

/-! ## Acceptance -/

/-- The attempt as it is when `#commit` returns to the operation at the head of its chain, in a
step in which it does; a publication that finds a result has no need of a commit. -/
inductive Returns (e : RemoteAttempts) (i : Nat) : AttemptLabel → RemoteAttempt → Prop
  | found {a : RemoteAttempt} (ha : e.attempts[i]? = some a) (hc : a.commit = none)
    (hterminal : a.terminal.isSome = true) : Returns e i (.transitionBegun i) a
  /-- The attempt was given up while the store wrote. -/
  | failed {a : RemoteAttempt} {c : AttemptCommit} {answer : CommitAnswer} {now : JsString}
    (ha : e.attempts[i]? = some a) (hc : a.commit = some c) (hphase : c.phase = .storing)
    (hanswer : answer = .conflict ∨ ∃ parsed, answer = .committed parsed)
    (hfailed : a.persistenceFailed = true) : Returns e i (.commitAnswered i answer now) a
  | written {a : RemoteAttempt} {c : AttemptCommit} {revision : Nat} {now : JsString}
    (ha : e.attempts[i]? = some a) (hc : a.commit = some c) (hphase : c.phase = .storing)
    (hworks : a.persistenceFailed = false) (hadvances : c.expected < revision) :
    Returns e i (.commitAnswered i (.committed (.ok revision)) now) (committed a c revision)
  | readAgain {a : RemoteAttempt} {c : AttemptCommit} {latest : StoredAttempt} {now : JsString}
    (ha : e.attempts[i]? = some a) (hc : a.commit = some c) (hphase : c.phase = .loading)
    (hkey : latest.request.key = a.key) (hfingerprint : latest.fingerprint = a.fingerprint)
    (hadvances : a.revision < latest.revision) (hstate : (reloaded a latest).state = .terminal) :
    Returns e i (.loaded i (.latest (.ok latest)) now) (reloaded a latest)

def Accepts (e : RemoteAttempts) (l : AttemptLabel) (i : Nat) (result : TerminalResult) : Prop :=
  ∃ a bounded settle, Returns e i l a ∧
    a.transition.head? = some (.publish result bounded settle) ∧ a.terminal.getD result = result

theorem finish_terminal (a : RemoteAttempt) (ok : Bool) : (a.finish ok).terminal = a.terminal := by
  unfold finish
  split
  · split
    · exact settle_terminal _
    · rfl
  · rfl

theorem commitReturned_terminal (a : RemoteAttempt) : a.commitReturned.terminal = a.terminal := by
  unfold commitReturned
  split <;> exact finish_terminal a _

variable {l : AttemptLabel}

theorem Returns.attempt (h : Returns e i l a) (hstep : step options e l = some e')
    (hhead : a.transition.head? = some (.publish result bounded settle)) :
    e'.attempts[i]? = some a.commitReturned := by
  have hentry : ∀ {e : RemoteAttempts} {b : RemoteAttempt} {f : RemoteAttempt → RemoteAttempt},
      e.attempts[i]? = some b → (e.modifyAttempt i f).attempts[i]? = some (f b) := by
    intro e b f hb
    simp [modifyAttempt, hb]
  cases h with
  | found ha hc hterminal =>
    obtain ⟨t, ht⟩ := isSome_iff_exists.mp hterminal
    have hbegun : e.modifyAttempt i (begin options e · (.publish result bounded settle)) = e' := by
      simpa [step, transitionBegun, ha, hc, hhead] using hstep
    rw [← hbegun, hentry ha]
    simp [begin, ht]
  | failed ha hc hphase hanswer hfailed =>
    have hreturned : e.modifyAttempt i (·.commitReturned) = e' := by
      rcases hanswer with rfl | ⟨parsed, rfl⟩
      · simpa [step, commitAnswered, ha, hc, hphase, hfailed] using hstep
      · simpa [step, commitAnswered, ha, hc, hphase, hfailed] using hstep
    rw [← hreturned]
    exact hentry ha
  | @written b c revision now ha hc hphase hworks hadvances =>
    have hreturned : e.modifyAttempt i (fun a => (committed a c revision).commitReturned) = e' := by
      simpa [step, commitAnswered, ha, hc, hphase, hworks, Nat.not_le.mpr hadvances] using hstep
    rw [← hreturned]
    exact hentry ha
  | @readAgain b c latest now ha hc hphase hkey hfingerprint hadvances hstate =>
    have hreturned : (e.modifyAttempt i (reloaded · latest)).modifyAttempt i
        (·.commitReturned) = e' := by
      simpa [step, loaded, ha, hc, hphase, hkey, hfingerprint, Nat.not_le.mpr hadvances, hstate]
        using hstep
    rw [← hreturned]
    exact hentry (hentry ha)

/-- The store agrees, and an expired record that it has read again has a result. -/
def answersAgree (e : RemoteAttempts) (l : AttemptLabel) : Bool :=
  e.storeAgrees l &&
    match l with
    | .loaded _ (.latest (.ok latest)) _ =>
      decide (latest.state ≠ .expired) || latest.result.isSome
    | _ => true

theorem Returns.terminal_isSome (h : Returns e i l a) (hsound : e.AllSound)
    (hanswers : e.answersAgree l = true)
    (hhead : a.transition.head? = some (.publish result bounded settle)) :
    a.terminal.isSome = true := by
  cases h with
  | found ha hc hterminal => exact hterminal
  | failed ha hc hphase hanswer hfailed => exact (hsound i a ha).failed hfailed
  | @written b c revision now ha hc hphase hworks hadvances =>
    obtain ⟨t, ht, hcommits⟩ := (hsound i b ha).commit c hc
    have hsame : (committed b c revision).transition = b.transition := by
      unfold committed
      split <;> rfl
    rw [hsame] at hhead
    cases some.inj (ht.symm.trans hhead)
    -- the commit of a publication has its result
    have hwrites : ¬(b.terminal.isSome = true ∧ c.state ≠ .terminal) := fun h => h.2 hcommits.1
    unfold committed
    rw [if_neg hwrites, hcommits.2]
    rfl
  | @readAgain b c latest now ha hc hphase hkey hfingerprint hadvances hstate =>
    have hexpired : latest.state = .expired → latest.result.isSome = true := by
      intro h
      simpa [answersAgree, h] using (Bool.and_eq_true_iff.mp hanswers).2
    have hresult : latest.result.isSome = true := by
      by_contra hnone
      have hother : ¬(latest.state = .expired ∨ latest.result.isSome = true) := by
        rintro (h | h)
        · exact hnone (hexpired h)
        · exact hnone h
      have hstate' : latest.state = .terminal := (if_neg hother).symm.trans hstate
      exact hnone (latest.result_of_terminal hstate')
    show (latest.result.or b.terminal).isSome = true
    obtain ⟨t, ht⟩ := isSome_iff_exists.mp hresult
    rw [ht]
    rfl

theorem Accepts.terminal
    (h : e.Accepts l i result) (hsound : e.AllSound) (hanswers : e.answersAgree l = true)
    (hstep : step options e l = some e') :
    ∃ a, e'.attempts[i]? = some a ∧ a.terminal = some result := by
  obtain ⟨a, bounded, settle, hreturns, hhead, hresult⟩ := h
  refine ⟨_, hreturns.attempt hstep hhead, ?_⟩
  obtain ⟨t, ht⟩ := isSome_iff_exists.mp (hreturns.terminal_isSome hsound hanswers hhead)
  rw [ht] at hresult
  rw [commitReturned_terminal, ht]
  exact congrArg some hresult

/-! ## Calls and what comes after them -/

/-- A step of a run in which the answers of the store agree. -/
def Answering (e : RemoteAttempts) (l : AttemptLabel) (_ : RemoteAttempts) : Prop :=
  e.answersAgree l = true

/-- A call of `#publish` in the course of such a run, as far as its first `await`; `a` is the
attempt that it finds. -/
def Called (options : AttemptOptions) (i : Nat) (candidate : TerminalResult) (now : JsString)
    (a : RemoteAttempt) (e' : RemoteAttempts) : Prop :=
  ∃ e settle bounded, (machine options).ReachableVia Answering e ∧ e.attempts[i]? = some a ∧
    e.publish options i candidate settle bounded now = .ok e'

def Waits (options : AttemptOptions) (i : Nat) (result : TerminalResult)
    (e e' : RemoteAttempts) : Prop :=
  (machine options).StepVia Answering e e' ∧
    e'.attempts[i]?.bind RemoteAttempt.publication = some result

/-- The states after a call of `#publish` that is accepted: it returns at once as there is a
result, or it waits, and the publication it waits for is accepted. -/
inductive PublishedBefore (options : AttemptOptions) (i : Nat) (candidate : TerminalResult)
    (now : JsString) (a : RemoteAttempt) : RemoteAttempts → Prop
  | atOnce {e e' : RemoteAttempts} (hcalled : Called options i candidate now a e)
    (hterminal : a.terminal.isSome = true)
    (hrun : Relation.ReflTransGen ((machine options).StepVia Answering) e e') :
    PublishedBefore options i candidate now a e'
  | waiting {e e' e₁ e₂ : RemoteAttempts} {l : AttemptLabel}
    (hcalled : Called options i candidate now a e) (hterminal : a.terminal = none)
    (hwaits : Relation.ReflTransGen
      (Waits options i (publishedResult options a candidate now)) e e')
    (hwill : Relation.ReflTransGen
      (Waits options i (publishedResult options a candidate now)) e' e₁)
    (hstep : step options e₁ l = some e₂) (hanswers : e₁.answersAgree l = true)
    (haccepts : e₁.Accepts l i (publishedResult options a candidate now)) :
    PublishedBefore options i candidate now a e'
  | accepted {e e₁ e₂ e' : RemoteAttempts} {l : AttemptLabel}
    (hcalled : Called options i candidate now a e) (hterminal : a.terminal = none)
    (hwaits : Relation.ReflTransGen
      (Waits options i (publishedResult options a candidate now)) e e₁)
    (hstep : step options e₁ l = some e₂) (hanswers : e₁.answersAgree l = true)
    (haccepts : e₁.Accepts l i (publishedResult options a candidate now))
    (hrun : Relation.ReflTransGen ((machine options).StepVia Answering) e₂ e') :
    PublishedBefore options i candidate now a e'

theorem storeAgrees_of_answersAgree (h : e.answersAgree l = true) : e.storeAgrees l = true :=
  (Bool.and_eq_true_iff.mp h).1

theorem continues_answering
    (h : Relation.ReflTransGen ((machine options).StepVia Answering) e e') : Continues e e' :=
  continues_steps (Relation.ReflTransGen.mono
    (fun _ _ ⟨l, hl, hanswers⟩ => ⟨l, hl, storeAgrees_of_answersAgree hanswers⟩) _ _ h)

theorem continues_waits
    (h : Relation.ReflTransGen (Waits options i result) e e') : Continues e e' :=
  continues_answering (Relation.ReflTransGen.mono (fun _ _ hstep => hstep.1) _ _ h)

theorem publication_waits (h : Relation.ReflTransGen (Waits options i result) e e')
    (hpublication : e.attempts[i]?.bind RemoteAttempt.publication = some result) :
    e'.attempts[i]?.bind RemoteAttempt.publication = some result := by
  cases h with
  | refl => exact hpublication
  | tail _ hstep => exact hstep.2

theorem publish_ok (ha : e.attempts[i]? = some a)
    (h : e.publish options i candidate settle bounded now = .ok e') :
    (candidate.taskId = a.request.taskId ∧ candidate.attemptId = a.request.attemptId) ∧
      (a.terminal = some (publishedResult options a candidate now) ∨
        a.terminal = none ∧
          e'.attempts[i]?.bind RemoteAttempt.publication =
            some (publishedResult options a candidate now)) := by
  simp only [publish, ha] at h
  split at h
  · cases h
  next hidentity =>
    simp only [not_or, not_not] at hidentity
    refine ⟨hidentity, ?_⟩
    split at h
    · next terminal _ hterminal =>
      split at h
      · cases h
      next hsame =>
        rw [not_not] at hsame
        exact .inl (hterminal.trans (congrArg some hsame))
    · next publication hterminal hpublication =>
      split at h
      · cases h
      next hsame =>
        cases h
        rw [not_not] at hsame
        refine .inr ⟨hterminal, ?_⟩
        rw [ha, bind_some, hpublication, hsame]
    · next hterminal hpublication =>
      cases h
      refine .inr ⟨hterminal, ?_⟩
      simp [modifyAttempt, ha, enqueue]

theorem PublishedBefore.holds (h : PublishedBefore options i candidate now a e) :
    ∃ b, e.attempts[i]? = some b ∧ b.request = a.request ∧
      (candidate.taskId = a.request.taskId ∧ candidate.attemptId = a.request.attemptId) ∧
        b.Holds (publishedResult options a candidate now) := by
  have hsound : ∀ {e : RemoteAttempts}, (machine options).ReachableVia Answering e → e.AllSound :=
    fun hreachable =>
      allSound_of_reachable (hreachable.mono fun _ _ _ => storeAgrees_of_answersAgree)
  cases h with
  | @atOnce e₁ e hcalled hterminal hrun =>
    obtain ⟨e₀, settle, bounded, hreachable, ha, hcall⟩ := hcalled
    obtain ⟨hidentity, hresult | ⟨hnone, -⟩⟩ := publish_ok ha hcall
    · have hafter := (continues_publish hcall).trans (continues_answering hrun)
      obtain ⟨b, hb, hlater⟩ := hafter.kept i a ha
      have hkept := hlater.terminal (hsound hreachable i a ha) _ hresult
      exact ⟨b, hb, hlater.request, hidentity, .inl hkept⟩
    · rw [hnone] at hterminal
      cases hterminal
  | @waiting e₁ e e₂ e₃ l hcalled hterminal hwaits hwill hstep hanswers haccepts =>
    obtain ⟨e₀, settle, bounded, hreachable, ha, hcall⟩ := hcalled
    obtain ⟨hidentity, hresult⟩ := publish_ok ha hcall
    have hafter := (continues_publish hcall).trans (continues_waits hwaits)
    obtain ⟨b, hb, hlater⟩ := hafter.kept i a ha
    refine ⟨b, hb, hlater.request, hidentity, ?_⟩
    rcases hresult with hresult | ⟨-, hpublication⟩
    · exact nomatch hterminal.symm.trans hresult
    cases hb' : b.terminal with
    | none =>
      have hwaiting := publication_waits hwaits hpublication
      rw [hb, bind_some] at hwaiting
      exact .inr ⟨hb', hwaiting⟩
    | some t =>
      -- what is terminal stays so until the publication is accepted
      have hsound' := hafter.allSound (hsound hreachable)
      have hsound₂ := (continues_waits hwill).allSound hsound'
      have hrest := (continues_waits hwill).trans
        (continues_step hstep (storeAgrees_of_answersAgree hanswers))
      obtain ⟨b₃, hb₃, hlater₃⟩ := hrest.kept i b hb
      obtain ⟨c, hc, hresult⟩ := haccepts.terminal hsound₂ hanswers hstep
      cases some.inj (hb₃.symm.trans hc)
      have ht := hlater₃.terminal (hsound' i b hb) t hb'
      rw [hresult] at ht
      exact .inl (hb'.trans ht.symm)
  | @accepted e₁ e₂ e₃ e l hcalled hterminal hwaits hstep hanswers haccepts hrun =>
    obtain ⟨e₀, settle, bounded, hreachable, ha, hcall⟩ := hcalled
    have hbefore := (continues_publish hcall).trans (continues_waits hwaits)
    have hsound₂ := hbefore.allSound (hsound hreachable)
    have hone := continues_step hstep (storeAgrees_of_answersAgree hanswers)
    obtain ⟨c, hc, hresult⟩ := haccepts.terminal hsound₂ hanswers hstep
    obtain ⟨b, hb, hlater⟩ := (continues_answering hrun).kept i c hc
    have hkept := hlater.terminal (hone.allSound hsound₂ i c hc) _ hresult
    have hafter := (hbefore.trans hone).trans (continues_answering hrun)
    obtain ⟨b', hb', hlater'⟩ := hafter.kept i a ha
    cases some.inj (hb.symm.trans hb')
    exact ⟨b, hb, hlater'.request, (publish_ok ha hcall).1, .inl hkept⟩

/-! ## The law -/

/-- **Publishing a candidate again**, while or after it was published with success, is accepted
and changes nothing just when the two calls publish the same result of it. -/
theorem published_again_iff {i : Nat} {candidate : TerminalResult} {now : JsString}
    {a b : RemoteAttempt} (h : PublishedBefore options i candidate now a e)
    (hb : e.attempts[i]? = some b) (settle bounded : Bool) (now' : JsString) :
    (∃ e', e.publish options i candidate settle bounded now' = .ok e' ∧
      e'.awaited i = some (publishedResult options a candidate now) ∧ Undisturbed e e') ↔
      if options.maxResultBytes < options.resultBytes candidate then now' = now
      else candidate.status = .cancelled →
        (b.cancellation = some .timedOut ↔ a.cancellation = some .timedOut) := by
  obtain ⟨b', hb', hrequest, hidentity, hholds⟩ := h.holds
  cases some.inj (hb.symm.trans hb')
  rw [← hrequest] at hidentity
  rw [publish_iff_of_holds hb hholds hidentity, publishedResult_eq_iff hrequest]

/-! ## A candidate that comes twice -/

/-- The result is above the limit. -/
def narrow : AttemptOptions := { sampleAttemptOptions with maxResultBytes := 16 }

def assigning : List AttemptLabel :=
  attachFirst ++ [.submit sampleRequest [] true, .created (some 1) [], .assign 0 0]

def assigned : RemoteAttempt where
  request := sampleRequest
  fingerprint := []
  revision := 1
  state := .assigned
  epoch := 1
  terminal := none
  resolved := none
  persistenceFailed := false
  cancellation := none
  publication := none
  transition := []
  commit := none
  pruned := false

def writing (result : TerminalResult) : AttemptCommit where
  state := .terminal
  result := some result
  epoch := 1
  bounded := true
  immediateRetries := 0
  expected := 1
  phase := .storing

def published (result : TerminalResult) : RemoteAttempt :=
  { assigned with
    publication := some result
    transition := [.publish result false true]
    commit := some (writing result) }

/-- The result is published and committed; what the attempt is before and meanwhile. -/
def publishing (options : AttemptOptions) (now : JsString) :
    Option (Option RemoteAttempt × Option RemoteAttempt) :=
  ((machine options).runVia (fun e l _ => e.answersAgree l) new assigning).bind fun e =>
    (e.publish options 0 succeeded true false now).toOption.bind fun e₁ =>
      (step options e₁ (.transitionBegun 0)).bind fun e₂ =>
        (step options e₂ stored).map fun _ => (e.attempts[0]?, e₂.attempts[0]?)

theorem publishedBefore_of_publishing (options : AttemptOptions) (now : JsString)
    (h : publishing options now = some (some assigned,
      some (published (publishedResult options assigned succeeded now)))) :
    ∃ e, PublishedBefore options 0 succeeded now assigned e := by
  obtain ⟨e, hrun, h⟩ := bind_eq_some_iff.mp h
  obtain ⟨e₁, hcall, h⟩ := bind_eq_some_iff.mp h
  obtain ⟨e₂, hbegun, h⟩ := bind_eq_some_iff.mp h
  obtain ⟨e₃, hstored, h⟩ := map_eq_some_iff.mp h
  obtain ⟨ha, ha₂⟩ := Prod.mk.inj h
  have hcalled : Called options 0 succeeded now assigned e₁ := by
    refine ⟨e, true, false, ?_, ha, ?_⟩
    · exact (Machine.ReachableVia.init rfl).of_steps
        (Machine.steps_of_runVia (fun _ _ _ h => h) hrun)
    · cases hpublish : e.publish options 0 succeeded true false now with
      | error _ =>
        rw [hpublish] at hcall
        cases hcall
      | ok _ =>
        rw [hpublish] at hcall
        exact congrArg Except.ok (some.inj hcall)
  have hwaits : Waits options 0 (publishedResult options assigned succeeded now) e₁ e₂ := by
    refine ⟨⟨.transitionBegun 0, hbegun, rfl⟩, ?_⟩
    rw [ha₂]
    rfl
  refine ⟨e₃, .accepted hcalled rfl (.single hwaits) hstored ?_ ?_ .refl⟩
  · simp [stored, answersAgree, storeAgrees, ha₂, published, assigned]
  · exact ⟨_, false, true, .written ha₂ rfl rfl rfl (Nat.lt_succ_self 1), rfl, rfl⟩

/-- A result within the limit is published again a minute later. -/
theorem published_again_iff_later :
    ∃ e e', PublishedBefore sampleAttemptOptions 0 succeeded (js "10:00") assigned e ∧
      e.publish sampleAttemptOptions 0 succeeded true false (js "10:01") = .ok e' ∧
        e'.awaited 0 = some succeeded ∧ Undisturbed e e' := by
  obtain ⟨e, hbefore⟩ :=
    publishedBefore_of_publishing sampleAttemptOptions (js "10:00") (by decide +kernel)
  obtain ⟨b, hb, -⟩ := hbefore.holds
  obtain ⟨e', hok, hawaited, hundisturbed⟩ :=
    (published_again_iff hbefore hb true false (js "10:01")).mpr (by
      rw [if_neg (by decide)]
      rintro ⟨⟩)
  exact ⟨e, e', hbefore, hok, hawaited, hundisturbed⟩

/-- A result above the limit is published again a minute later, and conflicts with itself. -/
theorem oversized_conflicts :
    ∃ e, PublishedBefore narrow 0 succeeded (js "10:00") assigned e ∧
      e.publish narrow 0 succeeded true false (js "10:01") = .error .conflict := by
  obtain ⟨e, hbefore⟩ :=
    publishedBefore_of_publishing narrow (js "10:00") (by decide +kernel)
  obtain ⟨b, hb, hrequest, hidentity, hholds⟩ := hbefore.holds
  refine ⟨e, hbefore, publish_conflict_of_holds hb hholds (hrequest ▸ hidentity) fun hsame => ?_⟩
  have htime := (publishedResult_eq_iff hrequest succeeded (js "10:00") (js "10:01")).mp hsame
  rw [if_pos (by decide)] at htime
  exact absurd htime (by decide)

end RemoteAttempts

end TegoNext
