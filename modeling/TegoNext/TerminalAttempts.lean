/-
What has been said of an attempt stays: a terminal result that was observed, or that its handle
was resolved with, is what every later observation returns.

A result becomes terminal when a commit carries it, a record that was read again has it, authority
is revoked, or it is published without the store. The last two look whether there is one already.
A commit does not, and a record that is read again may even undo a terminal state.
-/
import TegoNext.RemoteAttempts

set_option autoImplicit false

namespace TegoNext

open Text List Option

namespace RemoteAttempt

/-- What the operation at the head of a chain commits: a publication its result in the terminal
state, the other ones no result. -/
def CommitOf : AttemptTransition → AttemptCommit → Prop
  | .publish result _ _, c => c.state = .terminal ∧ c.result = some result
  | _, c => c.result = none

/-- What the handle was resolved with is the terminal result, there is one in the terminal state
only and wherever the store has failed, and a commit is that of the head of the chain. -/
structure Sound (a : RemoteAttempt) : Prop where
  resolved : ∀ result, a.resolved = some result → a.terminal = some result
  state : a.terminal.isSome = true → a.state = .terminal
  failed : a.persistenceFailed = true → a.terminal.isSome = true
  commit : ∀ c, a.commit = some c → ∃ t, a.transition.head? = some t ∧ CommitOf t c

/-- A sound attempt goes on to a sound one of the same request, and its terminal result stays. -/
structure Later (a a' : RemoteAttempt) : Prop where
  request : a'.request = a.request
  sound : a.Sound → a'.Sound
  terminal : a.Sound → ∀ result, a.terminal = some result → a'.terminal = some result

theorem Later.refl (a : RemoteAttempt) : a.Later a := ⟨rfl, fun h => h, fun _ _ h => h⟩

theorem Later.trans {a₁ a₂ a₃ : RemoteAttempt} (h : a₁.Later a₂) (h' : a₂.Later a₃) :
    a₁.Later a₃ where
  request := h'.request.trans h.request
  sound hsound := h'.sound (h.sound hsound)
  terminal hsound result hresult :=
    h'.terminal (h.sound hsound) result (h.terminal hsound result hresult)

variable {a : RemoteAttempt}

theorem Sound.terminal_eq_none (h : a.Sound) (hstate : a.state ≠ .terminal) :
    a.terminal = none := by
  by_contra hterminal
  exact hstate (h.state (isSome_iff_ne_none.mpr hterminal))

variable {c : AttemptCommit}

theorem Sound.result_eq_none (h : a.Sound) (hc : a.commit = some c)
    (hstate : c.state ≠ .terminal) : c.result = none := by
  obtain ⟨t, -, hcommits⟩ := h.commit c hc
  cases t with
  | publish => exact absurd hcommits.1 hstate
  | _ => exact hcommits

/-! ## What one attempt goes through -/

theorem later_of_same {a' : RemoteAttempt} (hrequest : a'.request = a.request)
    (hstate : a'.state = a.state) (hterminal : a'.terminal = a.terminal)
    (hresolved : a'.resolved = a.resolved) (hfailed : a'.persistenceFailed = a.persistenceFailed)
    (hcommit : a.Sound → ∀ c, a'.commit = some c →
      ∃ t, a'.transition.head? = some t ∧ CommitOf t c) : a.Later a' where
  request := hrequest
  sound hsound := by
    refine ⟨?_, ?_, ?_, hcommit hsound⟩
    · rw [hresolved, hterminal]
      exact hsound.resolved
    · rw [hterminal, hstate]
      exact hsound.state
    · rw [hfailed, hterminal]
      exact hsound.failed
  terminal _ _ h := hterminal.trans h

theorem later_settle (a : RemoteAttempt) : a.Later a.settle := by
  unfold settle
  split
  · exact .refl a
  · exact ⟨rfl, fun h => ⟨fun _ h => h, h.state, h.failed, h.commit⟩, fun _ _ h => h⟩

theorem later_terminal {result : TerminalResult} (hnone : a.Sound → a.terminal = none) :
    a.Later { a with terminal := some result, state := .terminal } where
  request := rfl
  sound hsound := by
    refine ⟨fun other hresolved => ?_, fun _ => rfl, fun _ => rfl, hsound.commit⟩
    exact nomatch (hnone hsound).symm.trans (hsound.resolved other hresolved)
  terminal hsound other h := nomatch (hnone hsound).symm.trans h

theorem later_publishVolatile (a : RemoteAttempt) (result : TerminalResult) :
    a.Later (a.publishVolatile result) := by
  unfold publishVolatile
  split
  · next hnone => exact (later_terminal fun _ => hnone).trans (later_settle _)
  · exact later_settle a

theorem settle_terminal (a : RemoteAttempt) : a.settle.terminal = a.terminal := by
  unfold settle
  split <;> rfl

theorem publishVolatile_isSome (a : RemoteAttempt) (result : TerminalResult) :
    (a.publishVolatile result).terminal.isSome = true := by
  unfold publishVolatile
  split
  · rw [settle_terminal]
    rfl
  next hterminal =>
  rw [settle_terminal, hterminal]
  rfl

theorem later_persistenceFailed (a : RemoteAttempt) (result : TerminalResult) :
    a.Later ({ a with persistenceFailed := true }.publishVolatile result) := by
  have hsettle : ∀ a : RemoteAttempt,
      ({ a with persistenceFailed := true } : RemoteAttempt).settle =
        { a.settle with persistenceFailed := true } := by
    intro a
    unfold settle
    split <;> rfl
  have hsame : ({ a with persistenceFailed := true } : RemoteAttempt).publishVolatile result =
      { a.publishVolatile result with persistenceFailed := true } := by
    unfold publishVolatile
    dsimp only
    split
    · exact hsettle { a with terminal := some result, state := .terminal }
    · exact hsettle a
  rw [hsame]
  refine (later_publishVolatile a result).trans ⟨rfl, fun h => ?_, fun _ _ h => h⟩
  exact ⟨h.resolved, h.state, fun _ => publishVolatile_isSome a result, h.commit⟩

theorem later_finish (a : RemoteAttempt) (ok : Bool) : a.Later (a.finish ok) := by
  unfold finish
  split
  · have hended : a.Later
        { a with transition := a.transition.tail, commit := none, publication := none } :=
      later_of_same rfl rfl rfl rfl rfl fun _ _ h => nomatch h
    split
    · exact hended.trans (later_settle _)
    · exact hended
  · exact later_of_same rfl rfl rfl rfl rfl fun _ _ h => nomatch h

theorem later_commitReturned (a : RemoteAttempt) : a.Later a.commitReturned := by
  unfold commitReturned
  split <;> exact later_finish a _

theorem Sound.commit_append (h : a.Sound) (t : AttemptTransition) (c : AttemptCommit)
    (hc : a.commit = some c) :
    ∃ head, (a.transition ++ [t]).head? = some head ∧ CommitOf head c := by
  obtain ⟨head, hhead, hcommits⟩ := h.commit c hc
  refine ⟨head, ?_, hcommits⟩
  rw [head?_append, hhead]
  rfl

theorem later_enqueue (a : RemoteAttempt) (t : AttemptTransition) : a.Later (a.enqueue t) :=
  later_of_same rfl rfl rfl rfl rfl fun h => h.commit_append t

theorem later_beginCommit {state : RemoteAttemptState} {result : Option TerminalResult}
    {t : AttemptTransition} {epoch : Nat} {bounded : Bool} (hhead : a.transition.head? = some t)
    (hcommits : a.Sound → ∀ c : AttemptCommit, c.state = state → c.result = result → CommitOf t c) :
    a.Later (a.beginCommit state result epoch bounded) := by
  refine later_of_same rfl rfl rfl rfl rfl fun hsound c hc => ?_
  cases some.inj hc
  exact ⟨t, hhead, hcommits hsound _ rfl rfl⟩

theorem later_commit {c' : AttemptCommit} (hc : a.commit = some c) (hstate : c'.state = c.state)
    (hresult : c'.result = c.result) : a.Later { a with commit := some c' } := by
  refine later_of_same rfl rfl rfl rfl rfl fun hsound d hd => ?_
  cases some.inj hd
  obtain ⟨t, hhead, hcommits⟩ := hsound.commit c hc
  refine ⟨t, hhead, ?_⟩
  cases t with
  | publish => exact ⟨hstate.trans hcommits.1, hresult.trans hcommits.2⟩
  | _ => exact hresult.trans hcommits

theorem later_committed (hc : a.commit = some c)
    (hagrees : ∀ result, c.state = .terminal → a.terminal = some result → c.result = some result)
    (revision : Nat) : a.Later (RemoteAttempts.committed a c revision) := by
  unfold RemoteAttempts.committed
  split
  · exact .refl a
  next hwrites =>
  have hstate : ∀ result, a.terminal = some result → c.state = .terminal := by
    intro result hresult
    by_contra hother
    exact hwrites ⟨by rw [hresult]; rfl, hother⟩
  have hkept : ∀ result, a.terminal = some result → c.result.or a.terminal = some result := by
    intro result hresult
    rw [hagrees result (hstate result hresult) hresult]
    rfl
  have hsome : a.terminal.isSome = true → (c.result.or a.terminal).isSome = true := by
    intro h
    obtain ⟨result, hresult⟩ := isSome_iff_exists.mp h
    rw [hkept result hresult]
    rfl
  refine ⟨rfl, fun hsound => ⟨?_, fun h => ?_, ?_, hsound.commit⟩, fun _ => hkept⟩
  · exact fun result hresolved => hkept result (hsound.resolved result hresolved)
  · -- a commit to another state carries no result
    by_contra hother
    cases hresult : a.terminal with
    | none =>
      rw [hsound.result_eq_none hc hother, hresult] at h
      cases h
    | some result => exact hother (hstate result hresult)
  · exact fun hfailed => hsome (hsound.failed hfailed)

theorem later_reloaded {latest : StoredAttempt}
    (hagrees : ∀ result, a.terminal = some result → latest.result = some result) :
    a.Later (RemoteAttempts.reloaded a latest) := by
  have hkept : ∀ result, a.terminal = some result → latest.result.or a.terminal = some result := by
    intro result hresult
    rw [hagrees result hresult]
    rfl
  refine ⟨rfl, fun hsound => ⟨?_, ?_, ?_, hsound.commit⟩, fun _ => hkept⟩
  · exact fun result hresolved => hkept result (hsound.resolved result hresolved)
  · intro hsome
    apply if_pos
    -- the result was read, or it agrees with what was read
    right
    cases hresult : latest.result with
    | some _ => rfl
    | none =>
      have hterminal : (latest.result.or a.terminal).isSome = true := hsome
      rw [hresult] at hterminal
      obtain ⟨result, hresult'⟩ := isSome_iff_exists.mp hterminal
      exact nomatch hresult.symm.trans (hagrees result hresult')
  · intro hfailed
    obtain ⟨result, hresult⟩ := isSome_iff_exists.mp (hsound.failed hfailed)
    show (latest.result.or a.terminal).isSome = true
    rw [hkept result hresult]
    rfl

end RemoteAttempt

namespace RemoteAttempts

open RemoteAttempt

variable {options : AttemptOptions} {e e' : RemoteAttempts}

/-- The attempts go on, and new ones are sound. -/
structure Continues (e e' : RemoteAttempts) : Prop where
  kept : ∀ (i : Nat) (a : RemoteAttempt), e.attempts[i]? = some a →
    ∃ a', e'.attempts[i]? = some a' ∧ a.Later a'
  fresh : ∀ (i : Nat) (a' : RemoteAttempt), e.attempts[i]? = none → e'.attempts[i]? = some a' →
    a'.Sound

theorem Continues.of_same (h : e'.attempts = e.attempts) : Continues e e' where
  kept i a ha := ⟨a, h ▸ ha, .refl a⟩
  fresh i a' hnone ha' := by
    rw [h, hnone] at ha'
    cases ha'

theorem Continues.trans {e₁ e₂ e₃ : RemoteAttempts} (h : Continues e₁ e₂) (h' : Continues e₂ e₃) :
    Continues e₁ e₃ where
  kept i a ha := by
    obtain ⟨a₂, ha₂, hlater⟩ := h.kept i a ha
    obtain ⟨a₃, ha₃, hlater'⟩ := h'.kept i a₂ ha₂
    exact ⟨a₃, ha₃, hlater.trans hlater'⟩
  fresh i a₃ hnone ha₃ := by
    cases ha₂ : e₂.attempts[i]? with
    | none => exact h'.fresh i a₃ ha₂ ha₃
    | some a₂ =>
      obtain ⟨a, ha, hlater⟩ := h'.kept i a₂ ha₂
      cases some.inj (ha₃.symm.trans ha)
      exact hlater.sound (h.fresh i a₂ hnone ha₂)

variable {i : Nat} {f : RemoteAttempt → RemoteAttempt}

theorem continues_modifyAttempt
    (hf : ∀ a, e.attempts[i]? = some a → a.Later (f a)) : Continues e (e.modifyAttempt i f) where
  kept j a ha := by
    show ∃ a', (e.attempts.modify i f)[j]? = some a' ∧ _
    rw [getElem?_modify, ha]
    by_cases hij : i = j
    · subst hij
      exact ⟨f a, by simp, hf a ha⟩
    · exact ⟨a, by simp [hij], .refl a⟩
  fresh j a' hnone ha' := by
    replace ha' : (e.attempts.modify i f)[j]? = some a' := ha'
    rw [getElem?_modify, hnone] at ha'
    cases ha'

theorem continues_map (hf : ∀ a : RemoteAttempt, a.Later (f a))
    (h : e'.attempts = e.attempts.map f) : Continues e e' where
  kept i a ha := ⟨f a, by rw [h, getElem?_map, ha]; rfl, hf a⟩
  fresh i a' hnone ha' := by
    rw [h, getElem?_map, hnone] at ha'
    cases ha'

theorem continues_append {added : List RemoteAttempt} (hadded : ∀ a ∈ added, a.Sound)
    (h : e'.attempts = e.attempts ++ added) : Continues e e' where
  kept i a ha := by
    refine ⟨a, ?_, .refl a⟩
    rw [h]
    exact getElem?_append_of_some ha
  fresh i a' hnone ha' := by
    rw [h, getElem?_append_right (List.getElem?_eq_none_iff.mp hnone)] at ha'
    exact hadded a' (mem_of_getElem? ha')

theorem Continues.refl (e : RemoteAttempts) : Continues e e := .of_same rfl

/-- A step that attaches nobody; the session may be lost. -/
structure SameFence (e e' : RemoteAttempts) : Prop where
  session : e'.session = e.session ∨ e'.session = none
  highestEpoch : e'.highestEpoch = e.highestEpoch
  hydrated : e'.hydrated = e.hydrated
  watermark : e'.watermark = e.watermark
  attached : e'.attached = e.attached

theorem SameFence.refl (e : RemoteAttempts) : SameFence e e := ⟨.inl rfl, rfl, rfl, rfl, rfl⟩

theorem SameFence.trans {e₁ e₂ e₃ : RemoteAttempts} (h : SameFence e₁ e₂) (h' : SameFence e₂ e₃) :
    SameFence e₁ e₃ where
  session := by
    rcases h'.session with hsame | hnone
    · rw [hsame]
      exact h.session
    · exact .inr hnone
  highestEpoch := h'.highestEpoch.trans h.highestEpoch
  hydrated := h'.hydrated.trans h.hydrated
  watermark := h'.watermark.trans h.watermark
  attached := h'.attached.trans h.attached

/-- The attempts go on, and nobody is attached. -/
structure Proceeds (e e' : RemoteAttempts) : Prop where
  fence : SameFence e e'
  attempts : Continues e e'

theorem Proceeds.refl (e : RemoteAttempts) : Proceeds e e := ⟨.refl e, .refl e⟩

theorem Proceeds.trans {e₁ e₂ e₃ : RemoteAttempts} (h : Proceeds e₁ e₂) (h' : Proceeds e₂ e₃) :
    Proceeds e₁ e₃ := ⟨h.fence.trans h'.fence, h.attempts.trans h'.attempts⟩

theorem Proceeds.lost (h : (e'.session, e'.highestEpoch, e'.hydrated, e'.watermark, e'.attached) =
    (none, e.highestEpoch, e.hydrated, e.watermark, e.attached)) (hattempts : Continues e e') :
    Proceeds e e' := by
  simp only [Prod.mk.injEq] at h
  exact ⟨⟨.inr h.1, h.2.1, h.2.2.1, h.2.2.2.1, h.2.2.2.2⟩, hattempts⟩

theorem Proceeds.kept (h : (e'.session, e'.highestEpoch, e'.hydrated, e'.watermark, e'.attached) =
    (e.session, e.highestEpoch, e.hydrated, e.watermark, e.attached))
    (hattempts : Continues e e') : Proceeds e e' := by
  simp only [Prod.mk.injEq] at h
  exact ⟨⟨.inl h.1, h.2.1, h.2.2.1, h.2.2.2.1, h.2.2.2.2⟩, hattempts⟩

theorem proceeds_modifyAttempt (hf : ∀ a, e.attempts[i]? = some a → a.Later (f a)) :
    Proceeds e (e.modifyAttempt i f) := .kept rfl (continues_modifyAttempt hf)

/-! ## What the methods do to the attempts -/

theorem proceeds_publishVolatile (i : Nat) (result : TerminalResult) :
    Proceeds e (e.publishVolatile i result) := by
  have hdegraded : Proceeds e e.degradePersistence := .kept rfl (.of_same rfl)
  exact hdegraded.trans (proceeds_modifyAttempt fun a _ => later_publishVolatile a result)

theorem proceeds_failAttemptPersistence (i : Nat) (message : String) (now : JsString) :
    Proceeds e (e.failAttemptPersistence i message now) := by
  unfold failAttemptPersistence
  split
  · exact .refl e
  split
  · exact .refl e
  next a _ _ =>
  have hlater := proceeds_modifyAttempt (e := e) (i := i) (f := fun a' =>
    { a' with persistenceFailed := true }.publishVolatile
      (failure a.request .indeterminate "EXECUTOR_REMOTE_STATE_UNAVAILABLE" message now))
    fun a' _ => later_persistenceFailed a' _
  refine hlater.trans (.kept rfl (.of_same ?_))
  exact modify_modify_eq _ _ _ _

theorem proceeds_latchWorkerUnavailable (session : Nat) (result : TerminalResult) :
    Proceeds e (e.latchWorkerUnavailable options session result) := by
  unfold latchWorkerUnavailable
  split
  · exact .refl e
  · exact .kept rfl (.of_same rfl)

theorem proceeds_finish (i : Nat) (ok : Bool) : Proceeds e (e.modifyAttempt i (·.finish ok)) :=
  proceeds_modifyAttempt fun a _ => later_finish a ok

variable {a : RemoteAttempt}

theorem proceeds_commitFailed {c : AttemptCommit}
    (ha : ∀ a', e.attempts[i]? = some a' → a'.commit = some c) (error : CommitError)
    (now : JsString) : Proceeds e (e.commitFailed i a c error now) := by
  unfold commitFailed
  split
  · exact proceeds_finish i false
  split
  · exact (proceeds_failAttemptPersistence i _ now).trans (proceeds_finish i false)
  · exact proceeds_finish i false
  · exact proceeds_finish i false
  · split
    · exact (proceeds_failAttemptPersistence i _ now).trans (proceeds_finish i false)
    · exact proceeds_modifyAttempt fun a' ha' => later_commit (ha a' ha') rfl rfl

variable {now : JsString}

theorem proceeds_publish {candidate : TerminalResult} {settle bounded : Bool}
    (h : e.publish options i candidate settle bounded now = .ok e') :
    Proceeds e e' := by
  unfold publish at h
  split at h
  · cases h
    exact .refl e
  split at h
  · cases h
  dsimp only at h
  split at h
  · split at h
    · cases h
    · cases h
      split
      · exact proceeds_modifyAttempt fun a _ => later_settle a
      · exact .refl e
  · split at h
    · cases h
    · cases h
      exact .refl e
  · cases h
    exact proceeds_modifyAttempt fun _ _ =>
      later_of_same rfl rfl rfl rfl rfl fun h => h.commit_append _

theorem continues_publish {candidate : TerminalResult} {settle bounded : Bool}
    (h : e.publish options i candidate settle bounded now = .ok e') : Continues e e' :=
  (proceeds_publish h).attempts

theorem proceeds_enqueue (i : Nat) (t : AttemptTransition) :
    Proceeds e (e.modifyAttempt i (·.enqueue t)) :=
  proceeds_modifyAttempt fun a _ => later_enqueue a t

theorem proceeds_assignFailed (i session : Nat) (protocol : Option (String × String))
    (now : JsString) : Proceeds e (e.assignFailed options i session protocol now) := by
  unfold assignFailed
  split
  · exact .refl e
  split
  · exact .refl e
  split
  · split
    · next hpublish => exact proceeds_publish hpublish
    · exact .refl e
  · exact proceeds_enqueue i _

theorem proceeds_assignPublish (i session : Nat) (result : TerminalResult) (settle : Bool)
    (now : JsString) : Proceeds e (e.assignPublish options i session result settle now) := by
  unfold assignPublish
  split
  · next hpublish => exact proceeds_publish hpublish
  · exact proceeds_assignFailed ..
  · exact proceeds_assignFailed ..

theorem proceeds_assignAnswered (i session : Nat) (a : RemoteAttempt) (answer : AckAnswer)
    (now : JsString) : Proceeds e (e.assignAnswered options i session a answer now) := by
  unfold assignAnswered
  split
  · exact proceeds_assignFailed ..
  split
  · exact .refl e
  split
  · exact .refl e
  · exact proceeds_assignFailed ..
  · exact proceeds_assignFailed ..
  split
  · exact proceeds_assignFailed ..
  split
  · exact proceeds_assignFailed ..
  split
  · exact proceeds_assignPublish ..
  · exact (proceeds_latchWorkerUnavailable ..).trans (proceeds_assignPublish ..)
  · exact proceeds_assignFailed ..
  · exact (proceeds_latchWorkerUnavailable ..).trans (proceeds_assignPublish ..)
  · exact proceeds_enqueue i _
  · exact proceeds_assignFailed ..

theorem proceeds_cancelFailed (i session : Nat) : Proceeds e (e.cancelFailed i session) := by
  unfold cancelFailed
  split
  · exact .refl e
  split
  · exact proceeds_enqueue i _
  · exact .refl e

theorem proceeds_cancelAnswered (i session : Nat) (a : RemoteAttempt) (answer : AckAnswer)
    (now : JsString) : Proceeds e (e.cancelAnswered options i session a answer now) := by
  unfold cancelAnswered
  split
  · split
    · exact .refl e
    · exact proceeds_cancelFailed ..
  · exact .refl e
  · exact proceeds_cancelFailed ..
  · split
    · exact .refl e
    · next result settle _ =>
      dsimp only
      have hlatched : Proceeds e
          (if settle then e else e.latchWorkerUnavailable options session result) := by
        split
        · exact .refl e
        · exact proceeds_latchWorkerUnavailable ..
      split
      · next hpublish => exact hlatched.trans (proceeds_publish hpublish)
      · exact hlatched
      · exact hlatched.trans (proceeds_cancelFailed ..)

theorem proceeds_answered {n : Nat} {answer : AckAnswer}
    (h : e.answered options n answer now = some e') : Proceeds e e' := by
  unfold answered at h
  split at h
  · cases h
  have hremoved : Proceeds e { e with requests := e.requests.eraseIdx n } := .kept rfl (.of_same rfl)
  dsimp only at h
  split at h
  · cases h
    exact hremoved
  cases h
  split
  · exact hremoved.trans (proceeds_assignAnswered ..)
  · exact hremoved.trans (proceeds_cancelAnswered ..)

theorem proceeds_received (session : Nat) (result : TerminalResult) (now : JsString) :
    Proceeds e (e.received options session result now) := by
  unfold received
  split
  · exact .refl e
  split
  · exact .refl e
  split
  · exact .refl e
  split
  · exact .refl e
  dsimp only
  split
  · next hpublish => exact (proceeds_latchWorkerUnavailable ..).trans (proceeds_publish hpublish)
  · exact proceeds_latchWorkerUnavailable ..

theorem proceeds_sessionLost (session : Nat) : Proceeds e (e.sessionLost options session) := by
  unfold sessionLost
  split
  · exact .refl e
  refine .lost rfl (continues_map (fun a => ?_) rfl)
  split
  · exact later_enqueue a _
  · exact .refl a

theorem proceeds_settleRevokedAttempts (now : JsString) :
    Proceeds e (e.settleRevokedAttempts now) := by
  refine .kept rfl (continues_map (fun a => ?_) rfl)
  split
  · next hactive =>
    refine (later_terminal fun hsound => hsound.terminal_eq_none ?_).trans (later_settle _)
    exact of_decide_eq_true (Bool.and_eq_true_iff.mp hactive).2
  · exact .refl a

theorem proceeds_orphanExpired {volatile : Bool}
    (h : e.orphanExpired options i volatile now = some e') : Proceeds e e' := by
  unfold orphanExpired at h
  split at h
  · split at h
    · cases h
    · dsimp only at h
      split at h
      · cases h
        exact proceeds_publishVolatile ..
      split at h
      · next hpublish =>
        cases h
        exact proceeds_publish hpublish
      · cases h
        exact .refl e
  · cases h

theorem proceeds_reconcileFailed (inventory : AttemptInventory) :
    Proceeds e (e.reconcileFailed options inventory) := by
  have hcleared : Proceeds e { e with inventory := none } := .kept rfl (.of_same rfl)
  exact hcleared.trans (proceeds_sessionLost ..)

theorem proceeds_inventoryAnswered {answer : InventoryAnswer}
    (h : e.inventoryAnswered options answer = some e') : Proceeds e e' := by
  unfold inventoryAnswered at h
  split at h
  · cases h
  next session _ =>
  have hworker : ∀ available, Proceeds e
      ({ e with reconciliation := none }.workerUnavailable options session available) := by
    intro available
    unfold workerUnavailable
    split <;> exact .kept rfl (.of_same rfl)
  dsimp only at h
  split at h
  · cases h
    exact .kept rfl (.of_same rfl)
  split at h
  · cases h
    exact (hworker _).trans (proceeds_sessionLost ..)
  · cases h
    exact (hworker _).trans (.kept rfl (.of_same rfl))

theorem proceeds_reconcileTerminal {k : Nat}
    (h : e.reconcileTerminal options k now = some e') : Proceeds e e' := by
  unfold reconcileTerminal at h
  split at h
  · cases h
  split at h
  · cases h
  split at h
  · cases h
    exact .refl e
  split at h
  · cases h
    exact .refl e
  split at h
  · next hpublish =>
    cases h
    exact proceeds_publish hpublish
  · cases h
    exact proceeds_reconcileFailed ..

theorem later_begin {t : AttemptTransition}
    (hhead : a.transition.head? = some t) : a.Later (begin options e a t) := by
  have hended : a.Later (a.finish true) := later_finish a true
  -- the commit of an operation that is no publication has the result there is, which is none
  have hcommit : ∀ (state : RemoteAttemptState) (epoch : Nat) (bounded : Bool),
      (∀ c : AttemptCommit, c.result = none → CommitOf t c) → a.state ≠ .terminal →
        a.Later (a.beginCommit state a.terminal epoch bounded) := by
    intro state epoch bounded hcommits hstate
    refine later_beginCommit hhead fun hsound c _ hresult => hcommits c ?_
    rw [hresult, hsound.terminal_eq_none hstate]
  cases t with
  | publish result bounded settle =>
    unfold begin
    dsimp only
    split
    · exact later_commitReturned a
    · exact later_beginCommit hhead fun _ c hstate hresult => ⟨hstate, hresult⟩
  | assigned session =>
    unfold begin
    dsimp only
    split
    · next hopen => exact hcommit _ _ _ (fun _ h => h) hopen.1
    · exact hended
  | answered state session =>
    unfold begin
    dsimp only
    split
    · exact hended
    · next hopen =>
      exact hcommit _ _ _ (fun _ h => h) fun hterminal => hopen (.inr (.inl hterminal))
  | cancel =>
    unfold begin
    dsimp only
    split
    · exact hended
    next hopen =>
    have hmarked : a.Later { a with cancellation := some (a.cancellation.getD .cancelled) } :=
      later_of_same rfl rfl rfl rfl rfl Sound.commit
    refine hmarked.trans (later_beginCommit hhead fun hsound c _ hresult => ?_)
    exact hresult.trans (hsound.terminal_eq_none hopen)
  | unknown =>
    unfold begin
    dsimp only
    split
    · exact hended
    · next hopen => exact hcommit _ _ _ (fun _ h => h) hopen
  | uncancelled session =>
    unfold begin
    dsimp only
    split
    · next hopen => exact hcommit _ _ _ (fun _ h => h) hopen.1
    · exact hended
  | reconciled state session =>
    unfold begin
    dsimp only
    split
    · exact hended
    · next hopen => exact hcommit _ _ _ (fun _ h => h) hopen
  | orphaned session =>
    unfold begin
    dsimp only
    split
    · next hopen => exact hcommit _ _ _ (fun _ h => h) hopen.1
    · exact hended

/-! ## The store's answers -/

/-- The store agrees: what comes back from it has the terminal result, if there is one. -/
def storeAgrees (e : RemoteAttempts) : AttemptLabel → Bool
  | .commitAnswered i (.committed (.ok _)) _ =>
    e.attempts[i]?.all fun a => a.commit.all fun c => a.terminal.all fun result =>
      a.persistenceFailed || decide (c.state ≠ .terminal) || decide (c.result = some result)
  | .loaded i (.latest (.ok latest)) _ =>
    e.attempts[i]?.all fun a => a.terminal.all fun result => decide (latest.result = some result)
  | _ => true

variable {result : TerminalResult}

theorem storeAgrees_committed {revision : Nat}
    {c : AttemptCommit}
    (h : e.storeAgrees (.commitAnswered i (.committed (.ok revision)) now) = true)
    (ha : e.attempts[i]? = some a) (hc : a.commit = some c) (hstate : c.state = .terminal)
    (hworks : a.persistenceFailed = false) (hterminal : a.terminal = some result) :
    c.result = some result := by
  simpa [storeAgrees, ha, hc, hterminal, hstate, hworks] using h

theorem storeAgrees_loaded {latest : StoredAttempt}
    (h : e.storeAgrees (.loaded i (.latest (.ok latest)) now) = true)
    (ha : e.attempts[i]? = some a) (hterminal : a.terminal = some result) :
    latest.result = some result := by
  simpa [storeAgrees, ha, hterminal] using h

theorem continues_commitAnswered {answer : CommitAnswer}
    (h : e.commitAnswered i answer now = some e')
    (hagrees : e.storeAgrees (.commitAnswered i answer now) = true) : Continues e e' := by
  unfold commitAnswered at h
  split at h
  · cases h
  next a ha =>
    split at h
    · cases h
    next c hc =>
      have hcommit : ∀ a', e.attempts[i]? = some a' → a'.commit = some c := by
        intro a' ha'
        cases some.inj (ha.symm.trans ha')
        exact hc
      split at h
      · cases h
      split at h
      · split at h
        · cases h
          have hdegraded : Continues e e.degradePersistence := .of_same rfl
          exact hdegraded.trans (proceeds_commitFailed (e := e.degradePersistence) hcommit _ now).attempts
        · cases h
      · cases h
        exact (proceeds_commitFailed hcommit _ now).attempts
      · cases h
        split
        · exact continues_modifyAttempt fun a _ => later_commitReturned a
        · -- the record is read again, with the same commit
          exact continues_modifyAttempt fun a' ha' => later_commit (hcommit a' ha') rfl rfl
      · next parsed =>
        split at h
        · -- the attempt was given up while the store wrote: the write is ignored
          cases h
          exact continues_modifyAttempt fun a _ => later_commitReturned a
        next hworks =>
        split at h
        · cases h
          exact (proceeds_commitFailed hcommit _ now).attempts
        next revision =>
        cases h
        split
        · exact (proceeds_commitFailed hcommit _ now).attempts
        -- a result that there is by now is the one that was written
        refine continues_modifyAttempt fun a' ha' => ?_
        cases some.inj (ha.symm.trans ha')
        have hwritten := later_committed hc (fun result hstate hterminal =>
          storeAgrees_committed hagrees ha hc hstate (Bool.eq_false_iff.mpr hworks) hterminal)
          revision
        exact hwritten.trans (later_commitReturned _)

theorem getElem?_modifyAttempt_self
    {a' : RemoteAttempt} (h : (e.modifyAttempt i f).attempts[i]? = some a') :
    ∃ a, e.attempts[i]? = some a ∧ a' = f a := by
  replace h : (e.attempts.modify i f)[i]? = some a' := h
  rw [getElem?_modify] at h
  obtain ⟨a, ha, rfl⟩ := map_eq_some_iff.mp h
  exact ⟨a, ha, if_pos rfl⟩

theorem continues_loaded {answer : LoadAnswer}
    (h : e.loaded i answer now = some e') (hagrees : e.storeAgrees (.loaded i answer now) = true) :
    Continues e e' := by
  unfold loaded at h
  split at h
  · cases h
  next a ha =>
    split at h
    · cases h
    next c hc =>
      have hcommit : ∀ a', e.attempts[i]? = some a' → a'.commit = some c := by
        intro a' ha'
        cases some.inj (ha.symm.trans ha')
        exact hc
      split at h
      · cases h
      split at h
      · cases h
        have hdegraded : Continues e e.degradePersistence := .of_same rfl
        exact hdegraded.trans (proceeds_commitFailed (e := e.degradePersistence) hcommit _ now).attempts
      · cases h
        exact (proceeds_commitFailed hcommit _ now).attempts
      · cases h
        exact (proceeds_commitFailed hcommit _ now).attempts
      · next latest =>
        cases h
        split
        · exact (proceeds_commitFailed hcommit _ now).attempts
        split
        · exact (proceeds_commitFailed hcommit _ now).attempts
        have hread : Continues e (e.modifyAttempt i (reloaded · latest)) := by
          refine continues_modifyAttempt fun a' ha' => later_reloaded fun result hterminal => ?_
          exact storeAgrees_loaded hagrees ha' hterminal
        split
        · exact hread.trans (continues_modifyAttempt fun a _ => later_commitReturned a)
        -- what was read is not terminal: a stale epoch, with which the commit ends
        refine hread.trans (proceeds_commitFailed (fun a' ha' => ?_) _ now).attempts
        obtain ⟨a₀, ha₀, rfl⟩ := getElem?_modifyAttempt_self ha'
        exact hcommit a₀ ha₀

/-! ## The steps -/

theorem not_expired_of_recoverable {highestEpoch : Nat} {records : List StoredAttempt}
    (h : recoverable options highestEpoch records = true) {record : StoredAttempt}
    (hmem : record ∈ records) : record.state ≠ .expired := by
  simp only [recoverable, Bool.and_eq_true, List.all_eq_true, decide_eq_true_eq] at h
  exact (h.1.2 record hmem).1

theorem continues_attachHydrated (session : Nat) (now : JsString) :
    Continues e (e.attachHydrated options session now) := by
  unfold attachHydrated
  split
  · -- the authority was revoked meanwhile
    exact (proceeds_settleRevokedAttempts now).attempts
  split
  · exact .refl e
  split
  · exact .refl e
  · exact .of_same rfl

theorem continues_hydrationEnded {answer : RecoveryAnswer}
    (h : e.hydrationEnded options answer now = some e') : Continues e e' := by
  unfold hydrationEnded at h
  split at h
  · cases h
  next session _ =>
    have hwaiting : Continues e { e with attaching := none } := .of_same rfl
    dsimp only at h
    split at h
    · cases h
      exact hwaiting.trans (continues_attachHydrated _ now)
    split at h
    · cases h
      exact hwaiting
    split at h
    · cases h
      exact .of_same rfl
    · cases h
      exact hwaiting
    · next highestEpoch records =>
      cases h
      split
      · next hrecoverable =>
        have hrecovered : Continues { e with attaching := none }
            ({ e with attaching := none }.hydrate highestEpoch records) := by
          refine continues_append (fun a ha => ?_) rfl
          obtain ⟨record, hmem, rfl⟩ := List.mem_map.mp ha
          refine ⟨fun _ h => h, fun hsome => ?_, by simp [recoveredAttempt],
            by simp [recoveredAttempt]⟩
          -- a record with a result is terminal; an expired one is not recovered
          by_contra hstate
          have hnone := record.no_result hstate (not_expired_of_recoverable hrecoverable hmem)
          rw [show (recoveredAttempt record).terminal = none from hnone] at hsome
          cases hsome
        exact hwaiting.trans (hrecovered.trans (continues_attachHydrated _ now))
      · exact hwaiting

theorem proceeds_created {revision : Option Nat}
    (h : e.created options revision now = some e') : Proceeds e e' := by
  unfold created at h
  split at h
  · cases h
  next request fingerprint session _ =>
    dsimp only at h
    split at h
    · cases h
      exact .kept rfl (.of_same rfl)
    split at h
    · -- the authority was revoked while the record was written: the attempt begins as a failure
      cases h
      refine .kept rfl (continues_append (fun a ha => ?_) rfl)
      cases mem_singleton.mp ha
      exact ⟨fun _ h => h, fun _ => rfl, by simp [settle], by simp [settle]⟩
    · cases h
      refine .kept rfl (continues_append (fun a ha => ?_) rfl)
      cases mem_singleton.mp ha
      exact ⟨by simp, by simp, by simp, by simp⟩

theorem proceeds_transitionBegun (h : e.transitionBegun options i = some e') : Proceeds e e' := by
  unfold transitionBegun at h
  split at h
  · cases h
  next a ha =>
    split at h
    · next t _ hhead =>
      cases h
      refine proceeds_modifyAttempt fun a' ha' => later_begin ?_
      cases some.inj (ha.symm.trans ha')
      exact hhead
    · cases h

theorem proceeds_commitRetried (h : e.commitRetried i = some e') : Proceeds e e' := by
  unfold commitRetried at h
  split at h
  · cases h
  next a ha =>
    split at h
    · cases h
    next c hc =>
      split at h
      · cases h
      cases h
      refine proceeds_modifyAttempt fun a' ha' => later_commit (c := c) ?_ rfl rfl
      cases some.inj (ha.symm.trans ha')
      exact hc

theorem proceeds_persistenceTimedOut
    (h : e.persistenceTimedOut i now = some e') : Proceeds e e' := by
  unfold persistenceTimedOut at h
  split at h
  · cases h
  split at h
  · cases h
  split at h
  · cases h
  · cases h
    exact proceeds_failAttemptPersistence ..

theorem proceeds_cancel {deadline : Bool} (h : e.cancel i deadline = some e') : Proceeds e e' := by
  unfold cancel at h
  split at h
  · cases h
  split at h
  · cases h
    exact .refl e
  cases h
  exact proceeds_modifyAttempt fun _ _ =>
    later_of_same rfl rfl rfl rfl rfl fun hsound => hsound.commit_append _

theorem proceeds_cancelRequested (h : e.cancelRequested i = some e') : Proceeds e e' := by
  unfold cancelRequested at h
  split at h
  · cases h
  split at h
  · cases h
    exact proceeds_enqueue ..
  · cases h
    exact .kept rfl (.of_same rfl)

theorem proceeds_revokeAuthority (now : JsString) : Proceeds e (e.revokeAuthority now) := by
  unfold revokeAuthority
  split
  · exact .refl e
  have hrevoked : Proceeds e
      { e with authorityRevoked := true, accepting := false, session := none, orphans := none } :=
    .lost rfl (.of_same rfl)
  exact hrevoked.trans (proceeds_settleRevokedAttempts now)

theorem proceeds_reconcileAttempt (h : e.reconcileAttempt i = some e') : Proceeds e e' := by
  unfold reconcileAttempt at h
  split at h
  · split at h
    · cases h
      exact .refl e
    · split at h
      · cases h
        exact .refl e
      · cases h
        exact proceeds_enqueue ..
  · cases h

theorem proceeds_takenOver (h : e.takenOver options i = some e') : Proceeds e e' := by
  unfold takenOver at h
  split at h
  · split at h
    · cases h
    · cases h
      exact proceeds_enqueue ..
  · cases h

theorem proceeds_pruned (h : e.pruned i = some e') : Proceeds e e' := by
  unfold pruned at h
  split at h
  · cases h
  split at h
  · cases h
  · cases h
    exact proceeds_modifyAttempt fun _ _ => later_of_same rfl rfl rfl rfl rfl Sound.commit

theorem proceeds_sessionChanged (session : Nat) (value : ExecutionSession) :
    Proceeds e (e.sessionChanged options session value) := by
  have hchanged : Proceeds e { e with sessions := Function.update e.sessions session value } :=
    .kept rfl (.of_same rfl)
  unfold sessionChanged
  split
  · exact hchanged.trans (proceeds_sessionLost ..)
  · exact hchanged

theorem proceeds_attach {session : Nat} (h : e.attach session = some e') : Proceeds e e' := by
  unfold attach at h
  split at h
  · cases h
  · cases h
    exact .kept rfl (.of_same rfl)

theorem proceeds_reconcileCancel (h : e.reconcileCancel i = some e') : Proceeds e e' := by
  unfold reconcileCancel at h
  split at h
  · cases h
    exact .kept rfl (.of_same rfl)
  · cases h

theorem proceeds_reconcileEnded {available : Bool}
    (h : e.reconcileEnded options available = some e') : Proceeds e e' := by
  unfold reconcileEnded at h
  split at h
  · cases h
  dsimp only at h
  split at h
  · cases h
    exact .kept rfl (.of_same rfl)
  · cases h
    exact .kept rfl (.of_same rfl)

theorem proceeds_submit {request : RemoteRequest} {fingerprint : JsString} {admitted : Bool}
    (h : e.submit request fingerprint admitted = some e') : Proceeds e e' := by
  unfold submit at h
  split at h
  · cases h
  split at h
  · cases h
  · cases h
    exact .kept rfl (.of_same rfl)

theorem proceeds_assign {session : Nat} (h : e.assign i session = some e') : Proceeds e e' := by
  unfold assign at h
  split at h
  · cases h
  split at h
  · cases h
    exact .kept rfl (.of_same rfl)
  · cases h
    exact .kept rfl (.of_same rfl)

/-- A step that neither attaches a session nor has the store's answer to a commit. -/
theorem proceeds_step {l : AttemptLabel} (h : step options e l = some e')
    (hkind : match l with
      | .hydrationEnded .. | .commitAnswered .. | .loaded .. => False
      | _ => True) : Proceeds e e' := by
  cases l with
  | hydrationEnded | commitAnswered | loaded => exact hkind.elim
  | sessionChanged session value =>
    cases h
    exact proceeds_sessionChanged ..
  | attach session => exact proceeds_attach h
  | inventoryAnswered answer => exact proceeds_inventoryAnswered h
  | reconcileTerminal k now => exact proceeds_reconcileTerminal h
  | reconcileAttempt i => exact proceeds_reconcileAttempt h
  | reconcileCancel i => exact proceeds_reconcileCancel h
  | reconcileFailed =>
    obtain ⟨inventory, -, rfl⟩ := map_eq_some_iff.mp h
    exact proceeds_reconcileFailed inventory
  | reconcileEnded available => exact proceeds_reconcileEnded h
  | submit request fingerprint admitted => exact proceeds_submit h
  | created revision now => exact proceeds_created h
  | takenOver i => exact proceeds_takenOver h
  | assign i session => exact proceeds_assign h
  | cancel i deadline => exact proceeds_cancel h
  | cancelRequested i => exact proceeds_cancelRequested h
  | answered n answer now => exact proceeds_answered h
  | received session result now =>
    cases h
    exact proceeds_received ..
  | assignFailed i session now =>
    cases h
    exact proceeds_assignFailed ..
  | cancelFailed i session =>
    cases h
    exact proceeds_cancelFailed ..
  | settle i =>
    cases h
    exact proceeds_modifyAttempt fun a _ => later_settle a
  | transitionBegun i => exact proceeds_transitionBegun h
  | commitRetried i => exact proceeds_commitRetried h
  | persistenceTimedOut i now => exact proceeds_persistenceTimedOut h
  | orphanExpired i volatile now => exact proceeds_orphanExpired h
  | pruned i => exact proceeds_pruned h
  | revokeAuthority now =>
    cases h
    exact proceeds_revokeAuthority now
  | drain =>
    cases h
    exact .kept rfl (.of_same rfl)
  | close =>
    cases h
    exact .lost rfl (.of_same rfl)

/-- **One step.** The attempts go on as long as the store agrees. -/
theorem continues_step {l : AttemptLabel} (h : step options e l = some e')
    (hagrees : e.storeAgrees l = true) : Continues e e' := by
  cases l with
  | hydrationEnded answer now => exact continues_hydrationEnded h
  | commitAnswered i answer now => exact continues_commitAnswered h hagrees
  | loaded i answer now => exact continues_loaded h hagrees
  | _ => exact (proceeds_step h trivial).attempts

/-! ## Runs -/

def AllSound (e : RemoteAttempts) : Prop :=
  ∀ (i : Nat) (a : RemoteAttempt), e.attempts[i]? = some a → a.Sound

theorem Continues.allSound (h : Continues e e') (hsound : e.AllSound) : e'.AllSound := by
  intro i a' ha'
  cases ha : e.attempts[i]? with
  | none => exact h.fresh i a' ha ha'
  | some a =>
    obtain ⟨a₂, ha₂, hlater⟩ := h.kept i a ha
    cases some.inj (ha'.symm.trans ha₂)
    exact hlater.sound (hsound i a ha)

/-- A step of a run in which the store agrees. -/
def Agreeing (e : RemoteAttempts) (l : AttemptLabel) (_ : RemoteAttempts) : Prop :=
  e.storeAgrees l = true

theorem allSound_of_reachable (h : (machine options).ReachableVia Agreeing e) : e.AllSound := by
  refine h.invariant ?_ ?_
  · rintro _ rfl i a ha
    cases ha
  · exact fun _ _ _ _ hsound hstep hagrees => (continues_step hstep hagrees).allSound hsound

theorem continues_steps (h : Relation.ReflTransGen ((machine options).StepVia Agreeing) e e') :
    Continues e e' := by
  induction h with
  | refl => exact .refl e
  | tail _ hstep ih =>
    obtain ⟨l, hl, hagrees⟩ := hstep
    exact ih.trans (continues_step hl hagrees)

/-! ## What was said stays -/

/-- What was said of an attempt: its handle was resolved with the result, or it was observed. -/
def Exposed (e : RemoteAttempts) (i : Nat) (result : TerminalResult) : Prop :=
  e.attempts[i]?.bind RemoteAttempt.resolved = some result ∨ e.observe i = some (.terminal result)

theorem AllSound.terminal_of_exposed (h : e.AllSound) (hexposed : e.Exposed i result) :
    ∃ a, e.attempts[i]? = some a ∧ a.terminal = some result := by
  rcases hexposed with hresolved | hobserved
  · obtain ⟨a, ha, hresolved⟩ := bind_eq_some_iff.mp hresolved
    exact ⟨a, ha, (h i a ha).resolved result hresolved⟩
  · obtain ⟨a, hfilter, hstatus⟩ := map_eq_some_iff.mp hobserved
    refine ⟨a, (filter_eq_some_iff.mp hfilter).1, ?_⟩
    unfold status at hstatus
    split at hstatus
    · next hterminal =>
      cases hstatus
      exact hterminal
    · split at hstatus <;> cases hstatus

theorem observe_of_terminal
    {status : RemoteAttemptStatus} (ha : e.attempts[i]? = some a)
    (hterminal : a.terminal = some result) (h : e.observe i = some status) :
    status = .terminal result := by
  obtain ⟨a', hfilter, hstatus⟩ := map_eq_some_iff.mp h
  cases some.inj (ha.symm.trans (filter_eq_some_iff.mp hfilter).1)
  rw [← hstatus, RemoteAttempt.status]
  simp only [hterminal]

/-- **A terminal result that was exposed is the one every later observation returns**, and the
one the handle is resolved with, in the runs in which the store agrees. -/
theorem exposed_stays {i : Nat} {result : TerminalResult}
    (hreachable : (machine options).ReachableVia Agreeing e) (hexposed : e.Exposed i result)
    (hrun : Relation.ReflTransGen ((machine options).StepVia Agreeing) e e') :
    (∀ status, e'.observe i = some status → status = .terminal result) ∧
      ∀ other, e'.attempts[i]?.bind RemoteAttempt.resolved = some other → other = result := by
  have hsound := allSound_of_reachable hreachable
  obtain ⟨a, ha, hterminal⟩ := hsound.terminal_of_exposed hexposed
  obtain ⟨a', ha', hlater⟩ := (continues_steps hrun).kept i a ha
  have hterminal' := hlater.terminal (hsound i a ha) result hterminal
  constructor
  · exact fun status hstatus => observe_of_terminal ha' hterminal' hstatus
  · intro other hother
    obtain ⟨a₂, ha₂, hresolved⟩ := bind_eq_some_iff.mp hother
    cases some.inj (ha'.symm.trans ha₂)
    have hother' := (hlater.sound (hsound i a ha)).resolved other hresolved
    exact some.inj (hother'.symm.trans hterminal')

/-! ## A revocation while the store writes -/

def succeeded : TerminalResult where
  taskId := sampleRequest.taskId
  attemptId := sampleRequest.attemptId
  status := .succeeded
  code := none
  ofWorkerRuntime := false
  content := []

def storing : List AttemptLabel :=
  attachFirst ++
    [.submit sampleRequest [] true, .created (some 1) [], .assign 0 0, .received 0 succeeded [],
      .transitionBegun 0]

/-- The write has come to an end. -/
def stored : AttemptLabel := .commitAnswered 0 (.committed (.ok 2)) []

/-- A revocation after the write finds the result. -/
theorem exposed_stays_stored :
    ∃ e e', e.Exposed 0 succeeded ∧ step sampleAttemptOptions e (.revokeAuthority []) = some e' ∧
      ∀ status, e'.observe 0 = some status → status = .terminal succeeded := by
  let agrees := fun (e : RemoteAttempts) l (_ : RemoteAttempts) => e.storeAgrees l
  have hrun : ((machine sampleAttemptOptions).runVia agrees new (storing ++ [stored])).map (fun e =>
      (e.observe 0, e.storeAgrees (.revokeAuthority []))) =
      some (some (.terminal succeeded), true) := by decide +kernel
  obtain ⟨e, he, hvalues⟩ := map_eq_some_iff.mp hrun
  obtain ⟨hobserved, hagrees⟩ := Prod.mk.inj hvalues
  have hreachable : (machine sampleAttemptOptions).ReachableVia Agreeing e :=
    (Machine.ReachableVia.init rfl).of_steps (Machine.steps_of_runVia (fun _ _ _ h => h) he)
  refine ⟨e, _, .inr hobserved, rfl, (exposed_stays hreachable (.inr hobserved) ?_).1⟩
  exact .single ⟨.revokeAuthority [], rfl, hagrees⟩

/-- A revocation before it is answered: the attempt is observed as indeterminate, and then as
what the store has written. -/
theorem exposed_replaced :
    ∃ e e' result, (machine sampleAttemptOptions).Reachable e ∧ e.Exposed 0 result ∧
      step sampleAttemptOptions e stored = some e' ∧
        e'.observe 0 = some (.terminal succeeded) ∧ result ≠ succeeded := by
  let revoked := failure sampleRequest .indeterminate "EXECUTOR_REMOTE_AUTHORITY_REVOKED"
    "RemoteExecutor authority was revoked before the attempt reached a terminal result" []
  have hrun : ((machine sampleAttemptOptions).run new (storing ++ [.revokeAuthority []])).bind
      (fun e => (step sampleAttemptOptions e stored).map fun e' => (e.observe 0, e'.observe 0)) =
      some (some (.terminal revoked), some (.terminal succeeded)) := by decide +kernel
  obtain ⟨e, he, hrest⟩ := bind_eq_some_iff.mp hrun
  obtain ⟨e', he', hvalues⟩ := map_eq_some_iff.mp hrest
  obtain ⟨hbefore, hafter⟩ := Prod.mk.inj hvalues
  exact ⟨e, e', revoked, .of_init_run rfl he, .inr hbefore, he', hafter, by decide⟩

end RemoteAttempts

end TegoNext
