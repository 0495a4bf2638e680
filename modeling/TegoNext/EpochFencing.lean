/-
Sessions are fenced by their epochs: what the executor does for a session that it has lost or
replaced.

A session is attached only if its epoch is above all those before it and above the watermark of
the store. Every handler of an answer or message checks the session once more after it has waited.
All but two: a cancellation that is acknowledged publishes what the worker says, and an inventory
that was accepted is worked through to its end.
-/
import TegoNext.TerminalAttempts

set_option autoImplicit false

namespace TegoNext

open Text List Option

namespace RemoteAttempts

/-- The epochs of the sessions that got attached increase, and exceed the watermark. -/
def EpochsIncrease (e : RemoteAttempts) : Prop :=
  e.attached.Pairwise (· > ·) ∧ ∀ epoch ∈ e.attached, e.watermark < epoch

/-- The session whose answer, message or inventory a step handles. -/
def handledSession (e : RemoteAttempts) : AttemptLabel → Option Nat
  | .answered n _ _ => e.requests[n]?.map AttemptRequest.session
  | .received session _ _ => some session
  | .assignFailed _ session _ => some session
  | .cancelFailed _ session => some session
  | .inventoryAnswered _ => e.reconciliation
  | .reconcileTerminal _ _ => e.inventory.map AttemptInventory.session
  | .reconcileAttempt _ => e.inventory.map AttemptInventory.session
  | _ => none

/-- Would `#publish` put the result on the chain? -/
def publishes (a : RemoteAttempt) (result : TerminalResult) : Prop :=
  result.taskId = a.request.taskId ∧ result.attemptId = a.request.attemptId ∧
    a.terminal = none ∧ a.publication = none

/-- The steps that do not look at the session, where they have something to do: a cancellation
is acknowledged with a result that is not there yet, or an item of an inventory is next. -/
def Unguarded (e : RemoteAttempts) : AttemptLabel → Prop
  | .answered n (.ack payload) now => ∃ request a result settle, e.requests[n]? = some request ∧
      request.kind = .cancel ∧ e.attempts[request.attempt]? = some a ∧
        cancelledResult a payload now = some (result, settle) ∧ publishes a result
  | .reconcileTerminal k _ => ∃ inventory result i a, e.inventory = some inventory ∧
      inventory.terminal[k]? = some result ∧
        e.lookup (attemptKey result.taskId result.attemptId) = some i ∧
          e.attempts[i]? = some a ∧ publishes a result
  | .reconcileAttempt i => ∃ inventory a, e.inventory = some inventory ∧
      e.attempts[i]? = some a ∧ isActive a = true ∧
        a.key ∉ inventory.terminal.map (fun r => attemptKey r.taskId r.attemptId) ∧
          (inventoryState inventory a).isSome = true
  | _ => False

/-- The epochs increase, and a step that handles something of a session that is not the attached
one leaves every attempt as it is, exactly if it is not one of the two kinds above. -/
def SessionsFenced (options : AttemptOptions) (e : RemoteAttempts) : Prop :=
  EpochsIncrease e ∧ ∀ l e' session, step options e l = some e' →
    handledSession e l = some session → e.session ≠ some session →
      (e'.attempts = e.attempts ↔ ¬Unguarded e l)

variable {options : AttemptOptions} {e e' : RemoteAttempts}

/-! ## The fence -/

/-- What the epochs keep to. -/
structure Fence (options : AttemptOptions) (e : RemoteAttempts) : Prop where
  increasing : e.attached.Pairwise (· > ·)
  attached_le : ∀ epoch ∈ e.attached, epoch ≤ e.highestEpoch
  watermark_lt : ∀ epoch ∈ e.attached, e.watermark < epoch
  watermark_le : e.watermark ≤ e.highestEpoch
  unattached : e.hydrated = false → e.attached = [] ∧ e.session = none
  current : ∀ session, e.session = some session → options.epoch session = e.highestEpoch

theorem fence_new : Fence options new where
  increasing := .nil
  attached_le _ h := absurd h not_mem_nil
  watermark_lt _ h := absurd h not_mem_nil
  watermark_le := Nat.le_refl 0
  unattached _ := ⟨rfl, rfl⟩
  current _ h := nomatch h

theorem Fence.of_same (h : Fence options e) (hsame : SameFence e e') : Fence options e' where
  increasing := by
    rw [hsame.attached]
    exact h.increasing
  attached_le := by
    rw [hsame.attached, hsame.highestEpoch]
    exact h.attached_le
  watermark_lt := by
    rw [hsame.attached, hsame.watermark]
    exact h.watermark_lt
  watermark_le := by
    rw [hsame.watermark, hsame.highestEpoch]
    exact h.watermark_le
  unattached := by
    intro hnot
    obtain ⟨hattached, hdetached⟩ := h.unattached (hsame.hydrated ▸ hnot)
    refine ⟨hsame.attached.trans hattached, ?_⟩
    rcases hsame.session with heq | hnone
    · exact heq.trans hdetached
    · exact hnone
  current := by
    intro session hsession
    rw [hsame.highestEpoch]
    rcases hsame.session with heq | hnone
    · exact h.current session (heq ▸ hsession)
    · rw [hnone] at hsession
      cases hsession

theorem Fence.hydrate (h : Fence options e) (hnot : e.hydrated = false) (highestEpoch : Nat)
    (records : List StoredAttempt) : Fence options (e.hydrate highestEpoch records) := by
  obtain ⟨hattached, hdetached⟩ := h.unattached hnot
  have hnobody : ∀ epoch, epoch ∉ e.attached := by
    rw [hattached]
    exact fun _ => not_mem_nil
  exact
    { increasing := h.increasing
      attached_le := fun epoch hmem => absurd hmem (hnobody epoch)
      watermark_lt := fun epoch hmem => absurd hmem (hnobody epoch)
      watermark_le := Nat.le_max_right _ _
      unattached := fun hfalse => nomatch hfalse
      current := fun _ hsession => nomatch hdetached.symm.trans hsession }

/-! ## The steps that attach nobody -/

theorem modifyAttempt_fence (i : Nat) (f : RemoteAttempt → RemoteAttempt) :
    SameFence e (e.modifyAttempt i f) := ⟨.inl rfl, rfl, rfl, rfl, rfl⟩

theorem commitFailed_fence (i : Nat) (a : RemoteAttempt) (c : AttemptCommit) (error : CommitError)
    (now : JsString) : SameFence e (e.commitFailed i a c error now) := by
  unfold commitFailed
  split
  · exact modifyAttempt_fence i _
  split
  · exact (proceeds_failAttemptPersistence i _ now).fence.trans (modifyAttempt_fence i _)
  · exact modifyAttempt_fence i _
  · exact modifyAttempt_fence i _
  · split
    · exact (proceeds_failAttemptPersistence i _ now).fence.trans (modifyAttempt_fence i _)
    · exact modifyAttempt_fence i _

variable {i : Nat} {now : JsString}

theorem commitAnswered_fence {answer : CommitAnswer}
    (h : e.commitAnswered i answer now = some e') : SameFence e e' := by
  unfold commitAnswered at h
  split at h
  · cases h
  split at h
  · cases h
  next a _ c _ =>
    split at h
    · cases h
    split at h
    · split at h
      · cases h
        have hdegraded : SameFence e e.degradePersistence := ⟨.inl rfl, rfl, rfl, rfl, rfl⟩
        exact hdegraded.trans (commitFailed_fence ..)
      · cases h
    · cases h
      exact commitFailed_fence ..
    · cases h
      split <;> exact modifyAttempt_fence i _
    · split at h
      · cases h
        exact modifyAttempt_fence i _
      · split at h
        · cases h
          exact commitFailed_fence ..
        · cases h
          split
          · exact commitFailed_fence ..
          · exact modifyAttempt_fence i _

theorem loaded_fence {answer : LoadAnswer}
    (h : e.loaded i answer now = some e') : SameFence e e' := by
  unfold loaded at h
  split at h
  · cases h
  split at h
  · cases h
  next a _ c _ =>
    split at h
    · cases h
    split at h
    · cases h
      have hdegraded : SameFence e e.degradePersistence := ⟨.inl rfl, rfl, rfl, rfl, rfl⟩
      exact hdegraded.trans (commitFailed_fence ..)
    · cases h
      exact commitFailed_fence ..
    · cases h
      exact commitFailed_fence ..
    · cases h
      split
      · exact commitFailed_fence ..
      split
      · exact commitFailed_fence ..
      split
      · exact (modifyAttempt_fence i _).trans (modifyAttempt_fence i _)
      · exact (modifyAttempt_fence i _).trans (commitFailed_fence ..)

/-! ## Attachment -/

theorem Fence.attachHydrated (h : Fence options e) (hydrated : e.hydrated = true) (session : Nat)
    (now : JsString) : Fence options (e.attachHydrated options session now) := by
  unfold RemoteAttempts.attachHydrated
  split
  · exact h.of_same ⟨.inl rfl, rfl, rfl, rfl, rfl⟩
  split
  · exact h
  split
  · exact h
  next hadmitted =>
    by_cases hsame : e.session = some session
    · -- The session is the attached one; its epoch is the highest.
      have hepoch := h.current session hsame
      exact
        { increasing := by
            rw [if_pos hsame]
            exact h.increasing
          attached_le := by
            rw [if_pos hsame, hepoch]
            exact h.attached_le
          watermark_lt := by
            rw [if_pos hsame]
            exact h.watermark_lt
          watermark_le := by
            rw [hepoch]
            exact h.watermark_le
          unattached := fun hnot => nomatch hydrated.symm.trans hnot
          current := fun _ hother => some.inj hother ▸ rfl }
    · have habove : e.highestEpoch < options.epoch session := by
        by_contra hle
        exact hadmitted ⟨Nat.le_of_not_lt hle, hsame⟩
      exact
        { increasing := by
            rw [if_neg hsame, pairwise_cons]
            exact ⟨fun epoch hmem => Nat.lt_of_le_of_lt (h.attached_le epoch hmem) habove,
              h.increasing⟩
          attached_le := by
            rw [if_neg hsame, forall_mem_cons]
            exact ⟨Nat.le_refl _, fun epoch hmem =>
              Nat.le_of_lt (Nat.lt_of_le_of_lt (h.attached_le epoch hmem) habove)⟩
          watermark_lt := by
            rw [if_neg hsame, forall_mem_cons]
            exact ⟨Nat.lt_of_le_of_lt h.watermark_le habove, h.watermark_lt⟩
          watermark_le := Nat.le_of_lt (Nat.lt_of_le_of_lt h.watermark_le habove)
          unattached := fun hnot => nomatch hydrated.symm.trans hnot
          current := fun _ hother => some.inj hother ▸ rfl }

theorem Fence.hydrationEnded (h : Fence options e) {answer : RecoveryAnswer}
    (hstep : e.hydrationEnded options answer now = some e') : Fence options e' := by
  unfold RemoteAttempts.hydrationEnded at hstep
  split at hstep
  · cases hstep
  next session _ =>
    have hwaiting : Fence options { e with attaching := none } :=
      h.of_same ⟨.inl rfl, rfl, rfl, rfl, rfl⟩
    dsimp only at hstep
    split at hstep
    · next hydrated =>
      cases hstep
      exact hwaiting.attachHydrated hydrated session now
    split at hstep
    · cases hstep
      exact hwaiting
    next hnot _ =>
      split at hstep
      · cases hstep
        exact hwaiting.of_same ⟨.inl rfl, rfl, rfl, rfl, rfl⟩
      · cases hstep
        exact hwaiting
      · next highestEpoch records =>
        cases hstep
        split
        · exact (hwaiting.hydrate (Bool.not_eq_true _ ▸ hnot) highestEpoch records).attachHydrated
            rfl session now
        · exact hwaiting

theorem fence_step (h : Fence options e) {l : AttemptLabel} (hstep : step options e l = some e') :
    Fence options e' := by
  cases l with
  | hydrationEnded answer now => exact h.hydrationEnded hstep
  | commitAnswered i answer now => exact h.of_same (commitAnswered_fence hstep)
  | loaded i answer now => exact h.of_same (loaded_fence hstep)
  | _ => exact h.of_same (proceeds_step hstep trivial).fence

/-! ## A session that is not the attached one -/

section Detached

variable {session : Nat} (hdetached : e.session ≠ some session)
include hdetached

theorem latchWorkerUnavailable_of_detached (result : TerminalResult) :
    e.latchWorkerUnavailable options session result = e := by
  unfold latchWorkerUnavailable
  rw [if_pos]
  simp [hdetached]

theorem received_of_detached (result : TerminalResult) (now : JsString) :
    e.received options session result now = e := if_pos hdetached

theorem sessionLost_of_detached : e.sessionLost options session = e := if_pos hdetached

theorem assignFailed_of_detached (i : Nat) (protocol : Option (String × String)) (now : JsString) :
    e.assignFailed options i session protocol now = e := by
  unfold assignFailed
  split
  · rfl
  · exact if_pos (.inl hdetached)

theorem cancelFailed_of_detached (i : Nat) : e.cancelFailed i session = e := by
  unfold cancelFailed
  split
  · rfl
  · exact if_neg fun h => hdetached h.1

theorem assignAnswered_of_detached (i : Nat) (a : RemoteAttempt) (answer : AckAnswer)
    (now : JsString) : e.assignAnswered options i session a answer now = e := by
  unfold assignAnswered
  split
  · exact assignFailed_of_detached hdetached ..
  · exact if_pos (.inl hdetached)

end Detached

theorem modifyAttempt_enqueue_ne {a : RemoteAttempt} (ha : e.attempts[i]? = some a)
    {f : RemoteAttempt → RemoteAttempt} (hf : (f a).transition ≠ a.transition) :
    (e.modifyAttempt i f).attempts ≠ e.attempts := by
  intro hsame
  have hmodified : (e.modifyAttempt i f).attempts[i]? = some (f a) := by
    show (e.attempts.modify i f)[i]? = some (f a)
    rw [getElem?_modify, ha]
    simp
  rw [hsame, ha] at hmodified
  exact hf (congrArg RemoteAttempt.transition (some.inj hmodified.symm))

theorem enqueue_transition_ne (a : RemoteAttempt) (t : AttemptTransition) :
    (a.enqueue t).transition ≠ a.transition := by
  intro h
  have hlength := congrArg List.length h
  rw [show (a.enqueue t).transition = a.transition ++ [t] from rfl, length_append] at hlength
  simp at hlength

/-- `#publish` that need not settle changes the attempts exactly if it publishes. -/
theorem publish_attempts {i : Nat} {a : RemoteAttempt} (ha : e.attempts[i]? = some a)
    (candidate : TerminalResult) {settle : Bool} (hsettle : settle = true → a.terminal = none)
    (bounded : Bool) (now : JsString) :
    match e.publish options i candidate settle bounded now with
    | .ok e' => e'.attempts = e.attempts ↔ ¬publishes a candidate
    | .error _ => ¬publishes a candidate := by
  unfold publish
  rw [ha]
  dsimp only
  by_cases hidentity : candidate.taskId ≠ a.request.taskId ∨
      candidate.attemptId ≠ a.request.attemptId
  · rw [if_pos hidentity]
    rintro ⟨htask, hattempt, _⟩
    rcases hidentity with hne | hne
    · exact hne htask
    · exact hne hattempt
  · rw [if_neg hidentity]
    obtain ⟨htask, hattempt⟩ := not_or.mp hidentity
    cases hterminal : a.terminal with
    | some terminal =>
      have hnot : ¬publishes a candidate := fun h => nomatch hterminal.symm.trans h.2.2.1
      have hquiet : settle = false := by
        cases settle with
        | false => rfl
        | true => exact nomatch hterminal.symm.trans (hsettle rfl)
      subst hquiet
      dsimp only
      by_cases hsame : terminal = publishedResult options a candidate now
      · rw [if_neg (not_not.mpr hsame)]
        exact iff_of_true rfl hnot
      · rw [if_pos hsame]
        exact hnot
    | none =>
      cases hpublication : a.publication with
      | some publication =>
        have hnot : ¬publishes a candidate := fun h => nomatch hpublication.symm.trans h.2.2.2
        dsimp only
        by_cases hsame : publication = publishedResult options a candidate now
        · rw [if_neg (not_not.mpr hsame)]
          exact iff_of_true rfl hnot
        · rw [if_pos hsame]
          exact hnot
      | none =>
        refine iff_of_false (modifyAttempt_enqueue_ne ha ?_) (not_not.mpr
          ⟨not_not.mp htask, not_not.mp hattempt, hterminal, hpublication⟩)
        exact enqueue_transition_ne { a with publication := _ } _

theorem terminal_of_cancelledResult {a : RemoteAttempt} {payload : AckPayload}
    {result : TerminalResult} {settle : Bool}
    (h : cancelledResult a payload now = some (result, settle)) (hsettle : settle = true) :
    a.terminal = none := by
  unfold cancelledResult at h
  split at h
  · cases h
  split at h
  · cases h
  · cases h
    cases hsettle
  · cases h
  · cases h
  split at h
  · cases h
  · next hnone => exact not_isSome_iff_eq_none.mp hnone

theorem cancelAnswered_of_detached {session : Nat} (hdetached : e.session ≠ some session) {i : Nat}
    {a : RemoteAttempt} (ha : e.attempts[i]? = some a) (answer : AckAnswer) (now : JsString) :
    (e.cancelAnswered options i session a answer now).attempts = e.attempts ↔
      ¬∃ payload result settle, answer = .ack payload ∧
        cancelledResult a payload now = some (result, settle) ∧ publishes a result := by
  unfold cancelAnswered
  split
  · refine iff_of_true ?_ fun ⟨_, _, _, h, _⟩ => nomatch h
    split
    · rfl
    · rw [cancelFailed_of_detached hdetached]
  · exact iff_of_true rfl fun ⟨_, _, _, h, _⟩ => nomatch h
  · refine iff_of_true ?_ fun ⟨_, _, _, h, _⟩ => nomatch h
    rw [cancelFailed_of_detached hdetached]
  · next payload =>
    split
    · next hnone =>
      refine iff_of_true rfl fun ⟨_, _, _, h, hsome, _⟩ => ?_
      cases h
      exact nomatch hnone.symm.trans hsome
    · next result settle hsome =>
      have hlatched : (if settle then e else e.latchWorkerUnavailable options session result) = e := by
        split
        · rfl
        · exact latchWorkerUnavailable_of_detached hdetached result
      rw [hlatched]
      dsimp only
      have hpublish := @publish_attempts options e _ _ ha result _
        (terminal_of_cancelledResult hsome) false now
      have honly : (∃ payload' result' settle', AckAnswer.ack payload = .ack payload' ∧
          cancelledResult a payload' now = some (result', settle') ∧ publishes a result') ↔
          publishes a result := by
        constructor
        · rintro ⟨_, result', settle', h, hother, hpublishes⟩
          cases h
          cases some.inj (hsome.symm.trans hother)
          exact hpublishes
        · exact fun hpublishes => ⟨payload, result, settle, rfl, hsome, hpublishes⟩
      rw [honly]
      split
      · next hok =>
        rw [hok] at hpublish
        exact hpublish
      · next herror =>
        rw [herror] at hpublish
        exact iff_of_true rfl hpublish
      · next herror =>
        rw [herror] at hpublish
        rw [cancelFailed_of_detached hdetached]
        exact iff_of_true rfl hpublish

theorem answered_of_detached {n : Nat} {answer : AckAnswer}
    (h : e.answered options n answer now = some e')
    (hdetached : ∀ request, e.requests[n]? = some request → e.session ≠ some request.session) :
    e'.attempts = e.attempts ↔ ¬Unguarded e (.answered n answer now) := by
  unfold answered at h
  split at h
  · cases h
  next request hrequest =>
  have hgone := hdetached request hrequest
  dsimp only at h
  split at h
  · next hnone =>
    cases h
    refine iff_of_true rfl fun hunguarded => ?_
    cases answer with
    | ack payload =>
      obtain ⟨other, a, _, _, hother, _, ha, _⟩ := hunguarded
      cases some.inj (hrequest.symm.trans hother)
      exact nomatch hnone.symm.trans ha
    | rejected _ _ | otherType | malformed => exact hunguarded
  · next a ha =>
    cases h
    split
    · next hassign =>
      rw [assignAnswered_of_detached (e := { e with requests := e.requests.eraseIdx n }) hgone]
      refine iff_of_true rfl fun hunguarded => ?_
      cases answer with
      | ack payload =>
        obtain ⟨other, _, _, _, hother, hkind, _⟩ := hunguarded
        cases some.inj (hrequest.symm.trans hother)
        exact nomatch hassign.symm.trans hkind
      | rejected _ _ | otherType | malformed => exact hunguarded
    · next hcancel =>
      have hcancelled := @cancelAnswered_of_detached options
        { e with requests := e.requests.eraseIdx n } _ hgone _ _ ha answer now
      refine hcancelled.trans (not_congr ?_)
      constructor
      · rintro ⟨payload, result, settle, rfl, hresult, hpublishes⟩
        exact ⟨request, a, result, settle, hrequest, hcancel, ha, hresult, hpublishes⟩
      · intro hunguarded
        cases answer with
        | ack payload =>
          obtain ⟨other, b, result, settle, hother, _, hb, hresult, hpublishes⟩ := hunguarded
          cases some.inj (hrequest.symm.trans hother)
          cases some.inj (ha.symm.trans hb)
          exact ⟨payload, result, settle, rfl, hresult, hpublishes⟩
        | rejected _ _ | otherType | malformed => exact hunguarded.elim

theorem inventoryAnswered_of_detached {answer : InventoryAnswer}
    (h : e.inventoryAnswered options answer = some e')
    (hdetached : ∀ session, e.reconciliation = some session → e.session ≠ some session) :
    e'.attempts = e.attempts := by
  unfold inventoryAnswered at h
  split at h
  · cases h
  next session hsession =>
  rw [if_pos (hdetached session hsession)] at h
  cases h
  rfl

theorem reconcileTerminal_of_detached {k : Nat} (h : e.reconcileTerminal options k now = some e')
    (hdetached : ∀ inventory, e.inventory = some inventory → e.session ≠ some inventory.session) :
    e'.attempts = e.attempts ↔ ¬Unguarded e (.reconcileTerminal k now) := by
  unfold reconcileTerminal at h
  split at h
  · cases h
  next inventory hinventory =>
    split at h
    · cases h
    next result hresult =>
      split at h
      · next hunknown =>
        cases h
        refine iff_of_true rfl fun ⟨other, result', _, _, hother, hresult', hlookup, _⟩ => ?_
        cases some.inj (hinventory.symm.trans hother)
        cases some.inj (hresult.symm.trans hresult')
        exact nomatch hunknown.symm.trans hlookup
      next i hlookup =>
        have honly : Unguarded e (.reconcileTerminal k now) ↔
            ∃ a, e.attempts[i]? = some a ∧ publishes a result := by
          constructor
          · rintro ⟨other, result', i', a, hother, hresult', hlookup', ha, hpublishes⟩
            cases some.inj (hinventory.symm.trans hother)
            cases some.inj (hresult.symm.trans hresult')
            cases some.inj (hlookup.symm.trans hlookup')
            exact ⟨a, ha, hpublishes⟩
          · rintro ⟨a, ha, hpublishes⟩
            exact ⟨inventory, result, i, a, hinventory, hresult, hlookup, ha, hpublishes⟩
        rw [honly]
        split at h
        · next hterminal =>
          cases h
          refine iff_of_true rfl fun ⟨a, ha, hpublishes⟩ => ?_
          rw [ha] at hterminal
          have hsome : a.terminal.isSome = true := hterminal
          rw [hpublishes.2.2.1] at hsome
          cases hsome
        · have hindex : i < e.attempts.length := findIdx?_eq_some_iff_findIdx_eq.mp hlookup |>.1
          have ha : e.attempts[i]? = some e.attempts[i] := getElem?_eq_getElem hindex
          have hpublish := @publish_attempts options e _ _ ha result _
            (fun hfalse : false = true => nomatch hfalse) false now
          have hone : (∃ a, e.attempts[i]? = some a ∧ publishes a result) ↔
              publishes e.attempts[i] result := by
            constructor
            · rintro ⟨a, hother, hpublishes⟩
              cases some.inj (ha.symm.trans hother)
              exact hpublishes
            · exact fun hpublishes => ⟨_, ha, hpublishes⟩
          rw [hone]
          split at h
          · next hok =>
            cases h
            rw [hok] at hpublish
            exact hpublish
          · next herror =>
            cases h
            rw [herror] at hpublish
            refine iff_of_true ?_ hpublish
            unfold reconcileFailed
            rw [sessionLost_of_detached (e := { e with inventory := none })
              (hdetached inventory hinventory)]

theorem reconcileAttempt_of_detached (h : e.reconcileAttempt i = some e') :
    e'.attempts = e.attempts ↔ ¬Unguarded e (.reconcileAttempt i) := by
  unfold reconcileAttempt at h
  split at h
  · next inventory a hinventory ha =>
    have honly : Unguarded e (.reconcileAttempt i) ↔ isActive a = true ∧
        a.key ∉ inventory.terminal.map (fun r => attemptKey r.taskId r.attemptId) ∧
          (inventoryState inventory a).isSome = true := by
      constructor
      · rintro ⟨other, b, hother, hb, hrest⟩
        cases some.inj (hinventory.symm.trans hother)
        cases some.inj (ha.symm.trans hb)
        exact hrest
      · exact fun hrest => ⟨inventory, a, hinventory, ha, hrest⟩
    rw [honly]
    split at h
    · next hskipped =>
      cases h
      refine iff_of_true rfl fun ⟨hactive, hnot, _⟩ => ?_
      rcases hskipped with hinactive | hlisted
      · rw [hactive] at hinactive
        cases hinactive
      · exact hnot hlisted
    · next hgoes =>
      obtain ⟨hactive, hnot⟩ := not_or.mp hgoes
      split at h
      · next hnone =>
        cases h
        refine iff_of_true rfl fun ⟨_, _, hsome⟩ => ?_
        rw [hnone] at hsome
        cases hsome
      · next state hstate =>
        cases h
        refine iff_of_false (modifyAttempt_enqueue_ne ha (enqueue_transition_ne a _)) (not_not.mpr
          ⟨?_, hnot, by rw [hstate]; rfl⟩)
        rw [Bool.not_eq_true', Bool.not_eq_false] at hactive
        exact hactive
  · cases h

/-! ## The law -/

/-- **Sessions are fenced, but for two handlers.** The epochs of the sessions that got attached
exceed the watermark as well. -/
theorem sessions_fenced (hr : (machine options).Reachable e) : SessionsFenced options e := by
  have hfence : Fence options e := by
    refine Machine.ReachableVia.invariant (I := Fence options) ?_ ?_ hr
    · rintro _ rfl
      exact fence_new
    · exact fun _ _ _ _ h hstep _ => fence_step h hstep
  refine ⟨⟨hfence.increasing, hfence.watermark_lt⟩, ?_⟩
  intro l e' session hstep hhandled hdetached
  have hof : ∀ {α : Type} {x : Option α} {f : α → Nat}, x.map f = some session →
      ∀ y, x = some y → e.session ≠ some (f y) := by
    intro α x f hmap y hy
    rw [hy] at hmap
    cases some.inj hmap
    exact hdetached
  cases l with
  | answered n answer now => exact answered_of_detached hstep (hof hhandled)
  | received other result now =>
    cases some.inj hhandled
    cases some.inj hstep
    rw [received_of_detached hdetached]
    exact iff_of_true rfl id
  | assignFailed i other now =>
    cases some.inj hhandled
    cases some.inj hstep
    rw [assignFailed_of_detached hdetached]
    exact iff_of_true rfl id
  | cancelFailed i other =>
    cases some.inj hhandled
    cases some.inj hstep
    rw [cancelFailed_of_detached hdetached]
    exact iff_of_true rfl id
  | inventoryAnswered answer =>
    refine iff_of_true (inventoryAnswered_of_detached hstep fun other hother => ?_) id
    have hsame : e.reconciliation = some session := hhandled
    cases some.inj (hsame.symm.trans hother)
    exact hdetached
  | reconcileTerminal k now => exact reconcileTerminal_of_detached hstep (hof hhandled)
  | reconcileAttempt i => exact reconcileAttempt_of_detached hstep
  | sessionChanged | attach | hydrationEnded | reconcileCancel | reconcileFailed | reconcileEnded
  | submit | created | takenOver | assign | cancel | cancelRequested | settle | transitionBegun
  | commitAnswered | loaded | commitRetried | persistenceTimedOut | orphanExpired | pruned
  | revokeAuthority | drain | close => cases hhandled

/-! ## A cancellation that a replaced session acknowledges -/

/-- The first session has an assignment, and its cancellation is asked for. Then another
session takes its place. -/
def replacement : List AttemptLabel :=
  attachFirst ++
    [.submit sampleRequest [] true, .created (some 1) [], .assign 0 0, .cancel 0 false,
      .transitionBegun 0, .commitAnswered 0 (.committed (.ok 2)) [], .cancelRequested 0,
      .sessionChanged 1 ⟨.ready, true, true⟩, .attach 1, .hydrationEnded .failed []]

theorem sessions_fenced_replacement :
    ∃ e, e.attached = [2, 1] ∧ SessionsFenced sampleAttemptOptions e := by
  have hrun : ((machine sampleAttemptOptions).run new replacement).map RemoteAttempts.attached =
      some [2, 1] := by decide +kernel
  obtain ⟨e, he, hattached⟩ := map_eq_some_iff.mp hrun
  exact ⟨e, hattached, sessions_fenced (.of_init_run rfl he)⟩

/-- The first session says that it never had the attempt. -/
def lateAcknowledgement : AttemptLabel :=
  .answered 1 (.ack ⟨js "t", js "a", false, none, some false, none⟩) []

/-- The attempt changes, though the session was replaced. -/
theorem lateAcknowledgement_not_fenced :
    ∃ e e' session, (machine sampleAttemptOptions).Reachable e ∧
      step sampleAttemptOptions e lateAcknowledgement = some e' ∧
        handledSession e lateAcknowledgement = some session ∧ e.session ≠ some session ∧
          e'.attempts ≠ e.attempts := by
  have hrun : ((machine sampleAttemptOptions).run new replacement).bind (fun e =>
      (step sampleAttemptOptions e lateAcknowledgement).map fun e' =>
        (handledSession e lateAcknowledgement, e.session,
          decide (e'.attempts = e.attempts))) = some (some 0, some 1, false) := by decide +kernel
  obtain ⟨e, he, hrest⟩ := bind_eq_some_iff.mp hrun
  obtain ⟨e', he', hpair⟩ := map_eq_some_iff.mp hrest
  obtain ⟨hhandled, hpair⟩ := Prod.mk.inj hpair
  obtain ⟨hsession, hchanged⟩ := Prod.mk.inj hpair
  refine ⟨e, e', 0, .of_init_run rfl he, he', hhandled, ?_, of_decide_eq_false hchanged⟩
  rw [hsession]
  decide

end RemoteAttempts

end TegoNext
