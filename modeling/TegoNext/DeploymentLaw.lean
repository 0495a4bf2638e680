/-
What concurrent `deployPlugin` calls do to the deployments they share.

A transaction writes only over the record it read, and only when that record does not already have
the desired state; so every change raises the generation by one. A call whose second read does not
find what it wrote goes round its loop again, and may write twice. `RereadsDesired` says of a step
that it does not do that. The token of a call is its number.
-/
import TegoNext.RuntimeOperations

set_option autoImplicit false

namespace TegoNext

open Async CanonicalJson Text List Option Except

/-! ## The law -/

def DeployEvent.isCommitOf (call : Nat) : DeployEvent → Bool
  | .committed call' _ => call' == call
  | .read .. => false

def HasCommitted (s : DeployWorld) (call : Nat) : Prop :=
  ∃ request, .committed call request ∈ s.events

inductive DeployChange (numberText : NumberText) (s t : DeployWorld) : Prop
  | kept (record : t.store.record = s.store.record)
      (events : t.events = s.events ∨
        ∃ call request found, t.events = .read call request found :: s.events)
  | committed (call : Nat) (request : DeployPluginRequest) (version : JsString)
      (events : t.events = .committed call request :: s.events)
      (record : ∃ revision, t.store.record = Function.update s.store.record
        request.deploymentKey (some ⟨desiredDeployment request version
          (s.deployment request.deploymentKey), revision⟩))
      (different : ∀ d, s.deployment request.deploymentKey = some d →
        sameDesired numberText d request = false)
      (first : ¬ HasCommitted s call)

/-- A call that has written reads only deployments it would not write again. -/
def RereadsDesired (numberText : NumberText) (s t : DeployWorld) : Prop :=
  ∀ call request found, t.events = .read call request found :: s.events →
    HasCommitted s call → ∃ d, found = some d ∧ sameDesired numberText d request = true

structure DeployInv (s : DeployWorld) : Prop where
  wellFormed : s.store.WellFormed
  once : ∀ call, (s.events.filter (DeployEvent.isCommitOf call)).length ≤ 1

structure DeployTurn (numberText : NumberText) (s t : DeployWorld) : Prop where
  store : s.store.Evolves t.store
  calls : s.calls ≤ t.calls
  change : DeployChange numberText s t

/-- What the calls agree on. A call relies on the store to evolve, and nobody writes in
the name of another call. -/
def deployContract (numberText : NumberText) : Contract DeployWorld Nat where
  inv := DeployInv
  cond := RereadsDesired numberText
  law := DeployTurn numberText
  rely s t := s.store.Evolves t.store ∧ s.calls ≤ t.calls
  rely_refl _ := ⟨.refl _, Nat.le_refl _⟩
  rely_trans h h' := ⟨h.1.trans h'.1, Nat.le_trans h.2 h'.2⟩
  rely_of_law _ h := ⟨h.store, h.calls⟩
  allocated s call := call < s.calls
  allocated_of_law h hc := Nat.lt_of_lt_of_le hc h.calls
  frame call s t := HasCommitted t call → HasCommitted s call
  frame_refl _ _ := id
  frame_trans h h' := h ∘ h'

variable {numberText : NumberText} {s t : DeployWorld}

/-! ## Turns -/

theorem stutters_deployContract : Stutters (deployContract numberText) :=
  fun _ _ => ⟨.refl _, Nat.le_refl _, .kept rfl (.inl rfl)⟩

theorem not_isCommitOf_read {call call' : Nat} {request : DeployPluginRequest}
    {found : Option DeploymentRecord} :
    DeployEvent.isCommitOf call (.read call' request found) = false := rfl

theorem turn_kept {uses : Set Nat} (hs : DeployInv s) (hevolves : s.store.Evolves t.store)
    (hwf : t.store.WellFormed) (hcalls : s.calls ≤ t.calls)
    (hrecord : t.store.record = s.store.record)
    (hevents : t.events = s.events ∨
      ∃ call request found, t.events = .read call request found :: s.events) :
    Turn (deployContract numberText) uses s t := by
  refine ⟨⟨hwf, fun call => ?_⟩, ⟨hevolves, hcalls, .kept hrecord hevents⟩, ?_⟩
  · rcases hevents with h | ⟨call', request, found, h⟩
    · rw [h]
      exact hs.once call
    · rw [h, filter_cons_of_neg (by rw [not_isCommitOf_read]; decide)]
      exact hs.once call
  · rintro call - - ⟨request, hmem⟩
    rcases hevents with h | ⟨call', request', found, h⟩
    · exact ⟨request, h ▸ hmem⟩
    · rw [h] at hmem
      exact ⟨request, (mem_cons.mp hmem).resolve_left fun heq => nomatch heq⟩

theorem turn_same_store {uses : Set Nat} (hs : DeployInv s) (hstore : t.store = s.store)
    (hcalls : s.calls ≤ t.calls) (hevents : t.events = s.events) :
    Turn (deployContract numberText) uses s t :=
  turn_kept hs (hstore ▸ .refl _) (hstore ▸ hs.wellFormed) hcalls (by rw [hstore]) (.inl hevents)

/-! ## Reading and writing the deployment -/

def CopyOf (s : DeployWorld) (key : PluginDeploymentIdentity)
    (copy : Option (Versioned DeploymentRecord)) : Prop :=
  ∀ c, copy = some c → s.store.IsCopy key c

/-- A call writes for the first time, or what it read need not be written. -/
def MayWrite (numberText : NumberText) (s : DeployWorld) (call : Nat)
    (request : DeployPluginRequest) (copy : Option (Versioned DeploymentRecord)) : Prop :=
  ¬ HasCommitted s call ∨ ∃ c, copy = some c ∧ sameDesired numberText c.value request = true

/-- What is known of a write that has been decided. -/
structure Justified (numberText : NumberText) (call : Nat) (request : DeployPluginRequest)
    (read : Option (Versioned DeploymentRecord)) (s : DeployWorld) : Prop where
  copy : CopyOf s request.deploymentKey read
  mayWrite : MayWrite numberText s call request read

section

variable {call : Nat} {request : DeployPluginRequest}

theorem stable_justified {copy : Option (Versioned DeploymentRecord)} :
    Stable (deployContract numberText) {call} (Justified numberText call request copy) := by
  rintro s t hrely hframe ⟨hcopy, hmay⟩
  refine ⟨fun c hc => (hcopy c hc).mono hrely.1, ?_⟩
  rcases hmay with hnot | hsame
  · exact .inl fun h => hnot (hframe call rfl h)
  · exact .inr hsame

/-- A commit that goes through: nothing was written, or a record that met the
expectation. -/
theorem commitDeployment_ok
    {authority : RuntimeAuthority} {write : Option (DeploymentRecord × Expected)}
    (h : s.commitDeployment call request authority write = .ok t) :
    s.store.Evolves t.store ∧ (s.store.WellFormed → t.store.WellFormed) ∧ t.calls = s.calls ∧
      ((write = none ∧ t.store.record = s.store.record ∧ t.events = s.events) ∨
        ∃ deployment expected, write = some (deployment, expected) ∧
          expected.matches (s.store.record request.deploymentKey) = true ∧
          (∃ revision, t.store.record = Function.update s.store.record request.deploymentKey
            (some ⟨deployment, revision⟩)) ∧
          t.events = .committed call request :: s.events) := by
  unfold DeployWorld.commitDeployment at h
  cases write with
  | none =>
    dsimp only at h
    split at h
    · cases h
    · cases h
    · next store hstore =>
      obtain rfl := ok.inj h
      refine ⟨CasStore.evolves_commit hstore, fun hwf => CasStore.wellFormed_commit hwf hstore,
        rfl, .inl ⟨rfl, ?_, rfl⟩⟩
      obtain ⟨-, -, ⟨rfl, -, -⟩ | rfl⟩ := CasStore.commit_ok_cases hstore
      · rfl
      · rfl
  | some w =>
    obtain ⟨deployment, expected⟩ := w
    dsimp only at h
    split at h
    · cases h
    · cases h
    · next store hstore =>
      obtain rfl := ok.inj h
      obtain ⟨hmatches, -, hrecord⟩ := CasStore.commit_put hstore
      exact ⟨CasStore.evolves_commit hstore, fun hwf => CasStore.wellFormed_commit hwf hstore,
        rfl, .inr ⟨deployment, expected, rfl, hmatches, ⟨_, hrecord⟩, rfl⟩⟩

theorem decideWrite_cases (platform : OperationPlatform) (request : DeployPluginRequest)
    (version : JsString) (copy : Option (Versioned DeploymentRecord)) :
    (copy = none ∧ (RuntimeOperations.decideWrite platform request version copy).2 =
      some (desiredDeployment request version none, .absent)) ∨
    (∃ c, copy = some c ∧ sameDesired platform.numberText c.value request = true ∧
      (RuntimeOperations.decideWrite platform request version copy).2 = none) ∨
    (∃ c, copy = some c ∧ sameDesired platform.numberText c.value request = false ∧
      (RuntimeOperations.decideWrite platform request version copy).2 =
        some (desiredDeployment request version (some c.value), .at c.revision)) := by
  cases copy with
  | none => exact .inl ⟨rfl, rfl⟩
  | some c =>
    unfold RuntimeOperations.decideWrite
    by_cases h : sameDesired platform.numberText c.value request = true
    · exact .inr (.inl ⟨c, rfl, h, by simp only [h, if_true]⟩)
    · rw [Bool.not_eq_true] at h
      exact .inr (.inr ⟨c, rfl, h, by simp [h]⟩)

theorem turn_committed (hs : DeployInv s) (hevolves : s.store.Evolves t.store) (hwf : t.store.WellFormed)
    (hcalls : t.calls = s.calls) (hevents : t.events = .committed call request :: s.events)
    (hchange : DeployChange numberText s t) (hfirst : ¬ HasCommitted s call) : Turn (deployContract numberText) {call} s t := by
  refine ⟨⟨hwf, fun call' => ?_⟩, ⟨hevolves, Nat.le_of_eq hcalls.symm, hchange⟩, ?_⟩
  · by_cases hc : call' = call
    · subst hc
      have hnone : s.events.filter (DeployEvent.isCommitOf call') = [] := by
        rw [filter_eq_nil_iff]
        intro e he hcommit
        cases e with
        | read => cases hcommit
        | committed call request' =>
          rw [DeployEvent.isCommitOf, beq_iff_eq] at hcommit
          exact hfirst ⟨request', hcommit ▸ he⟩
      rw [hevents, filter_cons, hnone]
      split
      · exact Nat.le_refl _
      · exact Nat.zero_le _
    · have hother : ¬ DeployEvent.isCommitOf call' (.committed call request) = true := by
        rw [DeployEvent.isCommitOf, beq_iff_eq]
        exact fun h => hc h.symm
      rw [hevents, filter_cons_of_neg hother]
      exact hs.once call'
  · rintro call' hcall' - ⟨request', hmem⟩
    rw [hevents] at hmem
    refine ⟨request', (mem_cons.mp hmem).resolve_left fun heq => hcall' ?_⟩
    obtain ⟨rfl, -⟩ := DeployEvent.committed.inj heq
    rfl

theorem turn_commitDeployment {version : JsString} {copy : Option (Versioned DeploymentRecord)}
    {authority : RuntimeAuthority} {platform : OperationPlatform} (hs : DeployInv s)
    (hj : Justified platform.numberText call request copy s)
    (h : s.commitDeployment call request authority
      (RuntimeOperations.decideWrite platform request version copy).2 = .ok t) :
    Turn (deployContract platform.numberText) {call} s t := by
  obtain ⟨hevolves, hwf, hcalls, hcase⟩ := commitDeployment_ok h
  rcases hcase with ⟨-, hrecord, hevents⟩ | ⟨deployment, expected, hwrite, hmatches, hrecord, hevents⟩
  · exact turn_kept hs hevolves (hwf hs.wellFormed) (Nat.le_of_eq hcalls.symm) hrecord
      (.inl hevents)
  · have hfirst : ¬ HasCommitted s call := by
      rcases hj.mayWrite with hnot | ⟨c, hc, hsame⟩
      · exact hnot
      · rcases decideWrite_cases platform request version copy with
          ⟨hnone, -⟩ | ⟨_, -, -, hnothing⟩ | ⟨c', hc', hdiffer, -⟩
        · rw [hnone] at hc
          cases hc
        · rw [hnothing] at hwrite
          cases hwrite
        · obtain rfl := some.inj (hc.symm.trans hc')
          rw [hsame] at hdiffer
          cases hdiffer
    -- the expectation says that the record is what the copy says it was
    rcases decideWrite_cases platform request version copy with
      ⟨hnone, hw⟩ | ⟨_, -, -, hw⟩ | ⟨c, hc, hdiffer, hw⟩
    · obtain ⟨rfl, rfl⟩ := Prod.mk.inj (some.inj (hw.symm.trans hwrite))
      have habsent : s.deployment request.deploymentKey = none := by
        simpa [DeployWorld.deployment, Expected.matches] using hmatches
      refine turn_committed hs hevolves (hwf hs.wellFormed) hcalls hevents
        (.committed call request version hevents ?_ ?_ hfirst) hfirst
      · rw [habsent]
        exact hrecord
      · rw [habsent]
        intro d hd
        cases hd
    · rw [hw] at hwrite
      cases hwrite
    · obtain ⟨rfl, rfl⟩ := Prod.mk.inj (some.inj (hw.symm.trans hwrite))
      have hstored : s.deployment request.deploymentKey = some c.value := by
        rw [DeployWorld.deployment, (hj.copy c hc).record_eq_of_matches hmatches, map_some]
      refine turn_committed hs hevolves (hwf hs.wellFormed) hcalls hevents
        (.committed call request version hevents ?_ ?_ hfirst) hfirst
      · rw [hstored]
        exact hrecord
      · rw [hstored]
        intro d hd
        exact some.inj hd ▸ hdiffer

end

/-! ## The operation -/

namespace RuntimeOperations

variable {uses : Set Nat} {platform : OperationPlatform} {me call : Nat}
  {authority : RuntimeAuthority} {request : DeployPluginRequest} {located : StoredInstallation}

abbrev contract (platform : OperationPlatform) : Contract DeployWorld Nat :=
  deployContract platform.numberText

theorem spec_check {α : Type} (f : DeployWorld → DeployAnswer → Except OperationFailure α) :
    Spec (contract platform) uses (fun _ => True) (Async.check f) fun _ _ => True :=
  Spec.check stutters_deployContract (Stable.const True) fun _ _ _ _ _ _ => trivial

theorem spec_ask {α : Type} (f : DeployWorld → JsDate.Instant → Except OperationFailure α) :
    Spec (contract platform) uses (fun _ => True) (ask f) fun _ _ => True :=
  spec_check _

theorem spec_assertAuthority :
    Spec (contract platform) uses (fun _ => True) (assertAuthority me authority) fun _ _ => True :=
  spec_check _

theorem spec_checkBindings (consumer : PluginInstallation)
    (bindings : List (JsString × PluginDeploymentIdentity)) :
    Spec (contract platform) uses (fun _ => True) (checkBindings request consumer bindings)
      fun _ _ => True := by
  induction bindings with
  | nil => exact Spec.ret fun _ _ => trivial
  | cons binding bindings ih =>
    have hbinding : Spec (contract platform) uses (fun _ => True)
        (checkBinding request consumer binding) fun _ _ => True :=
      Spec.bind (spec_ask _) fun _ => spec_ask _
    exact Spec.bind hbinding fun _ => ih

/-- What is read is a copy; and if the call has written before, the condition on the
step says that it will not write again. -/
theorem spec_getExisting :
    Spec (contract platform) {call} (fun _ => True) (getExisting call request)
      fun existing s => Justified platform.numberText call request existing s := by
  refine Spec.turn (Stable.const True) fun s r hs _ _ hc => ?_
  have hread : ∀ existing, existing = s.store.record request.deploymentKey →
      RereadsDesired platform.numberText s (s.log (.read call request (existing.map (·.value)))) →
      Justified platform.numberText call request existing
        (s.log (.read call request (existing.map (·.value)))) := by
    rintro existing rfl hcond
    refine ⟨fun c hcopy => CasStore.IsCopy.of_record hs.wellFormed hcopy, ?_⟩
    by_cases hcommitted : HasCommitted s call
    · obtain ⟨d, hd, hsame⟩ := hcond call request _ rfl hcommitted
      obtain ⟨c, hcopy, rfl⟩ := map_eq_some_iff.mp hd
      exact .inr ⟨c, hcopy, hsame⟩
    refine .inl ?_
    rintro ⟨request', hmem⟩
    exact hcommitted ⟨request', (mem_cons.mp hmem).resolve_left fun heq => nomatch heq⟩
  have hturn : ∀ found, Turn (contract platform) {call} s (s.log (.read call request found)) :=
    fun found => turn_kept hs (.refl _) hs.wellFormed (Nat.le_refl _) rfl
      (.inr ⟨call, request, found, rfl⟩)
  cases hreply : r.reply with
  | failed code => exact ⟨stutters_deployContract.turn hs, fun _ h => nomatch h⟩
  | done | lost =>
    simp only [hreply] at hc ⊢
    exact ⟨hturn _, fun existing h => ok.inj h ▸ hread _ rfl hc⟩

theorem spec_commit (authority : RuntimeAuthority) (version : JsString)
    (existing : Option (Versioned DeploymentRecord)) :
    Spec (contract platform) {call} (Justified platform.numberText call request existing)
      (commit call request authority (decideWrite platform request version existing).2)
      fun _ _ => True := by
  refine Spec.turn stable_justified fun s r hs hj _ _ => ⟨?_, fun _ _ => trivial⟩
  cases hreply : r.reply with
  | failed code => exact stutters_deployContract.turn hs
  | done | lost =>
    cases hcommit : s.commitDeployment call request authority
        (decideWrite platform request version existing).2 with
    | error e => exact stutters_deployContract.turn hs
    | ok t => exact turn_commitDeployment hs hj hcommit

theorem spec_transact :
    Spec (contract platform) {call} (fun _ => True)
      (transact platform me call authority request located) fun _ _ => True := by
  refine Spec.bind spec_assertAuthority fun _ => Spec.bind (spec_ask _) fun installation =>
    Spec.bind (spec_checkBindings installation _) fun _ => Spec.bind spec_getExisting
      fun existing => ?_
  have hcommit : Spec (contract platform) {call} _ (commit call request authority
      (decideWrite platform request installation.version existing).2) fun _ _ => True :=
    spec_commit authority installation.version existing
  rcases hdecide : decideWrite platform request installation.version existing with
    ⟨deployment, write⟩
  rw [hdecide] at hcommit
  exact Spec.bind hcommit fun _ => Spec.ret fun _ _ => trivial

theorem spec_attemptOnce :
    Spec (contract platform) {call} (fun _ => True)
      (attemptOnce platform me call authority request located) fun _ _ => True := by
  refine Spec.bind spec_transact fun result => ?_
  obtain ⟨deployment, changed⟩ := result
  refine Spec.bind spec_assertAuthority fun _ => Spec.bind (spec_ask _) fun persisted =>
    Spec.bind spec_assertAuthority fun _ => ?_
  cases persisted with
  | none => exact spec_check _
  | some persisted =>
    dsimp only
    split
    · cases changed with
      | false => exact Spec.ret fun _ _ => trivial
      | true =>
        exact Spec.bind spec_assertAuthority fun _ => Spec.bind (spec_ask _) fun _ =>
          Spec.bind spec_assertAuthority fun _ => Spec.ret fun _ _ => trivial
    · exact Spec.ret fun _ _ => trivial

theorem spec_attempts (n : Nat) :
    Spec (contract platform) {call} (fun _ => True)
      (attempts platform me call authority request located n) fun _ _ => True := by
  induction n with
  | zero => exact spec_check _
  | succ n ih =>
    refine Spec.bind spec_assertAuthority fun _ => Spec.bind (Q := fun _ _ => True) ?_
      fun result => ?_
    · refine Triple.tryCatch spec_attemptOnce fun e => ?_
      split
      · exact Spec.ret fun _ _ => trivial
      · exact Spec.throw
    · cases result with
      | none => exact ih
      | some deployment => exact Spec.ret fun _ _ => trivial

theorem spec_deployPlugin :
    Spec (contract platform) ∅ (fun _ => True) (deployPlugin platform me request)
      fun _ _ => True := by
  refine Spec.alloc (fun a => a.1) (Q := fun _ _ => True) (Stable.const True)
    (fun s r hs _ _ => ?_) fun a => ?_
  · cases s.requireAuthority me r.now with
    | error e => exact ⟨stutters_deployContract.turn hs, fun _ h => nomatch h⟩
    | ok authority =>
      refine ⟨turn_same_store hs rfl (Nat.le_succ _) rfl, fun a ha => ?_⟩
      obtain rfl := ok.inj ha
      exact ⟨⟨Nat.lt_irrefl _, Nat.lt_succ_self _⟩, trivial⟩
  · obtain ⟨call, authority⟩ := a
    rw [insert_empty_eq]
    exact Spec.bind (spec_ask _) fun located => Spec.bind (spec_check _) fun _ => spec_attempts 8

theorem spec_setController (f : OperationController → OperationController) :
    Spec (contract platform) ∅ (fun _ => True) (setController me f) fun _ _ => True :=
  Spec.update (Stable.const True) fun _ _ hs _ _ =>
    ⟨turn_same_store hs rfl (Nat.le_refl _) rfl, trivial⟩

theorem spec_install (installations : List StoredInstallation) :
    Spec (contract platform) ∅ (fun _ => True) (install installations) fun _ _ => True :=
  Spec.update (Stable.const True) fun _ _ hs _ _ =>
    ⟨turn_same_store hs rfl (Nat.le_refl _) rfl, trivial⟩

theorem spec_commitOther (fencing : Option (JsString × Nat)) :
    Spec (contract platform) ∅ (fun _ => True) (commitOther fencing) fun _ _ => True := by
  refine Spec.update (Stable.const True) fun s r hs _ _ => ⟨?_, trivial⟩
  split
  · exact stutters_deployContract.turn hs
  next store hstore =>
  refine turn_kept hs (CasStore.evolves_commit hstore)
    (CasStore.wellFormed_commit hs.wellFormed hstore) (Nat.le_refl _) ?_ (.inl rfl)
  obtain ⟨-, -, ⟨rfl, -, -⟩ | rfl⟩ := CasStore.commit_ok_cases hstore
  · rfl
  · rfl

theorem safe_call (k : Nat × DeployCall) (s : DeployWorld) (hs : DeployInv s) :
    Safe (contract platform) (RuntimeOperations.call platform k.1 k.2) ∅ s := by
  obtain ⟨me, c⟩ := k
  cases c with
  | deployPlugin request => exact Spec.safe_run spec_deployPlugin hs trivial
  | setAuthority authority | setMutations accepting =>
    exact Spec.safe_run (spec_setController _) hs trivial
  | install installations => exact Spec.safe_run (spec_install _) hs trivial
  | commitOther fencing => exact Spec.safe_run (spec_commitOther fencing) hs trivial

theorem inv_of_start (s : DeployWorld) (h : Start s) : DeployInv s :=
  ⟨h.wellFormed, fun _ => by rw [h.events]; exact Nat.zero_le _⟩

variable (platform : OperationPlatform)

/-- The steps in which a call that has written reads its own desired state only. -/
def rereadsDesired : World DeployWorld DeployAnswer → Sched (Nat × DeployCall) DeployAnswer →
    World DeployWorld DeployAnswer → Prop :=
  fun w _ w' => RereadsDesired platform.numberText w.mem w'.mem

/-- What a step of a run does to the deployments, and what the run has done. -/
structure Atomic (s t : DeployWorld) : Prop where
  once : ∀ call, (t.events.filter (DeployEvent.isCommitOf call)).length ≤ 1
  /-- No call writes over what another call has written after it. -/
  noReapply : ∀ call call' e e' e'', DeployEvent.isCommitOf call e = true →
    DeployEvent.isCommitOf call' e' = true → DeployEvent.isCommitOf call e'' = true →
      ¬ [e, e', e''].Sublist t.events
  generation : ∀ id, t.deployment id ≠ s.deployment id → ∃ d, t.deployment id = some d ∧
    d.generation = match s.deployment id with
      | none => 1
      | some old => old.generation + 1
  /-- Changes are writes of calls. -/
  written : ∀ id, t.deployment id ≠ s.deployment id → ∃ call request,
    t.events = .committed call request :: s.events ∧ request.deploymentKey = id ∧
      ∃ d, t.deployment id = some d ∧ sameDesired platform.numberText d request = true
  equal : ∀ call request old, t.events = .committed call request :: s.events →
    s.deployment request.deploymentKey = some old →
      sameDesired platform.numberText old request = false

theorem atomic_of_change {s t : DeployWorld} (hinv : DeployInv t)
    (h : DeployChange platform.numberText s t) : Atomic platform s t := by
  have hreapply : ∀ call call' e e' e'', DeployEvent.isCommitOf call e = true →
      DeployEvent.isCommitOf call' e' = true → DeployEvent.isCommitOf call e'' = true →
        ¬ [e, e', e''].Sublist t.events := by
    intro call call' e e' e'' he _ he'' hsub
    have hlen := (hsub.filter (DeployEvent.isCommitOf call)).length_le
    have hpair : 2 ≤ ([e, e', e''].filter (DeployEvent.isCommitOf call)).length := by
      rw [filter_cons_of_pos he, filter_cons]
      split
      · exact Nat.succ_le_succ (Nat.succ_le_succ (Nat.zero_le _))
      · rw [filter_cons_of_pos he'']
        exact Nat.le_refl _
    have := hinv.once call
    omega
  cases h with
  | kept record events =>
    have hsame : ∀ id, t.deployment id = s.deployment id := fun id => by
      rw [DeployWorld.deployment, DeployWorld.deployment, record]
    refine ⟨hinv.once, hreapply, fun id hne => absurd (hsame id) hne,
      fun id hne => absurd (hsame id) hne, fun call request old hevents => ?_⟩
    rcases events with heq | ⟨_, _, _, heq⟩
    · rw [heq] at hevents
      exact absurd (congrArg List.length hevents) (by simp)
    · rw [heq] at hevents
      cases hevents
  | committed call request version events record different first =>
    obtain ⟨revision, record⟩ := record
    have hnew : t.deployment request.deploymentKey = some (desiredDeployment request version
        (s.deployment request.deploymentKey)) := by
      rw [DeployWorld.deployment, record, Function.update_self]
      rfl
    have hother : ∀ id, t.deployment id ≠ s.deployment id → request.deploymentKey = id := by
      intro id hne
      by_contra hid
      refine hne ?_
      rw [DeployWorld.deployment, record, Function.update_of_ne fun h => hid h.symm]
      rfl
    refine ⟨hinv.once, hreapply, fun id hne => ?_, fun id hne => ?_,
      fun call' request' old hevents hold => ?_⟩
    · obtain rfl := hother id hne
      exact ⟨_, hnew, rfl⟩
    · obtain rfl := hother id hne
      exact ⟨call, request, events, rfl, _, hnew, sameDesired_desiredDeployment ..⟩
    · rw [events] at hevents
      obtain ⟨-, rfl⟩ := DeployEvent.committed.inj (List.cons.inj hevents).1
      exact different old hold

/-- **Deployments are written atomically**, in every run in which no call that has
written reads a deployment that is not its own desired state any more. -/
theorem deployments_atomic {w w' : World DeployWorld DeployAnswer}
    {l : Sched (Nat × DeployCall) DeployAnswer}
    (hr : (machine platform).ReachableVia (rereadsDesired platform) w)
    (hs : (machine platform).step w l = some w') (hc : rereadsDesired platform w l w') :
    Atomic platform w.mem w'.mem := by
  have hr' : (machine platform).ReachableVia (World.Via (contract platform)) w := hr
  have hinv := (World.safe (K := contract platform) inv_of_start safe_call (hr'.step hs hc)).1
  rcases World.law_of_step (K := contract platform) inv_of_start safe_call hr' hs hc with
    heq | hlaw
  · exact atomic_of_change platform hinv (.kept (by rw [heq]) (.inl (by rw [heq])))
  · exact atomic_of_change platform hinv hlaw.change

/-! ## A call that writes once, and one that writes twice -/

def samplePlatform : OperationPlatform where
  numberText _ := ⟨js "2", rfl⟩
  domainToASCII host := host

def samplePlugin : PortableId := ⟨js "p", rfl⟩

def sampleInstallation : PluginInstallation where
  pluginId := samplePlugin
  version := js "1.0.0"
  digest := js "d"
  manifest := ⟨samplePlugin, js "1.0.0", .array [], [], []⟩

def sampleDeploy (essential : Bool) : DeployPluginRequest where
  applicationId := samplePlugin
  pluginId := samplePlugin
  artifactDigest := js "d"
  essential := essential
  configuration := .null
  permissionGrants := .array []
  capabilityBindings := []

/-- An empty store, the plugin installed, and a leader. -/
def sampleStart : World DeployWorld DeployAnswer where
  mem :=
    { store := .empty
      installations := [⟨sampleInstallation.storageId, sampleInstallation⟩]
      controllers _ := ⟨some ⟨js "l", 1⟩, true⟩
      calls := 0
      events := [] }
  procs := []

theorem start_sampleStart : Start sampleStart.mem := ⟨CasStore.wellFormed_empty, rfl, rfl⟩

/-- Resume the activity `i` for `n` turns in which everything works. -/
def turns (i n : Nat) : List (Sched (Nat × DeployCall) DeployAnswer) :=
  List.replicate n (.resume i ⟨JsDate.epochStart, .done⟩)

/-- A call makes its transaction, up to the commit. -/
def firstRun : List (Sched (Nat × DeployCall) DeployAnswer) :=
  .call (0, .deployPlugin (sampleDeploy true)) :: turns 0 7

/-- The commit of the first call; then another call deploys something else. -/
def secondRun : List (Sched (Nat × DeployCall) DeployAnswer) :=
  turns 0 1 ++ [.call (0, .deployPlugin (sampleDeploy false))] ++ turns 1 8

/-- The first call reads again, and goes round its loop. -/
def againRun : List (Sched (Nat × DeployCall) DeployAnswer) := turns 0 1 ++ turns 1 7

/-- Who wrote, newest first. -/
def writers (w : World DeployWorld DeployAnswer) : List Nat :=
  w.mem.events.filterMap fun e =>
    match e with
    | .committed call _ => some call
    | .read .. => none

/-- Whatever is read is read by a call that has not written. -/
def readsFirst (w : World DeployWorld DeployAnswer) (_ : Sched (Nat × DeployCall) DeployAnswer)
    (w' : World DeployWorld DeployAnswer) : Bool :=
  match w'.mem.events.head? with
  | some (.read call _ _) => !w.mem.events.any (DeployEvent.isCommitOf call)
  | _ => true

theorem rereadsDesired_of_readsFirst (w : World DeployWorld DeployAnswer)
    (l : Sched (Nat × DeployCall) DeployAnswer) (w' : World DeployWorld DeployAnswer)
    (h : readsFirst w l w' = true) : rereadsDesired samplePlatform w l w' := by
  rintro call request found hevents ⟨request', hmem⟩
  have hany : w.mem.events.any (DeployEvent.isCommitOf call) = true :=
    List.any_eq_true.mpr ⟨_, hmem, by rw [DeployEvent.isCommitOf, beq_self_eq_true]⟩
  rw [readsFirst, hevents, head?_cons] at h
  simp [hany] at h

theorem deployments_atomic_firstRun :
    ∃ w w' : World DeployWorld DeployAnswer, writers w = [] ∧ writers w' = [0] ∧
      Atomic samplePlatform w.mem w'.mem := by
  have hrun : ((machine samplePlatform).runVia readsFirst sampleStart firstRun).bind (fun w =>
      ((machine samplePlatform).step w (.resume 0 ⟨JsDate.epochStart, .done⟩)).map fun w' =>
        (writers w, writers w', readsFirst w (.resume 0 ⟨JsDate.epochStart, .done⟩) w')) =
      some ([], [0], true) := by decide +kernel
  obtain ⟨w, hw, hrest⟩ := bind_eq_some_iff.mp hrun
  obtain ⟨w', hw', htriple⟩ := map_eq_some_iff.mp hrest
  obtain ⟨hbefore, hafter⟩ := Prod.mk.inj htriple
  obtain ⟨hafter, hreads⟩ := Prod.mk.inj hafter
  have hreach : (machine samplePlatform).ReachableVia (rereadsDesired samplePlatform) w :=
    Machine.ReachableVia.of_steps (.init ⟨start_sampleStart, rfl⟩)
      (Machine.steps_of_runVia rereadsDesired_of_readsFirst hw)
  exact ⟨w, w', hbefore, hafter, deployments_atomic samplePlatform hreach hw'
    (rereadsDesired_of_readsFirst w _ w' hreads)⟩

/-- **A call writes over a later deployment.** Another call deploys between the commit
and the second read of the first one, which then writes its desired state again. -/
theorem deployment_reapplied :
    ¬ ∀ (es : List (Sched (Nat × DeployCall) DeployAnswer)) (w : World DeployWorld DeployAnswer),
      (machine samplePlatform).run sampleStart es = some w →
      ∀ call call' : Nat, ¬ [call, call', call].Sublist (writers w) := by
  intro hlaw
  have hrun : ((machine samplePlatform).run sampleStart (firstRun ++ secondRun ++ againRun)).map
      writers = some [0, 1, 0] := by decide +kernel
  obtain ⟨w, hw, hwriters⟩ := map_eq_some_iff.mp hrun
  exact hlaw _ w hw 0 1 (hwriters ▸ List.Sublist.refl _)

end RuntimeOperations

end TegoNext
