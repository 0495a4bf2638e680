/-
`install` of the artifact services that share one state store.

A call reads the version index and then either the installation it names, or commits an index and
an installation that nobody may have stored before; when the commit is in conflict it reads again.
Reads and commits of any number of calls interleave. `validate` touches nothing: a call begins
with its candidate.
-/
import TegoNext.RuntimeOperations

set_option autoImplicit false

namespace TegoNext

open List Option

namespace ArtifactInstallation

open Text

/-- A digest is `sha256:` and hexadecimal digits: no `@` stands in it. -/
structure Installation extends PluginInstallation where
  installedAt : JsString
  signature : Option JsString
  digest_clean : 64 ∉ digest

structure InstalledVersionIndex where
  digest : ArtifactDigest
  pluginId : PortableId
  version : JsString

inductive StoredValue where
  | versionIndex (index : InstalledVersionIndex)
  | installation (installation : Installation)

inductive InstallCollection where
  | installations
  | versions
  deriving DecidableEq

def Installation.index (x : Installation) : InstalledVersionIndex :=
  ⟨x.digest, x.pluginId, x.version⟩

def installationKey (x : Installation) : InstallCollection × JsString :=
  (.installations, x.pluginId.text ++ 64 :: (x.version ++ 64 :: x.digest))

def versionKey (x : Installation) : InstallCollection × JsString :=
  (.versions, x.pluginId.text ++ 64 :: x.version)

def StoredValue.index : StoredValue → InstalledVersionIndex
  | .versionIndex index => index
  | .installation x => x.index

def parseVersionIndex (value : StoredValue) (candidate : Installation) : Option ArtifactDigest :=
  if value.index.pluginId ≠ candidate.pluginId ∨ value.index.version ≠ candidate.version then none
  else some value.index.digest

inductive InstallError where
  | ARTIFACT_INSTALLATION_CONFLICT (existingDigest : ArtifactDigest)
  | ARTIFACT_INSTALLATION_CORRUPT
  | ARTIFACT_INSTALLATION_INVALID
  | STATE_FENCE_STALE
  | STATE_REVISION_CONFLICT
  | unavailable

def parsePluginInstallation : StoredValue → Except InstallError Installation
  | .installation x => .ok x
  | .versionIndex _ => .error .ARTIFACT_INSTALLATION_INVALID

inductive InstallPhase where
  | readIndex
  | readRecord
  | commit
  | readIndexAgain
  | readRecordAgain
  | ended (outcome : Except InstallError Installation)

structure InstallCall where
  candidate : Installation
  authority : Option (JsString × Nat)
  phase : InstallPhase

abbrev InstallStore := CasStore (InstallCollection × JsString) StoredValue JsString

/-- `changed` lists the calls that have changed the store. -/
structure InstallWorld where
  store : InstallStore
  calls : List InstallCall
  changed : List Nat

inductive InstallStep where
  | install (candidate : Installation) (authority : Option (JsString × Nat))
  | proceed (call : Nat)
  | fail (call : Nat)

def readIndex (store : InstallStore) (candidate : Installation) (missing next : InstallPhase) :
    InstallPhase :=
  match store.record (versionKey candidate) with
  | none => missing
  | some indexed =>
    match parseVersionIndex indexed.value candidate with
    | none => .ended (.error .ARTIFACT_INSTALLATION_CORRUPT)
    | some existingDigest =>
      if existingDigest ≠ candidate.digest then
        .ended (.error (.ARTIFACT_INSTALLATION_CONFLICT existingDigest))
      else next

def readRecord (store : InstallStore) (candidate : Installation) (missing : InstallError) :
    InstallPhase :=
  match store.record (installationKey candidate) with
  | none => .ended (.error missing)
  | some stored => .ended (parsePluginInstallation stored.value)

def writes (candidate : Installation) :
    List (CasWrite (InstallCollection × JsString) StoredValue) :=
  [⟨versionKey candidate, some (.versionIndex candidate.index), .absent⟩,
    ⟨installationKey candidate, some (.installation candidate), .absent⟩]

namespace InstallWorld

def setPhase (s : InstallWorld) (i : Nat) (phase : InstallPhase) : InstallWorld :=
  { s with calls := s.calls.modify i ({ · with phase }) }

def proceed (s : InstallWorld) (i : Nat) (call : InstallCall) : Option InstallWorld :=
  match call.phase with
  | .readIndex => some (s.setPhase i (readIndex s.store call.candidate .commit .readRecord))
  | .readRecord =>
    some (s.setPhase i (readRecord s.store call.candidate .ARTIFACT_INSTALLATION_CORRUPT))
  | .commit =>
    match s.store.commit (writes call.candidate) call.authority false with
    | .ok store =>
      some { s.setPhase i (.ended (.ok call.candidate)) with store, changed := s.changed ++ [i] }
    | .error .conflict => some (s.setPhase i .readIndexAgain)
    | .error .staleFence => some (s.setPhase i (.ended (.error .STATE_FENCE_STALE)))
  | .readIndexAgain =>
    some (s.setPhase i (readIndex s.store call.candidate (.ended (.error .STATE_REVISION_CONFLICT))
      .readRecordAgain))
  | .readRecordAgain =>
    some (s.setPhase i (readRecord s.store call.candidate .STATE_REVISION_CONFLICT))
  | .ended _ => none

def step (s : InstallWorld) : InstallStep → Option InstallWorld
  | .install candidate authority =>
    some { s with calls := s.calls ++ [⟨candidate, authority, .readIndex⟩] }
  | .proceed i => s.calls[i]?.bind (s.proceed i)
  | .fail i => s.calls[i]?.bind fun call =>
    match call.phase with
    | .ended _ => none
    | _ => some (s.setPhase i (.ended (.error .unavailable)))

def machine : Machine InstallWorld InstallStep where
  Init s := s = ⟨.empty, [], []⟩
  step := step

/-! ## What is installed -/

def Holds (store : InstallStore) (key : InstallCollection × JsString) (value : StoredValue) :
    Prop :=
  ∃ revision, store.record key = some ⟨value, revision⟩

def Installed (store : InstallStore) (x : Installation) : Prop :=
  Holds store (installationKey x) (.installation x)

/-- Installations of one version never differ, and stay. A call that succeeds returns the stored
one of its digest; where another digest is installed, it fails with a conflict, unless the store
refuses it, and changes nothing. -/
structure Lawful (s : InstallWorld) : Prop where
  unique : ∀ x y, Installed s.store x → Installed s.store y → x.pluginId = y.pluginId →
    x.version = y.version → x = y
  kept : ∀ x, Installed s.store x → ∀ es s', machine.run s es = some s' → Installed s'.store x
  indexed : ∀ x, Installed s.store x → Holds s.store (versionKey x) (.versionIndex x.index)
  named : ∀ id value, Holds s.store (.versions, id) value → ∃ x, Installed s.store x ∧
    (.versions, id) = versionKey x ∧ value = .versionIndex x.index
  succeeded : ∀ call ∈ s.calls, ∀ x, call.phase = .ended (.ok x) →
    Installed s.store x ∧ x.index = call.candidate.index
  refused : ∀ (i : Nat) call x, s.calls[i]? = some call → Installed s.store x →
    x.pluginId = call.candidate.pluginId → x.version = call.candidate.version →
    x.digest ≠ call.candidate.digest → i ∉ s.changed ∧ ∀ outcome, call.phase = .ended outcome →
      outcome = .error (.ARTIFACT_INSTALLATION_CONFLICT x.digest) ∨
        outcome = .error .STATE_FENCE_STALE ∨ outcome = .error .unavailable

/-! ## Keys -/

variable {x y : Installation}

theorem atSign_notMem (id : PortableId) : (64 : UInt16) ∉ id.text := by
  intro hmem
  exact absurd (NameText.of_portable id 64 hmem) (by decide)

theorem versionKey_inj (h : versionKey x = versionKey y) :
    x.pluginId = y.pluginId ∧ x.version = y.version := by
  obtain ⟨htext, hversion⟩ := append_cons_inj_of_first (atSign_notMem x.pluginId)
    (atSign_notMem y.pluginId) (Prod.mk.inj h).2
  exact ⟨PortableId.ext htext, hversion⟩

theorem installationKey_inj (h : installationKey x = installationKey y) : x.index = y.index := by
  obtain ⟨htext, hrest⟩ := append_cons_inj_of_first (atSign_notMem x.pluginId)
    (atSign_notMem y.pluginId) (Prod.mk.inj h).2
  -- the digest is what follows the last `@`
  have hreverse := congrArg List.reverse hrest
  simp only [reverse_append, reverse_cons, append_assoc, singleton_append] at hreverse
  obtain ⟨hdigest, hversion⟩ := append_cons_inj_of_first
    (by simpa using x.digest_clean) (by simpa using y.digest_clean) hreverse
  rw [Installation.index, Installation.index, PortableId.ext htext,
    reverse_injective hdigest, reverse_injective hversion]

theorem versionKey_congr (hplugin : x.pluginId = y.pluginId) (hversion : x.version = y.version) :
    versionKey x = versionKey y := by
  rw [versionKey, versionKey, hplugin, hversion]

theorem installationKey_congr (h : x.index = y.index) : installationKey x = installationKey y := by
  obtain ⟨hdigest, hplugin, hversion⟩ := InstalledVersionIndex.mk.inj h
  rw [installationKey, installationKey, hplugin, hversion, hdigest]

/-! ## The invariant -/

variable {store store' : InstallStore} {s s' : InstallWorld} {candidate : Installation}
  {phase : InstallPhase}

theorem Holds.unique {key : InstallCollection × JsString} {value value' : StoredValue}
    (h : Holds store key value) (h' : Holds store key value') : value = value' := by
  obtain ⟨r, hr⟩ := h
  obtain ⟨r', hr'⟩ := h'
  exact congrArg Versioned.value (some.inj (hr.symm.trans hr'))

/-- Every record is that of an installation, and both records of one are there. -/
structure StoreInv (store : InstallStore) : Prop where
  only : ∀ key value, Holds store key value → ∃ x, Installed store x ∧
    (key = versionKey x ∧ value = .versionIndex x.index ∨
      key = installationKey x ∧ value = .installation x)
  indexed : ∀ x, Installed store x → Holds store (versionKey x) (.versionIndex x.index)

theorem StoreInv.unique (h : StoreInv store) (hx : Installed store x) (hy : Installed store y)
    (hplugin : x.pluginId = y.pluginId) (hversion : x.version = y.version) : x = y := by
  have hindex := h.indexed y hy
  rw [← versionKey_congr hplugin hversion] at hindex
  have hsame := StoredValue.versionIndex.inj ((h.indexed x hx).unique hindex)
  rw [Installed, ← installationKey_congr hsame] at hy
  exact StoredValue.installation.inj (Holds.unique hx hy)

/-- The record under the version key is the index of an installation of the version. -/
theorem StoreInv.version (h : StoreInv store) {value : StoredValue}
    (hvalue : Holds store (versionKey candidate) value) : ∃ x, Installed store x ∧
      value = .versionIndex x.index ∧ x.pluginId = candidate.pluginId ∧
        x.version = candidate.version := by
  obtain ⟨x, hx, ⟨hkey, rfl⟩ | ⟨hkey, -⟩⟩ := h.only _ _ hvalue
  · obtain ⟨hplugin, hversion⟩ := versionKey_inj hkey
    exact ⟨x, hx, rfl, hplugin.symm, hversion.symm⟩
  · cases (Prod.mk.inj hkey).1

/-- What the phase of a call says about the store. -/
def Sound (store : InstallStore) (candidate : Installation) : InstallPhase → Prop
  | .readIndex | .commit => True
  | .readRecord | .readRecordAgain => ∃ x, Installed store x ∧ x.index = candidate.index
  | .readIndexAgain => ∃ value, Holds store (versionKey candidate) value
  | .ended (.ok x) => Installed store x ∧ x.index = candidate.index
  | .ended (.error (.ARTIFACT_INSTALLATION_CONFLICT digest)) => ∃ x, Installed store x ∧
      x.pluginId = candidate.pluginId ∧ x.version = candidate.version ∧ x.digest = digest
  | .ended (.error .STATE_FENCE_STALE) | .ended (.error .unavailable) => True
  | .ended (.error _) => False

theorem sound_readIndex (h : StoreInv store) {missing next : InstallPhase}
    (hmissing : (∃ value, Holds store (versionKey candidate) value) ∨ Sound store candidate missing)
    (hnext : (∃ x, Installed store x ∧ x.index = candidate.index) → Sound store candidate next) :
    Sound store candidate (readIndex store candidate missing next) := by
  unfold readIndex
  split
  · next hnone =>
    refine hmissing.resolve_left ?_
    rintro ⟨value, revision, hvalue⟩
    cases hnone.symm.trans hvalue
  · next indexed hindexed =>
    obtain ⟨x, hx, hvalue, hplugin, hversion⟩ := h.version ⟨indexed.revision, hindexed⟩
    rw [hvalue, parseVersionIndex, StoredValue.index, if_neg]
    · dsimp only
      split
      · exact ⟨x, hx, hplugin, hversion, rfl⟩
      · next hdigest =>
        refine hnext ⟨x, hx, ?_⟩
        rw [Installation.index, Installation.index, InstalledVersionIndex.mk.injEq]
        exact ⟨not_not.mp hdigest, hplugin, hversion⟩
    · rw [not_or]
      exact ⟨not_not.mpr hplugin, not_not.mpr hversion⟩

theorem sound_readRecord (missing : InstallError)
    (h : ∃ x, Installed store x ∧ x.index = candidate.index) :
    Sound store candidate (readRecord store candidate missing) := by
  obtain ⟨x, hx, hindex⟩ := h
  obtain ⟨revision, hrecord⟩ := hx
  rw [readRecord, ← installationKey_congr hindex, hrecord]
  exact ⟨⟨revision, hrecord⟩, hindex⟩

theorem Sound.mono (h : Sound store candidate phase)
    (hstore : ∀ key value, Holds store key value → Holds store' key value) :
    Sound store' candidate phase := by
  have hinstalled : ∀ x, Installed store x → Installed store' x := fun x => hstore _ _
  unfold Sound at h ⊢
  split at h
  · trivial
  · exact trivial
  · exact h.imp fun x hx => hx.imp_left (hinstalled x)
  · exact h.imp fun x hx => hx.imp_left (hinstalled x)
  · exact h.imp fun value => hstore _ _
  · exact h.imp_left (hinstalled _)
  · exact h.imp fun x hx => hx.imp_left (hinstalled x)
  all_goals exact h

variable {authority : Option (JsString × Nat)}

/-- A commit that succeeds stores both records where there was none. -/
theorem commit_spec (h : store.commit (writes candidate) authority false = .ok store') :
    store.record (versionKey candidate) = none ∧ store.record (installationKey candidate) = none ∧
      store'.record = Function.update (Function.update store.record (versionKey candidate)
        (some ⟨.versionIndex candidate.index, store.revision + 1⟩)) (installationKey candidate)
        (some ⟨.installation candidate, store.revision + 1⟩) := by
  obtain ⟨hmatches, -, ⟨-, happlies, -⟩ | rfl⟩ := CasStore.commit_ok_cases h
  · have hfirst := happlies _ mem_cons_self
    rw [CasStore.applies, isSome_some, Bool.true_or] at hfirst
    cases hfirst
  · have hversion := hmatches _ mem_cons_self
    have hrecord := hmatches _ (mem_cons_of_mem _ mem_cons_self)
    exact ⟨isNone_iff_eq_none.mp hversion, isNone_iff_eq_none.mp hrecord, rfl⟩

theorem commit_holds (h : store.commit (writes candidate) authority false = .ok store')
    {key : InstallCollection × JsString} {value : StoredValue} :
    Holds store' key value ↔ Holds store key value ∨
      key = versionKey candidate ∧ value = .versionIndex candidate.index ∨
        key = installationKey candidate ∧ value = .installation candidate := by
  obtain ⟨hversion, hrecord, hstore⟩ := commit_spec h
  have hne : versionKey candidate ≠ installationKey candidate := fun heq => by
    cases (Prod.mk.inj heq).1
  simp only [Holds, hstore]
  by_cases hkey : key = installationKey candidate
  · subst hkey
    simp [hrecord, hne.symm, eq_comm]
  · rw [Function.update_of_ne hkey]
    by_cases hkey' : key = versionKey candidate
    · subst hkey'
      simp [hversion, hne, eq_comm]
    · simp [hkey, hkey']

theorem StoreInv.commit (h : StoreInv store)
    (hcommit : store.commit (writes candidate) authority false = .ok store') :
    StoreInv store' := by
  have hnew : Installed store' candidate := (commit_holds hcommit).mpr (.inr (.inr ⟨rfl, rfl⟩))
  refine ⟨fun key value hvalue => ?_, fun x hx => ?_⟩
  · rcases (commit_holds hcommit).mp hvalue with hold | hboth
    · obtain ⟨x, hx, hrest⟩ := h.only key value hold
      exact ⟨x, (commit_holds hcommit).mpr (.inl hx), hrest⟩
    · exact ⟨candidate, hnew, hboth⟩
  · rcases (commit_holds hcommit).mp hx with hold | ⟨hkey, -⟩ | ⟨-, heq⟩
    · exact (commit_holds hcommit).mpr (.inl (h.indexed x hold))
    · cases (Prod.mk.inj hkey).1
    · cases heq
      exact (commit_holds hcommit).mpr (.inr (.inl ⟨rfl, rfl⟩))

/-- A commit in conflict has found an installation of the version. -/
theorem StoreInv.conflict (h : StoreInv store)
    (hcommit : store.commit (writes candidate) authority false = .error .conflict) :
    ∃ value, Holds store (versionKey candidate) value := by
  by_contra hnone
  have hversion : store.record (versionKey candidate) = none := by
    by_contra hsome
    obtain ⟨v, hv⟩ := ne_none_iff_exists'.mp hsome
    exact hnone ⟨v.value, v.revision, hv⟩
  have hrecord : store.record (installationKey candidate) = none := by
    by_contra hsome
    obtain ⟨v, hv⟩ := ne_none_iff_exists'.mp hsome
    obtain ⟨x, hx, ⟨hkey, -⟩ | ⟨hkey, -⟩⟩ := h.only _ v.value ⟨v.revision, hv⟩
    · cases (Prod.mk.inj hkey).1
    · obtain ⟨-, hplugin, hsame⟩ := InstalledVersionIndex.mk.inj (installationKey_inj hkey)
      rw [versionKey_congr hplugin hsame] at hnone
      exact hnone ⟨_, h.indexed x hx⟩
  rw [CasStore.commit, if_pos] at hcommit
  · split at hcommit
    · split at hcommit <;> cases hcommit
    · cases hcommit
  · simp [writes, Expected.matches, hversion, hrecord]

structure WorldInv (s : InstallWorld) : Prop where
  store : StoreInv s.store
  calls : ∀ call ∈ s.calls, Sound s.store call.candidate call.phase
  changed : ∀ i ∈ s.changed, ∃ call, s.calls[i]? = some call ∧ Installed s.store call.candidate

/-- A call goes on, and may have changed the store. -/
theorem WorldInv.update (h : WorldInv s) {i : Nat} {call : InstallCall}
    (hcall : s.calls[i]? = some call) (hstore : StoreInv store')
    (hkept : ∀ key value, Holds s.store key value → Holds store' key value)
    (hsound : Sound store' call.candidate phase) {changed : List Nat}
    (hchanged : ∀ j ∈ changed, j ∈ s.changed ∨ j = i ∧ Installed store' call.candidate) :
    WorldInv { s.setPhase i phase with store := store', changed } := by
  have hget : ∀ (j : Nat) other, s.calls[j]? = some other →
      ∃ other', (s.setPhase i phase).calls[j]? = some other' ∧
        other'.candidate = other.candidate := by
    intro j other hj
    refine ⟨_, by rw [setPhase, getElem?_modify, hj]; rfl, ?_⟩
    split <;> rfl
  refine ⟨hstore, fun other hother => ?_, fun j hj => ?_⟩
  · obtain ⟨j, hj⟩ := mem_iff_getElem?.mp hother
    dsimp only [setPhase] at hj
    rw [getElem?_modify] at hj
    obtain ⟨old, hold, rfl⟩ := map_eq_some_iff.mp hj
    by_cases hij : i = j
    · subst hij
      obtain rfl := some.inj (hcall.symm.trans hold)
      rw [if_pos rfl]
      exact hsound
    · rw [if_neg hij]
      exact (h.calls old (mem_of_getElem? hold)).mono hkept
  · rcases hchanged j hj with hold | ⟨rfl, hinstalled⟩
    · obtain ⟨old, hj', hinstalled⟩ := h.changed j hold
      obtain ⟨other, hother, hcandidate⟩ := hget j old hj'
      refine ⟨other, hother, ?_⟩
      rw [hcandidate]
      exact hkept _ _ hinstalled
    · obtain ⟨other, hother, hcandidate⟩ := hget j call hcall
      refine ⟨other, hother, ?_⟩
      rw [hcandidate]
      exact hinstalled

theorem WorldInv.setPhase (h : WorldInv s) {i : Nat} {call : InstallCall}
    (hcall : s.calls[i]? = some call) (hsound : Sound s.store call.candidate phase) :
    WorldInv (s.setPhase i phase) :=
  h.update hcall h.store (fun _ _ hheld => hheld) hsound fun _ hj => .inl hj

/-- **One step** keeps the records in pairs, removes none, and ends no call in another way. -/
theorem WorldInv.step {e : InstallStep} (h : WorldInv s) (hstep : s.step e = some s') :
    WorldInv s' ∧ ∀ key value, Holds s.store key value → Holds s'.store key value := by
  cases e with
  | install candidate authority =>
    cases hstep
    refine ⟨⟨h.store, fun call hcall => ?_, fun i hi => ?_⟩, fun _ _ hheld => hheld⟩
    · rcases mem_append.mp hcall with hold | hnew
      · exact h.calls call hold
      · rw [mem_singleton.mp hnew]
        trivial
    · obtain ⟨call, hcall, hinstalled⟩ := h.changed i hi
      exact ⟨call, getElem?_append_of_some hcall, hinstalled⟩
  | fail i =>
    obtain ⟨call, hcall, hnext⟩ := bind_eq_some_iff.mp hstep
    split at hnext <;> cases hnext
    exact ⟨h.setPhase hcall trivial, fun _ _ hheld => hheld⟩
  | proceed i =>
    obtain ⟨call, hcall, hnext⟩ := bind_eq_some_iff.mp hstep
    have hsound := h.calls call (mem_of_getElem? hcall)
    rw [InstallWorld.proceed] at hnext
    split at hnext
    · cases hnext
      exact ⟨h.setPhase hcall (sound_readIndex h.store (.inr trivial) id), fun _ _ hheld => hheld⟩
    · next hphase =>
      cases hnext
      rw [hphase] at hsound
      exact ⟨h.setPhase hcall (sound_readRecord _ hsound), fun _ _ hheld => hheld⟩
    · split at hnext <;> cases hnext
      · next store hcommit =>
        have hkept : ∀ key value, Holds s.store key value → Holds store key value :=
          fun key value hheld => (commit_holds hcommit).mpr (.inl hheld)
        have hnew : Installed store call.candidate :=
          (commit_holds hcommit).mpr (.inr (.inr ⟨rfl, rfl⟩))
        have hended : Sound store call.candidate (.ended (.ok call.candidate)) := ⟨hnew, rfl⟩
        refine ⟨h.update hcall (h.store.commit hcommit) hkept hended fun j hj => ?_, hkept⟩
        rcases mem_append.mp hj with hold | heq
        · exact .inl hold
        · exact .inr ⟨mem_singleton.mp heq, hnew⟩
      · next hcommit =>
        exact ⟨h.setPhase hcall (h.store.conflict hcommit), fun _ _ hheld => hheld⟩
      · exact ⟨h.setPhase hcall trivial, fun _ _ hheld => hheld⟩
    · next hphase =>
      cases hnext
      rw [hphase] at hsound
      exact ⟨h.setPhase hcall (sound_readIndex h.store (.inl hsound) id), fun _ _ hheld => hheld⟩
    · next hphase =>
      cases hnext
      rw [hphase] at hsound
      exact ⟨h.setPhase hcall (sound_readRecord _ hsound), fun _ _ hheld => hheld⟩
    · cases hnext

/-! ## Whole runs -/

theorem reachable_inv (hr : machine.Reachable s) : WorldInv s := by
  refine Machine.ReachableVia.invariant ?_ (fun _ _ _ _ h hstep _ => (h.step hstep).1) hr
  rintro s rfl
  refine ⟨⟨?_, ?_⟩, nofun, nofun⟩
  · rintro key value ⟨revision, hrecord⟩
    cases hrecord
  · rintro x ⟨revision, hrecord⟩
    cases hrecord

def sampleInstallation (digit : UInt16) (h : digit ≠ 64) : Installation where
  pluginId := ⟨js "mail", by decide⟩
  version := js "1.0.0"
  digest := js "sha256:" ++ [digit]
  manifest := ⟨⟨js "mail", by decide⟩, js "1.0.0", .null, [], []⟩
  installedAt := js "2024-01-01T00:00:00.000Z"
  signature := none
  digest_clean := by
    rw [mem_append, mem_singleton, not_or]
    exact ⟨by decide, h.symm⟩

end InstallWorld

end ArtifactInstallation

end TegoNext
