/-
The binary parts a session waits for.

`#pendingBinaryBytes` counts the declared bytes of the entries of `#pendingBinary`. An entry
stands under the id of its message, and an id may come again once the session no longer
remembers it, whether or not its entry still waits: the new entry then takes the place of the
old one, whose bytes stay in the count and whose message is never dispatched.
-/
import TegoNext.SessionAuthentication
import TegoNext.KeyedWeights

set_option autoImplicit false

namespace TegoNext

open Text CanonicalJson List Option AList

namespace WorkerSession

variable {platform : SessionPlatform} {options : WorkerSessionOptions} {s s' : WorkerSession}

/-! ## The property -/

def declaredBytes (pending : PendingBinary) : Nat := pending.envelope.binaryBytes.getD 0

/-- An accepted message whose binary part is still to come. -/
def Waits (s : WorkerSession) (e : WorkerControlEnvelope) : Prop :=
  ∃ pending, s.inbound.pendingBinary.lookup e.messageId = some pending ∧ pending.envelope = e

/-- The count is right, and no binary part disappears. -/
structure BinaryLaw (options : WorkerSessionOptions) (s : WorkerSession) : Prop where
  sum : s.inbound.pendingBinaryBytes = totalWeight declaredBytes s.inbound.pendingBinary
  nonneg : 0 ≤ s.inbound.pendingBinaryBytes
  bounded : s.inbound.pendingBinaryBytes ≤ options.limits.maxBinaryBytes
  kept : s.live = true → ∀ e ∈ s.inbound.accepted, e.binaryBytes.isSome = true →
    s.Waits e ∨ ∃ binary, (⟨e, some binary⟩ : WorkerSessionMessage) ∈ s.inbound.dispatched

/-- A control frame is registered under an id whose binary part is still to come. -/
def reannounces (platform : SessionPlatform) (options : WorkerSessionOptions) (s : WorkerSession)
    (label : SessionLabel) : Bool :=
  label.envelope.any fun e =>
    registers platform options s e && (s.inbound.pendingBinary.lookup e.messageId).isSome

/-! ## Steps -/

/-- The law, with what holds of every entry. -/
structure BinaryInv (options : WorkerSessionOptions) (s : WorkerSession) : Prop extends
    BinaryLaw options s where
  keyed : ∀ id pending, s.inbound.pendingBinary.lookup id = some pending →
    pending.envelope.messageId = id

theorem BinaryInv.of_untouched (h : BinaryInv options s) (hsame : Untouched s.inbound s'.inbound)
    (hlive : s'.live = true → s.live = true) : BinaryInv options s' where
  sum := by rw [hsame.pendingBinaryBytes, hsame.pendingBinary, h.sum]
  nonneg := hsame.pendingBinaryBytes ▸ h.nonneg
  bounded := hsame.pendingBinaryBytes ▸ h.bounded
  kept hl e he hbytes := by
    rw [hsame.accepted] at he
    rw [hsame.dispatched, Waits, hsame.pendingBinary]
    exact h.kept (hlive hl) e he hbytes
  keyed id pending hlookup := h.keyed id pending (hsame.pendingBinary ▸ hlookup)

variable {id : JsString}

theorem waits_of_ne {e : WorkerControlEnvelope} (h : s.Waits e)
    (hlookup : ∀ id', id' ≠ id →
      s'.inbound.pendingBinary.lookup id' = s.inbound.pendingBinary.lookup id')
    (hne : e.messageId ≠ id) : s'.Waits e := by
  obtain ⟨pending, hpending, henvelope⟩ := h
  exact ⟨pending, (hlookup _ hne).trans hpending, henvelope⟩

theorem BinaryInv.announced {e : WorkerControlEnvelope} {bytes : Nat} (h : BinaryInv options s)
    (hlive : s'.live = true → s.live = true)
    (hnone : s.inbound.pendingBinary.lookup e.messageId = none) (hbytes : e.binaryBytes = some bytes)
    (hlimit : s.inbound.pendingBinaryBytes + bytes ≤ options.limits.maxBinaryBytes)
    (hsame : Untouched { numbered platform options s.inbound e with
      pendingBinary := s.inbound.pendingBinary.insert e.messageId (announcement e)
      pendingBinaryBytes := s.inbound.pendingBinaryBytes + bytes } s'.inbound) :
    BinaryInv options s' := by
  have hlookup_ne : ∀ id, id ≠ e.messageId →
      s'.inbound.pendingBinary.lookup id = s.inbound.pendingBinary.lookup id := fun id hne => by
    rw [hsame.pendingBinary]
    exact lookup_insert_ne hne
  have hlookup_self : s'.inbound.pendingBinary.lookup e.messageId = some (announcement e) := by
    rw [hsame.pendingBinary]
    exact lookup_insert _
  refine ⟨⟨?_, ?_, ?_, fun hl e' he' hannounces => ?_⟩, fun id pending hlookup => ?_⟩
  · have hweight : declaredBytes (announcement e) = bytes := by
      rw [declaredBytes, announcement, hbytes]
      rfl
    rw [hsame.pendingBinaryBytes, hsame.pendingBinary]
    change s.inbound.pendingBinaryBytes + bytes = (totalWeight declaredBytes _ : Nat)
    rw [totalWeight_insert_new hnone, hweight, h.sum, Nat.cast_add, Int.add_comm]
  · rw [hsame.pendingBinaryBytes]
    exact Int.add_nonneg h.nonneg (Int.natCast_nonneg _)
  · rw [hsame.pendingBinaryBytes]
    exact hlimit
  · rw [hsame.accepted] at he'
    rw [hsame.dispatched]
    rcases mem_append.mp he' with hold | hnew
    · refine (h.kept (hlive hl) e' hold hannounces).imp_left fun hwaits => ?_
      refine waits_of_ne hwaits hlookup_ne fun heq => ?_
      obtain ⟨pending, hpending, -⟩ := hwaits
      rw [heq, hnone] at hpending
      cases hpending
    · obtain rfl := mem_singleton.mp hnew
      exact .inl ⟨_, hlookup_self, rfl⟩
  · by_cases hid : id = e.messageId
    · subst hid
      rw [hlookup_self] at hlookup
      obtain rfl := some.inj hlookup
      rfl
    · exact h.keyed id pending (hlookup_ne id hid ▸ hlookup)

theorem BinaryInv.part {pending pending' : PendingBinary} (h : BinaryInv options s)
    (hlive : s'.live = true → s.live = true)
    (hlookup : s.inbound.pendingBinary.lookup id = some pending)
    (henvelope : pending'.envelope = pending.envelope)
    (hsame : Untouched { s.inbound with
      pendingBinary := s.inbound.pendingBinary.insert id pending' } s'.inbound) :
    BinaryInv options s' := by
  have hlookup_ne : ∀ id', id' ≠ id →
      s'.inbound.pendingBinary.lookup id' = s.inbound.pendingBinary.lookup id' :=
    fun id' hne => by
      rw [hsame.pendingBinary]
      exact lookup_insert_ne hne
  have hlookup_self : s'.inbound.pendingBinary.lookup id = some pending' := by
    rw [hsame.pendingBinary]
    exact lookup_insert _
  refine ⟨⟨?_, ?_, ?_, fun hl e he hannounces => ?_⟩, fun id' found hfound => ?_⟩
  · have hweight : declaredBytes pending' = declaredBytes pending := by
      rw [declaredBytes, declaredBytes, henvelope]
    rw [hsame.pendingBinaryBytes, hsame.pendingBinary]
    exact h.sum.trans (congrArg _ (totalWeight_insert_same hlookup hweight).symm)
  · exact hsame.pendingBinaryBytes ▸ h.nonneg
  · exact hsame.pendingBinaryBytes ▸ h.bounded
  · rw [hsame.accepted] at he
    rw [hsame.dispatched]
    refine (h.kept (hlive hl) e he hannounces).imp_left fun hwaits => ?_
    by_cases hid : e.messageId = id
    · obtain ⟨found, hfound, rfl⟩ := hwaits
      rw [hid, hlookup] at hfound
      obtain rfl := some.inj hfound
      exact ⟨pending', hid ▸ hlookup_self, henvelope⟩
    · exact waits_of_ne hwaits hlookup_ne hid
  · by_cases hid : id' = id
    · subst hid
      rw [hlookup_self] at hfound
      obtain rfl := some.inj hfound
      rw [henvelope]
      exact h.keyed id' pending hlookup
    · exact h.keyed id' found (hlookup_ne id' hid ▸ hfound)

theorem BinaryInv.assembled {pending : PendingBinary} {payload binary : List UInt8}
    (h : BinaryInv options s) (hlive : s'.live = true → s.live = true)
    (hlookup : s.inbound.pendingBinary.lookup id = some pending)
    (hbytes : pending.envelope.binaryBytes = some (pending.receivedBytes + payload.length))
    (hpass : Passes { s.inbound with
        pendingBinary := s.inbound.pendingBinary.erase id
        pendingBinaryBytes := s.inbound.pendingBinaryBytes -
          (pending.receivedBytes + payload.length : Nat) }
      ⟨pending.envelope, some binary⟩ s s') : BinaryInv options s' := by
  obtain ⟨-, hpending, hcount, haccepted, hdispatched, -, -⟩ := hpass.frame
  have hlookup_ne : ∀ id', id' ≠ id →
      s'.inbound.pendingBinary.lookup id' = s.inbound.pendingBinary.lookup id' :=
    fun id' hne => by
      rw [hpending]
      exact lookup_erase_ne hne
  have hweight : declaredBytes pending = pending.receivedBytes + payload.length := by
    rw [declaredBytes, hbytes]
    rfl
  have hsum : s'.inbound.pendingBinaryBytes =
      totalWeight declaredBytes s'.inbound.pendingBinary := by
    rw [hcount, hpending]
    change s.inbound.pendingBinaryBytes - _ = (totalWeight declaredBytes _ : Nat)
    rw [h.sum, totalWeight_erase hlookup, hweight, Nat.cast_add, add_sub_cancel_left]
  refine ⟨⟨hsum, ?_, ?_, fun hl e he hannounces => ?_⟩, fun id' found hfound => ?_⟩
  · rw [hsum]
    exact Int.natCast_nonneg _
  · rw [hcount]
    exact (Int.sub_le_self _ (Int.natCast_nonneg _)).trans h.bounded
  · rw [haccepted] at he
    rw [hdispatched]
    rcases h.kept (hlive hl) e he hannounces with hwaits | ⟨binary, hmem⟩
    · by_cases hid : e.messageId = id
      · obtain ⟨found, hfound, rfl⟩ := hwaits
        rw [hid, hlookup] at hfound
        obtain rfl := some.inj hfound
        exact .inr ⟨_, mem_append_right _ (mem_singleton_self _)⟩
      · exact .inl (waits_of_ne hwaits hlookup_ne hid)
    · exact .inr ⟨binary, mem_append_left _ hmem⟩
  · have hne : id' ≠ id := by
      rintro rfl
      have hnone : s'.inbound.pendingBinary.lookup id' = none := by
        rw [hpending]
        exact lookup_erase _ _
      rw [hnone] at hfound
      cases hfound
    exact h.keyed id' found (hlookup_ne id' hne ▸ hfound)

/-- **What one step preserves**, when it registers nothing under an id that waits. -/
theorem BinaryInv.step {label : SessionLabel} (h : BinaryInv options s)
    (hs : InboundStep platform options label.envelope s s')
    (hlive : s'.live = true → s.live = true) (hends : s.Ends → s.live = false)
    (hfresh : reannounces platform options s label = false) : BinaryInv options s' := by
  cases hs with
  | untouched hsame => exact h.of_untouched hsame hlive
  | ended hend hsame =>
    have hdead := hends hend
    refine ⟨⟨?_, ?_, ?_, fun hl => ?_⟩, fun id pending hlookup => ?_⟩
    · rw [hsame.pendingBinaryBytes, hsame.pendingBinary]
      rfl
    · rw [hsame.pendingBinaryBytes]
    · rw [hsame.pendingBinaryBytes]
      exact Int.natCast_nonneg _
    · rw [hlive hl] at hdead
      cases hdead
    · rw [hsame.pendingBinary] at hlookup
      cases hlookup
  | refused e hframe hnext hdead hsame =>
    refine ⟨⟨?_, ?_, ?_, fun hl => ?_⟩, fun id pending hlookup => ?_⟩
    · rw [hsame.pendingBinaryBytes, hsame.pendingBinary]
      exact h.sum
    · exact hsame.pendingBinaryBytes ▸ h.nonneg
    · exact hsame.pendingBinaryBytes ▸ h.bounded
    · rw [hdead] at hl
      cases hl
    · exact h.keyed id pending (hsame.pendingBinary ▸ hlookup)
  | announced e bytes hframe hnext hbytes hregisters hlimit hsame =>
    have hnone : s.inbound.pendingBinary.lookup e.messageId = none := by
      rw [reannounces, hframe, any_some, hregisters, Bool.true_and] at hfresh
      exact not_isSome_iff_eq_none.mp (Bool.eq_false_iff.mp hfresh)
    exact h.announced hlive hnone hbytes hlimit hsame
  | passed e hframe hnext hbytes hpass =>
    obtain ⟨-, hpending, hcount, haccepted, hdispatched, -, -⟩ := hpass.frame
    refine ⟨⟨?_, ?_, ?_, fun hl e' he' hannounces => ?_⟩, fun id pending hlookup => ?_⟩
    · rw [hcount, hpending]
      exact h.sum
    · exact hcount ▸ h.nonneg
    · exact hcount ▸ h.bounded
    · rw [haccepted] at he'
      rcases mem_append.mp he' with hold | hnew
      · rw [Waits, hpending, hdispatched]
        exact (h.kept (hlive hl) e' hold hannounces).imp_right fun ⟨binary, hmem⟩ =>
          ⟨binary, mem_append_left _ hmem⟩
      · obtain rfl := mem_singleton.mp hnew
        rw [hbytes] at hannounces
        cases hannounces
    · exact h.keyed id pending (hpending ▸ hlookup)
  | part id pending pending' hlookup henvelope hchunks hsame =>
    exact h.part hlive hlookup henvelope hsame
  | assembled id pending payload hlookup hbytes hpass =>
    exact h.assembled hlive hlookup hbytes hpass

/-! ## Runs -/

theorem dead_of_ends {C : WorkerSession → SessionLabel → WorkerSession → Prop}
    (hr : (machine platform options).ReachableVia C s) : s.Ends → s.live = false := by
  refine hr.invariant (I := fun s => s.Ends → s.live = false) (fun s h0 hends => ?_)
    fun s label s' _ ih hs _ hends => ?_
  · subst h0
    cases mem_singleton.mp hends
  · have hstep := handshakeStep_of_step hs
    rcases hstep.ends hends with hbefore | hdead
    · exact Bool.eq_false_iff.mpr fun hlive => Bool.eq_false_iff.mp (ih hbefore) (hstep.live hlive)
    · exact hdead

theorem binaryInv_new (options : WorkerSessionOptions) : BinaryInv options (new options) where
  sum := rfl
  nonneg := Int.le_refl 0
  bounded := Int.natCast_nonneg _
  kept _ e he := absurd he not_mem_nil
  keyed id pending hlookup := by cases hlookup

/-- **Binary parts are accounted for**, in runs in which no control frame is registered under an
id whose binary part is still to come. -/
theorem binaryLaw_of_run
    (hr : (machine platform options).ReachableVia
      (fun s label _ => reannounces platform options s label = false) s) :
    BinaryLaw options s := by
  have hinv : BinaryInv options s :=
    hr.invariant (fun _ h0 => h0 ▸ binaryInv_new options) fun _ _ _ hr ih hs hfresh =>
      ih.step (inboundStep_of_step hs) (handshakeStep_of_step hs).live (dead_of_ends hr) hfresh
  exact hinv.toBinaryLaw

/-! ## An id that comes again -/

/-- A session that remembers one control frame. -/
def forgetfulOptions : WorkerSessionOptions :=
  { sampleOptions with limits := { sampleLimits with
      replayRetention := 1
      replayRetention_pos := Nat.one_pos } }

/-- The result `x` of a task, with a binary part of one byte. -/
def resultFrame (sequence : Nat) : WorkerControlEnvelope :=
  { sampleFrame sequence .taskResult [] (some 1) with messageId := js "x", correlationId := js "x" }

theorem binaryLaw_of_run_result :
    ∃ s : WorkerSession,
      (machine samplePlatform forgetfulOptions).runIf
        (fun s label => !reannounces samplePlatform forgetfulOptions s label) (new forgetfulOptions)
        (sampleHandshake ++ [sampleText (resultFrame 3)]) = some s ∧
      s.inbound.pendingBinaryBytes = 1 ∧ BinaryLaw forgetfulOptions s := by
  have hrun : ((machine samplePlatform forgetfulOptions).runIf
      (fun s label => !reannounces samplePlatform forgetfulOptions s label) (new forgetfulOptions)
      (sampleHandshake ++ [sampleText (resultFrame 3)])).map
        (fun s => decide (s.inbound.pendingBinaryBytes = 1)) = some true := by decide +kernel
  obtain ⟨s, hs, hbytes⟩ := map_eq_some_iff.mp hrun
  have hr := Machine.ReachableVia.of_runIf (.init rfl) hs
  exact ⟨s, hs, of_decide_eq_true hbytes,
    binaryLaw_of_run (hr.mono fun _ _ _ hfresh => (Bool.not_eq_true' _).mp hfresh)⟩

/-- The session forgets `x` and takes it again: a byte stays, without an entry. -/
theorem binaryLaw_fails :
    ¬ ∀ (platform : SessionPlatform) (options : WorkerSessionOptions) (s : WorkerSession),
      (machine platform options).Reachable s → BinaryLaw options s := by
  intro hlaw
  have hrun : ((machine samplePlatform forgetfulOptions).run (new forgetfulOptions)
      (sampleHandshake ++ [sampleText (resultFrame 3),
        sampleText (sampleFrame 4 .heartbeat [] none), sampleText (resultFrame 5)])).map
        (fun s => decide (s.inbound.pendingBinaryBytes = 2 ∧
          totalWeight declaredBytes s.inbound.pendingBinary = 1)) = some true := by decide +kernel
  obtain ⟨s, hs, hbytes⟩ := map_eq_some_iff.mp hrun
  obtain ⟨hcount, hsum⟩ := of_decide_eq_true hbytes
  have heq := (hlaw _ _ s (.of_init_run rfl hs)).sum
  rw [hcount, hsum] at heq
  cases heq

end WorkerSession

end TegoNext
