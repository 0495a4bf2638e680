/-
What the reader of archives has read when it has read something.

A run that succeeds has taken a stretch of the stream: it is in the hash and the rest of the
stream follows it. The stretches of a whole scan are the entries of a tar file, each a header that
describes it, its contents and zeros up to the next block, and the blocks of zeros at the end.
-/
import TegoNext.ChunkedReading

set_option autoImplicit false

namespace TegoNext

open StatePrograms List

/-! ## Archives -/

abbrev ArchiveFiles : Type := List (JsString × List UInt8)

/-- The blocks that are the entries of an archive. -/
inductive TarEntries (unicode : UnicodeTables) : ArchiveFiles → List UInt8 → Prop
  | nil : TarEntries unicode [] []
  | cons {header contents rest : List UInt8} {path : JsString} {files : ArchiveFiles}
      (hlength : header.length = tarBlockSize)
      (hparse : parseHeader unicode header = .ok ⟨path, contents.length⟩)
      (hrest : TarEntries unicode files rest) :
      TarEntries unicode ((path, contents) :: files)
        (header ++ (contents ++ (List.replicate (paddingOf contents.length) 0 ++ rest)))

def TarStream (unicode : UnicodeTables) (files : ArchiveFiles) (bytes : List UInt8) : Prop :=
  ∃ blocks zeroBlocks, TarEntries unicode files blocks ∧ 2 ≤ zeroBlocks ∧
    bytes = blocks ++ List.replicate (zeroBlocks * tarBlockSize) 0

section Streams

variable {ω : Type} {maxBytes : Nat} {s s' s'' : ReadState ω} {bytes bytes' : List UInt8}

/-! ## Taking -/

/-- From `s` to `s'` these bytes were taken. -/
structure Took (maxBytes : Nat) (s s' : ReadState ω) (bytes : List UInt8) : Prop where
  proper : s'.Proper maxBytes
  rest : s.rest = bytes ++ s'.rest
  hashed : s'.hashed = s.hashed ++ bytes
  consumed : s'.consumed = s.consumed + bytes.length

theorem Took.trans (h : Took maxBytes s s' bytes) (h' : Took maxBytes s' s'' bytes') :
    Took maxBytes s s'' (bytes ++ bytes') where
  proper := h'.proper
  rest := by rw [h.rest, h'.rest, append_assoc]
  hashed := by rw [h'.hashed, h.hashed, append_assoc]
  consumed := by rw [h'.consumed, h.consumed, length_append, Nat.add_assoc]

theorem Took.nothing (h : s.Proper maxBytes) : Took maxBytes s s [] :=
  ⟨h, rfl, (append_nil _).symm, rfl⟩

theorem readExact_took {length : Nat} {eofAllowed : Bool} (h : s.Proper maxBytes)
    (hr : readExact maxBytes length eofAllowed s = .ok (some bytes) s') :
    Took maxBytes s s' bytes ∧ bytes.length = length := by
  have hfilled := readExact_filled length eofAllowed h
  rw [hr] at hfilled
  generalize hresult : EStateM.Result.ok (some bytes) s' = result at hfilled
  cases hfilled with
  | tooLarge => injection hresult
  | filled hmax hle hne hrest =>
    injection hresult with hbytes hs
    injection hbytes with hbytes
    have hlen : (s.rest.take length).length = length := by
      rw [length_take]
      omega
    rw [hbytes, hs, nil_append]
    refine ⟨⟨⟨hne, ?_⟩, ?_, rfl, rfl⟩, hlen⟩
    · rw [took_consumed, hlen]
      exact hmax
    · exact (take_append_drop length s.rest).symm.trans (congrArg _ hrest.symm)
  | ended =>
    injection hresult with hbytes
    injection hbytes
  | truncated => injection hresult

theorem readExact_ended {length : Nat} {eofAllowed : Bool} (h : s.Proper maxBytes)
    (hr : readExact maxBytes length eofAllowed s = .ok none s') :
    Took maxBytes s s' [] ∧ s'.rest = [] := by
  have hfilled := readExact_filled length eofAllowed h
  rw [hr] at hfilled
  generalize hresult : EStateM.Result.ok (none : Option (List UInt8)) s' = result at hfilled
  cases hfilled with
  | tooLarge => injection hresult
  | filled =>
    injection hresult with hnone
    injection hnone
  | ended hmax hlt hend =>
    injection hresult with _ hs
    rw [nil_append, Bool.and_eq_true, List.isEmpty_iff] at hend
    rw [hs, hend.1]
    refine ⟨⟨⟨nofun, ?_⟩, hend.1, rfl, rfl⟩, rfl⟩
    rw [took_consumed]
    exact h.bounded
  | truncated => injection hresult

/-! ## Entries -/

variable {α : Type} (observer : ArtifactReadObserver ω)

theorem tell_took {call : ω → Except ArtifactThrown Unit × ω} (h : s.Proper maxBytes)
    (hr : tell call s = .ok () s') : Took maxBytes s s' [] := by
  unfold tell at hr
  generalize call s.observer = r at hr
  match r with
  | (.ok (), o) =>
    injection hr with _ hs
    rw [← hs]
    exact ⟨⟨h.1, h.2⟩, rfl, (append_nil _).symm, rfl⟩
  | (.error e, o) => injection hr

theorem orAbort_eq_ok {m : ReadM ω α} {a : α} :
    orAbort observer m s = .ok a s' ↔ m s = .ok a s' := by
  unfold orAbort
  cases m s with
  | ok b t => exact Iff.rfl
  | error e t =>
    refine ⟨fun hr => ?_, fun hr => by injection hr⟩
    simp only at hr
    generalize observer.abort e t.observer = r at hr
    match r with
    | (.ok (), o) => injection hr
    | (.error cleanup, o) => injection hr

theorem readContents_took (lengths : List Nat) :
    ∀ {s : ReadState ω} {contents : List UInt8}, s.Proper maxBytes →
      readContents observer maxBytes lengths contents s = .ok bytes s' →
      ∃ more, bytes = contents ++ more ∧ more.length = lengths.sum ∧ Took maxBytes s s' more := by
  induction lengths with
  | nil =>
    intro s contents h hr
    injection hr with hbytes hs
    rw [← hbytes, ← hs]
    exact ⟨[], (append_nil _).symm, rfl, .nothing h⟩
  | cons length lengths ih =>
    intro s contents h hr
    obtain ⟨read, t, hread, hr⟩ := run_bind_eq_ok.mp hr
    cases read with
    | none => injection hr
    | some chunk =>
      obtain ⟨htook, hlength⟩ := readExact_took h hread
      obtain ⟨_, t', htell, hr⟩ := run_bind_eq_ok.mp hr
      have htook' := htook.trans (tell_took htook.proper htell)
      obtain ⟨more, hbytes, hsum, htook''⟩ := ih htook'.proper hr
      refine ⟨chunk ++ more, ?_, ?_, ?_⟩
      · rw [hbytes, append_assoc]
      · rw [length_append, sum_cons, hlength, hsum]
      · rw [append_nil] at htook'
        exact htook'.trans htook''

theorem readLengths_sum (size : Nat) : (readLengths size).sum = size := by
  unfold readLengths
  rw [sum_append, sum_replicate_nat]
  by_cases hmod : size % 65536 = 0
  · rw [if_pos hmod, sum_nil]
    omega
  · rw [if_neg hmod, sum_singleton]
    omega

theorem isZeroBlock_iff : isZeroBlock bytes = true ↔ bytes = List.replicate bytes.length 0 := by
  unfold isZeroBlock
  rw [all_eq_true, eq_replicate_iff]
  simp

theorem readPadding_took {size : Nat} (h : s.Proper maxBytes)
    (hr : readPadding maxBytes size s = .ok () s') :
    Took maxBytes s s' (List.replicate (paddingOf size) 0) := by
  unfold readPadding at hr
  by_cases hpad : paddingOf size = 0
  · rw [if_pos hpad] at hr
    injection hr with _ hs
    rw [hpad, ← hs]
    exact .nothing h
  · rw [if_neg hpad] at hr
    obtain ⟨read, t, hread, hr⟩ := run_bind_eq_ok.mp hr
    cases read with
    | none => injection hr
    | some padding =>
      obtain ⟨htook, hlength⟩ := readExact_took h hread
      by_cases hzero : isZeroBlock padding = true
      · simp only [hzero, if_true] at hr
        injection hr with _ hs
        rw [← hs, ← hlength, ← isZeroBlock_iff.mp hzero]
        exact htook
      · simp only [hzero] at hr
        injection hr

theorem readEntry_took {path : JsString} {size : Nat} (h : s.Proper maxBytes)
    (hr : readEntry observer maxBytes path size s = .ok bytes s') :
    bytes.length = size ∧ Took maxBytes s s' (bytes ++ List.replicate (paddingOf size) 0) := by
  obtain ⟨_, t, hopen, hr⟩ := run_bind_eq_ok.mp hr
  have htook := tell_took h hopen
  obtain ⟨contents, t', hcontents, hr⟩ := run_bind_eq_ok.mp hr
  rw [orAbort_eq_ok] at hcontents
  obtain ⟨contents', t'', hread, hclose⟩ := run_bind_eq_ok.mp hcontents
  obtain ⟨more, hmore, hsum, htook'⟩ := readContents_took observer _ htook.proper hread
  obtain ⟨_, t₃, hclose, hcontents⟩ := run_bind_eq_ok.mp hclose
  injection hcontents with heq ht
  have htook'' := (htook.trans htook').trans (tell_took htook'.proper hclose)
  obtain ⟨_, t₄, hpad, hr⟩ := run_bind_eq_ok.mp hr
  injection hr with hbytes hs
  rw [ht] at htook''
  rw [hs] at hpad
  have hall := htook''.trans (readPadding_took htook''.proper hpad)
  rw [nil_append, append_nil] at hall
  rw [nil_append] at hmore
  rw [← hbytes, ← heq, hmore]
  exact ⟨by rw [hsum, readLengths_sum], hall⟩

/-! ## Blocks -/

variable (platform : ArtifactPlatform) (maxEntries maxEntryBytes : Nat)

theorem orThrow_eq_ok {r : Except ArtifactThrown α} {a : α} :
    orThrow r s = .ok a s' ↔ r = .ok a ∧ s = s' := by
  cases r with
  | ok b =>
    refine ⟨fun hr => ?_, ?_⟩
    · injection hr with hb hs
      exact ⟨by rw [hb], hs⟩
    · rintro ⟨hb, rfl⟩
      injection hb with hb
      rw [hb]
      rfl
  | error e =>
    refine ⟨fun hr => by injection hr, ?_⟩
    rintro ⟨hb, -⟩
    injection hb

theorem scanBlock_took {scan scan' : ArchiveScan} (h : s.Proper maxBytes)
    (hr : scanBlock platform observer maxBytes maxEntries maxEntryBytes scan s = .ok scan' s') :
    (scan' = { scan with zeroBlocks := scan.zeroBlocks + 1 } ∧
      Took maxBytes s s' (List.replicate tarBlockSize 0)) ∨
    (scan.zeroBlocks = 0 ∧ ∃ header path contents collisionKey,
      header.length = tarBlockSize ∧
      parseHeader platform.unicode header = .ok ⟨path, contents.length⟩ ∧
      admitEntry platform maxEntries maxEntryBytes scan ⟨path, contents.length⟩ = .ok collisionKey ∧
      scan' = scan.record platform ⟨path, contents.length⟩ collisionKey contents ∧
      Took maxBytes s s'
        (header ++ (contents ++ List.replicate (paddingOf contents.length) 0))) := by
  obtain ⟨read, t, hread, hr⟩ := run_bind_eq_ok.mp hr
  cases read with
  | none => injection hr
  | some header =>
    obtain ⟨htook, hlength⟩ := readExact_took h hread
    by_cases hzero : isZeroBlock header = true
    · simp only [hzero, if_true] at hr
      injection hr with hscan hs
      left
      rw [← hscan, ← hs, ← hlength, ← isZeroBlock_iff.mp hzero]
      exact ⟨rfl, htook⟩
    · simp only [hzero] at hr
      by_cases hcount : scan.zeroBlocks ≠ 0
      · rw [if_neg Bool.false_ne_true, if_pos hcount] at hr
        injection hr
      rw [if_neg Bool.false_ne_true, if_neg hcount] at hr
      obtain ⟨⟨path, size⟩, t', hparsed, hr⟩ := run_bind_eq_ok.mp hr
      obtain ⟨hparse, rfl⟩ := orThrow_eq_ok.mp hparsed
      obtain ⟨collisionKey, t', hadmitted, hr⟩ := run_bind_eq_ok.mp hr
      obtain ⟨hkept, rfl⟩ := orThrow_eq_ok.mp hadmitted
      obtain ⟨contents, t', hentry, hr⟩ := run_bind_eq_ok.mp hr
      obtain ⟨rfl, htook'⟩ := readEntry_took observer htook.proper hentry
      injection hr with hscan hs
      right
      rw [← hscan, ← hs]
      exact ⟨not_not.mp hcount, header, path, contents, collisionKey, hlength, hparse, hkept,
        rfl, htook.trans htook'⟩

theorem scanBlock_shrinks {scan scan' : ArchiveScan} (h : s.Proper maxBytes)
    (hr : scanBlock platform observer maxBytes maxEntries maxEntryBytes scan s = .ok scan' s') :
    s'.Proper maxBytes ∧ s'.rest.length < s.rest.length := by
  rcases scanBlock_took observer platform maxEntries maxEntryBytes h hr with
    ⟨-, htook⟩ | ⟨-, header, path, contents, key, hlength, -, -, -, htook⟩
  · refine ⟨htook.proper, ?_⟩
    rw [htook.rest, length_append, length_replicate]
    unfold tarBlockSize
    omega
  · refine ⟨htook.proper, ?_⟩
    rw [htook.rest, length_append, length_append, hlength]
    unfold tarBlockSize
    omega

/-! ## The loops end -/

theorem scanLoop_ends (rounds : Nat) : ∀ {s s' : ReadState ω} (scan : ArchiveScan),
    s.Proper maxBytes → s.rest.length < rounds →
      scanLoop platform observer maxBytes maxEntries maxEntryBytes rounds scan s ≠ .ok none s' := by
  induction rounds with
  | zero => exact fun scan _ hlt => absurd hlt (Nat.not_lt_zero _)
  | succ rounds ih =>
    intro s s' scan h hlt hr
    unfold scanLoop at hr
    by_cases hdone : 2 ≤ scan.zeroBlocks
    · rw [if_pos hdone] at hr
      injection hr with hnone
      injection hnone
    rw [if_neg hdone] at hr
    obtain ⟨scan', t, hblock, hr⟩ := run_bind_eq_ok.mp hr
    obtain ⟨h', hlt'⟩ := scanBlock_shrinks observer platform maxEntries maxEntryBytes h hblock
    exact ih scan' h' (by omega) hr

theorem scanLoop_agree (rounds : Nat) : ∀ {rounds' : Nat} {s t : ReadState ω}
    (scan : ArchiveScan), Alike maxBytes s t → s.rest.length < rounds →
      s.rest.length < rounds' →
      AgreeCut maxBytes
        (scanLoop platform observer maxBytes maxEntries maxEntryBytes rounds scan s)
        (scanLoop platform observer maxBytes maxEntries maxEntryBytes rounds' scan t) := by
  induction rounds with
  | zero => exact fun scan _ hlt => absurd hlt (Nat.not_lt_zero _)
  | succ rounds ih =>
    intro rounds' s t scan h hlt hlt'
    cases rounds' with
    | zero => exact absurd hlt' (Nat.not_lt_zero _)
    | succ rounds' =>
      unfold scanLoop
      by_cases hdone : 2 ≤ scan.zeroBlocks
      · rw [if_pos hdone, if_pos hdone]
        exact pure_agree _ h
      rw [if_neg hdone, if_neg hdone]
      have hblock := scanBlock_agree observer platform maxEntries maxEntryBytes scan h
      refine hblock.bind_of fun scan' s' t' hok h' => ?_
      have hshrinks := (scanBlock_shrinks observer platform maxEntries maxEntryBytes h.left hok).2
      exact ih scan' h' (by omega) (by omega)

theorem assertZeroRemainder_ends (rounds : Nat) : ∀ {s s' : ReadState ω},
    s.Proper maxBytes → s.rest.length < rounds →
      assertZeroRemainder maxBytes rounds s ≠ .ok none s' := by
  induction rounds with
  | zero => exact fun _ hlt => absurd hlt (Nat.not_lt_zero _)
  | succ rounds ih =>
    intro s s' h hlt hr
    obtain ⟨read, t, hread, hr⟩ := run_bind_eq_ok.mp hr
    cases read with
    | none =>
      injection hr with hnone
      injection hnone
    | some block =>
      obtain ⟨htook, hlength⟩ := readExact_took h hread
      have hlen : s.rest.length = tarBlockSize + t.rest.length := by
        rw [htook.rest, length_append, hlength]
      unfold tarBlockSize at hlen
      by_cases hzero : isZeroBlock block = true
      · simp only [hzero, if_true] at hr
        exact ih htook.proper (by omega) hr
      · simp only [hzero] at hr
        injection hr

theorem assertZeroRemainder_agree (rounds : Nat) : ∀ {rounds' : Nat} {s t : ReadState ω},
    Alike maxBytes s t → s.rest.length < rounds → s.rest.length < rounds' →
      AgreeCut maxBytes (assertZeroRemainder maxBytes rounds s)
        (assertZeroRemainder maxBytes rounds' t) := by
  induction rounds with
  | zero => exact fun _ hlt => absurd hlt (Nat.not_lt_zero _)
  | succ rounds ih =>
    intro rounds' s t h hlt hlt'
    cases rounds' with
    | zero => exact absurd hlt' (Nat.not_lt_zero _)
    | succ rounds' =>
      refine (readExact_agree tarBlockSize true h).bind_of fun read s' t' hread h' => ?_
      cases read with
      | none => exact pure_agree _ h'
      | some block =>
        obtain ⟨htook, hlength⟩ := readExact_took h.left hread
        have hlen : s.rest.length = tarBlockSize + s'.rest.length := by
          rw [htook.rest, length_append, hlength]
        unfold tarBlockSize at hlen
        by_cases hzero : isZeroBlock block = true
        · simp only [hzero, if_true]
          exact ih h' (by omega) (by omega)
        · simp only [hzero]
          exact throw_agree _ h'

end Streams

end TegoNext
