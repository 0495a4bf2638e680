/-
The reader of archives does not see the chunks.

A stream in chunks is compared with the same bytes in one chunk. Every program of the reader comes
to the same result on both and leaves the observer in the same state. The loops over the archive
end: each of their rounds takes a block of the stream.
-/
import TegoNext.ManifestReader
import TegoNext.StatePrograms

set_option autoImplicit false

namespace TegoNext

open StatePrograms List

section Chunks

variable {ω : Type} {maxBytes : Nat} {s t : ReadState ω}

def ReadState.rest (s : ReadState ω) : List UInt8 := s.chunk ++ s.source.flatten

/-- A stream none of whose chunks is empty, and of which no more was consumed than allowed. -/
structure ReadState.Proper (maxBytes : Nat) (s : ReadState ω) : Prop where
  nonempty : ∀ chunk ∈ s.source, chunk ≠ []
  bounded : s.consumed ≤ maxBytes

/-- Two states that differ in nothing but how the rest of the stream is cut. -/
structure Alike (maxBytes : Nat) (s t : ReadState ω) : Prop where
  left : s.Proper maxBytes
  right : t.Proper maxBytes
  rest : t.rest = s.rest
  consumed : t.consumed = s.consumed
  hashed : t.hashed = s.hashed
  observer : t.observer = s.observer

def SameObserver (s t : ReadState ω) : Prop := t.observer = s.observer

/-- Two results that differ in nothing but how the stream is cut. -/
abbrev AgreeCut {α : Type} (maxBytes : Nat) :=
  @Agree ArtifactThrown (ReadState ω) α (Alike maxBytes) SameObserver

/-! ## `readExact` -/

variable {source : List (List UInt8)} {chunk : List UInt8}

@[simp] theorem took_consumed {piece : List UInt8} :
    (s.took source chunk piece).consumed = s.consumed + piece.length := rfl

variable {eofAllowed : Bool} {output : List UInt8}

/-- `fill` when the current chunk has all that is needed. -/
theorem fill_of_le {length : Nat} (hout : output.length ≤ length)
    (h : length - output.length ≤ chunk.length) :
    fill maxBytes length eofAllowed source chunk output s =
      let need := length - output.length
      let taken := s.took source (chunk.drop need) (chunk.take need)
      if maxBytes < s.consumed + need then .error (archiveTooLarge maxBytes) taken
      else .ok (some (output ++ chunk.take need)) taken := by
  have hlen : (chunk.take (length - output.length)).length = length - output.length := by
    rw [length_take]
    omega
  have hall : (output ++ chunk.take (length - output.length)).length = length := by
    rw [length_append, hlen]
    omega
  unfold fill
  simp only [took_consumed, hlen, hall, if_true]

/-- `fill` when the current chunk has too little. -/
theorem fill_of_lt {length : Nat} (h : chunk.length < length - output.length) :
    fill maxBytes length eofAllowed source chunk output s =
      let taken := s.took source [] chunk
      if maxBytes < s.consumed + chunk.length then .error (archiveTooLarge maxBytes) taken
      else
        match source with
        | [] =>
          if (output ++ chunk).isEmpty && eofAllowed then .ok none taken
          else .error archiveTruncated taken
        | next :: rest =>
          if next.isEmpty then
            .error (archiveMalformed "Plugin archive yielded an empty byte chunk")
              { taken with source := rest }
          else fill maxBytes length eofAllowed rest next (output ++ chunk) taken := by
  have htake : chunk.take (length - output.length) = chunk := take_of_length_le (by omega)
  have hne : (output ++ chunk).length ≠ length := by
    rw [length_append]
    omega
  rw [fill.eq_def]
  simp only [took_consumed, htake, hne, if_false, drop_length] <;> rfl

theorem took_took {source' : List (List UInt8)} {chunk' piece piece' : List UInt8} :
    (s.took source chunk piece).took source' chunk' piece' =
      s.took source' chunk' (piece ++ piece') := by
  unfold ReadState.took
  rw [append_assoc, length_append, Nat.add_assoc]

/-- What comes of filling up `output` by `need` bytes from a stream that goes on with `rest`. -/
inductive Filled (maxBytes need : Nat) (eofAllowed : Bool) (output rest : List UInt8)
    (s : ReadState ω) : EStateM.Result ArtifactThrown (ReadState ω) (Option (List UInt8)) → Prop
  | tooLarge {s' : ReadState ω} (hmax : maxBytes < s.consumed + min need rest.length)
      (hobserver : s'.observer = s.observer) :
      Filled maxBytes need eofAllowed output rest s (.error (archiveTooLarge maxBytes) s')
  | filled {source : List (List UInt8)} {chunk : List UInt8}
      (hmax : s.consumed + need ≤ maxBytes) (hle : need ≤ rest.length)
      (hne : ∀ next ∈ source, next ≠ []) (hrest : chunk ++ source.flatten = rest.drop need) :
      Filled maxBytes need eofAllowed output rest s
        (.ok (some (output ++ rest.take need)) (s.took source chunk (rest.take need)))
  | ended (hmax : s.consumed + rest.length ≤ maxBytes) (hlt : rest.length < need)
      (hend : ((output ++ rest).isEmpty && eofAllowed) = true) :
      Filled maxBytes need eofAllowed output rest s (.ok none (s.took [] [] rest))
  | truncated {s' : ReadState ω} (hmax : s.consumed + rest.length ≤ maxBytes)
      (hlt : rest.length < need) (hend : ((output ++ rest).isEmpty && eofAllowed) ≠ true)
      (hobserver : s'.observer = s.observer) :
      Filled maxBytes need eofAllowed output rest s (.error archiveTruncated s')

theorem Filled.prepend {need : Nat} {rest : List UInt8}
    {chunk' : List UInt8}
    {r : EStateM.Result ArtifactThrown (ReadState ω) (Option (List UInt8))}
    (hlt : chunk.length < need)
    (h : Filled maxBytes (need - chunk.length) eofAllowed (output ++ chunk) rest
      (s.took source chunk' chunk) r) :
    Filled maxBytes need eofAllowed output (chunk ++ rest) s r := by
  have hlen : (chunk ++ rest).length = chunk.length + rest.length := length_append
  have htake : (chunk ++ rest).take need = chunk ++ rest.take (need - chunk.length) := by
    rw [take_append, take_of_length_le (by omega)]
  have hdrop : (chunk ++ rest).drop need = rest.drop (need - chunk.length) := by
    rw [drop_append, drop_eq_nil_of_le (by omega), nil_append]
  cases h with
  | tooLarge hmax hobserver =>
    rw [took_consumed] at hmax
    exact .tooLarge (by omega) hobserver
  | filled hmax hle hne hrest =>
    rw [took_consumed] at hmax
    rw [took_took, append_assoc, ← htake]
    exact .filled (by omega) (by omega) hne (by rw [hrest, hdrop])
  | ended hmax hlt' hend =>
    rw [took_consumed] at hmax
    rw [append_assoc] at hend
    rw [took_took]
    exact .ended (by omega) (by omega) hend
  | truncated hmax hlt' hend hobserver =>
    rw [took_consumed] at hmax
    rw [append_assoc] at hend
    exact .truncated (by omega) (by omega) hend hobserver

/-- The chunks make no difference to `fill`: its result is that of the whole rest. -/
theorem fill_filled {length : Nat} (source : List (List UInt8)) :
    ∀ (chunk output : List UInt8) (s : ReadState ω), (∀ next ∈ source, next ≠ []) →
      output.length ≤ length → s.consumed ≤ maxBytes →
      Filled maxBytes (length - output.length) eofAllowed output (chunk ++ source.flatten) s
        (fill maxBytes length eofAllowed source chunk output s) := by
  induction source with
  | nil =>
    intro chunk output s hne hout hbound
    rw [flatten_nil, append_nil]
    by_cases hle : length - output.length ≤ chunk.length
    · rw [fill_of_le hout hle]
      by_cases hmax : maxBytes < s.consumed + (length - output.length)
      · simp only [hmax, if_true]
        exact .tooLarge (by omega) rfl
      · simp only [hmax, if_false]
        exact .filled (by omega) hle hne (append_nil _)
    · rw [fill_of_lt (by omega)]
      by_cases hmax : maxBytes < s.consumed + chunk.length
      · simp only [hmax, if_true]
        exact .tooLarge (by omega) rfl
      simp only [hmax, if_false]
      by_cases hend : ((output ++ chunk).isEmpty && eofAllowed) = true
      · rw [if_pos hend]
        exact .ended (by omega) (by omega) hend
      · rw [if_neg hend]
        exact .truncated (by omega) (by omega) hend rfl
  | cons next source ih =>
    intro chunk output s hne hout hbound
    have hnext : next ≠ [] := hne next mem_cons_self
    have hne' : ∀ next ∈ source, next ≠ [] := fun c hc => hne c (mem_cons_of_mem _ hc)
    rw [flatten_cons]
    have hlen : (chunk ++ (next ++ source.flatten)).length =
        chunk.length + (next.length + source.flatten.length) := by
      rw [length_append, length_append]
    by_cases hle : length - output.length ≤ chunk.length
    · rw [fill_of_le hout hle]
      by_cases hmax : maxBytes < s.consumed + (length - output.length)
      · simp only [hmax, if_true]
        exact .tooLarge (by omega) rfl
      simp only [hmax, if_false]
      rw [← @List.take_append_of_le_length _ chunk (next ++ source.flatten) _ hle]
      refine .filled (by omega) (by omega) hne ?_
      rw [drop_append_of_le_length hle, flatten_cons]
    · rw [fill_of_lt (by omega)]
      by_cases hmax : maxBytes < s.consumed + chunk.length
      · simp only [hmax, if_true]
        exact .tooLarge (by omega) rfl
      simp only [hmax, if_false]
      rw [if_neg (by rwa [List.isEmpty_iff])]
      have hout' : (output ++ chunk).length ≤ length := by
        rw [length_append]
        omega
      have hrec := ih next (output ++ chunk) (s.took (next :: source) [] chunk) hne' hout'
        (by rw [took_consumed]; omega)
      rw [length_append, ← Nat.sub_sub] at hrec
      exact Filled.prepend (by omega) hrec

theorem Filled.agree {need : Nat} {rest : List UInt8}
    {r r' : EStateM.Result ArtifactThrown (ReadState ω) (Option (List UInt8))}
    (hconsumed : t.consumed = s.consumed) (hhashed : t.hashed = s.hashed)
    (hobserver : t.observer = s.observer)
    (h : Filled maxBytes need eofAllowed output rest s r)
    (h' : Filled maxBytes need eofAllowed output rest t r') : AgreeCut maxBytes r r' := by
  have htaken : ∀ {source source' : List (List UInt8)} {chunk chunk' piece : List UInt8},
      (∀ next ∈ source, next ≠ []) → (∀ next ∈ source', next ≠ []) →
      chunk' ++ source'.flatten = chunk ++ source.flatten →
      s.consumed + piece.length ≤ maxBytes →
      Alike maxBytes (s.took source chunk piece) (t.took source' chunk' piece) := by
    intro source source' chunk chunk' piece hne hne' hrest hmax
    have hcons : t.consumed + piece.length = s.consumed + piece.length := by rw [hconsumed]
    refine ⟨⟨hne, hmax⟩, ⟨hne', ?_⟩, hrest, hcons, ?_, hobserver⟩
    · show t.consumed + piece.length ≤ maxBytes
      omega
    · show t.hashed ++ piece = s.hashed ++ piece
      rw [hhashed]
  cases h with
  | tooLarge hmax ho =>
    cases h' with
    | tooLarge _ ho' => exact .error _ (by rw [SameObserver, ho, ho', hobserver])
    | filled hmax' hle => omega
    | ended hmax' hlt => omega
    | truncated hmax' hlt => omega
  | filled hmax hle hne hrest =>
    cases h' with
    | tooLarge hmax' => omega
    | filled _ _ hne' hrest' =>
      refine .ok _ (htaken hne hne' (by rw [hrest, hrest']) ?_)
      rw [length_take]
      omega
    | ended _ hlt => omega
    | truncated _ hlt => omega
  | ended hmax hlt hend =>
    cases h' with
    | tooLarge hmax' => omega
    | filled _ hle => omega
    | ended => exact .ok _ (htaken nofun nofun rfl hmax)
    | truncated _ _ hend' => exact absurd hend hend'
  | truncated hmax hlt hend ho =>
    cases h' with
    | tooLarge hmax' => omega
    | filled _ hle => omega
    | ended _ _ hend' => exact absurd hend' hend
    | truncated _ _ _ ho' => exact .error _ (by rw [SameObserver, ho, ho', hobserver])

/-- `readExact`, from what is still to be read. -/
theorem readExact_filled (length : Nat) (eofAllowed : Bool) (h : s.Proper maxBytes) :
    Filled maxBytes length eofAllowed [] s.rest s (readExact maxBytes length eofAllowed s) :=
  fill_filled s.source s.chunk [] s h.nonempty (Nat.zero_le _) h.bounded

theorem readExact_agree (length : Nat) (eofAllowed : Bool) (h : Alike maxBytes s t) :
    AgreeCut maxBytes (readExact maxBytes length eofAllowed s)
      (readExact maxBytes length eofAllowed t) := by
  have ht := readExact_filled length eofAllowed h.right
  rw [h.rest] at ht
  exact (readExact_filled length eofAllowed h.left).agree h.consumed h.hashed h.observer ht

/-! ## Entries -/

variable {α β : Type}

theorem pure_agree (a : α) (h : Alike maxBytes s t) :
    AgreeCut maxBytes ((pure a : ReadM ω α) s) ((pure a : ReadM ω α) t) := .ok a h

theorem throw_agree (e : ArtifactThrown) (h : Alike maxBytes s t) :
    AgreeCut maxBytes ((throw e : ReadM ω α) s) ((throw e : ReadM ω α) t) := .error e h.observer

theorem tell_agree (call : ω → Except ArtifactThrown Unit × ω) (h : Alike maxBytes s t) :
    AgreeCut maxBytes (tell call s) (tell call t) := by
  unfold tell
  rw [h.observer]
  generalize call s.observer = r
  match r with
  | (.ok (), o) =>
    exact .ok () ⟨⟨h.left.1, h.left.2⟩, ⟨h.right.1, h.right.2⟩, h.rest, h.consumed, h.hashed, rfl⟩
  | (.error e, o) => exact .error e rfl

theorem orAbort_agree (observer : ArtifactReadObserver ω) {m : ReadM ω α}
    (h : AgreeCut maxBytes (m s) (m t)) :
    AgreeCut maxBytes (orAbort observer m s) (orAbort observer m t) := by
  unfold orAbort
  generalize m s = r, m t = r' at h ⊢
  cases h with
  | ok a h => exact .ok a h
  | error e h =>
    rw [SameObserver] at h
    simp only [h]
    generalize observer.abort e _ = r
    match r with
    | (.ok (), o) => exact .error e rfl
    | (.error cleanup, o) => exact .error _ rfl

variable (observer : ArtifactReadObserver ω)

theorem readContents_agree (lengths : List Nat) :
    ∀ {s t : ReadState ω} (contents : List UInt8), Alike maxBytes s t →
      AgreeCut maxBytes (readContents observer maxBytes lengths contents s)
        (readContents observer maxBytes lengths contents t) := by
  induction lengths with
  | nil => exact fun contents h => pure_agree contents h
  | cons length lengths ih =>
    intro s t contents h
    refine (readExact_agree length false h).bind fun read s t h => ?_
    cases read with
    | none => exact throw_agree _ h
    | some chunk =>
      exact (tell_agree (observer.write chunk) h).bind fun _ s t h => ih (contents ++ chunk) h

theorem readPadding_agree (size : Nat) (h : Alike maxBytes s t) :
    AgreeCut maxBytes (readPadding maxBytes size s) (readPadding maxBytes size t) := by
  unfold readPadding
  by_cases hpad : paddingOf size = 0
  · rw [if_pos hpad]
    exact pure_agree _ h
  rw [if_neg hpad]
  refine (readExact_agree (paddingOf size) false h).bind fun read s t h => ?_
  cases read with
  | none => exact throw_agree _ h
  | some padding =>
    by_cases hzero : isZeroBlock padding = true
    · simp only [hzero, if_true]
      exact pure_agree _ h
    · simp only [hzero]
      exact throw_agree _ h

theorem readEntry_agree (path : JsString) (size : Nat) (h : Alike maxBytes s t) :
    AgreeCut maxBytes (readEntry observer maxBytes path size s)
      (readEntry observer maxBytes path size t) := by
  refine (tell_agree _ h).bind fun _ s t h => ?_
  refine (orAbort_agree observer ?_).bind fun contents s t h => ?_
  · refine (readContents_agree observer _ [] h).bind fun contents s t h => ?_
    exact (tell_agree observer.close h).bind fun _ s t h => pure_agree contents h
  · exact (readPadding_agree size h).bind fun _ s t h => pure_agree contents h

/-! ## The loop over the archive -/

variable (platform : ArtifactPlatform) (maxEntries maxEntryBytes : Nat)

theorem orThrow_agree (r : Except ArtifactThrown α) (h : Alike maxBytes s t) :
    AgreeCut maxBytes (orThrow r s) (orThrow r t) := by
  cases r with
  | ok a => exact pure_agree a h
  | error e => exact throw_agree e h

theorem scanBlock_agree (scan : ArchiveScan) (h : Alike maxBytes s t) :
    AgreeCut maxBytes (scanBlock platform observer maxBytes maxEntries maxEntryBytes scan s)
      (scanBlock platform observer maxBytes maxEntries maxEntryBytes scan t) := by
  refine (readExact_agree tarBlockSize true h).bind fun read s t h => ?_
  cases read with
  | none => exact throw_agree _ h
  | some header =>
    by_cases hzero : isZeroBlock header = true
    · simp only [hzero, if_true]
      exact pure_agree _ h
    simp only [hzero]
    by_cases hcount : scan.zeroBlocks ≠ 0
    · rw [if_pos hcount]
      exact throw_agree _ h
    rw [if_neg hcount]
    refine (orThrow_agree _ h).bind fun parsed s t h => ?_
    refine (orThrow_agree _ h).bind fun collisionKey s t h => ?_
    exact (readEntry_agree observer _ _ h).bind fun contents s t h => pure_agree _ h

end Chunks

end TegoNext
