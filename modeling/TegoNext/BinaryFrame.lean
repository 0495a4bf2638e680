/-
Binary frames of the worker protocol.

A chunk is written as a header of sixteen bytes, the correlation as UTF-8 and the payload. The
header has two bytes for the length of the correlation and four each for index, count and length of
the payload; a limit may allow more than they hold. The text decoder skips a byte order mark at the
start, so a frame with a mark before the correlation reads as the frame without it.
-/
import TegoNext.Bytes
import TegoNext.EffectIdentity
import TegoNext.PermissionReading
import TegoNext.WorkerSession

set_option autoImplicit false

namespace TegoNext

open Text List

/-! ## Limits -/

/-- `WorkerProtocolLimitOverrides`. A fraction fails the test like what is not positive. -/
structure WorkerProtocolLimitOverrides where
  maxFrameBytes : Option Int
  maxBinaryBytes : Option Int
  maxBinaryChunks : Option Int
  maxPendingCorrelations : Option Int
  maxInflightMessages : Option Int
  maxSequenceGap : Option Int
  replayRetention : Option Int

/-- `positiveInteger`, with the message of its `RangeError`. -/
def positiveInteger (value : Int) (name : String) : Except String { n : Nat // 0 < n } :=
  if h : 0 < value ∧ value ≤ maxSafeInteger then .ok ⟨value.toNat, by omega⟩
  else .error (name ++ " must be a positive safe integer")

def defaultWorkerProtocolLimits : WorkerProtocolLimits where
  maxFrameBytes := 64 * 1024
  maxBinaryBytes := 8 * 1024 * 1024
  maxBinaryChunks := 256
  maxPendingCorrelations := 32
  maxInflightMessages := 128
  maxSequenceGap := 32
  replayRetention := 1024
  replayRetention_pos := by decide

def normalizeLimits (overrides : WorkerProtocolLimitOverrides) :
    Except String WorkerProtocolLimits := do
  let defaults := defaultWorkerProtocolLimits
  let maxFrameBytes ←
    positiveInteger (overrides.maxFrameBytes.getD defaults.maxFrameBytes) "maxFrameBytes"
  let maxBinaryBytes ←
    positiveInteger (overrides.maxBinaryBytes.getD defaults.maxBinaryBytes) "maxBinaryBytes"
  let maxBinaryChunks ←
    positiveInteger (overrides.maxBinaryChunks.getD defaults.maxBinaryChunks) "maxBinaryChunks"
  let maxPendingCorrelations ← positiveInteger
    (overrides.maxPendingCorrelations.getD defaults.maxPendingCorrelations) "maxPendingCorrelations"
  let maxInflightMessages ← positiveInteger
    (overrides.maxInflightMessages.getD defaults.maxInflightMessages) "maxInflightMessages"
  let maxSequenceGap ←
    positiveInteger (overrides.maxSequenceGap.getD defaults.maxSequenceGap) "maxSequenceGap"
  let replayRetention ←
    positiveInteger (overrides.replayRetention.getD defaults.replayRetention) "replayRetention"
  pure
    { maxFrameBytes := maxFrameBytes
      maxBinaryBytes := maxBinaryBytes
      maxBinaryChunks := maxBinaryChunks
      maxPendingCorrelations := maxPendingCorrelations
      maxInflightMessages := maxInflightMessages
      maxSequenceGap := maxSequenceGap
      replayRetention := replayRetention
      replayRetention_pos := replayRetention.property }

/-! ## The codec -/

def binaryHeaderBytes : Nat := 16

def binaryMagic : UInt8 := 0x54

def binaryVersion : UInt8 := 1

def parseMessageId (value : JsString) : Except SessionThrown PortableId :=
  match parseIdentity value with
  | some id => .ok id
  | none => .error (diagnosticError .PROTOCOL_IDENTITY_INVALID
      "MessageId must be a non-empty portable identifier")

/-- `Number.isSafeInteger` of an integer. -/
def isSafeInteger (n : Int) : Bool := n.natAbs ≤ maxSafeInteger

/-- The bytes of a frame: a data view writes what fits into a field of the header. -/
def frameBytes (correlation : List UInt8) (chunkIndex totalChunks : Nat) (payload : List UInt8) :
    List UInt8 :=
  binaryMagic :: binaryVersion :: (numberBytes 2 correlation.length ++
    (numberBytes 4 chunkIndex ++ (numberBytes 4 totalChunks ++
      (numberBytes 4 payload.length ++ (correlation ++ payload)))))

/-- `encodeBinary`, of the fields of a chunk. -/
def encodeBinary (limits : WorkerProtocolLimits) (correlationId : JsString)
    (chunkIndex totalChunks : Int) (payload : List UInt8) : Except SessionThrown (List UInt8) := do
  let correlation := encodeText correlationId
  let _ ← parseMessageId correlationId
  if correlation.length = 0 ∨ 0xffff < correlation.length ∨ isSafeInteger chunkIndex = false ∨
      chunkIndex < 0 ∨ isSafeInteger totalChunks = false ∨ totalChunks ≤ 0 ∨
      limits.maxBinaryChunks < totalChunks ∨ totalChunks ≤ chunkIndex ∨
      limits.maxBinaryBytes < payload.length then
    throw (diagnosticError .PROTOCOL_BINARY_INVALID "Worker binary chunk metadata is invalid")
  if limits.maxFrameBytes < binaryHeaderBytes + correlation.length + payload.length then
    throw (diagnosticError .PROTOCOL_FRAME_TOO_LARGE
      "Worker binary frame exceeds the configured byte limit")
  pure (frameBytes correlation chunkIndex.toNat totalChunks.toNat payload)

/-- `getUint16` and `getUint32`. -/
def getNumber (frame : List UInt8) (offset width : Nat) : Nat :=
  bytesNumber ((frame.drop offset).take width)

/-- The bytes of the correlation, by the length in the header. -/
def correlationOf (frame : List UInt8) : List UInt8 :=
  (frame.drop binaryHeaderBytes).take (getNumber frame 2 2)

def decodeBinary (limits : WorkerProtocolLimits) (frame : List UInt8) :
    Except SessionThrown WorkerBinaryChunk := do
  if limits.maxFrameBytes < frame.length then
    throw (diagnosticError .PROTOCOL_FRAME_TOO_LARGE
      "Worker binary frame exceeds the configured byte limit")
  if frame.length < binaryHeaderBytes then
    throw (diagnosticError .PROTOCOL_BINARY_INVALID "Worker binary frame is truncated")
  if frame[0]? ≠ some binaryMagic ∨ frame[1]? ≠ some binaryVersion then
    throw (diagnosticError .PROTOCOL_BINARY_INVALID "Worker binary frame header is invalid")
  let correlationBytes := getNumber frame 2 2
  let chunkIndex := getNumber frame 4 4
  let totalChunks := getNumber frame 8 4
  let payloadBytes := getNumber frame 12 4
  if correlationBytes = 0 ∨ totalChunks = 0 ∨ limits.maxBinaryChunks < totalChunks ∨
      totalChunks ≤ chunkIndex ∨ limits.maxBinaryBytes < payloadBytes ∨
      binaryHeaderBytes + correlationBytes + payloadBytes ≠ frame.length then
    throw (diagnosticError .PROTOCOL_BINARY_INVALID "Worker binary frame lengths are invalid")
  match decodeText (correlationOf frame) with
  | none => throw (diagnosticError .PROTOCOL_BINARY_INVALID
      "Worker binary correlation identity is not UTF-8")
  | some correlationId => do
    let _ ← parseMessageId correlationId
    pure ⟨correlationId, chunkIndex, totalChunks, frame.drop (binaryHeaderBytes + correlationBytes)⟩

/-! ## Identifiers -/

theorem parseMessageId_eq_ok {value : JsString} {id : PortableId} :
    parseMessageId value = .ok id ↔ id.text = value := by
  rw [parseMessageId]
  constructor
  · intro h
    cases hid : parseIdentity value with
    | none => simp [hid] at h
    | some found =>
      rw [hid] at h
      rw [parseIdentity] at hid
      split at hid
      · cases hid
        cases h
        rfl
      · cases hid
  · rintro rfl
    rw [parseIdentity_text]

theorem isNameUnit_lt {u : UInt16} (h : isNameUnit u = true) : u < 128 := by
  simp only [isNameUnit, isAlphanumeric, isDigit, Bool.or_eq_true, Bool.and_eq_true,
    decide_eq_true_eq, beq_iff_eq] at h
  rcases h with ((((⟨-, h⟩ | ⟨-, h⟩) | ⟨-, h⟩) | rfl) | rfl) | rfl
  · exact UInt16.lt_of_le_of_lt h (by decide)
  · exact UInt16.lt_of_le_of_lt h (by decide)
  · exact UInt16.lt_of_le_of_lt h (by decide)
  · decide
  · decide
  · decide

theorem isPortableName_spec {s : JsString} (h : isPortableName s = true) :
    isAscii s = true ∧ 0 < s.length ∧ s.length ≤ 128 := by
  cases s with
  | nil => cases h
  | cons u rest =>
    simp only [isPortableName, Bool.and_eq_true, decide_eq_true_eq, all_eq_true] at h
    refine ⟨?_, by simp, by rw [length_cons]; omega⟩
    apply all_eq_true.mpr
    intro v hv
    rw [decide_eq_true_eq]
    rcases mem_cons.mp hv with rfl | hv
    · exact isNameUnit_lt (by simp [isNameUnit, h.1.1])
    · exact isNameUnit_lt (h.2 v hv)

theorem encodeText_of_isPortableName {s : JsString} (h : isPortableName s = true) :
    encodeText s = s.map asciiByte :=
  encodeText_of_isAscii (isPortableName_spec h).1

theorem length_encodeText {s : JsString} (h : isPortableName s = true) :
    (encodeText s).length = s.length := by
  rw [encodeText_of_isPortableName h, length_map]

/-! ## Frames -/

section Frames

variable (correlation : List UInt8) (chunkIndex totalChunks : Nat) (payload : List UInt8)

@[simp] theorem length_frameBytes :
    (frameBytes correlation chunkIndex totalChunks payload).length =
      binaryHeaderBytes + correlation.length + payload.length := by
  simp only [frameBytes, length_cons, length_append, length_numberBytes, binaryHeaderBytes]
  omega

theorem getNumber_correlation :
    getNumber (frameBytes correlation chunkIndex totalChunks payload) 2 2 =
      correlation.length % 65536 :=
  bytesNumber_numberBytes 2 correlation.length

theorem getNumber_chunkIndex :
    getNumber (frameBytes correlation chunkIndex totalChunks payload) 4 4 =
      chunkIndex % 4294967296 :=
  bytesNumber_numberBytes 4 chunkIndex

theorem getNumber_totalChunks :
    getNumber (frameBytes correlation chunkIndex totalChunks payload) 8 4 =
      totalChunks % 4294967296 :=
  bytesNumber_numberBytes 4 totalChunks

theorem getNumber_payload :
    getNumber (frameBytes correlation chunkIndex totalChunks payload) 12 4 =
      payload.length % 4294967296 :=
  bytesNumber_numberBytes 4 payload.length

theorem drop_frameBytes (n : Nat) :
    (frameBytes correlation chunkIndex totalChunks payload).drop (binaryHeaderBytes + n) =
      (correlation ++ payload).drop n := by
  rw [← drop_drop]
  rfl

theorem correlationOf_frameBytes (hshort : correlation.length < 65536) :
    correlationOf (frameBytes correlation chunkIndex totalChunks payload) = correlation := by
  rw [correlationOf, getNumber_correlation, Nat.mod_eq_of_lt hshort,
    ← Nat.add_zero binaryHeaderBytes, drop_frameBytes, drop_zero, take_left]

end Frames

theorem getNumber_lt (frame : List UInt8) (offset width : Nat) :
    getNumber frame offset width < 256 ^ width := by
  apply Nat.lt_of_lt_of_le (bytesNumber_lt _)
  apply Nat.pow_le_pow_right (by decide)
  rw [length_take]
  omega

variable {frame : List UInt8}

theorem length_parts
    (hsize : binaryHeaderBytes + getNumber frame 2 2 + getNumber frame 12 4 = frame.length) :
    (correlationOf frame).length = getNumber frame 2 2 ∧
      (frame.drop (binaryHeaderBytes + getNumber frame 2 2)).length = getNumber frame 12 4 := by
  rw [correlationOf, length_take, length_drop, length_drop]
  omega

theorem eq_frameBytes (hlength : binaryHeaderBytes ≤ frame.length)
    (hmagic : frame[0]? = some binaryMagic) (hversion : frame[1]? = some binaryVersion)
    (hsize : binaryHeaderBytes + getNumber frame 2 2 + getNumber frame 12 4 = frame.length) :
    frame = frameBytes (correlationOf frame) (getNumber frame 4 4) (getNumber frame 8 4)
      (frame.drop (binaryHeaderBytes + getNumber frame 2 2)) := by
  obtain ⟨hcorrelation, hpayload⟩ := length_parts hsize
  -- a field of the header is written as it was read
  have hnumber : ∀ {offset width}, offset + width ≤ binaryHeaderBytes →
      numberBytes width (getNumber frame offset width) = (frame.drop offset).take width := by
    intro offset width hwithin
    have hwidth : ((frame.drop offset).take width).length = width := by
      rw [length_take, length_drop]
      omega
    have hbytes := numberBytes_bytesNumber ((frame.drop offset).take width)
    rwa [hwidth] at hbytes
  -- and the fields stand one behind the other
  have hjoin : ∀ offset width,
      (frame.drop offset).take width ++ frame.drop (offset + width) = frame.drop offset := by
    intro offset width
    rw [← drop_drop, take_append_drop]
  rw [frameBytes, hcorrelation, hpayload, hnumber (by decide), hnumber (by decide),
    hnumber (by decide), hnumber (by decide), correlationOf, hjoin, binaryHeaderBytes, hjoin 12 4,
    hjoin 8 4, hjoin 4 4, hjoin 2 2]
  match frame, hmagic, hversion with
  | _ :: _ :: rest, rfl, rfl => rfl

/-! ## What the codec accepts -/

variable {limits : WorkerProtocolLimits}

theorem encodeBinary_eq_ok {correlationId : JsString}
    {chunkIndex totalChunks : Int} {payload : List UInt8} :
    encodeBinary limits correlationId chunkIndex totalChunks payload = .ok frame ↔
      isPortableName correlationId = true ∧ isSafeInteger totalChunks = true ∧ 0 ≤ chunkIndex ∧
      chunkIndex < totalChunks ∧ totalChunks ≤ limits.maxBinaryChunks ∧
      payload.length ≤ limits.maxBinaryBytes ∧ frame.length ≤ limits.maxFrameBytes ∧
      frame = frameBytes (encodeText correlationId) chunkIndex.toNat totalChunks.toNat payload := by
  simp only [encodeBinary, bind_eq_ok, parseMessageId_eq_ok, guard_bind_eq_ok, pure_eq_ok]
  constructor
  · rintro ⟨id, rfl, hmetadata, hsize, rfl⟩
    rw [length_frameBytes]
    simp only [not_or, not_lt, not_le, Bool.not_eq_false] at hmetadata hsize
    obtain ⟨-, -, -, hindex, htotal, -, hchunks, hlt, hpayload⟩ := hmetadata
    exact ⟨id.portable, htotal, hindex, hlt, hchunks, hpayload, hsize, rfl⟩
  · rintro ⟨hname, htotal, hindex, hlt, hchunks, hpayload, hsize, rfl⟩
    obtain ⟨-, hpos, hlong⟩ := isPortableName_spec hname
    have hlength := length_encodeText hname
    rw [length_frameBytes] at hsize
    have hsafe : isSafeInteger chunkIndex = true := by
      rw [isSafeInteger, decide_eq_true_eq] at htotal ⊢
      omega
    refine ⟨⟨correlationId, hname⟩, rfl, ?_, by omega, rfl⟩
    simp only [hsafe, htotal, hlength, Bool.true_eq_false, false_or]
    omega

theorem decodeBinary_eq_ok {chunk : WorkerBinaryChunk} :
    decodeBinary limits frame = .ok chunk ↔
      ∃ correlation, frame = frameBytes correlation chunk.chunkIndex chunk.totalChunks chunk.payload ∧
        decodeText correlation = some chunk.correlationId ∧
        isPortableName chunk.correlationId = true ∧ 0 < correlation.length ∧
        correlation.length < 65536 ∧ chunk.chunkIndex < chunk.totalChunks ∧
        chunk.totalChunks < 4294967296 ∧ chunk.payload.length < 4294967296 ∧
        chunk.totalChunks ≤ limits.maxBinaryChunks ∧
        chunk.payload.length ≤ limits.maxBinaryBytes ∧ frame.length ≤ limits.maxFrameBytes := by
  constructor
  · intro h
    simp only [decodeBinary, guard_bind_eq_ok] at h
    obtain ⟨hframe, hheader, hstart, hlengths, h⟩ := h
    cases htext : decodeText (correlationOf frame) with
    | none => simp [htext] at h
    | some correlationId =>
      simp only [htext, bind_eq_ok, parseMessageId_eq_ok, pure_eq_ok] at h
      obtain ⟨id, rfl, rfl⟩ := h
      simp only [not_or, not_lt, not_le, ne_eq, not_not] at hframe hheader hstart hlengths
      obtain ⟨hpos, -, hchunks, hlt, hpayload, hsize⟩ := hlengths
      obtain ⟨hcorrelation, hrest⟩ := length_parts hsize
      refine ⟨correlationOf frame, eq_frameBytes hheader hstart.1 hstart.2 hsize, htext,
        id.portable, ?_⟩
      rw [hcorrelation, hrest]
      exact ⟨by omega, getNumber_lt frame 2 2, hlt, getNumber_lt frame 8 4,
        getNumber_lt frame 12 4, hchunks, hpayload, hframe⟩
  · rintro ⟨correlation, rfl, htext, hname, hpos, hshort, hlt, htotal, hlong, hchunks, hpayload,
      hframe⟩
    -- the numbers are below the widths of their fields, and so they are read as written
    have hcorrelation : getNumber (frameBytes correlation chunk.chunkIndex chunk.totalChunks
        chunk.payload) 2 2 = correlation.length := by
      rw [getNumber_correlation, Nat.mod_eq_of_lt hshort]
    have hindex : getNumber (frameBytes correlation chunk.chunkIndex chunk.totalChunks
        chunk.payload) 4 4 = chunk.chunkIndex := by
      rw [getNumber_chunkIndex, Nat.mod_eq_of_lt (hlt.trans htotal)]
    have hcount : getNumber (frameBytes correlation chunk.chunkIndex chunk.totalChunks
        chunk.payload) 8 4 = chunk.totalChunks := by
      rw [getNumber_totalChunks, Nat.mod_eq_of_lt htotal]
    have hbytes : getNumber (frameBytes correlation chunk.chunkIndex chunk.totalChunks
        chunk.payload) 12 4 = chunk.payload.length := by
      rw [getNumber_payload, Nat.mod_eq_of_lt hlong]
    simp only [decodeBinary, guard_bind_eq_ok, hcorrelation, hindex, hcount, hbytes,
      correlationOf_frameBytes _ _ _ _ hshort, htext, bind_eq_ok, parseMessageId_eq_ok, pure_eq_ok,
      drop_frameBytes, drop_left]
    refine ⟨by omega, ?_, ?_, ?_, ⟨chunk.correlationId, hname⟩, rfl, trivial⟩
    · rw [length_frameBytes]
      omega
    · rintro (hmagic | hversion)
      · exact hmagic rfl
      · exact hversion rfl
    · rw [length_frameBytes]
      omega

theorem frameBytes_inj {correlation correlation' payload payload' : List UInt8}
    {chunkIndex chunkIndex' totalChunks totalChunks' : Nat}
    (h : frameBytes correlation chunkIndex totalChunks payload =
      frameBytes correlation' chunkIndex' totalChunks' payload')
    (hshort : correlation.length < 65536) (hshort' : correlation'.length < 65536) :
    correlation = correlation' ∧ chunkIndex % 4294967296 = chunkIndex' % 4294967296 ∧
      totalChunks % 4294967296 = totalChunks' % 4294967296 ∧ payload = payload' := by
  have hcorrelation := congrArg (getNumber · 2 2) h
  have hindex := congrArg (getNumber · 4 4) h
  have htotal := congrArg (getNumber · 8 4) h
  have hrest := congrArg (List.drop (binaryHeaderBytes + 0)) h
  simp only [getNumber_correlation, getNumber_chunkIndex, getNumber_totalChunks,
    drop_frameBytes, drop_zero] at hcorrelation hindex htotal hrest
  rw [Nat.mod_eq_of_lt hshort, Nat.mod_eq_of_lt hshort'] at hcorrelation
  obtain ⟨hcorrelation', hpayload⟩ := append_inj hrest hcorrelation
  exact ⟨hcorrelation', hindex, htotal, hpayload⟩

/-! ## Round trips -/

def DecodesTo (limits : WorkerProtocolLimits) (frame : List UInt8) (correlationId : JsString)
    (chunkIndex totalChunks : Int) (payload : List UInt8) : Prop :=
  ∃ chunk, decodeBinary limits frame = .ok chunk ∧ chunk.correlationId = correlationId ∧
    (chunk.chunkIndex : Int) = chunkIndex ∧ (chunk.totalChunks : Int) = totalChunks ∧
    chunk.payload = payload

/-- **Encoding and decoding.** A chunk comes back exactly when its count and the length of its
payload fit into the header. -/
theorem decodeBinary_encodeBinary {correlationId : JsString}
    {chunkIndex totalChunks : Int} {payload frame : List UInt8}
    (h : encodeBinary limits correlationId chunkIndex totalChunks payload = .ok frame) :
    DecodesTo limits frame correlationId chunkIndex totalChunks payload ↔
      totalChunks < 4294967296 ∧ payload.length < 4294967296 := by
  obtain ⟨hname, -, hindex, hlt, hchunks, hpayload, hsize, rfl⟩ := encodeBinary_eq_ok.mp h
  obtain ⟨hascii, hpos, hlong⟩ := isPortableName_spec hname
  have hlength := length_encodeText hname
  constructor
  · -- whatever is decoded fits into the header
    rintro ⟨chunk, hdecode, -, -, rfl, rfl⟩
    obtain ⟨correlation, -, -, -, -, -, -, htotal, hbytes, -⟩ := decodeBinary_eq_ok.mp hdecode
    exact ⟨by omega, hbytes⟩
  · rintro ⟨htotal, hbytes⟩
    refine ⟨⟨correlationId, chunkIndex.toNat, totalChunks.toNat, payload⟩, ?_, rfl,
      Int.toNat_of_nonneg hindex, Int.toNat_of_nonneg (hindex.trans hlt.le), rfl⟩
    apply decodeBinary_eq_ok.mpr
    refine ⟨encodeText correlationId, rfl, ?_, hname, by omega, by omega, ?_, ?_, hbytes, ?_,
      hpayload, hsize⟩
    · rw [encodeText_of_isPortableName hname, decodeText_of_isAscii hascii]
    · dsimp only
      omega
    · dsimp only
      omega
    · dsimp only
      omega

/-- The second of two chunks comes back. -/
theorem decodeBinary_encodeBinary_second :
    DecodesTo defaultWorkerProtocolLimits (frameBytes (encodeText (js "m1")) 1 2 [7, 8, 9])
      (js "m1") 1 2 [7, 8, 9] := by
  have hencode : encodeBinary defaultWorkerProtocolLimits (js "m1") 1 2 [7, 8, 9] =
      .ok (frameBytes (encodeText (js "m1")) 1 2 [7, 8, 9]) := encodeBinary_eq_ok.mpr
    ⟨by decide, by decide, by decide, by decide, by decide, by decide, by decide, rfl⟩
  exact (decodeBinary_encodeBinary hencode).mpr ⟨by decide, by decide⟩

/-- A limit above what the header holds is accepted, and with it a chunk that does not come
back: the last of 2³² + 1 is written as the first and only one. -/
theorem encodeBinary_cutsOff :
    ∃ limits, normalizeLimits
        ⟨none, none, some 4294967297, none, none, none, none⟩ = .ok limits ∧
      ∃ frame, encodeBinary limits (js "m1") 4294967296 4294967297 [7] = .ok frame ∧
        decodeBinary limits frame = .ok ⟨js "m1", 0, 1, [7]⟩ ∧
        ¬DecodesTo limits frame (js "m1") 4294967296 4294967297 [7] := by
  refine ⟨{ defaultWorkerProtocolLimits with maxBinaryChunks := 4294967297 }, rfl,
    frameBytes (encodeText (js "m1")) 4294967296 4294967297 [7], ?_, ?_, ?_⟩
  · exact encodeBinary_eq_ok.mpr
      ⟨by decide, by decide, by decide, by decide, by decide, by decide, by decide, rfl⟩
  · exact decodeBinary_eq_ok.mpr ⟨encodeText (js "m1"), by decide, by decide, by decide,
      by decide, by decide, by decide, by decide, by decide, by decide, by decide, by decide⟩
  · rintro ⟨chunk, hdecode, -, -, htotal, -⟩
    obtain ⟨_, -, -, -, -, -, -, hlt, -⟩ := decodeBinary_eq_ok.mp hdecode
    omega

def hasMark (frame : List UInt8) : Bool := byteOrderMark.isPrefixOf (correlationOf frame)

theorem hasMark_frameBytes {correlation payload : List UInt8} {chunkIndex totalChunks : Nat}
    (hshort : correlation.length < 65536) :
    hasMark (frameBytes correlation chunkIndex totalChunks payload) =
      byteOrderMark.isPrefixOf correlation := by
  rw [hasMark, correlationOf_frameBytes _ _ _ _ hshort]

theorem correlation_eq {correlation : List UInt8} {correlationId : JsString}
    (htext : decodeText correlation = some correlationId)
    (hname : isPortableName correlationId = true) :
    correlation = if byteOrderMark.isPrefixOf correlation then
      byteOrderMark ++ encodeText correlationId else encodeText correlationId := by
  obtain ⟨hascii, -, -⟩ := isPortableName_spec hname
  rw [decodeText] at htext
  rw [encodeText_of_isAscii hascii]
  split at htext
  · next hmark =>
    rw [if_pos hmark, ← eq_of_decodeUtf8 htext hascii]
    obtain ⟨rest, hrest⟩ := isPrefixOf_iff_prefix.mp hmark
    rw [← hrest]
    rfl
  · next hmark => rw [if_neg hmark, eq_of_decodeUtf8 htext hascii]

/-- **Decoding and encoding.** An accepted frame is what its chunk is encoded as, exactly when no
byte order mark stands before its correlation; and accepted frames of one chunk differ at most
by this mark. -/
theorem encodeBinary_decodeBinary {frame : List UInt8}
    {chunk : WorkerBinaryChunk} (h : decodeBinary limits frame = .ok chunk) :
    (encodeBinary limits chunk.correlationId chunk.chunkIndex chunk.totalChunks chunk.payload =
        .ok frame ↔ hasMark frame = false) ∧
      ∀ frame', decodeBinary limits frame' = .ok chunk →
        (frame' = frame ↔ hasMark frame' = hasMark frame) := by
  obtain ⟨correlation, hframe, htext, hname, hpos, hshort, hlt, htotal, -, hchunks, hpayload,
    hsize⟩ := decodeBinary_eq_ok.mp h
  have hmark : hasMark frame = byteOrderMark.isPrefixOf correlation := by
    rw [hframe, hasMark_frameBytes hshort]
  have hcorrelation := correlation_eq htext hname
  obtain ⟨-, -, hlong⟩ := isPortableName_spec hname
  have hlength := length_encodeText hname
  constructor
  · constructor
    · intro hencode
      obtain ⟨-, -, -, -, -, -, -, hframe'⟩ := encodeBinary_eq_ok.mp hencode
      rw [hframe] at hframe'
      obtain ⟨heq, -⟩ := frameBytes_inj hframe' hshort (by omega)
      rw [hmark, ← Bool.not_eq_true]
      intro hstarts
      -- with the mark the correlation is longer than what is written
      rw [if_pos hstarts, heq] at hcorrelation
      have hle := congrArg List.length hcorrelation
      rw [length_append, byteOrderMark] at hle
      simp at hle
    · intro hnone
      rw [hmark] at hnone
      rw [hnone, if_neg (by decide)] at hcorrelation
      apply encodeBinary_eq_ok.mpr
      refine ⟨hname, ?_, by omega, by omega, by omega, hpayload, hsize, ?_⟩
      · rw [isSafeInteger, decide_eq_true_eq, maxSafeInteger]
        omega
      · rw [← hcorrelation, Int.toNat_natCast, Int.toNat_natCast, hframe]
  · -- the chunk and the mark give the correlation, and with it the frame
    intro frame' h'
    obtain ⟨correlation', hframe', htext', -, -, hshort', -⟩ := decodeBinary_eq_ok.mp h'
    have hmark' : hasMark frame' = byteOrderMark.isPrefixOf correlation' := by
      rw [hframe', hasMark_frameBytes hshort']
    have hcorrelation' := correlation_eq htext' hname
    constructor
    · rintro rfl
      rfl
    · intro hsame
      rw [hmark, hmark'] at hsame
      rw [hsame, ← hcorrelation] at hcorrelation'
      rw [hframe, hframe', hcorrelation']

/-- A frame as the encoder writes it is encoded as itself. -/
theorem encodeBinary_decodeBinary_single :
    encodeBinary defaultWorkerProtocolLimits (js "m1") 0 1 [7] =
      .ok (frameBytes (encodeText (js "m1")) 0 1 [7]) := by
  have hdecode : decodeBinary defaultWorkerProtocolLimits
      (frameBytes (encodeText (js "m1")) 0 1 [7]) = .ok ⟨js "m1", 0, 1, [7]⟩ :=
    decodeBinary_eq_ok.mpr ⟨encodeText (js "m1"), rfl, by decide, by decide, by decide, by decide,
      by decide, by decide, by decide, by decide, by decide, by decide⟩
  exact (encodeBinary_decodeBinary hdecode).1.mpr (by decide)

/-- A byte order mark before the correlation is accepted and lost: two frames read as one chunk. -/
theorem decodeBinary_acceptsMark :
    ∃ frame frame' chunk, frame ≠ frame' ∧
      decodeBinary defaultWorkerProtocolLimits frame = .ok chunk ∧
      decodeBinary defaultWorkerProtocolLimits frame' = .ok chunk ∧
      encodeBinary defaultWorkerProtocolLimits chunk.correlationId chunk.chunkIndex
        chunk.totalChunks chunk.payload = .ok frame' := by
  refine ⟨frameBytes (byteOrderMark ++ encodeText (js "m1")) 0 1 [7],
    frameBytes (encodeText (js "m1")) 0 1 [7], ⟨js "m1", 0, 1, [7]⟩, by decide, ?_, ?_, ?_⟩
  · exact decodeBinary_eq_ok.mpr ⟨byteOrderMark ++ encodeText (js "m1"), rfl, by decide, by decide,
      by decide, by decide, by decide, by decide, by decide, by decide, by decide, by decide⟩
  · exact decodeBinary_eq_ok.mpr ⟨encodeText (js "m1"), rfl, by decide, by decide, by decide,
      by decide, by decide, by decide, by decide, by decide, by decide, by decide⟩
  · exact encodeBinary_eq_ok.mpr
      ⟨by decide, by decide, by decide, by decide, by decide, by decide, by decide, rfl⟩

end TegoNext
