/-
Frames between the process executor and its child: four bytes of length, then JSON in UTF-8.

`ProcessFrameDecoder` keeps what it has of a header or a payload from one chunk to the next. Over
it stands the reading of the bytes one by one, which knows nothing of chunks (`round_spec`). When
it throws, a push gives up the values that the same chunk held before. `JSON.parse` is a parameter.
-/
import TegoNext.Bytes
import TegoNext.ProcessChannel

set_option autoImplicit false

namespace TegoNext

open Text List
open ProcessChannel (maxFrameBytes)

namespace ProcessFraming

structure FramingError where
  code : String
  message : String
  deriving DecidableEq

def lengthInvalid : FramingError :=
  ⟨"PROTOCOL_PROCESS_FRAME_LENGTH_INVALID", "Process frame length exceeds the configured limit"⟩

def invalidUtf8 : FramingError :=
  ⟨"PROTOCOL_PROCESS_FRAME_INVALID", "Process frame is not valid UTF-8"⟩

def invalidJson : FramingError :=
  ⟨"PROTOCOL_PROCESS_FRAME_INVALID", "Process frame is not valid JSON"⟩

def complexityExceeded : FramingError :=
  ⟨"PROTOCOL_PROCESS_FRAME_COMPLEXITY_EXCEEDED",
    "Process frame exceeds the configured depth or node limit"⟩

def truncated : FramingError :=
  ⟨"PROTOCOL_PROCESS_FRAME_TRUNCATED", "Process frame ended before completion"⟩

/-- `PROCESS_EXECUTOR_MAX_FRAME_DEPTH`. -/
def maxFrameDepth : Nat := 64

/-- `PROCESS_EXECUTOR_MAX_FRAME_NODES`. -/
def maxFrameNodes : Nat := 100000

/-- What the loop of `validateComplexity` pushes. -/
def children : JsonValue → List JsonValue
  | .array items => items
  | .object fields => fields.map (·.2)
  | _ => []

/-- `validateComplexity`, with the number of nodes that may still come; the value popped next
comes first. -/
def validateComplexity : (left : Nat) → List (JsonValue × Nat) → Bool
  | _, [] => true
  | 0, _ :: _ => false
  | left + 1, (value, depth) :: pending =>
    decide (depth ≤ maxFrameDepth) && validateComplexity left
      (((children value).map fun child => (child, depth + 1)).reverse ++ pending)

/-- The header, as far as it is there, and the length and the bytes of the payload. -/
structure ProcessFrameDecoder where
  header : List UInt8
  payload : Option (Nat × List UInt8)

namespace ProcessFrameDecoder

def initial : ProcessFrameDecoder := ⟨[], none⟩

variable (parse : JsString → Option JsonValue)

def decodePayload (payload : List UInt8) : Except FramingError JsonValue :=
  match decodeText payload with
  | none => .error invalidUtf8
  | some text =>
    match parse text with
    | none => .error invalidJson
    | some value =>
      if validateComplexity maxFrameNodes [(value, 0)] then .ok value
      else .error complexityExceeded

/-- The part of the loop body that copies into the payload: the value, if it is complete, and
what is left of the chunk. -/
def fill (length : Nat) (payload input : List UInt8) :
    Except FramingError (Option JsonValue × ProcessFrameDecoder × List UInt8) :=
  let payloadBytes := min (length - payload.length) input.length
  let payload := payload ++ input.take payloadBytes
  if payload.length < length then .ok (none, ⟨[], some (length, payload)⟩, input.drop payloadBytes)
  else (decodePayload parse payload).map fun value => (some value, initial, input.drop payloadBytes)

variable (d : ProcessFrameDecoder)

/-- One pass through the loop of `push`. -/
def round (input : List UInt8) :
    Except FramingError (Option JsonValue × ProcessFrameDecoder × List UInt8) :=
  match d.payload with
  | some (length, payload) => fill parse length payload input
  | none =>
    let headerBytes := min (4 - d.header.length) input.length
    let header := d.header ++ input.take headerBytes
    if header.length < 4 then .ok (none, ⟨header, none⟩, input.drop headerBytes)
    else if bytesNumber header = 0 ∨ maxFrameBytes < bytesNumber header then .error lengthInvalid
    else fill parse (bytesNumber header) [] (input.drop headerBytes)

/-- The loop of `push`; every pass takes at least one byte. -/
def pushLoop : (rounds : Nat) → ProcessFrameDecoder → List UInt8 → List JsonValue →
    Except FramingError (List JsonValue × ProcessFrameDecoder)
  | _, d, [], values => .ok (values, d)
  | 0, d, _, values => .ok (values, d)
  | rounds + 1, d, input, values =>
    match d.round parse input with
    | .error e => .error e
    | .ok (value, d, input) => pushLoop rounds d input (values ++ value.toList)

def push (chunk : List UInt8) : Except FramingError (List JsonValue × ProcessFrameDecoder) :=
  pushLoop parse chunk.length d chunk []

/-- `finish`; `none` when it does not throw. -/
def finish : Option FramingError :=
  if d.header ≠ [] ∨ d.payload.isSome then some truncated else none

/-- The chunks of a stream are pushed one after the other, up to the first error. -/
def deliver : ProcessFrameDecoder → List (List UInt8) → List JsonValue × Option FramingError
  | d, [] => ([], d.finish)
  | d, chunk :: chunks =>
    match d.push parse chunk with
    | .error e => ([], some e)
    | .ok (values, d) => (values ++ (deliver d chunks).1, (deliver d chunks).2)

/-! ## Byte by byte -/

abbrev Reading : Type := List JsonValue × Except FramingError ProcessFrameDecoder

def feed (byte : UInt8) : Reading :=
  match d.payload with
  | none =>
    let header := d.header ++ [byte]
    if header.length < 4 then ([], .ok ⟨header, none⟩)
    else if bytesNumber header = 0 ∨ maxFrameBytes < bytesNumber header then
      ([], .error lengthInvalid)
    else ([], .ok ⟨[], some (bytesNumber header, [])⟩)
  | some (length, payload) =>
    let payload := payload ++ [byte]
    if payload.length < length then ([], .ok ⟨[], some (length, payload)⟩)
    else
      match decodePayload parse payload with
      | .ok value => ([value], .ok initial)
      | .error e => ([], .error e)

def Reading.andThen (r : Reading) (next : ProcessFrameDecoder → Reading) : Reading :=
  match r.2 with
  | .ok d => (r.1 ++ (next d).1, (next d).2)
  | .error e => (r.1, .error e)

def feedAll : ProcessFrameDecoder → List UInt8 → Reading
  | d, [] => ([], .ok d)
  | d, byte :: bytes => (d.feed parse byte).andThen fun d => feedAll d bytes

variable {parse}

@[simp] theorem andThen_ok (values : List JsonValue) (d : ProcessFrameDecoder)
    (next : ProcessFrameDecoder → Reading) :
    Reading.andThen (values, .ok d) next = (values ++ (next d).1, (next d).2) := rfl

theorem andThen_andThen (r : Reading) (f g : ProcessFrameDecoder → Reading) :
    (r.andThen f).andThen g = r.andThen fun d => (f d).andThen g := by
  obtain ⟨values, result⟩ := r
  cases result with
  | error e => rfl
  | ok d =>
    rw [andThen_ok, andThen_ok]
    obtain ⟨others, result⟩ := f d
    cases result with
    | error e => rfl
    | ok d' => simp only [andThen_ok, append_assoc]

theorem feedAll_append (front rest : List UInt8) :
    d.feedAll parse (front ++ rest) =
      (d.feedAll parse front).andThen fun d => d.feedAll parse rest := by
  induction front generalizing d with
  | nil => rfl
  | cons byte front ih =>
    rw [cons_append, feedAll, feedAll, andThen_andThen]
    simp only [ih]

/-- A header is incomplete, and a payload lacks something. -/
def Wellformed : Prop :=
  d.header.length < 4 ∧ ∀ length payload, d.payload = some (length, payload) →
    d.header = [] ∧ payload.length < length

theorem feedAll_payload {length : Nat} (payload bytes : List UInt8)
    (h : payload.length + bytes.length < length) :
    feedAll parse ⟨[], some (length, payload)⟩ bytes =
      ([], .ok ⟨[], some (length, payload ++ bytes)⟩) := by
  induction bytes generalizing payload with
  | nil => rw [feedAll, append_nil]
  | cons byte bytes ih =>
    rw [length_cons] at h
    have hshort : (payload ++ [byte]).length < length := by
      rw [length_append, length_singleton]
      omega
    rw [feedAll, feed]
    dsimp only
    rw [if_pos hshort, andThen_ok, ih _ (by rw [length_append, length_singleton]; omega),
      append_assoc]
    rfl

theorem feedAll_through {d d' : ProcessFrameDecoder} {front : List UInt8}
    (h : d.feedAll parse front = ([], .ok d')) (last : UInt8) (rest : List UInt8) :
    d.feedAll parse (front ++ [last] ++ rest) =
      (d'.feed parse last).andThen fun d => d.feedAll parse rest := by
  rw [append_assoc, feedAll_append, h, andThen_ok, nil_append, singleton_append, feedAll]

theorem feedAll_header (header bytes : List UInt8) (h : header.length + bytes.length < 4) :
    feedAll parse ⟨header, none⟩ bytes = ([], .ok ⟨header ++ bytes, none⟩) := by
  induction bytes generalizing header with
  | nil => rw [feedAll, append_nil]
  | cons byte bytes ih =>
    rw [length_cons] at h
    have hshort : (header ++ [byte]).length < 4 := by
      rw [length_append, length_singleton]
      omega
    rw [feedAll, feed]
    dsimp only
    rw [if_pos hshort, andThen_ok, ih _ (by rw [length_append, length_singleton]; omega),
      append_assoc]
    rfl

/-- What a pass through the loop has read, and the rest of the chunk after it. -/
def resume (parse : JsString → Option JsonValue)
    (r : Except FramingError (Option JsonValue × ProcessFrameDecoder × List UInt8)) : Reading :=
  match r with
  | .ok (value, d, rest) => Reading.andThen (value.toList, .ok d) fun d => d.feedAll parse rest
  | .error e => ([], .error e)

/-- What a pass leaves for the next one. -/
def Leaves (r : Except FramingError (Option JsonValue × ProcessFrameDecoder × List UInt8))
    (bytes : Nat) : Prop :=
  ∀ value d rest, r = .ok (value, d, rest) → d.Wellformed ∧ rest.length < bytes

theorem wellformed_initial : initial.Wellformed := ⟨by decide, nofun⟩

theorem take_eq_concat {n : Nat} {input : List UInt8} (hn : 0 < n) (h : n ≤ input.length) :
    ∃ front last, input.take n = front ++ [last] ∧ front.length + 1 = n := by
  rcases eq_nil_or_concat' (input.take n) with hnil | ⟨front, last, hfront⟩
  · have hlength := congrArg List.length hnil
    rw [length_take, length_nil] at hlength
    omega
  · have hlength := congrArg List.length hfront
    rw [length_take, length_append, length_singleton] at hlength
    exact ⟨front, last, hfront, by omega⟩

theorem fill_spec {length bytes : Nat} {payload input : List UInt8} (h : payload.length < length)
    (hbytes : 0 < bytes) (hle : input.length ≤ bytes) :
    feedAll parse ⟨[], some (length, payload)⟩ input = resume parse (fill parse length payload input) ∧
      Leaves (fill parse length payload input) bytes := by
  unfold fill
  dsimp only
  by_cases hshort : payload.length + input.length < length
  · -- the chunk ends before the payload
    have hmin : min (length - payload.length) input.length = input.length := by omega
    rw [hmin, take_length, drop_length, length_append, if_pos hshort, feedAll_payload _ _ hshort]
    refine ⟨rfl, fun value d rest heq => ?_⟩
    obtain ⟨rfl, rfl, rfl⟩ : none = value ∧ _ = d ∧ [] = rest := by simpa using heq
    refine ⟨⟨Nat.zero_lt_succ 3, fun other got hgot => ?_⟩, hbytes⟩
    obtain ⟨rfl, rfl⟩ := Prod.mk.inj (Option.some.inj hgot)
    exact ⟨rfl, by rwa [length_append]⟩
  · have hmin : min (length - payload.length) input.length = length - payload.length := by omega
    obtain ⟨front, last, hfront, htaken⟩ :=
      @take_eq_concat (length - payload.length) input (by omega) (by omega)
    have hfull : ¬ (payload ++ (front ++ [last])).length < length := by
      rw [length_append, length_append, length_singleton]
      omega
    have hfeed : feedAll parse ⟨[], some (length, payload)⟩ input =
        (feed parse ⟨[], some (length, payload ++ front)⟩ last).andThen fun d =>
          d.feedAll parse (input.drop (length - payload.length)) := by
      conv_lhs => rw [← take_append_drop (length - payload.length) input]
      rw [hfront]
      exact feedAll_through (feedAll_payload _ _ (by omega)) _ _
    rw [hmin, hfront, if_neg hfull, hfeed, feed]
    dsimp only
    rw [append_assoc, if_neg hfull]
    cases decodePayload parse (payload ++ (front ++ [last])) with
    | error e => exact ⟨rfl, nofun⟩
    | ok decoded =>
      refine ⟨rfl, fun value d rest heq => ?_⟩
      obtain ⟨-, rfl, rfl⟩ : some decoded = value ∧ initial = d ∧ _ = rest := by
        simpa [Except.map] using heq
      refine ⟨wellformed_initial, ?_⟩
      rw [length_drop]
      omega

variable (parse)

/-- **One pass reads what it takes from the chunk**, as byte by byte. -/
theorem round_spec {d : ProcessFrameDecoder} (hd : d.Wellformed) {input : List UInt8}
    (hne : input ≠ []) : d.feedAll parse input = resume parse (d.round parse input) ∧
      Leaves (d.round parse input) input.length := by
  have hpos := length_pos_iff.mpr hne
  obtain ⟨header, payload⟩ := d
  cases payload with
  | some payload =>
    obtain ⟨length, payload⟩ := payload
    obtain ⟨rfl, hshort⟩ := hd.2 length payload rfl
    exact fill_spec hshort hpos (Nat.le_refl _)
  | none =>
    have hheader : header.length < 4 := hd.1
    rw [round]
    dsimp only
    by_cases hshort : header.length + input.length < 4
    · have hmin : min (4 - header.length) input.length = input.length := by omega
      rw [hmin, take_length, drop_length, length_append, if_pos hshort, feedAll_header _ _ hshort]
      refine ⟨rfl, fun value d rest heq => ?_⟩
      obtain ⟨rfl, rfl, rfl⟩ : none = value ∧ _ = d ∧ [] = rest := by simpa using heq
      exact ⟨⟨by rwa [length_append], nofun⟩, hpos⟩
    · have hmin : min (4 - header.length) input.length = 4 - header.length := by omega
      obtain ⟨front, last, hfront, htaken⟩ :=
        @take_eq_concat (4 - header.length) input (by omega) (by omega)
      have hfull : ¬ (header ++ (front ++ [last])).length < 4 := by
        rw [length_append, length_append, length_singleton]
        omega
      have hfeed : feedAll parse ⟨header, none⟩ input =
          (feed parse ⟨header ++ front, none⟩ last).andThen fun d =>
            d.feedAll parse (input.drop (4 - header.length)) := by
        conv_lhs => rw [← take_append_drop (4 - header.length) input]
        rw [hfront]
        exact feedAll_through (feedAll_header _ _ (by omega)) _ _
      rw [hmin, hfront, if_neg hfull, hfeed, feed]
      dsimp only
      rw [append_assoc, if_neg hfull]
      split
      · exact ⟨rfl, nofun⟩
      next hlength =>
      rw [not_or] at hlength
      refine fill_spec (show [].length < _ from Nat.pos_of_ne_zero hlength.1) hpos ?_
      rw [length_drop]
      exact Nat.sub_le _ _

/-- **A push reads its chunk** as byte by byte, and keeps nothing of it when there is an error. -/
theorem pushLoop_spec {rounds : Nat} {d : ProcessFrameDecoder} (hd : d.Wellformed)
    {input : List UInt8} (hrounds : input.length ≤ rounds) (values : List JsonValue) :
    match d.feedAll parse input with
    | (added, .ok d') =>
      pushLoop parse rounds d input values = .ok (values ++ added, d') ∧ d'.Wellformed
    | (_, .error e) => pushLoop parse rounds d input values = .error e := by
  induction rounds generalizing d input values with
  | zero =>
    obtain rfl := eq_nil_of_length_eq_zero (Nat.le_zero.mp hrounds)
    exact ⟨by rw [pushLoop, append_nil], hd⟩
  | succ rounds ih =>
    by_cases hne : input = []
    · subst hne
      exact ⟨by rw [pushLoop, append_nil], hd⟩
    obtain ⟨hread, hleaves⟩ := round_spec parse hd hne
    rw [hread, pushLoop.eq_3 _ _ _ _ _ hne]
    cases hround : d.round parse input with
    | error e => rfl
    | ok result =>
      obtain ⟨value, d₁, rest⟩ := result
      obtain ⟨hd₁, hrest⟩ := hleaves value d₁ rest hround
      have hrounds₁ : rest.length ≤ rounds := by omega
      have hnext := ih hd₁ hrounds₁ (values ++ value.toList)
      rw [resume, andThen_ok]
      cases hafter : d₁.feedAll parse rest with
      | mk added result =>
        rw [hafter] at hnext
        cases result with
        | error e => exact hnext
        | ok d₂ =>
          dsimp only at hnext ⊢
          rwa [append_assoc] at hnext

theorem push_spec {d : ProcessFrameDecoder} (hd : d.Wellformed) (chunk : List UInt8) :
    match d.feedAll parse chunk with
    | (added, .ok d') => d.push parse chunk = .ok (added, d') ∧ d'.Wellformed
    | (_, .error e) => d.push parse chunk = .error e := by
  have h := pushLoop_spec parse hd (Nat.le_refl chunk.length) []
  exact h

/-! ## What is delivered -/

/-- How a stream ends. -/
def Reading.ending (r : Reading) : Option FramingError :=
  match r.2 with
  | .ok d => d.finish
  | .error e => some e

/-- A frame can be read in front of a malformed one. -/
def ReadableFirst (parse : JsString → Option JsonValue) (bytes : List UInt8) : Prop :=
  (initial.feedAll parse bytes).1 ≠ [] ∧ (initial.feedAll parse bytes).2.isOk = false

/-- The cut into chunks makes no difference, and all frames in front of a malformed one are
delivered. -/
def ChunkIndependent (parse : JsString → Option JsonValue) (bytes : List UInt8) : Prop :=
  (∀ chunks chunks', chunks.flatten = bytes → chunks'.flatten = bytes →
    deliver parse initial chunks = deliver parse initial chunks') ∧
  ∀ chunks, chunks.flatten = bytes →
    (deliver parse initial chunks).1 = (initial.feedAll parse bytes).1

theorem deliver_spec {d : ProcessFrameDecoder} (hd : d.Wellformed) (chunks : List (List UInt8)) :
    (deliver parse d chunks).2 = (d.feedAll parse chunks.flatten).ending ∧
      (deliver parse d chunks).1 <+: (d.feedAll parse chunks.flatten).1 ∧
      ((d.feedAll parse chunks.flatten).2.isOk = true →
        (deliver parse d chunks).1 = (d.feedAll parse chunks.flatten).1) := by
  induction chunks generalizing d with
  | nil => exact ⟨rfl, prefix_rfl, fun _ => rfl⟩
  | cons chunk chunks ih =>
    have hpush := push_spec parse hd chunk
    rw [flatten_cons, feedAll_append, deliver]
    cases hread : d.feedAll parse chunk with
    | mk added result =>
      rw [hread] at hpush
      cases result with
      | error e =>
        rw [hpush]
        exact ⟨rfl, nil_prefix, nofun⟩
      | ok d' =>
        rw [hpush.1, andThen_ok]
        obtain ⟨herror, hprefix, hvalues⟩ := ih hpush.2
        refine ⟨herror, ?_, fun hok => ?_⟩
        · exact (prefix_append_right_inj added).mpr hprefix
        · exact congrArg (added ++ ·) (hvalues hok)

variable {parse}

/-- **When the cut makes no difference.** -/
theorem chunks_agree_iff (parse : JsString → Option JsonValue) (bytes : List UInt8) :
    ChunkIndependent parse bytes ↔ ¬ ReadableFirst parse bytes := by
  constructor
  · rintro ⟨-, hall⟩ ⟨hvalues, herror⟩
    -- in one chunk, the values are given up
    have hone : [bytes].flatten = bytes := by simp
    have hpush := push_spec parse wellformed_initial bytes
    rw [← hall [bytes] hone, deliver] at hvalues
    cases hread : initial.feedAll parse bytes with
    | mk added result =>
      rw [hread] at hpush herror
      cases result with
      | ok d => cases herror
      | error e =>
        dsimp only at hpush
        rw [hpush] at hvalues
        exact hvalues rfl
  · intro hfirst
    have hspec : ∀ chunks, chunks.flatten = bytes →
        (deliver parse initial chunks).1 = (initial.feedAll parse bytes).1 ∧
          (deliver parse initial chunks).2 = (initial.feedAll parse bytes).ending := by
      intro chunks hchunks
      obtain ⟨herror, hprefix, hok⟩ := deliver_spec parse wellformed_initial chunks
      rw [hchunks] at herror hprefix hok
      refine ⟨?_, herror⟩
      by_cases hvalues : (initial.feedAll parse bytes).1 = []
      · rw [hvalues] at hprefix ⊢
        exact prefix_nil.mp hprefix
      · exact hok (Bool.not_eq_false _ ▸ fun h => hfirst ⟨hvalues, h⟩)
    refine ⟨fun chunks chunks' h h' => ?_, fun chunks h => (hspec chunks h).1⟩
    rw [Prod.ext_iff, (hspec chunks h).1, (hspec chunks h).2, (hspec chunks' h').1,
      (hspec chunks' h').2]
    exact ⟨rfl, rfl⟩

/-! ## A frame in front of a malformed one -/

def nullFrame : List UInt8 := [0, 0, 0, 4, 110, 117, 108, 108]

def parseNull (text : JsString) : Option JsonValue :=
  if text = js "null" then some .null else none

/-- **A frame is lost with its chunk**, when a frame without a length follows in it. -/
theorem nullFrame_lost : ¬ ChunkIndependent parseNull (nullFrame ++ [0, 0, 0, 0]) := by
  intro h
  have hcut := congrArg (fun delivered => delivered.1.length)
    (h.1 [nullFrame, [0, 0, 0, 0]] [nullFrame ++ [0, 0, 0, 0]] rfl rfl)
  revert hcut
  decide +kernel

end ProcessFrameDecoder

end ProcessFraming

end TegoNext
