/-
Frames that are sent and received again.

`encodeProcessFrame` looks at the length of the text, and the decoder at the depth and the number
of the nodes as well. Frames come back as the values they were made of, in any chunks, exactly if
all the values are within these limits (`frames_delivered_iff`).
-/
import TegoNext.EncodedText
import TegoNext.ProcessAuthentication
import TegoNext.ProcessFraming

set_option autoImplicit false

namespace TegoNext

open Text CanonicalJson List
open ProcessChannel (maxFrameBytes IsJsValue ReadsBack)

namespace ProcessFraming

/-- `JSON.stringify` of data does not throw. -/
def encodeProcessFrame (numberText : NumberText) (value : JsonValue)
    (oversizedCode : String) : Except FramingError (List UInt8) :=
  let payload := encodeText (stringify numberText value)
  if payload.length = 0 ∨ maxFrameBytes < payload.length then
    .error ⟨oversizedCode, "Process frame exceeds the configured wire limit"⟩
  else .ok (numberBytes 4 payload.length ++ payload)

/-! ## Texts of values -/

theorem complete_of_all {s : JsString} (h : s.all (·.toNat < 128) = true) : Complete s :=
  complete_ascii fun u hu => of_decide_eq_true (all_eq_true.mp h u hu)

theorem complete_unicodeEscape (u : UInt16) : Complete (unicodeEscape u) := by
  have hhex : ∀ j : Fin 16, (hexUnit j).toNat < 128 := by decide
  have hunit (n : Nat) : (hexUnit (n % 16)).toNat < 128 := hhex ⟨n % 16, Nat.mod_lt n (by decide)⟩
  apply complete_ascii
  simp only [unicodeEscape, forall_mem_cons, not_mem_nil, false_imp_iff, implies_true, and_true]
  exact ⟨by decide, by decide, hunit _, hunit _, hunit _, hunit _⟩

theorem complete_escapeUnit {u : UInt16} (hhigh : isHighSurrogate u = false)
    (hlow : isLowSurrogate u = false) : Complete (CanonicalJson.escapeUnit u) := by
  unfold CanonicalJson.escapeUnit
  repeat' split
  all_goals
    first
    | exact complete_unicodeEscape u
    | exact complete_unit hhigh hlow
    | exact complete_of_all (by decide)

/-- A surrogate that is not half of a pair is escaped. -/
theorem complete_stringBody (s : JsString) : Complete (stringBody s) := by
  refine stringBody_rec (P := fun _ body => Complete body) complete_nil ?_
    (fun u _ _ h => (complete_unicodeEscape u).append h) ?_ s
  · intro u v _ _ hlead htrail h
    exact (complete_pair (by simpa [isHighSurrogate] using hlead)
      (by simpa [isLowSurrogate] using htrail)).append h
  · intro u _ _ hlead htrail h
    refine (complete_escapeUnit ?_ ?_).append h
    · simpa [isHighSurrogate] using hlead
    · simpa [isLowSurrogate] using htrail

theorem complete_between {opening closing : UInt16} {s : JsString} (hopen : opening.toNat < 128)
    (hclose : closing.toNat < 128) (h : Complete s) : Complete (opening :: s ++ [closing]) := by
  have hone {u : UInt16} (hu : u.toNat < 128) : Complete [u] :=
    complete_ascii fun v hv => mem_singleton.mp hv ▸ hu
  exact ((hone hopen).append h).append (hone hclose)

variable {numberText : NumberText} {parse : JsString → Option JsonValue}

theorem isNumberUnit_ascii {u : UInt16} (h : isNumberUnit u = true) : u.toNat < 128 := by
  simp only [isNumberUnit, isDigit, Bool.or_eq_true, Bool.and_eq_true, decide_eq_true_eq,
    beq_iff_eq, UInt16.le_iff_toNat_le, ← UInt16.toNat_inj, UInt16.reduceToNat] at h
  omega

theorem complete_stringify (value : JsonValue) : Complete (stringify numberText value) := by
  induction value using JsonValue.induction with
  | null => exact complete_of_all (s := js "null") (by decide)
  | bool b =>
    cases b with
    | true => exact complete_of_all (s := js "true") (by decide)
    | false => exact complete_of_all (s := js "false") (by decide)
  | number q =>
    rw [stringify]
    exact complete_ascii fun u hu =>
      isNumberUnit_ascii (all_eq_true.mp (numberText q).property u hu)
  | string s =>
    rw [stringify]
    exact complete_between (by decide) (by decide) (complete_stringBody s)
  | array items ih =>
    rw [stringify, stringifyItems_eq_map]
    exact complete_between (by decide) (by decide)
      (complete_joinParts (complete_of_all (by decide)) (forall_mem_map.mpr ih))
  | object fields ih =>
    rw [stringify, stringifyFields_eq_map]
    refine complete_between (by decide) (by decide)
      (complete_joinParts (complete_of_all (by decide)) (forall_mem_map.mpr fun field hfield => ?_))
    rw [member, ← singleton_append]
    exact (complete_between (by decide) (by decide) (complete_stringBody field.1)).append
      ((complete_of_all (by decide)).append (ih field hfield))

/-- No text of a value starts with a byte order mark. -/
theorem head_stringify (value : JsonValue) :
    (stringify numberText value).head? ≠ some byteOrderUnit := by
  cases value with
  | number q =>
    intro hhead
    have hunit := all_eq_true.mp (numberText q).property _ (mem_of_mem_head? hhead)
    exact absurd (isNumberUnit_ascii hunit) (by decide)
  | bool b => cases b <;> intro hhead <;> cases hhead
  | _ => intro hhead; cases hhead

theorem decodeText_stringify (value : JsonValue) :
    decodeText (encodeText (stringify numberText value)) = some (stringify numberText value) :=
  decodeText_encodeText (complete_stringify value).isWellFormed (head_stringify value)

/-! ## Frames -/

open ProcessFrameDecoder

theorem feedAll_header_payload {header payload : List UInt8} (hheader : header.length = 4)
    (hlength : bytesNumber header = payload.length) (hpos : payload.length ≠ 0)
    (hmax : payload.length ≤ maxFrameBytes) :
    feedAll parse initial (header ++ payload) =
      match decodePayload parse payload with
      | .ok value => ([value], .ok initial)
      | .error e => ([], .error e) := by
  obtain ⟨a, b, c, d, rfl⟩ : ∃ a b c d, header = [a, b, c, d] := by
    match header, hheader with
    | [a, b, c, d], _ => exact ⟨a, b, c, d, rfl⟩
  obtain ⟨front, last, rfl⟩ : ∃ front last, payload = front ++ [last] :=
    (eq_nil_or_concat' payload).resolve_left fun hnil => hpos (hnil ▸ rfl)
  have hthree : initial.feedAll parse [a, b, c] = ([], .ok ⟨[a, b, c], none⟩) :=
    feedAll_header [] [a, b, c] (Nat.lt_succ_self 3)
  have hfront : feedAll parse ⟨[], some (bytesNumber [a, b, c, d], [])⟩ front =
      ([], .ok ⟨[], some (bytesNumber [a, b, c, d], front)⟩) := by
    refine feedAll_payload [] front ?_
    rw [hlength, length_append, length_singleton, length_nil]
    omega
  have hlast := feedAll_through hfront last []
  rw [append_nil] at hlast
  rw [show [a, b, c, d] ++ (front ++ [last]) = [a, b, c] ++ [d] ++ (front ++ [last]) from rfl,
    feedAll_through hthree, feed]
  dsimp only [cons_append, nil_append]
  rw [hheader, if_neg (Nat.lt_irrefl 4), if_neg (by rw [hlength]; omega), andThen_ok, hlast, feed]
  dsimp only
  rw [if_neg (by rw [hlength]; omega)]
  cases decodePayload parse (front ++ [last]) <;> rfl

/-- **A frame** is read as its value, or refused for its depth or its nodes. -/
theorem feedAll_frame (hparse : ReadsBack numberText parse) {value : JsonValue}
    (hvalue : IsJsValue value) {code : String} {frame : List UInt8}
    (hframe : encodeProcessFrame numberText value code = .ok frame) :
    feedAll parse initial frame =
      if validateComplexity maxFrameNodes [(value, 0)] then ([value], .ok initial)
      else ([], .error complexityExceeded) := by
  unfold encodeProcessFrame at hframe
  dsimp only at hframe
  split at hframe
  · cases hframe
  next hlength =>
  rw [not_or, Nat.not_lt] at hlength
  obtain ⟨hpos, hmax⟩ := hlength
  cases hframe
  rw [feedAll_header_payload (length_numberBytes _ _) ?_ hpos hmax, decodePayload,
    decodeText_stringify]
  · dsimp only
    rw [hparse value hvalue]
    dsimp only
    by_cases hwithin : validateComplexity maxFrameNodes [(value, 0)] = true
    · rw [if_pos hwithin, if_pos hwithin]
    · rw [if_neg hwithin, if_neg hwithin]
  · rw [bytesNumber_numberBytes, Nat.mod_eq_of_lt]
    exact Nat.lt_of_le_of_lt hmax (by decide)

/-- However the frames are cut, the values are delivered in order, and the stream is complete. -/
def Delivered (parse : JsString → Option JsonValue) (values : List JsonValue)
    (frames : List (List UInt8)) : Prop :=
  ∀ chunks, chunks.flatten = frames.flatten → deliver parse initial chunks = (values, none)

section

variable (hparse : ReadsBack numberText parse) {code : String} {values : List JsonValue}
  {frames : List (List UInt8)}
  (hframes : List.Forall₂ (fun value frame => encodeProcessFrame numberText value code = .ok frame)
    values frames) (hvalues : ∀ value ∈ values, IsJsValue value)
include hparse hframes hvalues

/-- **Frames** are read as their values. -/
theorem feedAll_frames
    (hwithin : ∀ value ∈ values, validateComplexity maxFrameNodes [(value, 0)] = true) :
    feedAll parse initial frames.flatten = (values, .ok initial) := by
  induction hframes with
  | nil => rfl
  | @cons value frame values frames hframe _ ih =>
    rw [forall_mem_cons] at hvalues hwithin
    rw [flatten_cons, feedAll_append, feedAll_frame hparse hvalues.1 hframe,
      if_pos hwithin.1, andThen_ok, ih hvalues.2 hwithin.2]
    rfl

/-- A value that is too deep, or has too many nodes, ends the reading. -/
theorem feedAll_frames_error
    (hbeyond : ¬ ∀ value ∈ values, validateComplexity maxFrameNodes [(value, 0)] = true) :
    (feedAll parse initial frames.flatten).2 = .error complexityExceeded := by
  induction hframes with
  | nil => exact absurd (by simp) hbeyond
  | @cons value frame values frames hframe _ ih =>
    rw [forall_mem_cons] at hvalues
    rw [forall_mem_cons, not_and] at hbeyond
    rw [flatten_cons, feedAll_append, feedAll_frame hparse hvalues.1 hframe]
    by_cases hwithin : validateComplexity maxFrameNodes [(value, 0)] = true
    · rw [if_pos hwithin, andThen_ok]
      exact ih hvalues.2 (hbeyond hwithin)
    · rw [if_neg hwithin]
      rfl

theorem not_delivered
    (hbeyond : ¬ ∀ value ∈ values, validateComplexity maxFrameNodes [(value, 0)] = true) :
    ¬ Delivered parse values frames := by
  intro hdelivered
  have hone : [frames.flatten].flatten = frames.flatten := by simp
  have hending := (deliver_spec parse wellformed_initial [frames.flatten]).1
  rw [hone, hdelivered _ hone, Reading.ending,
    feedAll_frames_error hparse hframes hvalues hbeyond] at hending
  cases hending

/-- **When values come back** as they were sent: if their depth and their nodes are within the
limits of the decoder. -/
theorem frames_delivered_iff :
    Delivered parse values frames ↔
      ∀ value ∈ values, validateComplexity maxFrameNodes [(value, 0)] = true := by
  constructor
  · intro hdelivered
    by_contra hbeyond
    exact not_delivered hparse hframes hvalues hbeyond hdelivered
  · intro hwithin chunks hchunks
    obtain ⟨hending, -, hall⟩ := deliver_spec parse wellformed_initial chunks
    rw [hchunks, feedAll_frames hparse hframes hvalues hwithin] at hending hall
    exact Prod.ext (hall rfl) hending

end

/-! ## A value that is too deep -/

def nested : (depth : Nat) → JsonValue
  | 0 => .null
  | depth + 1 => .array [nested depth]

theorem isJsValue_nested (depth : Nat) : IsJsValue (nested depth) := by
  induction depth with
  | zero => exact .null
  | succ depth ih => exact .array _ fun item hitem => mem_singleton.mp hitem ▸ ih

open ProcessChannel (naturalPlatform readText readsBack_readText)

/-- The frame of arrays in arrays. -/
def nestedFrame (depth : Nat) : List UInt8 :=
  numberBytes 4 (2 * depth + 4) ++ encodeText (stringify naturalPlatform.numberText (nested depth))

theorem frames_delivered_nested : Delivered readText [nested 2] [nestedFrame 2] := by
  have hframe : encodeProcessFrame naturalPlatform.numberText (nested 2)
      "EXECUTOR_INPUT_LIMIT_EXCEEDED" = .ok (nestedFrame 2) := by decide +kernel
  refine (frames_delivered_iff readsBack_readText (.cons hframe .nil) ?_).mpr (by decide +kernel)
  exact forall_mem_singleton.mpr (isJsValue_nested 2)

/-- **A value is encoded and not delivered**: 65 arrays in each other. -/
theorem nested_not_delivered :
    encodeProcessFrame naturalPlatform.numberText (nested 65) "EXECUTOR_INPUT_LIMIT_EXCEEDED" =
      .ok (nestedFrame 65) ∧ ¬ Delivered readText [nested 65] [nestedFrame 65] := by
  have hframe : encodeProcessFrame naturalPlatform.numberText (nested 65)
      "EXECUTOR_INPUT_LIMIT_EXCEEDED" = .ok (nestedFrame 65) := by decide +kernel
  refine ⟨hframe, not_delivered readsBack_readText (.cons hframe .nil) ?_ (by decide +kernel)⟩
  exact forall_mem_singleton.mpr (isJsValue_nested 65)

end ProcessFraming

end TegoNext
