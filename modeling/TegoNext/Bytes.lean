/-
Numbers and texts as bytes.

A number is written in a fixed width, the high byte first, as a data view does it: what does not
fit is cut off. A text is decoded from UTF-8 in the strict mode of the platform: overlong forms,
surrogates and truncated sequences are errors. The platform's decoder skips one byte order mark
at the start before it decodes.
-/
import TegoNext.SqliteOutbox
import Mathlib.Tactic.Ring

set_option autoImplicit false

namespace TegoNext

open List Option

/-! ## Big-endian numbers -/

/-- The `width` bytes of a number, the high one first, as far as it fits. -/
def numberBytes : (width : Nat) → Nat → List UInt8
  | 0, _ => []
  | width + 1, n => UInt8.ofNat (n / 256 ^ width) :: numberBytes width n

/-- The number these bytes stand for, the high one first. -/
def bytesNumber : List UInt8 → Nat
  | [] => 0
  | byte :: bytes => byte.toNat * 256 ^ bytes.length + bytesNumber bytes

@[simp] theorem length_numberBytes (width n : Nat) : (numberBytes width n).length = width := by
  induction width with
  | zero => rfl
  | succ width ih => rw [numberBytes, length_cons, ih]

theorem bytesNumber_lt (bytes : List UInt8) : bytesNumber bytes < 256 ^ bytes.length := by
  induction bytes with
  | nil => decide
  | cons byte bytes ih =>
    have hbyte := byte.toNat_lt
    have hmul : byte.toNat * 256 ^ bytes.length ≤ 255 * 256 ^ bytes.length :=
      Nat.mul_le_mul_right _ (by omega)
    rw [bytesNumber, length_cons, Nat.pow_succ]
    omega

theorem bytesNumber_numberBytes (width n : Nat) :
    bytesNumber (numberBytes width n) = n % 256 ^ width := by
  induction width with
  | zero => rw [numberBytes, bytesNumber, Nat.pow_zero, Nat.mod_one]
  | succ width ih =>
    have hsplit : n % (256 ^ width * 256) =
        n % 256 ^ width + 256 ^ width * (n / 256 ^ width % 256) := Nat.mod_mul
    have hbyte : (UInt8.ofNat (n / 256 ^ width)).toNat = n / 256 ^ width % 256 := UInt8.toNat_ofNat'
    rw [numberBytes, bytesNumber, length_numberBytes, ih, hbyte, Nat.pow_succ, hsplit]
    ring

theorem numberBytes_add_mul (width n m : Nat) :
    numberBytes width (m * 256 ^ width + n) = numberBytes width n := by
  induction width generalizing m with
  | zero => rfl
  | succ width ih =>
    have hpos : 0 < 256 ^ width := Nat.pow_pos (by decide)
    have hsplit : m * 256 ^ (width + 1) + n = m * 256 * 256 ^ width + n := by ring
    rw [numberBytes, numberBytes, hsplit, ih, Nat.mul_comm (m * 256), Nat.mul_add_div hpos]
    congr 1
    apply UInt8.toNat_inj.mp
    rw [UInt8.toNat_ofNat', UInt8.toNat_ofNat']
    omega

theorem numberBytes_bytesNumber (bytes : List UInt8) :
    numberBytes bytes.length (bytesNumber bytes) = bytes := by
  induction bytes with
  | nil => rfl
  | cons byte bytes ih =>
    have hlt := bytesNumber_lt bytes
    have hdiv : (byte.toNat * 256 ^ bytes.length + bytesNumber bytes) / 256 ^ bytes.length =
        byte.toNat := by
      rw [Nat.mul_comm, Nat.mul_add_div (Nat.pow_pos (by decide)), Nat.div_eq_of_lt hlt,
        Nat.add_zero]
    rw [bytesNumber, length_cons, numberBytes, hdiv, numberBytes_add_mul, ih, UInt8.ofNat_toNat]

/-! ## Strict UTF-8 -/

namespace Text

def isTail (byte : UInt8) : Bool := 0x80 ≤ byte && byte ≤ 0xbf

/-- The second byte of three: not an overlong form, not a surrogate. -/
def isSecondOfThree (first second : UInt8) : Bool :=
  (if first = 0xe0 then 0xa0 else 0x80) ≤ second && second ≤ (if first = 0xed then 0x9f else 0xbf)

/-- The second byte of four: not an overlong form, not above the last code point. -/
def isSecondOfFour (first second : UInt8) : Bool :=
  (if first = 0xf0 then 0x90 else 0x80) ≤ second && second ≤ (if first = 0xf4 then 0x8f else 0xbf)

/-- The two code units of a code point above the first plane. -/
def surrogates (point : Nat) : JsString :=
  [UInt16.ofNat (0xd800 + (point - 0x10000) / 0x400), UInt16.ofNat (0xdc00 + (point - 0x10000) % 0x400)]

/-- The text of UTF-8 bytes; `none` where they are none. -/
def decodeUtf8 : List UInt8 → Option JsString
  | [] => some []
  | first :: rest =>
    if first < 0x80 then (decodeUtf8 rest).map (first.toUInt16 :: ·)
    else if 0xc2 ≤ first && first ≤ 0xdf then
      match rest with
      | second :: rest =>
        if isTail second then
          (decodeUtf8 rest).map
            (UInt16.ofNat ((first.toNat - 0xc0) * 64 + (second.toNat - 0x80)) :: ·)
        else none
      | _ => none
    else if 0xe0 ≤ first && first ≤ 0xef then
      match rest with
      | second :: third :: rest =>
        if isSecondOfThree first second && isTail third then
          (decodeUtf8 rest).map
            (UInt16.ofNat ((first.toNat - 0xe0) * 4096 + (second.toNat - 0x80) * 64 +
              (third.toNat - 0x80)) :: ·)
        else none
      | _ => none
    else if 0xf0 ≤ first && first ≤ 0xf4 then
      match rest with
      | second :: third :: fourth :: rest =>
        if isSecondOfFour first second && isTail third && isTail fourth then
          (decodeUtf8 rest).map
            (surrogates ((first.toNat - 0xf0) * 262144 + (second.toNat - 0x80) * 4096 +
              (third.toNat - 0x80) * 64 + (fourth.toNat - 0x80)) ++ ·)
        else none
      | _ => none
    else none

def byteOrderMark : List UInt8 := [0xef, 0xbb, 0xbf]

/-- `textDecoder.decode`: one byte order mark at the start is no part of the text. -/
def decodeText (bytes : List UInt8) : Option JsString :=
  if byteOrderMark.isPrefixOf bytes then decodeUtf8 (bytes.drop 3) else decodeUtf8 bytes

/-- `textEncoder.encode`. -/
def encodeText (s : JsString) : List UInt8 := (utf8 s).map UInt8.ofNat

def asciiByte (u : UInt16) : UInt8 := UInt8.ofNat u.toNat

variable {s : JsString}

theorem encodeText_of_isAscii (h : isAscii s = true) : encodeText s = s.map asciiByte := by
  rw [encodeText, utf8_of_isAscii h, List.map_map]
  rfl

theorem toNat_asciiByte {u : UInt16} (h : u < 128) : (asciiByte u).toNat = u.toNat := by
  have hlt : u.toNat < 128 := UInt16.lt_iff_toNat_lt.mp h
  rw [asciiByte, UInt8.toNat_ofNat', Nat.mod_eq_of_lt (by omega)]

theorem toUInt16_asciiByte {u : UInt16} (h : u < 128) : (asciiByte u).toUInt16 = u := by
  apply UInt16.toNat_inj.mp
  rw [UInt8.toNat_toUInt16, toNat_asciiByte h]

theorem decodeUtf8_of_isAscii (h : isAscii s = true) : decodeUtf8 (s.map asciiByte) = some s := by
  induction s with
  | nil => rfl
  | cons u s ih =>
    obtain ⟨hu, hs⟩ := Bool.and_eq_true_iff.mp (all_cons.symm.trans h)
    have hascii : u < 128 := of_decide_eq_true hu
    have hfirst : asciiByte u < 0x80 := by
      apply UInt8.lt_iff_toNat_lt.mpr
      rw [toNat_asciiByte hascii]
      exact UInt16.lt_iff_toNat_lt.mp hascii
    rw [map_cons, decodeUtf8.eq_def]
    dsimp only
    rw [if_pos hfirst, ih hs, toUInt16_asciiByte hascii]
    rfl

theorem decodeText_of_isAscii (h : isAscii s = true) : decodeText (s.map asciiByte) = some s := by
  rw [decodeText, if_neg, decodeUtf8_of_isAscii h]
  cases s with
  | nil => decide
  | cons u s =>
    obtain ⟨hu, -⟩ := Bool.and_eq_true_iff.mp (all_cons.symm.trans h)
    have hlt : u.toNat < 128 := UInt16.lt_iff_toNat_lt.mp (of_decide_eq_true hu)
    -- the mark begins with 0xef
    rw [map_cons, byteOrderMark, List.isPrefixOf, Bool.and_eq_true, beq_iff_eq]
    rintro ⟨hmark, -⟩
    have hbyte := congrArg UInt8.toNat hmark
    rw [asciiByte, UInt8.toNat_ofNat', Nat.mod_eq_of_lt (by omega)] at hbyte
    simp only [UInt8.reduceToNat] at hbyte
    omega

theorem isTail_spec {byte : UInt8} (h : isTail byte = true) :
    0x80 ≤ byte.toNat ∧ byte.toNat ≤ 0xbf := by
  simpa [isTail, UInt8.le_iff_toNat_le] using h

variable {first : UInt8}

theorem isSecondOfThree_spec {second : UInt8} (h : isSecondOfThree first second = true) :
    0x80 ≤ second.toNat ∧ second.toNat ≤ 0xbf ∧ (first.toNat = 0xe0 → 0xa0 ≤ second.toNat) := by
  simp only [isSecondOfThree, Bool.and_eq_true, decide_eq_true_eq, UInt8.le_iff_toNat_le] at h
  simp only [← UInt8.toNat_inj, UInt8.reduceToNat] at h
  obtain ⟨hlow, hhigh⟩ := h
  split at hlow <;> split at hhigh <;> simp at hlow hhigh <;> omega

theorem isSecondOfFour_spec {second : UInt8} (h : isSecondOfFour first second = true) :
    0x80 ≤ second.toNat ∧ second.toNat ≤ 0xbf ∧ (first.toNat = 0xf0 → 0x90 ≤ second.toNat) ∧
      (first.toNat = 0xf4 → second.toNat ≤ 0x8f) := by
  simp only [isSecondOfFour, Bool.and_eq_true, decide_eq_true_eq, UInt8.le_iff_toNat_le] at h
  simp only [← UInt8.toNat_inj, UInt8.reduceToNat] at h
  obtain ⟨hlow, hhigh⟩ := h
  split at hlow <;> split at hhigh <;> simp at hlow hhigh <;> omega

/-- The bytes from `low` to `high`. -/
theorem range_spec {low high byte : UInt8}
    (h : (decide (low ≤ byte) && decide (byte ≤ high)) = true) :
    low.toNat ≤ byte.toNat ∧ byte.toNat ≤ high.toNat := by
  simpa [UInt8.le_iff_toNat_le] using h

theorem not_ascii_ofNat {n : Nat} (hlow : 128 ≤ n) (hhigh : n < 65536) : ¬UInt16.ofNat n < 128 := by
  intro h
  have hlt : (UInt16.ofNat n).toNat < 128 := UInt16.lt_iff_toNat_lt.mp h
  rw [UInt16.toNat_ofNat', Nat.mod_eq_of_lt hhigh] at hlt
  omega

theorem head_of_decodeUtf8 {rest : List UInt8}
    (hfirst : ¬first < 0x80) (h : decodeUtf8 (first :: rest) = some s) :
    ∃ u s', s = u :: s' ∧ ¬u < 128 := by
  rw [decodeUtf8.eq_def] at h
  dsimp only at h
  rw [if_neg hfirst] at h
  split at h
  · -- two bytes
    next hrange =>
    split at h
    · next second rest =>
      split at h
      · next htail =>
        obtain ⟨s', -, rfl⟩ := map_eq_some_iff.mp h
        refine ⟨_, s', rfl, ?_⟩
        have hfirst := range_spec hrange
        have hsecond := isTail_spec htail
        simp only [UInt8.reduceToNat] at hfirst
        apply not_ascii_ofNat <;> omega
      · cases h
    · cases h
  split at h
  · -- three bytes; the second is restricted after 0xe0, so that no shorter form would do
    next hrange =>
    split at h
    · next second third rest =>
      split at h
      · next htail =>
        obtain ⟨s', -, rfl⟩ := map_eq_some_iff.mp h
        refine ⟨_, s', rfl, ?_⟩
        rw [Bool.and_eq_true] at htail
        have hfirst := range_spec hrange
        have hsecond := isSecondOfThree_spec htail.1
        have hthird := isTail_spec htail.2
        simp only [UInt8.reduceToNat] at hfirst
        apply not_ascii_ofNat <;> omega
      · cases h
    · cases h
  split at h
  · -- four bytes: the text goes on with the first unit of a surrogate pair
    next hrange =>
    split at h
    · next second third fourth rest =>
      split at h
      · next htail =>
        obtain ⟨s', -, rfl⟩ := map_eq_some_iff.mp h
        refine ⟨_, _, rfl, ?_⟩
        rw [Bool.and_eq_true, Bool.and_eq_true] at htail
        have hfirst := range_spec hrange
        have hsecond := isSecondOfFour_spec htail.1.1
        have hthird := isTail_spec htail.1.2
        have hfourth := isTail_spec htail.2
        simp only [UInt8.reduceToNat] at hfirst
        apply not_ascii_ofNat <;> omega
      · cases h
    · cases h
  · cases h

theorem eq_of_decodeUtf8 {bytes : List UInt8} (h : decodeUtf8 bytes = some s)
    (hascii : isAscii s = true) : bytes = s.map asciiByte := by
  induction bytes generalizing s with
  | nil =>
    rw [decodeUtf8] at h
    rw [← some.inj h]
    rfl
  | cons first rest ih =>
    by_cases hfirst : first < 0x80
    · rw [decodeUtf8.eq_def] at h
      dsimp only at h
      rw [if_pos hfirst] at h
      obtain ⟨s', hs', rfl⟩ := map_eq_some_iff.mp h
      obtain ⟨-, hrest⟩ := Bool.and_eq_true_iff.mp (all_cons.symm.trans hascii)
      have hbyte : asciiByte first.toUInt16 = first := by
        rw [asciiByte, UInt8.toNat_toUInt16, UInt8.ofNat_toNat]
      rw [map_cons, hbyte, ih hs' hrest]
    · -- the text would start with a unit beyond ASCII
      obtain ⟨u, s', rfl, hu⟩ := head_of_decodeUtf8 hfirst h
      obtain ⟨hascii', -⟩ := Bool.and_eq_true_iff.mp (all_cons.symm.trans hascii)
      exact absurd (of_decide_eq_true hascii') hu

end Text

end TegoNext
