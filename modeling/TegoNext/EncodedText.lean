/-
What the text encoder writes, and what the text decoder makes of it.

A well-formed text is read back as it was written, unless it starts with U+FEFF, which the
decoder takes for a byte order mark. Half of a surrogate pair on its own is written as U+FFFD and
does not come back.
-/
import TegoNext.Bytes

set_option autoImplicit false

namespace TegoNext

open List

namespace Text

def isHighSurrogate (u : UInt16) : Bool := 0xd800 ≤ u && u ≤ 0xdbff

/-- The second half. -/
def isLowSurrogate (u : UInt16) : Bool := 0xdc00 ≤ u && u ≤ 0xdfff

/-- `value.isWellFormed()`: every surrogate is half of a pair. -/
def isWellFormed : JsString → Bool
  | [] => true
  | [u] => !isHighSurrogate u && !isLowSurrogate u
  | u :: v :: rest =>
    if isHighSurrogate u then isLowSurrogate v && isWellFormed rest
    else !isLowSurrogate u && isWellFormed (v :: rest)

theorem isHighSurrogate_spec (u : UInt16) :
    isHighSurrogate u = true ↔ 0xd800 ≤ u.toNat ∧ u.toNat ≤ 0xdbff := by
  simp [isHighSurrogate, UInt16.le_iff_toNat_le]

theorem isLowSurrogate_spec (u : UInt16) :
    isLowSurrogate u = true ↔ 0xdc00 ≤ u.toNat ∧ u.toNat ≤ 0xdfff := by
  simp [isLowSurrogate, UInt16.le_iff_toNat_le]

/-! ## Bytes that belong together -/

theorem toNat_ofNat_of_lt {n : Nat} (h : n < 256) : (UInt8.ofNat n).toNat = n := by
  rw [UInt8.toNat_ofNat', Nat.mod_eq_of_lt h]

theorem decodeUtf8_one {first : UInt8} (h : first.toNat < 0x80) (rest : List UInt8) :
    decodeUtf8 (first :: rest) = (decodeUtf8 rest).map (first.toUInt16 :: ·) := by
  have hfirst : first < 0x80 := UInt8.lt_iff_toNat_lt.mpr h
  rw [decodeUtf8.eq_def]
  dsimp only
  rw [if_pos hfirst]

theorem decodeUtf8_two {first second : UInt8} (hfirst : 0xc2 ≤ first.toNat ∧ first.toNat ≤ 0xdf)
    (hsecond : 0x80 ≤ second.toNat ∧ second.toNat ≤ 0xbf) (rest : List UInt8) :
    decodeUtf8 (first :: second :: rest) =
      (decodeUtf8 rest).map
        (UInt16.ofNat ((first.toNat - 0xc0) * 64 + (second.toNat - 0x80)) :: ·) := by
  have hone : ¬first < 0x80 := by
    simp only [UInt8.lt_iff_toNat_lt, UInt8.reduceToNat]
    omega
  have htwo : (0xc2 ≤ first && first ≤ 0xdf) = true := by
    simpa [UInt8.le_iff_toNat_le] using hfirst
  have htail : isTail second = true := by
    simpa [isTail, UInt8.le_iff_toNat_le] using hsecond
  rw [decodeUtf8.eq_def]
  dsimp only
  rw [if_neg hone, if_pos htwo, if_pos htail]

theorem decodeUtf8_three {first second third : UInt8}
    (hfirst : 0xe0 ≤ first.toNat ∧ first.toNat ≤ 0xef)
    (hsecond : 0x80 ≤ second.toNat ∧ second.toNat ≤ 0xbf)
    (hshort : first.toNat = 0xe0 → 0xa0 ≤ second.toNat)
    (hsurrogate : first.toNat = 0xed → second.toNat ≤ 0x9f)
    (hthird : 0x80 ≤ third.toNat ∧ third.toNat ≤ 0xbf) (rest : List UInt8) :
    decodeUtf8 (first :: second :: third :: rest) =
      (decodeUtf8 rest).map
        (UInt16.ofNat ((first.toNat - 0xe0) * 4096 + (second.toNat - 0x80) * 64 +
          (third.toNat - 0x80)) :: ·) := by
  have hone : ¬first < 0x80 := by
    simp only [UInt8.lt_iff_toNat_lt, UInt8.reduceToNat]
    omega
  have htwo : ¬(0xc2 ≤ first && first ≤ 0xdf) = true := by
    simp [UInt8.le_iff_toNat_le]
    omega
  have hthree : (0xe0 ≤ first && first ≤ 0xef) = true := by
    simpa [UInt8.le_iff_toNat_le] using hfirst
  have htail : isTail third = true := by
    simpa [isTail, UInt8.le_iff_toNat_le] using hthird
  have hsecondOf : isSecondOfThree first second = true := by
    rw [isSecondOfThree, Bool.and_eq_true, decide_eq_true_eq, decide_eq_true_eq]
    simp only [UInt8.le_iff_toNat_le, ← UInt8.toNat_inj, UInt8.reduceToNat]
    constructor
    · split
      · next h => simpa using hshort h
      · simpa using hsecond.1
    · split
      · next h => simpa using hsurrogate h
      · simpa using hsecond.2
  rw [decodeUtf8.eq_def]
  dsimp only
  rw [if_neg hone, if_neg htwo, if_pos hthree, hsecondOf, htail, Bool.true_and, if_pos rfl]

theorem decodeUtf8_four {first second third fourth : UInt8}
    (hfirst : 0xf0 ≤ first.toNat ∧ first.toNat ≤ 0xf4)
    (hsecond : 0x80 ≤ second.toNat ∧ second.toNat ≤ 0xbf)
    (hshort : first.toNat = 0xf0 → 0x90 ≤ second.toNat)
    (hlast : first.toNat = 0xf4 → second.toNat ≤ 0x8f)
    (hthird : 0x80 ≤ third.toNat ∧ third.toNat ≤ 0xbf)
    (hfourth : 0x80 ≤ fourth.toNat ∧ fourth.toNat ≤ 0xbf) (rest : List UInt8) :
    decodeUtf8 (first :: second :: third :: fourth :: rest) =
      (decodeUtf8 rest).map
        (surrogates ((first.toNat - 0xf0) * 262144 + (second.toNat - 0x80) * 4096 +
          (third.toNat - 0x80) * 64 + (fourth.toNat - 0x80)) ++ ·) := by
  have hone : ¬first < 0x80 := by
    simp only [UInt8.lt_iff_toNat_lt, UInt8.reduceToNat]
    omega
  have htwo : ¬(0xc2 ≤ first && first ≤ 0xdf) = true := by
    simp [UInt8.le_iff_toNat_le]
    omega
  have hthree : ¬(0xe0 ≤ first && first ≤ 0xef) = true := by
    simp [UInt8.le_iff_toNat_le]
    omega
  have hfour : (0xf0 ≤ first && first ≤ 0xf4) = true := by
    simpa [UInt8.le_iff_toNat_le] using hfirst
  have htailThird : isTail third = true := by
    simpa [isTail, UInt8.le_iff_toNat_le] using hthird
  have htailFourth : isTail fourth = true := by
    simpa [isTail, UInt8.le_iff_toNat_le] using hfourth
  have hsecondOf : isSecondOfFour first second = true := by
    rw [isSecondOfFour, Bool.and_eq_true, decide_eq_true_eq, decide_eq_true_eq]
    simp only [UInt8.le_iff_toNat_le, ← UInt8.toNat_inj, UInt8.reduceToNat]
    constructor
    · split
      · next h => simpa using hshort h
      · simpa using hsecond.1
    · split
      · next h => simpa using hlast h
      · simpa using hsecond.2
  rw [decodeUtf8.eq_def]
  dsimp only
  rw [if_neg hone, if_neg htwo, if_neg hthree, if_pos hfour, hsecondOf, htailThird, htailFourth,
    Bool.true_and, Bool.true_and, if_pos rfl]

/-! ## One unit, or one pair -/

/-- What stands for a unit that is no surrogate is read as this unit. -/
theorem decodeUtf8_utf8Unit {u : UInt16} (hhigh : isHighSurrogate u = false)
    (hlow : isLowSurrogate u = false) (rest : List UInt8) :
    decodeUtf8 ((utf8Unit u).map UInt8.ofNat ++ rest) = (decodeUtf8 rest).map (u :: ·) := by
  have hbound := u.toNat_lt
  rw [← Bool.not_eq_true, isHighSurrogate_spec] at hhigh
  rw [← Bool.not_eq_true, isLowSurrogate_spec] at hlow
  have hback : ∀ n, n = u.toNat → UInt16.ofNat n = u := by
    rintro n rfl
    exact UInt16.ofNat_toNat
  unfold utf8Unit
  dsimp only
  split
  · next hone =>
    have hfirst := toNat_ofNat_of_lt (n := u.toNat) (by omega)
    have hunit : (UInt8.ofNat u.toNat).toUInt16 = u := by
      apply UInt16.toNat_inj.mp
      rw [UInt8.toNat_toUInt16, hfirst]
    simp only [map_cons, map_nil, cons_append, nil_append]
    rw [decodeUtf8_one (by omega), hunit]
  · next hone =>
    split
    · next htwo =>
      have hfirst := toNat_ofNat_of_lt (n := 0xc0 + u.toNat / 64) (by omega)
      have hsecond := toNat_ofNat_of_lt (n := 0x80 + u.toNat % 64) (by omega)
      simp only [map_cons, map_nil, cons_append, nil_append]
      rw [decodeUtf8_two (by omega) (by omega), hback _ (by omega)]
    · next htwo =>
      have hnone : ¬(0xd800 ≤ u.toNat ∧ u.toNat ≤ 0xdfff) := by omega
      rw [if_neg hnone]
      have hfirst := toNat_ofNat_of_lt (n := 0xe0 + u.toNat / 4096) (by omega)
      have hsecond := toNat_ofNat_of_lt (n := 0x80 + u.toNat / 64 % 64) (by omega)
      have hthird := toNat_ofNat_of_lt (n := 0x80 + u.toNat % 64) (by omega)
      simp only [map_cons, map_nil, cons_append, nil_append]
      rw [decodeUtf8_three (by omega) (by omega) (by omega) (by omega) (by omega),
        hback _ (by omega)]

/-- What stands for a pair is read as this pair. -/
theorem decodeUtf8_utf8Pair {u v : UInt16} (hhigh : isHighSurrogate u = true)
    (hlow : isLowSurrogate v = true) (rest : List UInt8) :
    decodeUtf8 ((utf8Pair u v).map UInt8.ofNat ++ rest) =
      (decodeUtf8 rest).map fun s => u :: v :: s := by
  rw [isHighSurrogate_spec] at hhigh
  rw [isLowSurrogate_spec] at hlow
  unfold utf8Pair
  generalize hpoint : 0x10000 + (u.toNat - 0xd800) * 0x400 + (v.toNat - 0xdc00) = point
  have hfirst := toNat_ofNat_of_lt (n := 0xf0 + point / 262144) (by omega)
  have hsecond := toNat_ofNat_of_lt (n := 0x80 + point / 4096 % 64) (by omega)
  have hthird := toNat_ofNat_of_lt (n := 0x80 + point / 64 % 64) (by omega)
  have hfourth := toNat_ofNat_of_lt (n := 0x80 + point % 64) (by omega)
  have hread : (0xf0 + point / 262144 - 0xf0) * 262144 + (0x80 + point / 4096 % 64 - 0x80) * 4096 +
      (0x80 + point / 64 % 64 - 0x80) * 64 + (0x80 + point % 64 - 0x80) = point := by omega
  have hfirstHalf : UInt16.ofNat (0xd800 + (point - 0x10000) / 0x400) = u := by
    apply UInt16.toNat_inj.mp
    rw [UInt16.toNat_ofNat', Nat.mod_eq_of_lt (by omega)]
    omega
  have hsecondHalf : UInt16.ofNat (0xdc00 + (point - 0x10000) % 0x400) = v := by
    apply UInt16.toNat_inj.mp
    rw [UInt16.toNat_ofNat', Nat.mod_eq_of_lt (by omega)]
    omega
  simp only [map_cons, map_nil, cons_append, nil_append]
  rw [decodeUtf8_four (by omega) (by omega) (by omega) (by omega) (by omega) (by omega), hfirst,
    hsecond, hthird, hfourth, hread, surrogates, hfirstHalf, hsecondHalf]
  rfl

/-! ## Texts -/

theorem pair_iff (u v : UInt16) :
    (0xd800 ≤ u ∧ u ≤ 0xdbff ∧ 0xdc00 ≤ v ∧ v ≤ 0xdfff) ↔
      isHighSurrogate u = true ∧ isLowSurrogate v = true := by
  simp [isHighSurrogate, isLowSurrogate, and_assoc]

theorem decodeUtf8_encodeText {s : JsString} (h : isWellFormed s = true) :
    decodeUtf8 (encodeText s) = some s := by
  induction s using utf8.induct with
  | case1 => rfl
  | case2 u =>
    rw [isWellFormed, Bool.and_eq_true, Bool.not_eq_true', Bool.not_eq_true'] at h
    have hunit := decodeUtf8_utf8Unit h.1 h.2 []
    rw [append_nil] at hunit
    rw [encodeText, utf8, hunit]
    rfl
  | case3 u v rest hpair ih =>
    obtain ⟨hhigh, hlow⟩ := (pair_iff u v).mp hpair
    rw [isWellFormed, if_pos hhigh, Bool.and_eq_true] at h
    have hrest := ih h.2
    rw [encodeText] at hrest
    rw [encodeText, utf8, if_pos hpair, map_append, decodeUtf8_utf8Pair hhigh hlow, hrest]
    rfl
  | case4 u v rest hpair ih =>
    by_cases hhigh : isHighSurrogate u = true
    · -- the first half of a pair without the second
      rw [isWellFormed, if_pos hhigh, Bool.and_eq_true] at h
      exact absurd ((pair_iff u v).mpr ⟨hhigh, h.1⟩) hpair
    rw [isWellFormed, if_neg hhigh, Bool.and_eq_true, Bool.not_eq_true'] at h
    have hrest := ih h.2
    rw [encodeText] at hrest
    rw [encodeText, utf8, if_neg hpair, map_append,
      decodeUtf8_utf8Unit (Bool.eq_false_iff.mpr hhigh) h.1, hrest]
    rfl

/-- U+FEFF, which stands at the start of a text as a byte order mark. -/
def byteOrderUnit : UInt16 := 0xfeff

theorem decodeUtf8_byteOrderMark (bytes : List UInt8) :
    decodeUtf8 (byteOrderMark ++ bytes) = (decodeUtf8 bytes).map (byteOrderUnit :: ·) := by
  have hread := @decodeUtf8_three 0xef 0xbb 0xbf (by decide) (by decide) (by decide) (by decide)
    (by decide) bytes
  rw [byteOrderMark]
  simp only [cons_append, nil_append]
  rw [hread]
  rfl

/-- So is one that does not start with a byte order mark, by the platform's decoder. -/
theorem decodeText_encodeText {s : JsString} (h : isWellFormed s = true)
    (hmark : s.head? ≠ some byteOrderUnit) : decodeText (encodeText s) = some s := by
  have hread := decodeUtf8_encodeText h
  rw [decodeText, if_neg, hread]
  intro hprefix
  obtain ⟨bytes, hbytes⟩ := isPrefixOf_iff_prefix.mp hprefix
  rw [← hbytes, decodeUtf8_byteOrderMark, Option.map_eq_some_iff] at hread
  obtain ⟨rest, -, hrest⟩ := hread
  rw [← hrest] at hmark
  exact hmark rfl

/-! ## Parts of texts -/

/-- No second half of a pair is missing at the end. -/
def Complete (s : JsString) : Prop := ∀ t, isWellFormed (s ++ t) = isWellFormed t

theorem complete_nil : Complete [] := fun _ => rfl

theorem Complete.append {s t : JsString} (hs : Complete s) (ht : Complete t) :
    Complete (s ++ t) := by
  intro rest
  rw [append_assoc, hs, ht]

theorem Complete.isWellFormed {s : JsString} (h : Complete s) : isWellFormed s = true := by
  have hall := h []
  rwa [append_nil] at hall

theorem complete_pair {u v : UInt16} (hhigh : isHighSurrogate u = true)
    (hlow : isLowSurrogate v = true) : Complete [u, v] := by
  intro t
  simp [Text.isWellFormed, hhigh, hlow]

theorem complete_unit {u : UInt16} (hhigh : isHighSurrogate u = false)
    (hlow : isLowSurrogate u = false) : Complete [u] := by
  intro t
  cases t <;> simp [Text.isWellFormed, hhigh, hlow]

theorem complete_ascii {s : JsString} (h : ∀ u ∈ s, u.toNat < 128) : Complete s := by
  induction s with
  | nil => exact complete_nil
  | cons u s ih =>
    have hu := h u mem_cons_self
    rw [← singleton_append]
    refine (complete_unit ?_ ?_).append (ih fun v hv => h v (mem_cons_of_mem u hv))
    · rw [Bool.eq_false_iff, Ne, isHighSurrogate_spec]
      omega
    · rw [Bool.eq_false_iff, Ne, isLowSurrogate_spec]
      omega

theorem complete_joinParts {separator : JsString} (hseparator : Complete separator)
    {parts : List JsString} (h : ∀ part ∈ parts, Complete part) :
    Complete (joinParts separator parts) := by
  induction parts using joinParts.induct with
  | case1 => exact complete_nil
  | case2 part => exact h part mem_cons_self
  | case3 part next parts ih =>
    rw [joinParts]
    refine ((h part mem_cons_self).append hseparator).append (ih fun other hother => ?_)
    exact h other (mem_cons_of_mem part hother)

end Text

end TegoNext
