/-
The text orders of the source.

The order of texts is the lexicographic order of code units, and so is the order of state keys;
the index of a database orders bytes, and comes to the same. They are comparisons that tell
different elements apart.
-/
import TegoNext.Sorting
import TegoNext.StateContract

set_option autoImplicit false

namespace TegoNext

/-! ## The orders of the source -/

namespace Text

theorem compareText_eq_compareLex (s t : JsString) : compareText s t = List.compareLex compare s t := by
  induction s generalizing t with
  | nil => cases t <;> rfl
  | cons a s ih =>
    cases t with
    | nil => rfl
    | cons b t =>
      have hcompare : compare a b = if a < b then .lt else if a = b then .eq else .gt := rfl
      rw [compareText, List.compareLex_cons_cons, ih, hcompare]
      by_cases hlt : a < b
      · rw [if_pos hlt, if_pos hlt, Ordering.lt_then]
      by_cases heq : a = b
      · rw [if_neg hlt, if_neg hlt, if_pos heq, if_neg (heq ▸ UInt16.lt_irrefl _), Ordering.eq_then]
      · have hgt : b < a := UInt16.lt_of_le_of_ne (UInt16.not_lt.mp hlt) (Ne.symm heq)
        rw [if_neg hlt, if_neg hlt, if_neg heq, if_pos hgt, Ordering.gt_then]

instance : Std.TransCmp compareText := by
  have heq : compareText = List.compareLex compare := by
    funext s t
    exact compareText_eq_compareLex s t
  rw [heq]
  infer_instance

end Text

instance : Std.TransCmp compareKeys :=
  have := transCmp_comap Text.compareText StateKey.nspace
  have := transCmp_comap Text.compareText StateKey.collection
  have := transCmp_comap Text.compareText StateKey.id
  inferInstanceAs (Std.TransCmp (compareLex
    (fun left right : StateKey => Text.compareText left.nspace right.nspace)
    (compareLex (fun left right : StateKey => Text.compareText left.collection right.collection)
      fun left right : StateKey => Text.compareText left.id right.id)))

theorem eq_of_compareKeys {left right : StateKey} (h : compareKeys left right = .eq) :
    left = right := by
  rw [compareKeys, Ordering.then_eq_eq, Ordering.then_eq_eq] at h
  obtain ⟨hnamespace, hcollection, hid⟩ := h
  obtain ⟨_, _, _⟩ := left
  obtain ⟨_, _, _⟩ := right
  rw [StateKey.mk.injEq]
  exact ⟨Text.eq_of_compareText hnamespace, Text.eq_of_compareText hcollection,
    Text.eq_of_compareText hid⟩

instance : Std.LawfulEqCmp Text.compareText where
  compare_self := Text.compareText_self _
  eq_of_compare := Text.eq_of_compareText

/-! ## The order of a database index -/

/-- `stateStringOrderKey`: the two bytes of every code unit, the high one first. -/
def stateStringOrderKey (value : JsString) : List Nat :=
  value.flatMap fun codeUnit => [codeUnit.toNat / 256, codeUnit.toNat % 256]

/-- How the database compares byte strings. -/
def compareBytes : List Nat → List Nat → Ordering := List.compareLex compare

theorem compare_div_then_mod {b : Nat} (hb : 0 < b) (m n : Nat) :
    (compare (m / b) (n / b)).then (compare (m % b) (n % b)) = compare m n := by
  have hm := Nat.div_add_mod m b
  have hn := Nat.div_add_mod n b
  have hmlt := Nat.mod_lt m hb
  have hnlt := Nat.mod_lt n hb
  rcases Nat.lt_trichotomy (m / b) (n / b) with hlt | heq | hgt
  · have hstep : b * (m / b + 1) ≤ b * (n / b) := Nat.mul_le_mul_left b hlt
    rw [Nat.mul_succ] at hstep
    rw [Nat.compare_eq_lt.mpr hlt, Ordering.lt_then, Nat.compare_eq_lt.mpr (by omega)]
  · rw [Nat.compare_eq_eq.mpr heq, Ordering.eq_then]
    rw [heq] at hm
    rcases Nat.lt_trichotomy (m % b) (n % b) with hlt | heq' | hgt
    · rw [Nat.compare_eq_lt.mpr hlt, Nat.compare_eq_lt.mpr (by omega)]
    · rw [Nat.compare_eq_eq.mpr heq', Nat.compare_eq_eq.mpr (by omega)]
    · rw [Nat.compare_eq_gt.mpr hgt, Nat.compare_eq_gt.mpr (by omega)]
  · have hstep : b * (n / b + 1) ≤ b * (m / b) := Nat.mul_le_mul_left b hgt
    rw [Nat.mul_succ] at hstep
    rw [Nat.compare_eq_gt.mpr hgt, Ordering.gt_then, Nat.compare_eq_gt.mpr (by omega)]

theorem compare_toNat (a b : UInt16) : compare a.toNat b.toNat = compare a b := by
  have hcompare : compare a b = if a < b then .lt else if a = b then .eq else .gt := rfl
  rw [hcompare]
  by_cases hlt : a < b
  · rw [if_pos hlt, Nat.compare_eq_lt.mpr (UInt16.lt_iff_toNat_lt.mp hlt)]
  by_cases heq : a = b
  · rw [if_neg hlt, if_pos heq, heq, Nat.compare_eq_eq.mpr rfl]
  · have hgt : b < a := UInt16.lt_of_le_of_ne (UInt16.not_lt.mp hlt) (Ne.symm heq)
    rw [if_neg hlt, if_neg heq, Nat.compare_eq_gt.mpr (UInt16.lt_iff_toNat_lt.mp hgt)]

/-- **The index orders as the source does.** -/
theorem compareBytes_stateStringOrderKey (s t : JsString) :
    compareBytes (stateStringOrderKey s) (stateStringOrderKey t) = Text.compareText s t := by
  rw [Text.compareText_eq_compareLex, compareBytes]
  induction s generalizing t with
  | nil => cases t <;> rfl
  | cons a s ih =>
    cases t with
    | nil => rfl
    | cons b t =>
      have hkey : ∀ (u : UInt16) (rest : JsString), stateStringOrderKey (u :: rest) =
          u.toNat / 256 :: u.toNat % 256 :: stateStringOrderKey rest := fun _ _ => rfl
      rw [hkey, hkey, List.compareLex_cons_cons, List.compareLex_cons_cons, ih,
        ← Ordering.then_assoc, compare_div_then_mod (by decide), compare_toNat, List.compareLex_cons_cons]

end TegoNext
