/-
Canonical decimals are the texts of numbers.

Revisions, sequences and epochs travel as texts. `toString` writes a number without leading
zeros, `DECIMAL_PATTERN` accepts just such texts, and `BigInt` reads the number back. That makes
the texts an unbounded counter: no two numbers share one.
-/
import TegoNext.ReconcilePlan

set_option autoImplicit false

namespace TegoNext

open Text List

theorem isDigit_ofChar {c : Char} (h : c.isDigit = true) :
    isDigit (UInt16.ofNat c.toNat) = true ∧
      (UInt16.ofNat c.toNat).toNat - 48 = c.toNat - '0'.toNat := by
  simp only [Char.isDigit, Bool.and_eq_true, decide_eq_true_eq] at h
  have hlow : 48 ≤ c.toNat := h.1
  have hhigh : c.toNat ≤ 57 := h.2
  have hval : (UInt16.ofNat c.toNat).toNat = c.toNat := by
    rw [UInt16.toNat_ofNat']
    exact Nat.mod_eq_of_lt (by omega)
  constructor
  · simp only [isDigit, Bool.and_eq_true, decide_eq_true_eq, UInt16.le_iff_toNat_le, hval]
    exact ⟨hlow, hhigh⟩
  · rw [hval]
    rfl

theorem foldl_digits {cs : List Char} (h : ∀ c ∈ cs, c.isDigit = true) (n : Nat) :
    (cs.map fun c => UInt16.ofNat c.toNat).foldl (fun acc u => acc.bind fun n =>
      if isDigit u then some (10 * n + (u.toNat - 48)) else none) (some n) =
        some (Nat.ofDigitChars 10 cs n) := by
  induction cs generalizing n with
  | nil => rw [map_nil, foldl_nil, Nat.ofDigitChars_nil]
  | cons c cs ih =>
    obtain ⟨hdigit, hnumber⟩ := isDigit_ofChar (h c mem_cons_self)
    rw [map_cons, foldl_cons, Option.bind_some, if_pos hdigit, hnumber,
      ih fun d hd => h d (mem_cons_of_mem _ hd), Nat.ofDigitChars_cons]

theorem isDigit_of_mem_toDigits {n : Nat} {c : Char} (h : c ∈ Nat.toDigits 10 n) :
    c.isDigit = true := Nat.isDigit_of_mem_toDigits (by decide) (by decide) h

theorem isDigit_of_mem_decimal {n : Nat} {u : UInt16} (h : u ∈ decimal n) : isDigit u = true := by
  obtain ⟨c, hc, rfl⟩ := mem_map.mp h
  exact (isDigit_ofChar (isDigit_of_mem_toDigits hc)).1

theorem decimal_ne_nil (n : Nat) : decimal n ≠ [] := by
  intro h
  have hlength := congrArg List.length h
  have hpos : 0 < (Nat.toDigits 10 n).length := Nat.length_toDigits_pos
  rw [decimal, length_map, length_nil] at hlength
  omega

/-- **Round trip.** The text of a number reads as the number. -/
theorem digits_decimal (n : Nat) : digits (decimal n) = some n := by
  have hne : ¬(decimal n).isEmpty = true := by
    rw [List.isEmpty_iff]
    exact decimal_ne_nil n
  rw [digits, if_neg hne, decimal, foldl_digits fun _ hc => isDigit_of_mem_toDigits hc,
    Nat.ofDigitChars_ten_toDigits]

theorem decimal_injective {m n : Nat} (h : decimal m = decimal n) : m = n := by
  have hread : digits (decimal m) = digits (decimal n) := by rw [h]
  rw [digits_decimal, digits_decimal] at hread
  exact Option.some.inj hread

theorem colon_notMem_decimal (n : Nat) : (58 : UInt16) ∉ decimal n := by
  intro hmem
  have hunit := isNameUnit_decimal hmem
  revert hunit
  decide

theorem head_decimal {n : Nat} (h : 0 < n) :
    (decimal n).head?.any (fun u => 49 ≤ u && u ≤ 57) = true := by
  induction n using Nat.strongRecOn with
  | ind n ih =>
    by_cases hsmall : n < 10
    · have hall : ∀ k < 10, 0 < k →
          (decimal k).head?.any (fun u => 49 ≤ u && u ≤ 57) = true := by decide
      exact hall n hsmall h
    -- the leading digits are those of the quotient
    have hquotient : 0 < n / 10 := Nat.div_pos (by omega) (by decide)
    have hstep : Nat.toDigits 10 n = Nat.toDigits 10 (n / 10) ++ Nat.toDigits 10 (n % 10) := by
      have := Nat.toDigits_append_toDigits (b := 10) (n := n / 10) (d := n % 10) (by decide)
        hquotient (Nat.mod_lt _ (by decide))
      rw [this, Nat.div_add_mod]
    have happend : decimal n = decimal (n / 10) ++ decimal (n % 10) := by
      rw [decimal, hstep, map_append]
      rfl
    rw [happend, head?_append_of_ne_nil _ (decimal_ne_nil _)]
    exact ih (n / 10) (by omega) hquotient

/-- What `toString` writes, `DECIMAL_PATTERN` accepts. -/
theorem isNumeric_decimal (n : Nat) : isNumeric (decimal n) = true := by
  by_cases hn : 0 < n
  · have hdigits : (decimal n).all isDigit = true := by
      rw [all_eq_true]
      exact fun u hu => isDigit_of_mem_decimal hu
    rw [isNumeric, head_decimal hn, hdigits, Bool.and_self, Bool.or_true]
  · obtain rfl : n = 0 := by omega
    rfl

end TegoNext
