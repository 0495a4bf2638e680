/-
The order of canonical timestamps.

Comparing the texts of `toISOString` is comparing instants as long as both years are written with
four digits: a year past 9999 has a plus sign, which sorts before every other year, and of two years
before 0 the earlier one has the greater number.

The calendar counts years from March, so that the leap day is the last of its year, in eras of 400
years.
-/
import TegoNext.TextOrder

set_option autoImplicit false

namespace TegoNext

open List

namespace Text

theorem compareText_cons (u v : UInt16) (s t : JsString) :
    compareText (u :: s) (v :: t) = (compare u.toNat v.toNat).then (compareText s t) := by
  rw [compareText_eq_compareLex, compareText_eq_compareLex, List.compareLex_cons_cons,
    compare_toNat]

end Text

namespace JsDate

open Text

theorem toNat_digit {n : Nat} (h : n < 10) : (UInt16.ofNat (48 + n)).toNat = 48 + n :=
  UInt16.toNat_ofNat_of_lt' (by rw [UInt16.size]; omega)

theorem compareText_pad (width : Nat) {m n : Nat} (hm : m < 10 ^ width) (hn : n < 10 ^ width)
    (s t : JsString) :
    compareText (pad width m ++ s) (pad width n ++ t) = (compare m n).then (compareText s t) := by
  induction width generalizing m n s t with
  | zero =>
    rw [Nat.lt_one_iff.mp hm, Nat.lt_one_iff.mp hn]
    rfl
  | succ w ih =>
    have hdigits : compare (48 + m % 10) (48 + n % 10) = compare (m % 10) (n % 10) := by
      rw [Nat.compare_eq_ite_lt, Nat.compare_eq_ite_lt]
      simp only [Nat.add_lt_add_iff_left]
    rw [pad, pad, append_assoc, append_assoc, singleton_append,
      singleton_append, ih (by rw [Nat.pow_succ] at hm; omega) (by rw [Nat.pow_succ] at hn; omega),
      compareText_cons, toNat_digit (Nat.mod_lt m (by decide)),
      toNat_digit (Nat.mod_lt n (by decide)), hdigits, ← Ordering.then_assoc,
      compare_div_then_mod (by decide)]

theorem compareText_append_left (p s t : JsString) :
    compareText (p ++ s) (p ++ t) = compareText s t := by
  induction p with
  | nil => rfl
  | cons u p ih =>
    rw [cons_append, cons_append, compareText_cons, ih, Nat.compare_eq_eq.mpr rfl, Ordering.eq_then]

/-! ## The time of day -/

/-- What `toISOString` writes after the year. -/
def afterYear (month day ms : Nat) : JsString :=
  js "-" ++ pad 2 month ++ js "-" ++ pad 2 day ++ js "T" ++
    pad 2 (ms / 3600000) ++ js ":" ++ pad 2 (ms / 60000 % 60) ++ js ":" ++
    pad 2 (ms / 1000 % 60) ++ js "." ++ pad 3 (ms % 1000) ++ js "Z"

theorem compare_timeOfDay (m n : Nat) :
    (compare (m / 3600000) (n / 3600000)).then ((compare (m / 60000 % 60) (n / 60000 % 60)).then
      ((compare (m / 1000 % 60) (n / 1000 % 60)).then (compare (m % 1000) (n % 1000)))) =
      compare m n := by
  have hminute : ∀ k : Nat, k / 60000 = k / 1000 / 60 := fun k => by omega
  have hhour : ∀ k : Nat, k / 3600000 = k / 1000 / 60 / 60 := fun k => by omega
  rw [hminute, hminute, hhour, hhour, ← Ordering.then_assoc, ← Ordering.then_assoc,
    compare_div_then_mod (by decide), compare_div_then_mod (by decide),
    compare_div_then_mod (by decide)]

theorem compareText_afterYear {month month' day day' ms ms' : Nat} (hmonth : month < 100)
    (hmonth' : month' < 100) (hday : day < 100) (hday' : day' < 100) (hms : ms < 86400000)
    (hms' : ms' < 86400000) :
    compareText (afterYear month day ms) (afterYear month' day' ms') =
      (compare month month').then ((compare day day').then (compare ms ms')) := by
  unfold afterYear
  simp only [append_assoc]
  rw [compareText_append_left, compareText_pad 2 (by omega) (by omega), compareText_append_left,
    compareText_pad 2 (by omega) (by omega), compareText_append_left,
    compareText_pad 2 (by omega) (by omega), compareText_append_left,
    compareText_pad 2 (by omega) (by omega), compareText_append_left,
    compareText_pad 2 (by omega) (by omega), compareText_append_left,
    compareText_pad 3 (by omega) (by omega), compareText_self, Ordering.then_eq,
    compare_timeOfDay]

/-! ## The calendar -/

def yearOfEra (doe : Nat) : Nat := (doe - doe / 1460 + doe / 36524 - doe / 146096) / 365

def daysBeforeYear (yoe : Nat) : Nat := 365 * yoe + yoe / 4 - yoe / 100

def monthOfYear (doy : Nat) : Nat := (5 * doy + 2) / 153

theorem yearOfEra_mono {doe doe' : Nat} (h : doe ≤ doe') (hlt : doe' < 146097) :
    yearOfEra doe ≤ yearOfEra doe' := by
  induction doe', h using Nat.le_induction with
  | base => exact Nat.le_refl _
  | succ n hn ih =>
    refine Nat.le_trans (ih (by omega)) ?_
    exact Nat.div_le_div_right (by omega)

theorem yearOfEra_lt {doe : Nat} (h : doe < 146097) : yearOfEra doe < 400 := by
  unfold yearOfEra
  omega

theorem dayOfYear_lt {doe : Nat} (h : doe < 146097) :
    daysBeforeYear (yearOfEra doe) ≤ doe ∧ doe < daysBeforeYear (yearOfEra doe) + 366 := by
  obtain hlast | hlt : doe = 146096 ∨ doe < 146096 := by omega
  · subst hlast
    decide
  · -- the leap days of the four-year and of the hundred-year cycles before the day
    obtain ⟨f, r, hr, hdoe⟩ : ∃ f r, r < 1460 ∧ doe = 1460 * f + r :=
      ⟨doe / 1460, doe % 1460, Nat.mod_lt _ (by decide), (Nat.div_add_mod _ _).symm⟩
    obtain ⟨k, s, hs, hdoe'⟩ : ∃ k s, s < 36524 ∧ doe = 36524 * k + s :=
      ⟨doe / 36524, doe % 36524, Nat.mod_lt _ (by decide), (Nat.div_add_mod _ _).symm⟩
    have hyear : yearOfEra doe = (1459 * f + r + k) / 365 := by
      unfold yearOfEra
      congr 1
      omega
    have hf : (yearOfEra doe) / 4 ≤ f ∧ f ≤ yearOfEra doe / 4 + 1 := by
      rw [hyear]
      omega
    have hk : yearOfEra doe / 100 = k := by
      rw [hyear]
      omega
    unfold daysBeforeYear
    rw [hk]
    omega

def dayOfYear (doe : Nat) : Nat := doe - daysBeforeYear (yearOfEra doe)

/-- The month of a date, counted from the year 0. -/
def monthNumber (date : Int × Nat × Nat) : Int := 12 * date.1 + date.2.1

/-- A date by the era of the day and its place in there: the months are those of the years
that begin in March. -/
theorem exists_era (days : Int) :
    ∃ (era : Int) (doe : Nat), doe < 146097 ∧ days + 719468 = 146097 * era + doe ∧
      (1 ≤ (civilFromDays days).2.1 ∧ (civilFromDays days).2.1 ≤ 12) ∧
      monthNumber (civilFromDays days) =
        12 * (yearOfEra doe + era * 400) + monthOfYear (dayOfYear doe) + 3 ∧
      (civilFromDays days).2.2 = dayOfYear doe - (153 * monthOfYear (dayOfYear doe) + 2) / 5 + 1 := by
  have hera : (days + 719468).fdiv 146097 = (days + 719468) / 146097 :=
    Int.fdiv_eq_ediv_of_nonneg _ (by decide)
  obtain ⟨era, heraEq⟩ : ∃ era, era = (days + 719468).fdiv 146097 := ⟨_, rfl⟩
  obtain ⟨doe, hdoeEq⟩ : ∃ doe, doe = (days + 719468 - era * 146097).toNat := ⟨_, rfl⟩
  have hmonth : (civilFromDays days).2.1 =
      if monthOfYear (dayOfYear doe) < 10 then monthOfYear (dayOfYear doe) + 3
      else monthOfYear (dayOfYear doe) - 9 := by
    rw [hdoeEq, heraEq]
    rfl
  have hyear : (civilFromDays days).1 =
      yearOfEra doe + era * 400 + (if (civilFromDays days).2.1 ≤ 2 then 1 else 0) := by
    rw [hdoeEq, heraEq]
    rfl
  have hday : (civilFromDays days).2.2 =
      dayOfYear doe - (153 * monthOfYear (dayOfYear doe) + 2) / 5 + 1 := by
    rw [hdoeEq, heraEq]
    rfl
  have hdoe : doe < 146097 := by omega
  have hdoy := dayOfYear_lt hdoe
  have hmp : monthOfYear (dayOfYear doe) < 12 := by
    unfold monthOfYear dayOfYear
    omega
  refine ⟨era, doe, hdoe, by omega, ?_, ?_, hday⟩
  · rw [hmonth]
    split <;> omega
  · rw [monthNumber, hyear, hmonth]
    split <;> split <;> omega

theorem dayOfMonth_le (days : Int) : (civilFromDays days).2.2 ≤ 31 := by
  obtain ⟨era, doe, -, -, -, -, hday⟩ := exists_era days
  rw [hday]
  unfold monthOfYear
  omega

/-- **A later day is later in the calendar**: in a later month, or later in the month. -/
theorem civilFromDays_lt {days days' : Int} (h : days < days') :
    monthNumber (civilFromDays days) < monthNumber (civilFromDays days') ∨
      (monthNumber (civilFromDays days) = monthNumber (civilFromDays days') ∧
        (civilFromDays days).2.2 < (civilFromDays days').2.2) := by
  obtain ⟨era, doe, hdoe, hdays, -, hmonth, hday⟩ := exists_era days
  obtain ⟨era', doe', hdoe', hdays', -, hmonth', hday'⟩ := exists_era days'
  have hdoy := dayOfYear_lt hdoe
  have hdoy' := dayOfYear_lt hdoe'
  have hyear := yearOfEra_lt hdoe
  have hyear' := yearOfEra_lt hdoe'
  have hmp : monthOfYear (dayOfYear doe) < 12 := by
    unfold monthOfYear dayOfYear
    omega
  rw [hmonth, hmonth', hday, hday']
  obtain hera | ⟨rfl, hlt⟩ : era < era' ∨ (era = era' ∧ doe < doe') := by omega
  · left
    omega
  · have hmono := yearOfEra_mono (Nat.le_of_lt hlt) hdoe'
    obtain hyoe | hyoe := Nat.lt_or_eq_of_le hmono
    · left
      omega
    · -- the same year: the days of the year decide
      have hdoyLt : dayOfYear doe < dayOfYear doe' := by
        unfold dayOfYear
        rw [hyoe] at hdoy ⊢
        omega
      rw [hyoe]
      unfold monthOfYear
      omega

/-! ## The order of the texts -/

/-- The year `toISOString` writes. -/
def yearOf (t : Int) : Int := (civilFromDays (t.fdiv 86400000)).1

/-- The year as `toISOString` writes it. -/
def yearText (year : Int) : JsString :=
  if 0 ≤ year ∧ year ≤ 9999 then pad 4 year.toNat
  else if year < 0 then js "-" ++ pad 6 year.natAbs
  else js "+" ++ pad 6 year.toNat

theorem toISOString_eq (t : Int) :
    toISOString t = yearText (yearOf t) ++
      afterYear (civilFromDays (t.fdiv 86400000)).2.1 (civilFromDays (t.fdiv 86400000)).2.2
        (t - t.fdiv 86400000 * 86400000).toNat := by
  unfold toISOString afterYear yearText yearOf
  simp only [append_assoc]

/-- The years of the instants a `Date` can hold have at most six digits. -/
theorem yearOf_bounds (t : Instant) : -1000000 < yearOf t.ms ∧ yearOf t.ms < 1000000 := by
  obtain ⟨era, doe, hdoe, hdays, hmonth, hnumber, -⟩ := exists_era (t.ms.fdiv 86400000)
  have hrange := t.inRange
  have hfdiv : t.ms.fdiv 86400000 = t.ms / 86400000 := Int.fdiv_eq_ediv_of_nonneg _ (by decide)
  have hdoy := dayOfYear_lt hdoe
  have hyear := yearOfEra_lt hdoe
  have hmp : monthOfYear (dayOfYear doe) < 12 := by
    unfold monthOfYear dayOfYear
    omega
  unfold maxInstant at hrange
  unfold monthNumber at hnumber
  unfold yearOf
  omega

/-- Texts are ordered as the instants where their years have the same form: either both
have a plus sign, or neither has and not both are negative, the same year apart. -/
def SameForm (a b : Int) : Prop :=
  (9999 < yearOf a ↔ 9999 < yearOf b) ∧ (yearOf a < 0 → yearOf b < 0 → yearOf a = yearOf b)

instance (a b : Int) : Decidable (SameForm a b) := inferInstanceAs (Decidable (_ ∧ _))

theorem SameForm.symm {a b : Int} (h : SameForm a b) : SameForm b a :=
  ⟨h.1.symm, fun hb ha => (h.2 ha hb).symm⟩

theorem compareText_yearText {y y' : Int} (h : y < y') (hlow : -1000000 < y) (hhigh : y' < 1000000)
    (s s' : JsString) :
    compareText (yearText y ++ s) (yearText y' ++ s') =
      if (9999 < y ↔ 9999 < y') ∧ (y < 0 → y' < 0 → y = y') then .lt else .gt := by
  have hpad : ∀ n : Nat, ∃ rest, pad 4 n = UInt16.ofNat (48 + n / 10 / 10 / 10 % 10) :: rest :=
    fun n => ⟨_, rfl⟩
  have hdigit : ∀ n : Nat, UInt16.toNat 45 < (UInt16.ofNat (48 + n % 10)).toNat := fun n => by
    rw [toNat_digit (Nat.mod_lt n (by decide)), show UInt16.toNat 45 = 45 from rfl]
    omega
  have hplus : js "+" = [43] := rfl
  have hminus : js "-" = [45] := rfl
  have hsign : ∀ t t' : JsString, compareText (45 :: t) (43 :: t') = .gt := fun _ _ => rfl
  unfold yearText
  by_cases hneg : y < 0
  · rw [if_neg (show ¬ (0 ≤ y ∧ y ≤ 9999) by omega), if_pos hneg]
    by_cases hneg' : y' < 0
    · rw [if_neg (show ¬ (0 ≤ y' ∧ y' ≤ 9999) by omega), if_pos hneg', if_neg (by omega),
        append_assoc, append_assoc, compareText_append_left,
        compareText_pad 6 (by omega) (by omega), Nat.compare_eq_gt.mpr (by omega), Ordering.gt_then]
    by_cases hfour : y' ≤ 9999
    · rw [if_pos (show 0 ≤ y' ∧ y' ≤ 9999 by omega), if_pos (by omega)]
      obtain ⟨rest, hrest⟩ := hpad y'.toNat
      rw [hrest, hminus, singleton_append, cons_append, cons_append,
        compareText_cons, Nat.compare_eq_lt.mpr (hdigit _), Ordering.lt_then]
    · rw [if_neg (show ¬ (0 ≤ y' ∧ y' ≤ 9999) by omega), if_neg hneg', if_neg (by omega), hplus,
        hminus]
      exact hsign _ _
  · by_cases hfour : y ≤ 9999
    · rw [if_pos (show 0 ≤ y ∧ y ≤ 9999 by omega)]
      by_cases hfour' : y' ≤ 9999
      · rw [if_pos (show 0 ≤ y' ∧ y' ≤ 9999 by omega), if_pos (by omega),
          compareText_pad 4 (by omega) (by omega), Nat.compare_eq_lt.mpr (by omega),
          Ordering.lt_then]
      rw [if_neg (show ¬ (0 ≤ y' ∧ y' ≤ 9999) by omega), if_neg (show ¬ y' < 0 by omega),
        if_neg (by omega)]
      obtain ⟨rest, hrest⟩ := hpad y.toNat
      rw [hrest, hplus, singleton_append, cons_append, cons_append,
        compareText_cons, Nat.compare_eq_gt.mpr (Nat.lt_trans (by decide) (hdigit _)),
        Ordering.gt_then]
    · rw [if_neg (show ¬ (0 ≤ y ∧ y ≤ 9999) by omega), if_neg hneg,
        if_neg (show ¬ (0 ≤ y' ∧ y' ≤ 9999) by omega), if_neg (show ¬ y' < 0 by omega),
        if_pos (by omega), append_assoc, append_assoc, compareText_append_left,
        compareText_pad 6 (by omega) (by omega), Nat.compare_eq_lt.mpr (by omega),
        Ordering.lt_then]

/-- **Texts of instants.** A later instant has a greater text exactly when the years have
the same form. -/
theorem compareText_toISOString_of_lt {a b : Instant} (h : a.ms < b.ms) :
    compareText (toISOString a.ms) (toISOString b.ms) =
      if SameForm a.ms b.ms then .lt else .gt := by
  have hfdiv : ∀ t : Int, t.fdiv 86400000 = t / 86400000 := fun t =>
    Int.fdiv_eq_ediv_of_nonneg _ (by decide)
  obtain ⟨-, -, -, -, hmonth, -, -⟩ := exists_era (a.ms.fdiv 86400000)
  obtain ⟨-, -, -, -, hmonth', -, -⟩ := exists_era (b.ms.fdiv 86400000)
  have hday := dayOfMonth_le (a.ms.fdiv 86400000)
  have hday' := dayOfMonth_le (b.ms.fdiv 86400000)
  have hms : (a.ms - a.ms.fdiv 86400000 * 86400000).toNat < 86400000 := by
    rw [hfdiv]
    omega
  have hms' : (b.ms - b.ms.fdiv 86400000 * 86400000).toNat < 86400000 := by
    rw [hfdiv]
    omega
  have hdays : a.ms.fdiv 86400000 < b.ms.fdiv 86400000 ∨
      (a.ms.fdiv 86400000 = b.ms.fdiv 86400000 ∧ (a.ms - a.ms.fdiv 86400000 * 86400000).toNat <
        (b.ms - b.ms.fdiv 86400000 * 86400000).toNat) := by
    rw [hfdiv, hfdiv]
    omega
  rw [toISOString_eq, toISOString_eq]
  -- a later year, or the same year and a later rest
  have hsame : yearOf a.ms = yearOf b.ms → compareText
      (afterYear (civilFromDays (a.ms.fdiv 86400000)).2.1 (civilFromDays (a.ms.fdiv 86400000)).2.2
        (a.ms - a.ms.fdiv 86400000 * 86400000).toNat)
      (afterYear (civilFromDays (b.ms.fdiv 86400000)).2.1 (civilFromDays (b.ms.fdiv 86400000)).2.2
        (b.ms - b.ms.fdiv 86400000 * 86400000).toNat) = .lt := by
    intro hyear
    rw [compareText_afterYear (by omega) (by omega) (by omega) (by omega) hms hms']
    unfold yearOf at hyear
    obtain hlt | ⟨heq, hlt⟩ := hdays
    · obtain hnumber | ⟨hnumber, hlt⟩ := civilFromDays_lt hlt
      · unfold monthNumber at hnumber
        rw [Nat.compare_eq_lt.mpr (by omega), Ordering.lt_then]
      · unfold monthNumber at hnumber
        rw [Nat.compare_eq_eq.mpr (by omega), Ordering.eq_then, Nat.compare_eq_lt.mpr hlt,
          Ordering.lt_then]
    · rw [heq, Nat.compare_eq_eq.mpr rfl, Ordering.eq_then, Nat.compare_eq_eq.mpr rfl,
        Ordering.eq_then, ← heq, Nat.compare_eq_lt.mpr (heq ▸ hlt)]
  have hle : yearOf a.ms ≤ yearOf b.ms := by
    unfold yearOf
    obtain hlt | ⟨heq, -⟩ := hdays
    · obtain hnumber | ⟨hnumber, -⟩ := civilFromDays_lt hlt
      all_goals
        unfold monthNumber at hnumber
        omega
    · rw [heq]
  obtain hyear | hyear := Int.lt_or_eq_of_le hle
  · rw [compareText_yearText hyear (yearOf_bounds a).1 (yearOf_bounds b).2]
    rfl
  · rw [if_pos ⟨by rw [hyear], fun _ _ => hyear⟩, hyear, compareText_append_left]
    exact hsame hyear

/-- **The order of the texts is the order of the instants** exactly when the years have the
same form. -/
theorem compareText_toISOString_iff {a b : Instant} :
    (compareText (toISOString a.ms) (toISOString b.ms) ≠ .gt ↔ a.ms ≤ b.ms) ↔
      SameForm a.ms b.ms := by
  rcases lt_trichotomy a.ms b.ms with hlt | heq | hgt
  · rw [compareText_toISOString_of_lt hlt]
    by_cases hform : SameForm a.ms b.ms
    · rw [if_pos hform]
      exact ⟨fun _ => hform, fun _ => ⟨fun _ => Int.le_of_lt hlt, fun _ => by decide⟩⟩
    · rw [if_neg hform]
      exact ⟨fun h => absurd rfl (h.mpr (Int.le_of_lt hlt)), fun h => absurd h hform⟩
  · rw [heq, compareText_self]
    exact ⟨fun _ => ⟨Iff.rfl, fun _ _ => rfl⟩, fun _ => ⟨fun _ => Int.le_refl _, fun _ => by decide⟩⟩
  · have hswap : compareText (toISOString a.ms) (toISOString b.ms) =
        (compareText (toISOString b.ms) (toISOString a.ms)).swap := Std.OrientedCmp.eq_swap
    rw [compareText_toISOString_of_lt hgt] at hswap
    by_cases hform : SameForm a.ms b.ms
    · rw [if_pos hform.symm] at hswap
      rw [hswap]
      exact ⟨fun _ => hform, fun _ => ⟨fun h => absurd rfl h, fun h => absurd h (by omega)⟩⟩
    rw [if_neg fun h => hform h.symm] at hswap
    rw [hswap]
    exact ⟨fun h => absurd (h.mp (by decide)) (by omega), fun h => absurd h hform⟩

end JsDate
end TegoNext
