/-
The order of versions is the precedence of Semantic Versioning.

A version has a rank: its release, and above all of its prereleases the release itself. A
prerelease is a list of identifiers, numbers below texts, and a list comes before those it begins.
The source never reads a number: the one with more digits is the greater, and of two with as many
the greater text. A comparator stands for an interval of ranks.
-/
import TegoNext.TextOrder
import TegoNext.VersionBounds
import Mathlib.Data.List.Lex
import Mathlib.Data.Prod.Lex
import Mathlib.Data.Set.Lattice
import Mathlib.Data.Sum.Order

set_option autoImplicit false

namespace TegoNext

namespace Version

open Text

/-! ## Comparisons -/

section Compares

variable {α β : Type} {o o' : Ordering}

theorem compares_nat (m n : Nat) : (compare m n).Compares m n := (compare_iff m n).mp rfl

theorem compares_snd [LT α] [LT β] {a b : α} {c d : β} (h : a = b) (h' : o.Compares c d) :
    o.Compares (toLex (a, c)) (toLex (b, d)) := by
  cases h
  cases o with
  | lt | gt => exact Prod.Lex.toLex_lt_toLex.mpr (.inr ⟨rfl, h'⟩)
  | eq => exact congrArg (fun c => toLex (a, c)) h'

theorem compares_then [LT α] [LT β] {a b : α} {c d : β} (h : o.Compares a b)
    (h' : o'.Compares c d) : (o.then o').Compares (toLex (a, c)) (toLex (b, d)) := by
  cases o with
  | lt | gt => exact Prod.Lex.toLex_lt_toLex.mpr (.inl h)
  | eq => exact compares_snd h h'

theorem compares_cons [LT α] {a b : α} {l l' : List α} (h : o.Compares a b)
    (h' : o'.Compares l l') : (o.then o').Compares (a :: l) (b :: l') := by
  cases o with
  | lt | gt => exact List.cons_lt_cons_iff.mpr (.inl h)
  | eq =>
    cases (h : a = b)
    cases o' with
    | lt | gt => exact List.cons_lt_cons_iff.mpr (.inr ⟨rfl, h'⟩)
    | eq => exact congrArg (a :: ·) h'

theorem compares_map [LT α] [LT β] {f : α → β} (hf : ∀ a b, a < b → f a < f b) {a b : α}
    (h : o.Compares a b) : o.Compares (f a) (f b) := by
  cases o with
  | lt => exact hf _ _ h
  | eq => exact congrArg f h
  | gt => exact hf _ _ h

end Compares

/-- The codes of a text. -/
def codes (s : JsString) : List Nat := s.map (·.toNat)

theorem compareText_compares (s t : JsString) : (compareText s t).Compares (codes s) (codes t) := by
  rw [compareText_eq_compareLex]
  induction s generalizing t with
  | nil =>
    cases t with
    | nil => rfl
    | cons b t => exact List.nil_lt_cons _ _
  | cons a s ih =>
    cases t with
    | nil => exact List.nil_lt_cons _ _
    | cons b t =>
      rw [List.compareLex_cons_cons, ← compare_toNat]
      exact compares_cons (compares_nat _ _) (ih t)

/-! ## Numeric identifiers -/

def decimalValue : JsString → Nat
  | [] => 0
  | u :: rest => (u.toNat - 48) * 10 ^ rest.length + decimalValue rest

theorem isDigit_iff {u : UInt16} : isDigit u = true ↔ 48 ≤ u.toNat ∧ u.toNat ≤ 57 := by
  rw [isDigit, Bool.and_eq_true, decide_eq_true_eq, decide_eq_true_eq, UInt16.le_iff_toNat_le,
    UInt16.le_iff_toNat_le]
  rfl

theorem decimalValue_lt {s : JsString} (h : s.all isDigit = true) :
    decimalValue s < 10 ^ s.length := by
  induction s with
  | nil => decide
  | cons u rest ih =>
    rw [List.all_cons, Bool.and_eq_true, isDigit_iff] at h
    have hrest := ih h.2
    have hfirst : (u.toNat - 48) * 10 ^ rest.length ≤ 9 * 10 ^ rest.length :=
      Nat.mul_le_mul_right _ (by omega)
    rw [decimalValue, List.length_cons, Nat.pow_succ']
    omega

/-- Of two numbers with as many digits the greater text is the greater number. -/
theorem compareText_digits {s t : JsString} (hs : s.all isDigit = true) (ht : t.all isDigit = true)
    (hlength : s.length = t.length) :
    compareText s t = compare (decimalValue s) (decimalValue t) := by
  rw [compareText_eq_compareLex]
  induction s generalizing t with
  | nil =>
    cases t with
    | nil => rfl
    | cons b t => cases hlength
  | cons a s ih =>
    cases t with
    | nil => cases hlength
    | cons b t =>
      rw [List.all_cons, Bool.and_eq_true, isDigit_iff] at hs ht
      replace hlength : s.length = t.length := Nat.succ.inj hlength
      have hpos : 0 < 10 ^ t.length := Nat.pow_pos (by decide)
      have hfirst : compare a.toNat b.toNat = compare (a.toNat - 48) (b.toNat - 48) := by
        rcases Nat.lt_trichotomy a.toNat b.toNat with hlt | heq | hgt
        · rw [Nat.compare_eq_lt.mpr hlt, Nat.compare_eq_lt.mpr (by omega)]
        · rw [Nat.compare_eq_eq.mpr heq, Nat.compare_eq_eq.mpr (by omega)]
        · rw [Nat.compare_eq_gt.mpr hgt, Nat.compare_eq_gt.mpr (by omega)]
      have hs' := decimalValue_lt hs.2
      have ht' := decimalValue_lt ht.2
      rw [hlength] at hs'
      rw [List.compareLex_cons_cons, ih hs.2 ht.2 hlength, ← compare_toNat, hfirst,
        ← compare_div_then_mod hpos (decimalValue (a :: s)), decimalValue, decimalValue, hlength,
        Nat.mul_comm (a.toNat - 48), Nat.mul_comm (b.toNat - 48), Nat.mul_add_div hpos,
        Nat.mul_add_div hpos, Nat.div_eq_of_lt hs', Nat.div_eq_of_lt ht', Nat.mul_add_mod,
        Nat.mul_add_mod, Nat.mod_eq_of_lt hs', Nat.mod_eq_of_lt ht', Nat.add_zero, Nat.add_zero]

/-- No zero is in front of other digits. -/
structure Trimmed (s : JsString) : Prop where
  digits : s.all isDigit = true
  length_pos : 0 < s.length
  le_value : 1 < s.length → 10 ^ (s.length - 1) ≤ decimalValue s

theorem withoutLeadingZeros_spec {s : JsString} (h : s.all isDigit = true) :
    Trimmed (withoutLeadingZeros s) ∧ decimalValue (withoutLeadingZeros s) = decimalValue s := by
  rw [withoutLeadingZeros]
  induction s with
  | nil => exact ⟨⟨by decide, by decide, by decide⟩, rfl⟩
  | cons u rest ih =>
    have hall := h
    rw [List.all_cons, Bool.and_eq_true, isDigit_iff] at h
    by_cases hzero : u = 48
    · rw [List.dropWhile_cons_of_pos (by rw [hzero]; rfl)]
      refine ⟨(ih h.2).1, (ih h.2).2.trans ?_⟩
      rw [decimalValue, hzero]
      exact (Nat.zero_add _).symm.trans (congrArg (· + _) (Nat.zero_mul _).symm)
    · rw [List.dropWhile_cons_of_neg (by rw [beq_iff_eq]; exact hzero)]
      refine ⟨⟨hall, Nat.succ_pos _, fun _ => ?_⟩, rfl⟩
      have hne : u.toNat ≠ 48 := fun heq => hzero (UInt16.toNat.inj heq)
      have hfirst : 1 * 10 ^ rest.length ≤ (u.toNat - 48) * 10 ^ rest.length :=
        Nat.mul_le_mul_right _ (by omega)
      rw [decimalValue, List.length_cons, Nat.add_sub_cancel]
      omega

/-- **Numbers of any length.** They are compared by value, and no value is computed. -/
theorem compareNumericIdentifier_eq {left right : JsString} (hleft : left.all isDigit = true)
    (hright : right.all isDigit = true) :
    compareNumericIdentifier left right = compare (decimalValue left) (decimalValue right) := by
  -- the one with fewer digits is the smaller one
  have hshorter : ∀ {s t : JsString}, Trimmed s → Trimmed t → s.length < t.length →
      decimalValue s < decimalValue t := by
    intro s t hs ht hlt
    have hpos := hs.length_pos
    calc decimalValue s < 10 ^ s.length := decimalValue_lt hs.digits
      _ ≤ 10 ^ (t.length - 1) := Nat.pow_le_pow_right (by decide) (by omega)
      _ ≤ decimalValue t := ht.le_value (by omega)
  obtain ⟨hl, hlvalue⟩ := withoutLeadingZeros_spec hleft
  obtain ⟨hr, hrvalue⟩ := withoutLeadingZeros_spec hright
  rw [compareNumericIdentifier, ← hlvalue, ← hrvalue]
  rcases Nat.lt_trichotomy (withoutLeadingZeros left).length (withoutLeadingZeros right).length
    with hlt | heq | hgt
  · rw [Nat.compare_eq_lt.mpr hlt, Nat.compare_eq_lt.mpr (hshorter hl hr hlt), Ordering.lt_then]
  · rw [Nat.compare_eq_eq.mpr heq, Ordering.eq_then, compareText_digits hl.digits hr.digits heq]
  · rw [Nat.compare_eq_gt.mpr hgt, Nat.compare_eq_gt.mpr (hshorter hr hl hgt), Ordering.gt_then]

/-! ## Ranks -/

/-- An identifier: a number, or above all numbers a text. -/
abbrev Identifier : Type := Nat ⊕ₗ List Nat

def identifier (s : JsString) : Identifier :=
  if s.all isDigit then Sum.inlₗ (decimalValue s) else Sum.inrₗ (codes s)

/-- A release is above the lists of identifiers of its prereleases. -/
abbrev Precedence : Type := (Nat ×ₗ Nat ×ₗ Nat) ×ₗ WithTop (List Identifier)

def prereleaseRank : List JsString → WithTop (List Identifier)
  | [] => ⊤
  | identifiers => ↑(identifiers.map identifier)

def precedence (version : Version) : Precedence :=
  toLex (toLex (version.major, toLex (version.minor, version.patch)),
    prereleaseRank version.prerelease)

theorem compareIdentifier_compares {left right : JsString} (hne : left ≠ right) :
    (compareIdentifier left right).Compares (identifier left) (identifier right) := by
  rw [compareIdentifier, identifier, identifier]
  cases hleft : left.all isDigit with
  | true =>
    cases hright : right.all isDigit with
    | true =>
      simp only [if_true, compareNumericIdentifier_eq hleft hright]
      exact compares_map (fun _ _ => Sum.Lex.inl_lt_inl_iff.mpr) (compares_nat _ _)
    | false => exact Sum.Lex.inl_lt_inr _ _
  | false =>
    cases hright : right.all isDigit with
    | true => exact Sum.Lex.inl_lt_inr _ _
    | false =>
      have horder : (if compareText left right = .lt then Ordering.lt else .gt) =
          compareText left right := by
        cases horder : compareText left right with
        | eq => exact absurd (eq_of_compareText horder) hne
        | lt | gt => rfl
      simp only [Bool.false_eq_true, if_false, horder]
      exact compares_map (fun _ _ => Sum.Lex.inr_lt_inr_iff.mpr) (compareText_compares _ _)

/-- A number has no zeros in front. -/
def Regular (s : JsString) : Prop := s.all isDigit = true → isNumeric s = true

theorem withoutLeadingZeros_of_isNumeric {s : JsString} (h : isNumeric s = true) :
    withoutLeadingZeros s = s := by
  rw [isNumeric, Bool.or_eq_true, beq_iff_eq] at h
  rcases h with rfl | h
  · decide
  cases s with
  | nil => cases h
  | cons u rest =>
    simp only [List.head?_cons, Option.any_some, Bool.and_eq_true, decide_eq_true_eq] at h
    have hne : ¬(u == 48) = true := by
      rw [beq_iff_eq]
      rintro rfl
      exact absurd h.1.1 (by decide)
    rw [withoutLeadingZeros, List.dropWhile_cons_of_neg (p := (· == 48)) hne]

theorem identifier_injective {left right : JsString} (hleft : Regular left) (hright : Regular right)
    (h : identifier left = identifier right) : left = right := by
  rw [identifier, identifier] at h
  cases hl : left.all isDigit with
  | true =>
    cases hr : right.all isDigit with
    | true =>
      rw [hl, hr, if_pos rfl, if_pos rfl] at h
      have hvalue : compareNumericIdentifier left right = .eq := by
        rw [compareNumericIdentifier_eq hl hr, Nat.compare_eq_eq]
        exact Sum.inl.inj h
      rw [compareNumericIdentifier, withoutLeadingZeros_of_isNumeric (hleft hl),
        withoutLeadingZeros_of_isNumeric (hright hr)] at hvalue
      exact eq_of_compareText (Ordering.then_eq_eq.mp hvalue).2
    | false =>
      rw [hl, hr] at h
      cases h
  | false =>
    cases hr : right.all isDigit with
    | true =>
      rw [hl, hr] at h
      cases h
    | false =>
      rw [hl, hr] at h
      exact List.map_injective_iff.mpr (fun _ _ => UInt16.toNat.inj) (Sum.inr.inj h)

theorem comparePrerelease_compares {lefts rights : List JsString}
    (h : ∀ left ∈ lefts, ∀ right ∈ rights, Regular left ∧ Regular right) :
    (comparePrerelease lefts rights).Compares (lefts.map identifier) (rights.map identifier) := by
  induction lefts generalizing rights with
  | nil =>
    cases rights with
    | nil => rfl
    | cons right rights => exact List.nil_lt_cons _ _
  | cons left lefts ih =>
    cases rights with
    | nil => exact List.nil_lt_cons _ _
    | cons right rights =>
      have hrest := ih fun left hleft right hright =>
        h left (List.mem_cons_of_mem _ hleft) right (List.mem_cons_of_mem _ hright)
      rw [comparePrerelease]
      by_cases heq : left = right
      · rw [if_pos heq, heq]
        exact compares_cons (o := .eq) rfl hrest
      · obtain ⟨hleft, hright⟩ := h left List.mem_cons_self right List.mem_cons_self
        have hcompares := compareIdentifier_compares heq
        rw [if_neg heq]
        cases horder : compareIdentifier left right with
        | eq =>
          rw [horder] at hcompares
          exact absurd (identifier_injective hleft hright hcompares) heq
        | lt | gt =>
          rw [horder] at hcompares
          exact List.cons_lt_cons_iff.mpr (.inl hcompares)

/-- The comparison of the source is the one of the ranks. -/
theorem compareVersion_compares {left right : Version}
    (h : ∀ l ∈ left.prerelease, ∀ r ∈ right.prerelease, Regular l ∧ Regular r) :
    (compareVersion left right).Compares (precedence left) (precedence right) := by
  have hrelease : (compareRelease left right).Compares
      (toLex (left.major, toLex (left.minor, left.patch)))
      (toLex (right.major, toLex (right.minor, right.patch))) :=
    compares_then (compares_nat _ _) (compares_then (compares_nat _ _) (compares_nat _ _))
  rw [compareVersion, ← compareRelease]
  cases hcompare : compareRelease left right with
  | lt | gt =>
    rw [hcompare] at hrelease
    exact Prod.Lex.toLex_lt_toLex.mpr (.inl hrelease)
  | eq =>
    rw [hcompare] at hrelease
    refine compares_snd hrelease ?_
    cases hl : left.prerelease with
    | nil =>
      cases hr : right.prerelease with
      | nil => rfl
      | cons r rights => exact WithTop.coe_lt_top _
    | cons l lefts =>
      cases hr : right.prerelease with
      | nil => exact WithTop.coe_lt_top _
      | cons r rights =>
        rw [hl, hr] at h
        exact compares_map (fun _ _ => WithTop.coe_lt_coe.mpr) (comparePrerelease_compares h)

/-! ## The order of parsed versions -/

def ParsedVersion : Type := { version : Version // ∃ value, parseVersion value = some version }

theorem regular_of_parseVersion {value : JsString} {version : Version}
    (h : parseVersion value = some version) : ∀ l ∈ version.prerelease, Regular l := by
  unfold parseVersion at h
  dsimp only [Option.bind_eq_bind] at h
  split at h
  · cases h
  split at h
  all_goals
    obtain ⟨prerelease, -, hcore⟩ := Option.bind_eq_some_iff.mp h
    split at hcore
    swap
    · cases hcore
    obtain ⟨major, -, hminor⟩ := Option.bind_eq_some_iff.mp hcore
    obtain ⟨minor, -, hpatch⟩ := Option.bind_eq_some_iff.mp hminor
    obtain ⟨patch, -, hpure⟩ := Option.bind_eq_some_iff.mp hpatch
    split at hpure
    · cases hpure
    next hregular =>
    cases hpure
    intro l hl hdigits
    by_contra hzero
    refine hregular (List.any_eq_true.mpr ⟨l, hl, ?_⟩)
    rw [Bool.and_eq_true, Bool.not_eq_true', Bool.eq_false_iff]
    exact ⟨hdigits, hzero⟩

theorem prereleaseRank_injective {lefts rights : List JsString}
    (hleft : ∀ left ∈ lefts, Regular left) (hright : ∀ right ∈ rights, Regular right)
    (h : prereleaseRank lefts = prereleaseRank rights) : lefts = rights := by
  have hmap : lefts.map identifier = rights.map identifier := by
    cases lefts with
    | nil =>
      cases rights with
      | nil => rfl
      | cons => cases h
    | cons =>
      cases rights with
      | nil => cases h
      | cons => exact WithTop.coe_injective h
  clear h
  induction lefts generalizing rights with
  | nil => exact (List.map_eq_nil_iff.mp hmap.symm).symm
  | cons left lefts ih =>
    obtain ⟨right, rights, rfl, hhead, htail⟩ := List.map_eq_cons_iff.mp hmap.symm
    rw [identifier_injective (hleft left List.mem_cons_self) (hright right List.mem_cons_self)
        hhead.symm,
      ih (fun _ h => hleft _ (List.mem_cons_of_mem _ h))
        (fun _ h => hright _ (List.mem_cons_of_mem _ h)) htail.symm]

theorem precedence_injective :
    Function.Injective fun version : ParsedVersion => precedence version.val := by
  rintro ⟨⟨major, minor, patch, prerelease⟩, value, hvalue⟩
    ⟨⟨major', minor', patch', prerelease'⟩, value', hvalue'⟩ h
  obtain ⟨hrelease, hrank⟩ := Prod.mk.inj h
  obtain ⟨rfl, hrest⟩ := Prod.mk.inj hrelease
  obtain ⟨rfl, rfl⟩ := Prod.mk.inj hrest
  cases prereleaseRank_injective (regular_of_parseVersion hvalue) (regular_of_parseVersion hvalue')
    hrank
  rfl

instance linearOrder_parsedVersion : LinearOrder ParsedVersion :=
  LinearOrder.lift' _ precedence_injective

/-! ## Intervals -/

/-- The first release after those a partial version or a tilde stands for. -/
def partialEnd (target : RangeVersion) : Version :=
  if target.precision ≤ 1 then stableVersion (target.version.major + 1) 0 0
  else stableVersion target.version.major (target.version.minor + 1) 0

/-- The first release that changes the leftmost component that is not zero. -/
def caretEnd (target : RangeVersion) : Version :=
  if target.precision = 1 ∨ 0 < target.version.major then
    stableVersion (target.version.major + 1) 0 0
  else if target.precision = 2 ∨ 0 < target.version.minor then
    stableVersion 0 (target.version.minor + 1) 0
  else stableVersion 0 0 (target.version.patch + 1)

def comparatorInterval (comparator : JsString) : Set Precedence :=
  match comparatorParts comparator with
  | none => ∅
  | some (operator, target) =>
    let start := precedence target.version
    if target.any then Set.univ
    else
      match operator with
      | .caret => Set.Ico start (precedence (caretEnd target))
      | .tilde => Set.Ico start (precedence (partialEnd target))
      | .ge => Set.Ici start
      | .lt => Set.Iio start
      | .gt =>
        if target.precision = 3 then Set.Ioi start else Set.Ici (precedence (partialEnd target))
      | .le =>
        if target.precision = 3 then Set.Iic start else Set.Iio (precedence (partialEnd target))
      | .eq | .implicit =>
        if target.precision = 3 && !target.wildcard then Set.Icc start start
        else Set.Ico start (precedence (partialEnd target))

/-- For a version that is a release nothing of the other's prerelease matters. -/
theorem compares_of_stable {version : Version} (h : version.prerelease = []) (target : Version) :
    (compareVersion version target).Compares (precedence version) (precedence target) :=
  compareVersion_compares fun l hl => by
    rw [h] at hl
    cases hl

variable {version : Version} {target : RangeVersion} {comparator : JsString}

theorem map_increment_of_isSome {n : Nat} {f : Nat → Version}
    (h : ((increment n).map f).isSome = true) : (increment n).map f = some (f (n + 1)) := by
  rw [increment] at h ⊢
  split at h
  · next hsafe => rw [if_pos hsafe, Option.map_some]
  · cases h

theorem partialUpperBound_of_isSome (h : (partialUpperBound target).isSome = true) :
    partialUpperBound target = some (partialEnd target) := by
  rw [partialUpperBound] at h ⊢
  rw [partialEnd]
  split at h
  · cases h
  next hany =>
  rw [if_neg hany]
  split at h
  · next hprecision =>
    rw [if_pos hprecision, if_pos hprecision, map_increment_of_isSome h]
  · next hprecision =>
    rw [if_neg hprecision, if_neg hprecision, map_increment_of_isSome h]

theorem caretUpperBound_of_isSome (h : (caretUpperBound target).isSome = true) :
    caretUpperBound target = some (caretEnd target) := by
  rw [caretUpperBound] at h ⊢
  rw [caretEnd]
  split at h
  · cases h
  next hany =>
  rw [if_neg hany]
  split at h
  · next hmajor => rw [if_pos hmajor, if_pos hmajor, map_increment_of_isSome h]
  next hmajor =>
  rw [if_neg hmajor, if_neg hmajor]
  split at h
  · next hminor => rw [if_pos hminor, if_pos hminor, map_increment_of_isSome h]
  · next hminor => rw [if_neg hminor, if_neg hminor, map_increment_of_isSome h]

theorem below_iff (hstable : version.prerelease = []) {bound : Version} :
    below version (some bound) = true ↔ precedence version < precedence bound := by
  rw [below, Option.any_some, beq_iff_eq, (compares_of_stable hstable bound).eq_lt]

theorem precision_of_rangeParts {parts : List JsString} {index : Nat} {numbers : List Nat}
    {wildcardIndex : Option Nat} {result : List Nat × Option Nat}
    (h : rangeParts index numbers wildcardIndex parts = some result)
    (hparts : index + parts.length ≤ 3) (hindex : ∀ w, wildcardIndex = some w → w ≤ 3) :
    result.2.getD 3 ≤ 3 := by
  induction parts generalizing index numbers wildcardIndex with
  | nil =>
    cases h
    cases wildcardIndex with
    | none => exact Nat.le_refl 3
    | some w => exact hindex w rfl
  | cons part rest ih =>
    rw [List.length_cons] at hparts
    rw [rangeParts] at h
    split at h
    · split at h
      · cases h
      split at h
      · cases h
      refine ih h (by omega) fun w hw => ?_
      cases wildcardIndex with
      | none =>
        cases hw
        omega
      | some v => exact hindex w hw
    · split at h
      · cases h
      obtain ⟨number, -, hrest⟩ := Option.bind_eq_some_iff.mp h
      exact ih hrest (by omega) hindex

theorem precision_le {value : JsString} (h : parseRangeVersion value = some target) :
    target.precision ≤ 3 := by
  rw [parseRangeVersion] at h
  split at h
  · cases h
    exact Nat.zero_le 3
  split at h
  · cases h
    exact Nat.le_refl 3
  dsimp only at h
  split at h
  · cases h
  next hlength =>
  obtain ⟨⟨numbers, wildcardIndex⟩, hparts, rfl⟩ := Option.map_eq_some_iff.mp h
  have hle := precision_of_rangeParts hparts (by omega) nofun
  cases wildcardIndex with
  | none => exact Nat.le_of_not_lt hlength
  | some w => exact hle

/-- The comparisons are those of the ranks, and the bound of a supported comparator is there. -/
theorem satisfiesComparator_iff (hstable : version.prerelease = [])
    (hsupported : isSupportedComparator comparator = true) :
    satisfiesComparator version comparator = true ↔
      precedence version ∈ comparatorInterval comparator := by
  rw [isSupportedComparator] at hsupported
  rw [satisfiesComparator, comparatorInterval]
  cases hparts : comparatorParts comparator with
  | none =>
    rw [hparts] at hsupported
    cases hsupported
  | some parts =>
    obtain ⟨operator, target⟩ := parts
    rw [hparts] at hsupported
    have hcompares := compares_of_stable hstable target.version
    have hmissing : target.precision ≠ 3 → target.precision < 3 := by
      obtain ⟨value, hvalue⟩ := (of_comparatorParts hparts).1
      have hle := precision_le hvalue
      omega
    dsimp only at hsupported ⊢
    cases hany : target.any with
    | true => exact iff_of_true rfl (Set.mem_univ _)
    | false =>
      rw [hany, if_neg Bool.false_ne_true] at hsupported
      rw [if_neg Bool.false_ne_true, if_neg Bool.false_ne_true]
      cases operator with
      | caret =>
        rw [caretUpperBound_of_isSome hsupported, Bool.and_eq_true, bne_iff_ne, hcompares.ne_lt,
          below_iff hstable]
        rfl
      | tilde =>
        rw [partialUpperBound_of_isSome hsupported, Bool.and_eq_true, bne_iff_ne, hcompares.ne_lt,
          below_iff hstable]
        rfl
      | ge => rw [bne_iff_ne, hcompares.ne_lt, Set.mem_Ici]
      | lt => rw [beq_iff_eq, hcompares.eq_lt, Set.mem_Iio]
      | gt =>
        by_cases hfull : target.precision = 3
        · simp only [if_pos hfull, beq_iff_eq, hcompares.eq_gt, Set.mem_Ioi]
        · simp only [if_pos (hmissing hfull)] at hsupported
          simp only [if_neg hfull, partialUpperBound_of_isSome hsupported, Option.any_some,
            bne_iff_ne, (compares_of_stable hstable (partialEnd target)).ne_lt, Set.mem_Ici]
      | le =>
        by_cases hfull : target.precision = 3
        · simp only [if_pos hfull, bne_iff_ne, hcompares.ne_gt, Set.mem_Iic]
        · simp only [if_pos (hmissing hfull)] at hsupported
          simp only [if_neg hfull, partialUpperBound_of_isSome hsupported, below_iff hstable,
            Set.mem_Iio]
      | eq | implicit =>
        cases hfull : target.precision = 3 && !target.wildcard with
        | true =>
          simp only [if_true, beq_iff_eq, hcompares.eq_eq, Set.Icc_self, Set.mem_singleton_iff]
        | false =>
          have hbounded : (target.wildcard || target.precision < 3) = true := by
            cases hwildcard : target.wildcard with
            | true => rfl
            | false =>
              rw [hwildcard, Bool.not_false, Bool.and_true, decide_eq_false_iff_not] at hfull
              exact decide_eq_true (hmissing hfull)
          simp only [hbounded, if_true] at hsupported
          simp only [Bool.false_eq_true, if_false, partialUpperBound_of_isSome hsupported,
            Bool.and_eq_true, bne_iff_ne, hcompares.ne_lt, below_iff hstable, Set.mem_Ico]

theorem supported_of_comparatorSets {range : JsString} {sets : List (List JsString)}
    {comparators : List JsString} (h : comparatorSets range = some sets)
    (hmem : comparators ∈ sets) (hcomparator : comparator ∈ comparators) :
    isSupportedComparator comparator = true := by
  rw [comparatorSets] at h
  dsimp only at h
  split at h
  · cases h
  split at h
  · cases h
  next hall =>
  cases h
  by_contra hnot
  refine hall (List.any_eq_true.mpr ⟨comparators, hmem, List.any_eq_true.mpr
    ⟨comparator, hcomparator, ?_⟩⟩)
  rw [Bool.eq_false_iff.mpr hnot]
  rfl

/-- **The order of versions.** -/
theorem compareVersion_order :
    (∀ left right : ParsedVersion, compareVersion left.val right.val = cmp left right) ∧
      (∀ left right : ParsedVersion,
        left ≤ right ↔ precedence left.val ≤ precedence right.val) ∧
      ∀ (value range : JsString) (version : Version), parseVersion value = some version →
        version.prerelease = [] →
          (satisfiesVersionRange value range = true ↔ ∃ sets, comparatorSets range = some sets ∧
            precedence version ∈
              ⋃ comparators ∈ sets, ⋂ comparator ∈ comparators, comparatorInterval comparator) := by
  refine ⟨fun left right => ?_, fun _ _ => Iff.rfl, fun value range version hvalue hstable => ?_⟩
  · obtain ⟨leftValue, hleft⟩ := left.property
    obtain ⟨rightValue, hright⟩ := right.property
    exact (compareVersion_compares fun l hl r hr =>
      ⟨regular_of_parseVersion hleft l hl, regular_of_parseVersion hright r hr⟩).cmp_eq.symm
  · rw [satisfiesVersionRange, hvalue]
    cases hsets : comparatorSets range with
    | none => exact iff_of_false Bool.false_ne_true fun ⟨_, h, _⟩ => by cases h
    | some sets =>
      have hopts : ∀ comparators, optsIntoPrerelease comparators version = true := fun _ => by
        rw [optsIntoPrerelease, hstable]
        rfl
      simp only [List.any_eq_true, hopts, Bool.true_and, List.all_eq_true, Option.some.injEq,
        exists_eq_left', Set.mem_iUnion, Set.mem_iInter, exists_prop]
      refine exists_congr fun comparators => and_congr_right fun hmem =>
        forall₂_congr fun comparator hcomparator => ?_
      exact satisfiesComparator_iff hstable (supported_of_comparatorSets hsets hmem hcomparator)

theorem compareVersion_order_stable :
    ∃ sets, comparatorSets (js "^1.3 || >=2.0.0 <3") = some sets ∧
      precedence ⟨1, 4, 2, []⟩ ∈
        ⋃ comparators ∈ sets, ⋂ comparator ∈ comparators, comparatorInterval comparator :=
  (compareVersion_order.2.2 (js "1.4.2") _ ⟨1, 4, 2, []⟩ (by decide +kernel) rfl).mp
    (by decide +kernel)

end Version

end TegoNext
