/-
Carets and tildes as bounds.

A caret or a tilde stands for an interval, from its target up to a release that it excludes. A
prerelease of the bound sorts below it; what keeps it out is that a range admits a prerelease only
where a comparator names one of the same release, and a caret or tilde does not name its bound.
Another comparator of the alternative may: `2.0.0-alpha` satisfies `^1.2.3 >=2.0.0-alpha`.
-/
import TegoNext.VersionRange

set_option autoImplicit false

namespace TegoNext

open Option

namespace Version

open Text

/-! ## The order of releases -/

/-- The order of two versions, their prereleases aside. -/
def compareRelease (left right : Version) : Ordering :=
  (compare left.major right.major).then
    ((compare left.minor right.minor).then (compare left.patch right.patch))

def sameRelease (left right : Version) : Bool :=
  left.major == right.major && left.minor == right.minor && left.patch == right.patch

variable {left right : Version}

theorem compareRelease_eq_lt :
    compareRelease left right = .lt ↔ left.major < right.major ∨ left.major = right.major ∧
      (left.minor < right.minor ∨ left.minor = right.minor ∧ left.patch < right.patch) := by
  simp only [compareRelease, Ordering.then_eq_lt, Nat.compare_eq_lt, Nat.compare_eq_eq]

theorem compareRelease_eq_eq : compareRelease left right = .eq ↔ sameRelease left right = true := by
  simp only [compareRelease, Ordering.then_eq_eq, Nat.compare_eq_eq, sameRelease, Bool.and_eq_true,
    beq_iff_eq, and_assoc]

theorem compareVersion_of_lt (h : compareRelease left right = .lt) :
    compareVersion left right = .lt := by
  rw [compareRelease] at h
  rw [compareVersion, h]

theorem compareRelease_ne_lt (h : compareVersion left right ≠ .lt) :
    compareRelease left right ≠ .lt :=
  fun hlt => h (compareVersion_of_lt hlt)

theorem comparePrerelease_self (identifiers : List JsString) :
    comparePrerelease identifiers identifiers = .eq := by
  induction identifiers with
  | nil => rfl
  | cons identifier identifiers ih => rw [comparePrerelease, if_pos rfl, ih]

theorem compareVersion_self (version : Version) : compareVersion version version = .eq := by
  have hrelease : compareRelease version version = .eq :=
    compareRelease_eq_eq.mpr (by simp [sameRelease])
  rw [compareRelease] at hrelease
  rw [compareVersion, hrelease]
  cases hpre : version.prerelease with
  | nil => rfl
  | cons identifier identifiers => exact comparePrerelease_self _

theorem compareVersion_stable {version bound : Version} (hbound : bound.prerelease = []) :
    compareVersion version bound = .lt ↔ compareRelease version bound = .lt ∨
      sameRelease version bound = true ∧ version.prerelease ≠ [] := by
  rw [← compareRelease_eq_eq]
  cases hrelease : compareRelease version bound with
  | lt => simp [compareVersion_of_lt hrelease]
  | eq =>
    rw [compareRelease] at hrelease
    rw [compareVersion, hrelease, hbound]
    cases version.prerelease <;> simp
  | gt =>
    rw [compareRelease] at hrelease
    rw [compareVersion, hrelease]
    simp

deriving instance DecidableEq for RangeVersion

/-! ## What a caret or tilde stands for -/

def termBound : Operator → RangeVersion → Option Version
  | .caret, target => caretUpperBound target
  | .tilde, target => partialUpperBound target
  | _, _ => none

def BelowBound (version bound : Version) : Prop :=
  ∀ prerelease, compareVersion version ⟨bound.major, bound.minor, bound.patch, prerelease⟩ = .lt

/-- The version keeps what the operator keeps: a caret the leftmost component that is not zero, a
tilde the minor, and both the last component given where fewer are. -/
def Keeps (operator : Operator) (target : RangeVersion) (version : Version) : Prop :=
  version.major = target.version.major ∧
    match operator with
    | .caret =>
      target.precision = 1 ∨ 0 < target.version.major ∨
        version.minor = target.version.minor ∧
          (target.precision = 2 ∨ 0 < target.version.minor ∨ version.patch = target.version.patch)
    | .tilde => target.precision ≤ 1 ∨ version.minor = target.version.minor
    | _ => True

def WithinTerm (operator : Operator) (target : RangeVersion) (version : Version) : Prop :=
  ∃ bound, termBound operator target = some bound ∧ BelowBound version bound ∧
    Keeps operator target version

variable {version bound : Version}

theorem belowBound_iff : BelowBound version bound ↔ compareRelease version bound = .lt := by
  constructor
  · intro h
    by_contra hrelease
    have hstable := (@compareVersion_stable version ⟨bound.major, bound.minor, bound.patch, []⟩
      rfl).mp (h [])
    rcases hstable with hlt | ⟨hsame, -⟩
    · exact hrelease hlt
    · -- the version itself is a prerelease of the bound
      have hself := h version.prerelease
      simp only [sameRelease, Bool.and_eq_true, beq_iff_eq] at hsame
      obtain ⟨⟨hmajor, hminor⟩, hpatch⟩ := hsame
      rw [← hmajor, ← hminor, ← hpatch, compareVersion_self] at hself
      cases hself
  · intro h prerelease
    exact compareVersion_of_lt h

/-! ## Bounds of terms -/

variable {operator : Operator} {target : RangeVersion}

/-- A bound made by adding one to a component of the target is a release, so only the components
are left to compare. -/
theorem keeps_of_map_increment {n : Nat}
    {f : Nat → Version} (h : (increment n).map f = some bound)
    (hf : ∀ n, (f n).prerelease = [])
    (hkeeps : ∀ version, compareRelease version target.version ≠ .lt →
      compareRelease version (f (n + 1)) = .lt → Keeps operator target version) :
    bound.prerelease = [] ∧ ∀ version, compareRelease version target.version ≠ .lt →
      compareRelease version bound = .lt → Keeps operator target version := by
  rw [increment] at h
  split at h
  · rw [← some.inj h]
    exact ⟨hf _, hkeeps⟩
  · cases h

/-- A bound is a release, and what is below it and not below the target keeps what the operator
keeps. -/
theorem termBound_spec (h : termBound operator target = some bound) :
    bound.prerelease = [] ∧ ∀ version, compareRelease version target.version ≠ .lt →
      compareRelease version bound = .lt → Keeps operator target version := by
  cases operator with
  | caret =>
    rw [termBound, caretUpperBound] at h
    split at h
    · cases h
    split at h
    · next hmajor =>
      refine keeps_of_map_increment h (fun _ => rfl) fun version hge hlt => ?_
      simp only [ne_eq, compareRelease_eq_lt, stableVersion] at hge hlt
      exact ⟨by omega, by omega⟩
    split at h
    · next hmajor hminor =>
      -- the major is zero: the minor may not change
      refine keeps_of_map_increment h (fun _ => rfl) fun version hge hlt => ?_
      simp only [ne_eq, compareRelease_eq_lt, stableVersion] at hge hlt
      exact ⟨by omega, .inr (.inr ⟨by omega, by omega⟩)⟩
    · next hmajor hminor =>
      -- major and minor are zero: only the patch may not change
      refine keeps_of_map_increment h (fun _ => rfl) fun version hge hlt => ?_
      simp only [ne_eq, compareRelease_eq_lt, stableVersion] at hge hlt
      exact ⟨by omega, .inr (.inr ⟨by omega, .inr (.inr (by omega))⟩)⟩
  | tilde =>
    rw [termBound, partialUpperBound] at h
    split at h
    · cases h
    split at h
    · next hprecision =>
      refine keeps_of_map_increment h (fun _ => rfl) fun version hge hlt => ?_
      simp only [ne_eq, compareRelease_eq_lt, stableVersion] at hge hlt
      exact ⟨by omega, .inl hprecision⟩
    · refine keeps_of_map_increment h (fun _ => rfl) fun version hge hlt => ?_
      simp only [ne_eq, compareRelease_eq_lt, stableVersion] at hge hlt
      exact ⟨by omega, .inr (by omega)⟩
  | ge | le | gt | lt | eq | implicit => cases h

/-- The target of a comparator is parsed; a caret or tilde does not stand for everything. -/
theorem of_comparatorParts {comparator : JsString}
    (h : comparatorParts comparator = some (operator, target)) :
    (∃ value, parseRangeVersion value = some target) ∧
      (operator = .caret ∨ operator = .tilde → target.any = false) := by
  have hother : ∀ rest, (splitOperator rest).1 ≠ .caret ∧ (splitOperator rest).1 ≠ .tilde := by
    intro rest
    rw [splitOperator.eq_def]
    split <;> exact ⟨by simp, by simp⟩
  rw [comparatorParts.eq_def] at h
  split at h
  · obtain ⟨found, hfound, heq⟩ := map_eq_some_iff.mp h
    cases heq
    obtain ⟨hparsed, hfilter⟩ := filter_eq_some_iff.mp hfound
    simp only [Bool.and_eq_true, Bool.not_eq_true'] at hfilter
    exact ⟨⟨_, hparsed⟩, fun _ => hfilter.1⟩
  · obtain ⟨found, hfound, heq⟩ := map_eq_some_iff.mp h
    cases heq
    obtain ⟨hparsed, hfilter⟩ := filter_eq_some_iff.mp hfound
    simp only [Bool.and_eq_true, Bool.not_eq_true'] at hfilter
    exact ⟨⟨_, hparsed⟩, fun _ => hfilter.1⟩
  · dsimp only at h
    obtain ⟨found, hfound, heq⟩ := bind_eq_some_iff.mp h
    split at heq
    · cases heq
    cases heq
    refine ⟨⟨_, hfound⟩, fun hoperator => ?_⟩
    rcases hoperator with hcaret | htilde
    · exact absurd hcaret (hother _).1
    · exact absurd htilde (hother _).2

/-- A version satisfies a caret or tilde when it is neither below the target nor not below the
bound, by the comparison. -/
theorem satisfiesComparator_term {comparator : JsString}
    (hparts : comparatorParts comparator = some (operator, target))
    (hoperator : operator = .caret ∨ operator = .tilde)
    (h : satisfiesComparator version comparator = true) :
    compareVersion version target.version ≠ .lt ∧
      ∃ bound, termBound operator target = some bound ∧ compareVersion version bound = .lt := by
  have hany := (of_comparatorParts hparts).2 hoperator
  rw [satisfiesComparator, hparts] at h
  simp only [hany, Bool.false_eq_true, if_false] at h
  rcases hoperator with rfl | rfl
  · simp only [Bool.and_eq_true, bne_iff_ne, below, any_eq_true, beq_iff_eq] at h
    exact h
  · simp only [Bool.and_eq_true, bne_iff_ne, below, any_eq_true, beq_iff_eq] at h
    exact h

/-! ## Acceptance -/

def AcceptsThrough (value range : JsString) (comparators : List JsString) (version : Version) :
    Prop :=
  parseVersion value = some version ∧
    (∃ sets, comparatorSets range = some sets ∧ comparators ∈ sets) ∧
    optsIntoPrerelease comparators version = true ∧
    ∀ comparator ∈ comparators, satisfiesComparator version comparator = true

/-- A comparator of the alternative names a prerelease of the bound's release, and the version is
of this release. -/
def AdmittedAtBound (comparators : List JsString) (operator : Operator) (target : RangeVersion)
    (version : Version) : Prop :=
  ∃ bound, termBound operator target = some bound ∧ ∃ comparator ∈ comparators, ∃ other,
    comparatorParts comparator = some other ∧ other.2.version.prerelease ≠ [] ∧
      sameRelease other.2.version version = true ∧ sameRelease other.2.version bound = true

theorem exists_of_optsIntoPrerelease {comparators : List JsString}
    (h : optsIntoPrerelease comparators version = true) (hpre : version.prerelease ≠ []) :
    ∃ comparator ∈ comparators, ∃ other, comparatorParts comparator = some other ∧
      other.2.version.prerelease ≠ [] ∧ sameRelease other.2.version version = true := by
  rw [optsIntoPrerelease, Bool.or_eq_true, List.any_eq_true] at h
  rcases h with hempty | ⟨comparator, hmem, hany⟩
  · exact absurd (List.isEmpty_iff.mp hempty) hpre
  · rw [any_eq_true] at hany
    obtain ⟨other, hparts, hnames⟩ := hany
    simp only [Bool.and_eq_true, Bool.not_eq_true', List.isEmpty_eq_false_iff, beq_iff_eq] at hnames
    refine ⟨comparator, hmem, other, hparts, hnames.1.1.1, ?_⟩
    simp only [sameRelease, Bool.and_eq_true, beq_iff_eq]
    exact ⟨⟨hnames.1.1.2, hnames.1.2⟩, hnames.2⟩

theorem sameRelease_trans {first second third : Version} (h : sameRelease first second = true)
    (h' : sameRelease first third = true) : sameRelease second third = true := by
  simp only [sameRelease, Bool.and_eq_true, beq_iff_eq] at h h' ⊢
  omega

/-- **Carets and tildes as bounds.** An accepted version is in the interval of each caret and
tilde of the alternative, except where another comparator admits it. -/
theorem satisfiesVersionRange_withinTerm {value range comparator : JsString}
    {comparators : List JsString} {version : Version} {operator : Operator} {target : RangeVersion}
    (haccepts : AcceptsThrough value range comparators version) (hmem : comparator ∈ comparators)
    (hparts : comparatorParts comparator = some (operator, target))
    (hoperator : operator = .caret ∨ operator = .tilde) :
    WithinTerm operator target version ↔ ¬AdmittedAtBound comparators operator target version := by
  obtain ⟨-, -, hopts, hsatisfies⟩ := haccepts
  obtain ⟨hge, bound, hbound, hlt⟩ :=
    satisfiesComparator_term hparts hoperator (hsatisfies comparator hmem)
  obtain ⟨hstable, hkeeps⟩ := termBound_spec hbound
  constructor
  · rintro ⟨bound', hbound', hbelow, -⟩ ⟨bound'', hbound'', other, -, parts, -, -, hversion, hsame⟩
    cases hbound.symm.trans hbound'
    cases hbound.symm.trans hbound''
    -- of the bound's release, so not below all of its prereleases
    have hrelease := belowBound_iff.mp hbelow
    rw [compareRelease_eq_eq.mpr (sameRelease_trans hversion hsame)] at hrelease
    cases hrelease
  · intro hadmitted
    rcases (compareVersion_stable hstable).mp hlt with hrelease | ⟨hsame, hpre⟩
    · exact ⟨bound, hbound, belowBound_iff.mpr hrelease,
        hkeeps version (compareRelease_ne_lt hge) hrelease⟩
    · obtain ⟨other, hother, parts, hotherParts, hnames, hversion⟩ :=
        exists_of_optsIntoPrerelease hopts hpre
      apply absurd _ hadmitted
      refine ⟨bound, hbound, other, hother, parts, hotherParts, hnames, hversion, ?_⟩
      simp only [sameRelease, Bool.and_eq_true, beq_iff_eq] at hversion hsame ⊢
      omega

/-- A prerelease of a minor release within the caret. -/
theorem satisfiesVersionRange_withinTerm_beta :
    WithinTerm .caret ⟨false, 3, ⟨1, 2, 3, []⟩, false⟩ ⟨1, 4, 0, [js "beta"]⟩ := by
  have haccepts : AcceptsThrough (js "1.4.0-beta") (js "^1.2.3 >=1.4.0-alpha")
      [js "^1.2.3", js ">=1.4.0-alpha"] ⟨1, 4, 0, [js "beta"]⟩ := by
    refine ⟨by decide +kernel, ⟨[[js "^1.2.3", js ">=1.4.0-alpha"]], by decide +kernel, ?_⟩, ?_, ?_⟩
    · exact List.mem_singleton_self _
    · decide +kernel
    · exact List.all_eq_true.mp (by decide +kernel)
  apply (satisfiesVersionRange_withinTerm haccepts
    List.mem_cons_self (by decide +kernel) (.inl rfl)).mpr
  rintro ⟨bound, hbound, other, -, parts, -, -, hversion, hsame⟩
  have hbound' : termBound .caret ⟨false, 3, ⟨1, 2, 3, []⟩, false⟩ = some ⟨2, 0, 0, []⟩ := by decide
  rw [hbound'] at hbound
  cases hbound
  cases sameRelease_trans hversion hsame

/-- A prerelease of the caret's bound is accepted where another comparator names one. -/
theorem satisfiesVersionRange_admitsBound :
    satisfiesVersionRange (js "2.0.0-alpha") (js "^1.2.3 >=2.0.0-alpha") = true ∧
      AcceptsThrough (js "2.0.0-alpha") (js "^1.2.3 >=2.0.0-alpha")
        [js "^1.2.3", js ">=2.0.0-alpha"] ⟨2, 0, 0, [js "alpha"]⟩ ∧
      comparatorParts (js "^1.2.3") = some (.caret, ⟨false, 3, ⟨1, 2, 3, []⟩, false⟩) ∧
      ¬WithinTerm .caret ⟨false, 3, ⟨1, 2, 3, []⟩, false⟩ ⟨2, 0, 0, [js "alpha"]⟩ := by
  refine ⟨by decide +kernel, ⟨by decide +kernel,
    ⟨[[js "^1.2.3", js ">=2.0.0-alpha"]], by decide +kernel, List.mem_singleton_self _⟩,
    by decide +kernel, List.all_eq_true.mp (by decide +kernel)⟩, by decide +kernel, ?_⟩
  rintro ⟨bound, -, -, hmajor, -⟩
  cases hmajor

end Version

end TegoNext
