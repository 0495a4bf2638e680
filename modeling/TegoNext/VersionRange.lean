/-
Semantic versions and the range syntax of capability requirements.

The supported ranges are exact and partial versions, wildcards, the comparators `<`, `<=`, `>`,
`>=` and `=`, tilde and caret, intersections by whitespace, and alternatives by `||`. A number above
the safe integers makes a version invalid, so numbers are naturals here; the places where the
source increments one check the bound again, and so do these.
-/
import TegoNext.Text

set_option autoImplicit false

namespace TegoNext

structure Version where
  major : Nat
  minor : Nat
  patch : Nat
  prerelease : List JsString
  deriving DecidableEq

namespace Version

open Text

structure RangeVersion where
  any : Bool
  precision : Nat
  version : Version
  wildcard : Bool

def stableVersion (major minor patch : Nat) : Version := ⟨major, minor, patch, []⟩

/-! ## Parsing -/

/-- `[0-9A-Za-z-]+`. -/
def isIdentifier (s : JsString) : Bool := !s.isEmpty && s.all fun u => isAlphanumeric u || u == 45

/-- Split at the first occurrence of a unit; `none` when there is none. -/
def splitFirst (u : UInt16) (s : JsString) : JsString × Option JsString :=
  match s.dropWhile (· != u) with
  | [] => (s, none)
  | _ :: rest => (s.takeWhile (· != u), some rest)

def safeNumber (s : JsString) : Option Nat :=
  if isNumeric s then (digits s).filter (· ≤ maxSafeInteger) else none

/-- The dot-separated identifiers after `-` or `+`. -/
def identifiers (s : JsString) : Option (List JsString) :=
  let parts := s.splitOn 46
  if parts.all isIdentifier then some parts else none

def parseVersion (value : JsString) : Option Version := do
  let (rest, build) := splitFirst 43 value
  if build.any (fun b => (identifiers b).isNone) then none
  let (core, prereleaseText) := splitFirst 45 rest
  let prerelease ← match prereleaseText with
    | none => some []
    | some text => identifiers text
  match core.splitOn 46 with
  | [major, minor, patch] => do
    let major ← safeNumber major
    let minor ← safeNumber minor
    let patch ← safeNumber patch
    if prerelease.any (fun identifier => identifier.all isDigit && !isNumeric identifier) then none
    pure ⟨major, minor, patch, prerelease⟩
  | _ => none

/-- `part === "*" || part.toLowerCase() === "x"`. -/
def isWildcard (part : JsString) : Bool := part == js "*" || part == js "x" || part == js "X"

/-- The loop over the parts of a partial version. -/
def rangeParts (index : Nat) (numbers : List Nat) (wildcardIndex : Option Nat) :
    List JsString → Option (List Nat × Option Nat)
  | [] => some (numbers, wildcardIndex)
  | part :: rest =>
    if isWildcard part then
      if index = 0 then none
      else if rest.any (fun nested => !isWildcard nested) then none
      else rangeParts (index + 1) (numbers ++ [0]) (wildcardIndex.or (some index)) rest
    else if wildcardIndex.isSome then none
    else (safeNumber part).bind fun number =>
      rangeParts (index + 1) (numbers ++ [number]) wildcardIndex rest

def parseRangeVersion (value : JsString) : Option RangeVersion :=
  if isWildcard value then some ⟨true, 0, stableVersion 0 0 0, true⟩
  else
    match parseVersion value with
    | some exact => some ⟨false, 3, exact, false⟩
    | none =>
      let parts := value.splitOn 46
      if 3 < parts.length then none
      else (rangeParts 0 [] none parts).map fun (numbers, wildcardIndex) =>
        { any := false
          precision := wildcardIndex.getD parts.length
          version := stableVersion (numbers.getD 0 0) (numbers.getD 1 0) (numbers.getD 2 0)
          wildcard := wildcardIndex.isSome }

/-! ## Order -/

/-- `value.replace(/^0+/u, "") || "0"`. -/
def withoutLeadingZeros (s : JsString) : JsString :=
  match s.dropWhile (· == 48) with
  | [] => js "0"
  | rest => rest

def compareNumericIdentifier (left right : JsString) : Ordering :=
  let left := withoutLeadingZeros left
  let right := withoutLeadingZeros right
  (compare left.length right.length).then (compareText left right)

/-- Two identifiers that differ; numeric ones come first. -/
def compareIdentifier (left right : JsString) : Ordering :=
  match left.all isDigit, right.all isDigit with
  | true, true => compareNumericIdentifier left right
  | true, false => .lt
  | false, true => .gt
  | false, false => if compareText left right = .lt then .lt else .gt

/-- The loop over the identifiers of two prereleases. -/
def comparePrerelease : List JsString → List JsString → Ordering
  | [], [] => .eq
  | [], _ :: _ => .lt
  | _ :: _, [] => .gt
  | left :: lefts, right :: rights =>
    if left = right then comparePrerelease lefts rights else compareIdentifier left right

def compareVersion (left right : Version) : Ordering :=
  match (compare left.major right.major).then
      ((compare left.minor right.minor).then (compare left.patch right.patch)) with
  | .eq =>
    match left.prerelease, right.prerelease with
    | [], [] => .eq
    | [], _ => .gt
    | _, [] => .lt
    | lefts, rights => comparePrerelease lefts rights
  | core => core

/-! ## Bounds -/

def increment (value : Nat) : Option Nat :=
  if value + 1 ≤ maxSafeInteger then some (value + 1) else none

def partialUpperBound (target : RangeVersion) : Option Version :=
  if target.any then none
  else if target.precision ≤ 1 then
    (increment target.version.major).map fun major => stableVersion major 0 0
  else (increment target.version.minor).map fun minor => stableVersion target.version.major minor 0

def caretUpperBound (target : RangeVersion) : Option Version :=
  if target.any then none
  else if target.precision = 1 ∨ 0 < target.version.major then
    (increment target.version.major).map fun major => stableVersion major 0 0
  else if target.precision = 2 ∨ 0 < target.version.minor then
    (increment target.version.minor).map fun minor => stableVersion 0 minor 0
  else (increment target.version.patch).map fun patch => stableVersion 0 0 patch

/-! ## Comparators -/

/-- The operator of a comparator; `implicit` is none at all. -/
inductive Operator where
  | caret
  | tilde
  | ge
  | le
  | gt
  | lt
  | eq
  | implicit
  deriving DecidableEq

/-- The operator a comparator starts with, and what follows it. -/
def splitOperator : JsString → Operator × JsString
  | 62 :: 61 :: rest => (.ge, rest)
  | 60 :: 61 :: rest => (.le, rest)
  | 62 :: rest => (.gt, rest)
  | 60 :: rest => (.lt, rest)
  | 61 :: rest => (.eq, rest)
  | rest => (.implicit, rest)

def comparatorParts (comparator : JsString) : Option (Operator × RangeVersion) :=
  match comparator with
  | 94 :: rest =>
    ((parseRangeVersion rest).filter fun target => !target.any && !target.wildcard).map
      fun target => (.caret, target)
  | 126 :: rest =>
    ((parseRangeVersion rest).filter fun target => !target.any && !target.wildcard).map
      fun target => (.tilde, target)
  | _ =>
    let (operator, rest) := splitOperator comparator
    (parseRangeVersion rest).bind fun target =>
      if operator ≠ .implicit ∧ target.wildcard then none else some (operator, target)

def isSupportedComparator (comparator : JsString) : Bool :=
  match comparatorParts comparator with
  | none => false
  | some (operator, target) =>
    if target.any then operator == .implicit
    else
      match operator with
      | .caret => (caretUpperBound target).isSome
      | .tilde => (partialUpperBound target).isSome
      | .implicit | .eq =>
        if target.wildcard || target.precision < 3 then (partialUpperBound target).isSome else true
      | .gt | .le => if target.precision < 3 then (partialUpperBound target).isSome else true
      | _ => true

def below (version : Version) (maximum : Option Version) : Bool :=
  maximum.any fun maximum => compareVersion version maximum == .lt

def satisfiesComparator (version : Version) (comparator : JsString) : Bool :=
  match comparatorParts comparator with
  | none => false
  | some (operator, target) =>
    if target.any then true
    else
      let order := compareVersion version target.version
      match operator with
      | .caret => order != .lt && below version (caretUpperBound target)
      | .tilde => order != .lt && below version (partialUpperBound target)
      | .gt =>
        if target.precision = 3 then order == .gt
        else (partialUpperBound target).any fun maximum => compareVersion version maximum != .lt
      | .ge => order != .lt
      | .lt => order == .lt
      | .le =>
        if target.precision = 3 then order != .gt else below version (partialUpperBound target)
      | .eq | .implicit =>
        if target.precision = 3 && !target.wildcard then order == .eq
        else order != .lt && below version (partialUpperBound target)

def comparatorSets (range : JsString) : Option (List (List JsString)) :=
  let alternatives := (splitBars range).map trim
  if alternatives.any (·.isEmpty) then none
  else
    let sets := alternatives.map splitSpaces
    if sets.any (fun comparators => comparators.any fun value => !isSupportedComparator value) then
      none
    else some sets

def optsIntoPrerelease (comparators : List JsString) (version : Version) : Bool :=
  version.prerelease.isEmpty || comparators.any fun comparator =>
    (comparatorParts comparator).any fun parts =>
      let target := parts.2.version
      !target.prerelease.isEmpty && target.major == version.major &&
        target.minor == version.minor && target.patch == version.patch

end Version

open Version

def isValidVersion (value : JsString) : Bool := (parseVersion value).isSome

def isValidVersionRange (range : JsString) : Bool := (comparatorSets range).isSome

def satisfiesVersionRange (value range : JsString) : Bool :=
  match parseVersion value, comparatorSets range with
  | some version, some sets =>
    sets.any fun comparators => optsIntoPrerelease comparators version &&
      comparators.all (satisfiesComparator version)
  | _, _ => false

example : satisfiesVersionRange (Text.js "1.4.2") (Text.js "^1.3 || >=2.0.0 <3") = true := by
  decide +kernel
example : satisfiesVersionRange (Text.js "2.0.0-alpha.1") (Text.js ">=1.0.0") = false := by
  decide +kernel

end TegoNext
