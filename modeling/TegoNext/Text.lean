/-
JavaScript strings as the runtime sees them, and the two text orders and name patterns that the
modelled packages share.

A string is its list of UTF-16 code units, the level at which the source compares (`<`), takes
prefixes and rejects ill-formed Unicode. `js` turns a literal into code units.
-/
import Mathlib.Data.UInt

set_option autoImplicit false

namespace TegoNext

def maxSafeInteger : Nat := 9007199254740991

/-- A JavaScript string: its UTF-16 code units. -/
abbrev JsString : Type := List UInt16

instance lawfulBEq_jsString : LawfulBEq JsString := inferInstance

namespace Text

/-- The code units of one Unicode scalar value. -/
def encodeUtf16 (c : Char) : List UInt16 :=
  let n := c.toNat
  if n < 0x10000 then [UInt16.ofNat n]
  else [UInt16.ofNat (0xd800 + (n - 0x10000) / 0x400), UInt16.ofNat (0xdc00 + (n - 0x10000) % 0x400)]

/-- The code units of a literal. -/
def js (s : String) : JsString := s.toList.flatMap encodeUtf16

/-- `left < right ? -1 : left > right ? 1 : 0` on strings: by code units. The
source has this function as `compareCodeUnits` and as `compareText`. -/
def compareText : JsString → JsString → Ordering
  | [], [] => .eq
  | [], _ :: _ => .lt
  | _ :: _, [] => .gt
  | a :: left, b :: right =>
    if a < b then .lt else if b < a then .gt else compareText left right

/-- `value.startsWith(prefix)`. -/
def startsWith (value pre : JsString) : Bool := pre.isPrefixOf value

/-- `parts.join(separator)`. -/
def joinParts (separator : JsString) : List JsString → JsString
  | [] => []
  | [part] => part
  | part :: next :: parts => part ++ separator ++ joinParts separator (next :: parts)

/-- `isPortableStateString`: no NUL, and every surrogate is half of a pair. -/
def isPortableStateString : JsString → Bool
  | [] => true
  | u :: rest =>
    if u = 0 then false
    else if 0xd800 ≤ u ∧ u ≤ 0xdbff then
      match rest with
      | [] => false
      | trailing :: rest =>
        if trailing < 0xdc00 ∨ 0xdfff < trailing then false else isPortableStateString rest
    else if 0xdc00 ≤ u ∧ u ≤ 0xdfff then false
    else isPortableStateString rest

/-- `[0-9]`. -/
def isDigit (u : UInt16) : Bool := 48 ≤ u && u ≤ 57

/-- Read decimal digits only. -/
def digits (s : JsString) : Option Nat :=
  if s.isEmpty then none
  else s.foldl (fun acc u => acc.bind fun n =>
    if isDigit u then some (10 * n + (u.toNat - 48)) else none) (some 0)

/-- `/^(?:0|[1-9]\d*)$/u`. -/
def isNumeric (s : JsString) : Bool :=
  s == js "0" || (s.head?.any (fun u => 49 ≤ u && u ≤ 57) && s.all isDigit)

/-- `\s` of a regular expression, which is also what `trim` removes. -/
def isSpace (u : UInt16) : Bool :=
  (9 ≤ u && u ≤ 13) || u == 32 || u == 0xa0 || u == 0x1680 || (0x2000 ≤ u && u ≤ 0x200a) ||
    u == 0x2028 || u == 0x2029 || u == 0x202f || u == 0x205f || u == 0x3000 || u == 0xfeff

def trim (s : JsString) : JsString := ((s.dropWhile isSpace).reverse.dropWhile isSpace).reverse

/-- `value.split("||")`. -/
def splitBars : JsString → List JsString
  | [] => [[]]
  | 124 :: 124 :: rest => [] :: splitBars rest
  | u :: rest =>
    match splitBars rest with
    | [] => [[u]]
    | part :: parts => (u :: part) :: parts

/-- `value.split(/\s+/u)` of a trimmed, non-empty text. -/
def splitSpaces (s : JsString) : List JsString :=
  (s.splitOnP isSpace).filter fun part => !part.isEmpty

/-- `[A-Za-z0-9]`. -/
def isAlphanumeric (u : UInt16) : Bool := isDigit u || (65 ≤ u && u ≤ 90) || (97 ≤ u && u ≤ 122)

/-- `[A-Za-z0-9._-]`. -/
def isNameUnit (u : UInt16) : Bool := isAlphanumeric u || u == 46 || u == 95 || u == 45

/-- `/^[A-Za-z0-9][A-Za-z0-9._-]{0,127}$/u`, the portable name pattern. -/
def isPortableName : JsString → Bool
  | [] => false
  | u :: rest => isAlphanumeric u && rest.length ≤ 127 && rest.all isNameUnit

/-! ## The order of code units -/

theorem compareText_self (s : JsString) : compareText s s = .eq := by
  induction s with
  | nil => rfl
  | cons a s ih => simp [compareText, ih]

theorem eq_of_compareText {s t : JsString} (h : compareText s t = .eq) : s = t := by
  induction s generalizing t with
  | nil =>
    cases t with
    | nil => rfl
    | cons b t => simp [compareText] at h
  | cons a s ih =>
    cases t with
    | nil => simp [compareText] at h
    | cons b t =>
      simp only [compareText] at h
      split at h
      · cases h
      next hab =>
      split at h
      · cases h
      next hba =>
      have hEq : a = b := UInt16.le_antisymm (UInt16.not_lt.mp hba) (UInt16.not_lt.mp hab)
      rw [hEq, ih h]

@[simp] theorem compareText_eq_iff {s t : JsString} : compareText s t = .eq ↔ s = t :=
  ⟨eq_of_compareText, fun h => h ▸ compareText_self s⟩

end Text

end TegoNext
