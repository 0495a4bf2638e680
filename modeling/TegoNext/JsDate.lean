/-
Instants and their canonical texts.

The stores exchange times as the texts `Date.prototype.toISOString` produces and keep the ones they
compute as instants, in milliseconds since 1970. `parse` reads exactly that format: the source only
reads texts for which `validTimestamp` holds, which compares with `toISOString` of what was read.
-/
import TegoNext.Text

set_option autoImplicit false

namespace TegoNext

namespace JsDate

open Text

/-- The largest instant a `Date` can hold, `8.64e15` milliseconds. -/
def maxInstant : Int := 8640000000000000

/-- What a valid `Date` holds: the clock answers with one of these. -/
structure Instant where
  ms : Int
  inRange : -maxInstant ≤ ms ∧ ms ≤ maxInstant
  deriving DecidableEq

/-- `new Date(0)`. -/
def epochStart : Instant := ⟨0, by decide⟩

/-- `new Date(t.getTime() + delay)`, when that is still a valid date; its
`toISOString` throws a `RangeError` otherwise. -/
def Instant.add? (t : Instant) (delay : Int) : Option Instant :=
  if h : -maxInstant ≤ t.ms + delay ∧ t.ms + delay ≤ maxInstant then some ⟨t.ms + delay, h⟩
  else none

/-- Year, month and day of a day number (day `0` is 1970-01-01). -/
def civilFromDays (days : Int) : Int × Nat × Nat :=
  let z := days + 719468
  let era := z.fdiv 146097
  let doe := (z - era * 146097).toNat
  let yoe := (doe - doe / 1460 + doe / 36524 - doe / 146096) / 365
  let doy := doe - (365 * yoe + yoe / 4 - yoe / 100)
  let mp := (5 * doy + 2) / 153
  let day := doy - (153 * mp + 2) / 5 + 1
  let month := if mp < 10 then mp + 3 else mp - 9
  let year : Int := yoe + era * 400 + (if month ≤ 2 then 1 else 0)
  (year, month, day)

/-- Day number of a calendar date. -/
def daysFromCivil (year : Int) (month day : Nat) : Int :=
  let y := if month ≤ 2 then year - 1 else year
  let era := y.fdiv 400
  let yoe := (y - era * 400).toNat
  let mp := if 2 < month then month - 3 else month + 9
  let doy := (153 * mp + 2) / 5 + day - 1
  let doe := yoe * 365 + yoe / 4 - yoe / 100 + doy
  era * 146097 + doe - 719468

/-- `n` in decimal, padded with zeros to `width` digits. -/
def pad (width n : Nat) : JsString :=
  match width with
  | 0 => []
  | w + 1 => pad w (n / 10) ++ [UInt16.ofNat (48 + n % 10)]

def toISOString (t : Int) : JsString :=
  let days := t.fdiv 86400000
  let ms := (t - days * 86400000).toNat
  let (year, month, day) := civilFromDays days
  let yearText :=
    if 0 ≤ year ∧ year ≤ 9999 then pad 4 year.toNat
    else if year < 0 then js "-" ++ pad 6 year.natAbs
    else js "+" ++ pad 6 year.toNat
  yearText ++ js "-" ++ pad 2 month ++ js "-" ++ pad 2 day ++ js "T" ++
    pad 2 (ms / 3600000) ++ js ":" ++ pad 2 (ms / 60000 % 60) ++ js ":" ++
    pad 2 (ms / 1000 % 60) ++ js "." ++ pad 3 (ms % 1000) ++ js "Z"

/-- The instant of `-MM-DDTHH:mm:ss.sssZ` in the given year. -/
def parseAfterYear (year : Int) (s : JsString) : Option Int := do
  let month ← digits ((s.drop 1).take 2)
  let day ← digits ((s.drop 4).take 2)
  let hour ← digits ((s.drop 7).take 2)
  let minute ← digits ((s.drop 10).take 2)
  let second ← digits ((s.drop 13).take 2)
  let milli ← digits ((s.drop 16).take 3)
  let t := daysFromCivil year month day * 86400000 +
    (hour * 3600000 + minute * 60000 + second * 1000 + milli : Nat)
  if -maxInstant ≤ t ∧ t ≤ maxInstant then some t else none

/-- `Date.parse` on the canonical format. -/
def parse (s : JsString) : Option Int :=
  match s with
  | [] => none
  | u :: rest =>
    if u = 43 then (digits (rest.take 6)).bind fun y => parseAfterYear y (rest.drop 6)
    else if u = 45 then (digits (rest.take 6)).bind fun y => parseAfterYear (-y) (rest.drop 6)
    else (digits (s.take 4)).bind fun y => parseAfterYear y (s.drop 4)

/-- `validTimestamp`: the text is the canonical one of the instant it denotes. -/
def validTimestamp (s : JsString) : Bool := (parse s).any fun t => toISOString t == s

theorem toISOString_of_validTimestamp {s : JsString} (h : validTimestamp s = true) :
    ∃ t, parse s = some t ∧ toISOString t = s := by
  unfold validTimestamp at h
  cases ht : parse s with
  | none => simp [ht] at h
  | some t => exact ⟨t, rfl, by simpa [ht] using h⟩

example : toISOString 1784764800000 = js "2026-07-23T00:00:00.000Z" := by decide +kernel
example : parse (js "2026-07-23T00:00:00.000Z") = some 1784764800000 := by decide +kernel

end JsDate

end TegoNext
