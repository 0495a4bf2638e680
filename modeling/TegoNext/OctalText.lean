/-
Octal numbers as texts.

`toString(8)` writes a number, `padStart` fills it up with zeros, and `parseInt(text, 8)` reads it
back from any text of octal digits.
-/
import TegoNext.Text

set_option autoImplicit false

namespace TegoNext

namespace Text

def octal (n : Nat) : JsString := (Nat.toDigits 8 n).map fun c => UInt16.ofNat c.toNat

/-- `[0-7]`. -/
def isOctalDigit (u : UInt16) : Bool := 48 ≤ u && u ≤ 55

/-- `/^[0-7]+$/u`. -/
def isOctal (s : JsString) : Bool := !s.isEmpty && s.all isOctalDigit

/-- `Number.parseInt(text, 8)` of a text of octal digits. -/
def octalValue (s : JsString) : Nat := s.foldl (fun n u => 8 * n + (u.toNat - 48)) 0

/-- `text.padStart(length, "0")`. -/
def padStart (s : JsString) (length : Nat) : JsString := List.replicate (length - s.length) 48 ++ s

/-! ## What is written -/

/-! ## What is read back -/

end Text

end TegoNext
