/-
One control connection: how the bytes of a client become a request.

The server copies what arrives into a frame until a newline ends the line. The search for the
newline, the limit and the check that nothing stands behind the line look at one chunk at a time.
So what follows the line is refused only when it comes in the chunk of the newline; a later chunk
finds a connection that is handled.
-/
import TegoNext.Text

set_option autoImplicit false

namespace TegoNext

open Text List

inductive ControlOutcome where
  /-- `writeResponse` of a `diagnosticResponse` to an unknown request. -/
  | answer (code message : JsString)
  | dispatch (line : List UInt8)
  deriving DecidableEq

structure ControlConnection where
  /-- The bytes of the frame that have been copied. -/
  frame : List UInt8
  handled : Bool

namespace ControlConnection

def frameTooLarge : ControlOutcome :=
  .answer (js "PROTOCOL_CONTROL_FRAME_TOO_LARGE") (js "Control request exceeds the line limit")

def frameInvalid : ControlOutcome :=
  .answer (js "PROTOCOL_CONTROL_FRAME_INVALID")
    (js "Control connection must contain exactly one request line")

/-- `beginControlConnection` for a connection that got a reservation. -/
def opened : ControlConnection := ⟨[], false⟩

/-- A chunk arrives. Without a newline in it, `newline` is its length. -/
def data (maxLineBytes : Nat) (connection : ControlConnection) (chunk : List UInt8) :
    ControlConnection × Option ControlOutcome :=
  if connection.handled then (connection, none)
  else
    let newline := chunk.idxOf 10
    if connection.frame.length + newline > maxLineBytes then
      ({ connection with handled := true }, some frameTooLarge)
    else
      let frame := connection.frame ++ chunk.take newline
      if newline = chunk.length then (⟨frame, false⟩, none)
      else if newline ≠ chunk.length - 1 then (⟨frame, true⟩, some frameInvalid)
      else (⟨frame, true⟩, some (.dispatch frame))

def outcomes (maxLineBytes : Nat) : ControlConnection → List (List UInt8) → List ControlOutcome
  | _, [] => []
  | connection, chunk :: chunks =>
    let (connection, outcome) := connection.data maxLineBytes chunk
    outcome.toList ++ outcomes maxLineBytes connection chunks

variable {maxLineBytes : Nat} {frame chunk line rest : List UInt8} {chunks : List (List UInt8)}

/-! ## A chunk -/

/-- What the client writes decides what becomes of it, however it is cut, and that is one thing
at most. -/
def ChunkIndependent (maxLineBytes : Nat) (bytes : List UInt8) : Prop :=
  ∀ chunks chunks' : List (List UInt8), chunks.flatten = bytes → chunks'.flatten = bytes →
    opened.outcomes maxLineBytes chunks = opened.outcomes maxLineBytes chunks' ∧
      (opened.outcomes maxLineBytes chunks).length ≤ 1

end ControlConnection

end TegoNext
