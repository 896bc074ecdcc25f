import ClearSign.Decimal.Text
import ClearSign.Octets
/-!
# Digits in a buffer

The digits of a number come out least significant first, one for each round of a loop that divides
by ten.  They fill a buffer from its front and are turned round at the end; when the buffer is too
short, what it has room for stays as it came out.
-/

namespace ClearSign.Decimal

/-- How many bytes a number that can be shown has at most. -/
def maxNumberBytes : Nat := 32

/-- The longest text of such a number. -/
def maxDigits : Nat := 78

/-- Reads a big-endian number that is not too long to be shown. -/
def readNumber (bs : Bytes) : Except Status Nat :=
  if maxNumberBytes < bs.length then .error .valueOutOfRange else .ok (Bytes.value bs)

/-- What the loop leaves behind. -/
structure DigitLoop where
  /-- The digits in the order in which they came out. -/
  digits : Bytes
  /-- The cells after them. -/
  free : Bytes
  /-- No digit of the number is missing. -/
  complete : Bool
  /-- How often the loop body was entered, a round without a cell for its digit included. -/
  rounds : Nat

/-- Writes the digits of `n` into the cells one after the other. -/
def digitLoop (n : Nat) : Bytes → Checked DigitLoop
  | [] => .ok { digits := [], free := [], complete := false, rounds := 1 }
  | _ :: cells => do
    let d ← Checked.add 8 48 (n % 10)
    if n / 10 = 0 then
      return { digits := [UInt8.ofNat d], free := cells, complete := true, rounds := 1 }
    else
      let more ← digitLoop (n / 10) cells
      return { more with digits := UInt8.ofNat d :: more.digits, rounds := more.rounds + 1 }

/-- Writes the text of `n` to the front of `out` and answers how many digits it has. -/
def writeDigits (n : Nat) (out : Bytes) : Checked (Written Status Nat) := do
  let loop ← digitLoop n out
  if loop.complete then
    return .done (loop.digits.reverse ++ loop.free) loop.digits.length
  else
    return .failed (loop.digits ++ loop.free) .unexpectedEnd

end ClearSign.Decimal
