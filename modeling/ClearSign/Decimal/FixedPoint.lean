import ClearSign.Decimal.Text
import ClearSign.Checked
/-!
# Fixed-point text in place

A buffer holds a run of digits and a zero byte after it.  `placePoint` turns it, without another
buffer, into the same number with a point in front of its last digits: leading zeros are dropped,
zeros are put in front where there are too few digits, and the point is squeezed in.
-/

namespace ClearSign.Decimal

inductive FixedPointError where
  /-- No zero byte ends the run. -/
  | bufferFull
  | bufferTooShort
  /-- The byte at this index is no digit. -/
  | notADigit (index : Nat)
  deriving DecidableEq, Repr

/-- Looks for the first digit other than zero and answers its index, counted from `start`.  A byte
on the way that is no digit is an error; the bytes after the digit found are not looked at. -/
def firstNonzero : Bytes → Nat → Except FixedPointError (Option Nat)
  | [], _ => .ok none
  | b :: bs, start =>
    if !isDigit b then .error (.notADigit start)
    else if b ≠ digit 0 then .ok (some start)
    else firstNonzero bs (start + 1)

/-- Moves the digits from `start` up to but not including `stop` to the front, and clears the
rest. -/
def moveToFront (s : Bytes) (start stop : Nat) : Checked (Bytes × Nat) := do
  let s ← Checked.move s start stop 0
  let size ← Checked.sub stop start
  let s ← Checked.fill s size s.length 0
  return (s, size)

/-- Keeps the first digit alone, and clears the rest. -/
def keepFirst (s : Bytes) : Checked (Bytes × Nat) := do
  let s ← Checked.fill s 1 s.length 0
  return (s, 1)

/-- Puts zeros in front of `size` digits until there is one more digit than `places`. -/
def padFront (s : Bytes) (size places : Nat) : Checked (Bytes × Nat) := do
  let missing ← Checked.sub places size
  let padding ← Checked.add Checked.addressBits missing 1
  let s ← Checked.move s 0 size padding
  let s ← Checked.fill s 0 padding (digit 0)
  let size ← Checked.add Checked.addressBits size padding
  return (s, size)

/-- Puts a point in front of the last `places` of `size` digits. -/
def insertPoint (s : Bytes) (size places : Nat) : Checked (Bytes × Nat) := do
  let position ← Checked.sub size places
  let after ← Checked.add Checked.addressBits position 1
  let s ← Checked.move s position size after
  let s ← Checked.set s position point
  let size ← Checked.add Checked.addressBits size 1
  return (s, size)

/-- Gives `size` canonical digits a point and answers the text, if there is room for it, for the
point and for a zero byte after it. -/
def pointDigits (s : Bytes) (size places : Nat) : Checked (Written FixedPointError Bytes) := do
  if places = 0 then return .done s (← Checked.take s size)
  else
    let least ← Checked.add Checked.addressBits places 1
    let needed ← Checked.add Checked.addressBits (max size least) 2
    if s.length < needed then return .failed s .bufferTooShort
    else
      let (s, size) ← if size < least then padFront s size places else pure (s, size)
      let (s, size) ← insertPoint s size places
      return .done s (← Checked.take s size)

/-- Turns the run of digits at the front of `s` into its value with `places` digits behind a
point.  An empty run counts as zero. -/
def placePoint (s : Bytes) (places : Nat) : Checked (Written FixedPointError Bytes) := do
  if s.isEmpty then return .failed s .bufferTooShort
  else
    let size := (Bytes.untilZero s).length
    if size = s.length then return .failed s .bufferFull
    else
      let (s, size) ←
        if size = 0 then do
          let s ← Checked.set s 0 (digit 0)
          pure (s, 1)
        else pure (s, size)
      let run ← Checked.take s size
      match firstNonzero run 0 with
      | .error e => return .failed s e
      | .ok first =>
        let (s, size) ←
          match first with
          | some start => moveToFront s start size
          | none => keepFirst s
        pointDigits s size places

end ClearSign.Decimal
