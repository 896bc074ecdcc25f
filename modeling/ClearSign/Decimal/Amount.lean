import ClearSign.Decimal.Digits
import ClearSign.Decimal.FixedPoint
import ClearSign.Page
/-!
# Amounts

An amount is shown as its decimal text with a number of places behind a point.  The text is made up
in a scratch buffer that has room for the longest number, the point, a leading zero and the zero
byte at the end.
-/

namespace ClearSign.Decimal

def scratchLength : Nat := maxDigits + 3

/-- The text of the number that `num` spells, with `places` digits behind a point. -/
def amountText (num : Bytes) (places : Nat) : Except Stop Bytes := do
  let n ← readNumber num
  let digits ← writeDigits n (List.replicate scratchLength 0)
  let _ ← digits.outcome
  let pointed ← placePoint digits.buffer places
  match pointed.outcome with
  | .ok text => return text
  | .error _ => throw (.status .unexpectedEnd)

end ClearSign.Decimal
