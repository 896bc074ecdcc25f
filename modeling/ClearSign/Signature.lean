import ClearSign.Transaction.Basic
/-!
# The recovery byte of a signature

A signature carries a byte from which the signer is recovered.  It holds the parity of the curve
point, and for the oldest form of transaction a base number and the chain identifier as well.
-/

namespace ClearSign.Signature

/-- The bit of the signing device's answer that tells an odd point. -/
def parityBit : UInt32 := 1

def isOdd (info : UInt32) : Bool := info &&& parityBit == parityBit

/-- The base where nothing guards against replay. -/
def unprotectedBase : Nat := 27

/-- The base where the chain identifier guards against replay. -/
def protectedBase : Nat := 35

/-- The largest number of 32 bits. -/
def maxWord : Nat := UInt32.size - 1

/-- The recovery byte.  Where the chain identifier goes into it, sums are clamped to 32 bits, and
the low byte is what remains. -/
def recoveryByte (tx : Transaction) (odd : Bool) : Checked UInt8 :=
  let parity := odd.toNat
  match tx with
  | .legacy legacy =>
    match legacy.chainId with
    | none => do
      let v ← Checked.add 8 unprotectedBase parity
      return UInt8.ofNat v
    | some chainId => do
      let doubled := min (min chainId.id maxWord * 2) maxWord
      let base ← Checked.add 32 protectedBase parity
      return UInt8.ofNat (min (base + doubled) maxWord)
  | _ => return UInt8.ofNat parity

end ClearSign.Signature
