import ClearSign.Transaction.Decode
import ClearSign.Transfer
/-!
# Reviews

A review holds a transaction as it is put before the user: the bytes that will be signed, what they
say, and the token transfer that they amount to, if they do.
-/

namespace ClearSign

structure Review where
  /-- All the bytes, the mark of the envelope included. -/
  raw : Bytes
  tx : Transaction
  transfer : Option Transfer
  deriving DecidableEq, Repr

namespace Review

/-- Reads a transaction and looks whether it is a transfer. -/
def parse (raw : Bytes) : Logged Stop Review := do
  Logged.enter .review
  let (tx, _) ← Transaction.decode.run raw
  let transfer ← Transfer.classify tx.recipient tx.data
  return { raw, tx, transfer }

def envelope (r : Review) : Envelope := r.tx.envelope

def isTransfer (r : Review) : Bool := r.transfer.isSome

/-- Only transfers can be shown in plain terms; anything else is shown to experts alone. -/
def validate (r : Review) (expert : Bool) : Logged Stop Unit :=
  if r.isTransfer || expert then pure () else Logged.reject .validation .unsupportedTx

end Review

end ClearSign
