import ClearSign.Review
import ClearSign.Decimal.Amount
import ClearSign.Hex
import ClearSign.Keccak
/-!
# Fields

What can be shown of a transaction, the label each field goes under, and the table of fields for a
given review.  A transfer has a table of its own; anything else is shown field by field.
-/

namespace ClearSign

inductive Field where
  | receiver
  | contract
  | amount
  | recipient
  | nonce
  | maxPriorityFee
  | maxFee
  | gasLimit
  | gasPrice
  /-- The value in the smallest unit. -/
  | value
  /-- The value in whole coins. -/
  | coinValue
  | data
  | hash
  deriving DecidableEq, Repr

namespace Field

def labelText : Field → String
  | receiver => "Receiver"
  | contract => "Contract"
  | amount => "Amount"
  | recipient => "To"
  | nonce => "Nonce"
  | maxPriorityFee => "Max Priority Fee"
  | maxFee => "Max Fee"
  | gasLimit => "Gas limit"
  | gasPrice => "Gas price"
  | value => "Value"
  | coinValue => "Value"
  | data => "Data"
  | hash => "Eth-Hash"

def label (f : Field) : Bytes := Bytes.ofText f.labelText

end Field

/-! ## Tables -/

/-- The longest table is that of a transfer with two fees. -/
def maxRows : Nat := 10

/-- Adds fields at the end of a table that has room for `maxRows`. -/
def extendRows (rows fields : List Field) : Except Status (List Field) :=
  if rows.length + fields.length ≤ maxRows then .ok (rows ++ fields)
  else .error .unexpectedNumberItems

namespace Review

/-- The fields that tell what the transaction costs. -/
def feeFields (r : Review) : List Field :=
  if r.envelope = .feeMarket then [.maxPriorityFee, .maxFee, .gasLimit] else [.gasLimit, .gasPrice]

/-- The fields in the order in which they are shown. -/
def rows (r : Review) (expert : Bool) : Except Status (List Field) :=
  if r.isTransfer then do
    let rows ← extendRows [] [.receiver, .contract, .amount, .nonce]
    let rows ← extendRows rows r.feeFields
    extendRows rows [.value, .data, .hash]
  else if !expert then .error .unsupportedTx
  else do
    let rows ← if r.tx.recipient.isSome then extendRows [] [.recipient] else pure []
    let rows ← extendRows rows [.coinValue]
    let rows ← if r.tx.data.isEmpty then pure rows else extendRows rows [.data]
    let rows ← extendRows rows r.feeFields
    extendRows rows [.nonce, .hash]

def itemCount (r : Review) (expert : Bool) : Except Status Nat := do
  let rows ← r.rows expert
  return rows.length

/-! ## Texts -/

/-- How many places of a value in coins stand behind the point. -/
def coinPlaces : Nat := 18

/-- How many bytes of the call data are shown. -/
def dataShown : Nat := 10

/-- Stands for the bytes of the call data that are not shown. -/
def ellipsis : Bytes := Bytes.ofText "..."

def addressMark : Bytes := Bytes.ofText "0x"

/-- The digits of `bs`, made up in a scratch buffer of `size` zeros behind `lead`. -/
def hexText (lead bs : Bytes) (size : Nat) : Except Stop Bytes := do
  let written ← Hex.encode bs (List.replicate size 0)
  match written.outcome with
  | .ok n => return lead ++ (← Checked.take written.buffer n)
  | .error _ => throw (.status .unexpectedEnd)

def addressText (a : Address) : Except Stop Bytes :=
  hexText addressMark a.bytes (2 * addressLength)

/-- The text of the hash of the whole transaction. -/
def hashText (r : Review) : Except Stop Bytes :=
  hexText [] (Keccak.digest r.raw).bytes (2 * Keccak.digestLength)

/-- The first bytes of the call data, and an ellipsis when there are more. -/
def dataText (data : Bytes) : Except Stop Bytes := do
  let shown ← Checked.take data (min data.length dataShown)
  let written ← Hex.encode shown (List.replicate (2 * dataShown + ellipsis.length) 0)
  match written.outcome with
  | .error _ => throw (.status .unexpectedEnd)
  | .ok n =>
    if dataShown < data.length then
      let out ← Checked.replace written.buffer n (n + ellipsis.length) ellipsis
      return ← Checked.take out (n + ellipsis.length)
    else return ← Checked.take written.buffer n

/-- A part of the transaction that a field needs and not every transaction has. -/
def require {α : Type} (x : Option α) : Except Stop α :=
  match x with
  | some a => .ok a
  | none => .error (.status .noData)

def fieldText (r : Review) : Field → Except Stop Bytes
  | .receiver => do addressText (← require r.transfer).receiver
  | .contract => do addressText (← require r.transfer).contract
  | .amount => do Decimal.amountText (← require r.transfer).amount.bytes 0
  | .recipient => do addressText (← require r.tx.recipient)
  | .nonce => Decimal.amountText r.tx.nonce 0
  | .maxPriorityFee => do Decimal.amountText (← require r.tx.priorityFee) 0
  | .maxFee => do Decimal.amountText (← require r.tx.maxFee) 0
  | .gasLimit => Decimal.amountText r.tx.gasLimit 0
  | .gasPrice => do Decimal.amountText (← require r.tx.gasPrice) 0
  | .value => Decimal.amountText r.tx.value 0
  | .coinValue => Decimal.amountText r.tx.value coinPlaces
  | .data => dataText r.tx.data
  | .hash => hashText r

end Review

end ClearSign
