import ClearSign.Transaction.Basic
/-!
# Reading transactions

A transaction is the mark of its envelope and one list, which ends where the bytes end.  The fields
of the list are read one by one in the order of the form; each is checked as soon as it has been
read, and the list ends with the last field.
-/

namespace ClearSign

def BaseFields.decode : Decoder BaseFields := do
  Decoder.enter .baseFields
  let nonce ← Decoder.payload
  let gasPrice ← Decoder.payload
  let gasLimit ← Decoder.payload
  let recipient ← Address.field
  let value ← Decoder.payload
  let data ← Decoder.payload
  return { nonce, gasPrice, gasLimit, recipient, value, data }

/-- Reads a list, which may hold anything. -/
def Decoder.list : Decoder Rlp.Item := do
  let item ← Decoder.item
  Decoder.ensure item.isList .unexpectedType
  return item

namespace LegacyTx

/-- An unsigned transaction has empty signature values or zeros in their place. -/
def isBlankSignature (item : Rlp.Item) : Bool :=
  !item.isList && (item.isEmpty || item.payload == [0])

/-- Reads the common fields.  When more follows, it is a chain identifier and two blank signature
values. -/
def decode : Decoder LegacyTx := do
  Decoder.enter .legacy
  let base ← BaseFields.decode
  if ← Decoder.atEnd then
    return { base, chainId := none }
  else
    let chainId ← ChainId.field
    let r ← Decoder.item
    let s ← Decoder.item
    if isBlankSignature r && isBlankSignature s then
      Decoder.finish
      return { base, chainId := some chainId }
    else
      Decoder.reject .legacy .invalidRsValues

end LegacyTx

def AccessListTx.decode : Decoder AccessListTx := do
  Decoder.enter .accessList
  let chainId ← ChainId.field
  let base ← BaseFields.decode
  let accessList ← Decoder.list
  Decoder.finish
  return { chainId, base, accessList }

def FeeMarketTx.decode : Decoder FeeMarketTx := do
  Decoder.enter .feeMarket
  let chainId ← ChainId.field
  let nonce ← Decoder.payload
  let priorityFee ← Decoder.payload
  let maxFee ← Decoder.payload
  let gasLimit ← Decoder.payload
  let recipient ← Address.field
  let value ← Decoder.payload
  let data ← Decoder.payload
  let accessList ← Decoder.list
  Decoder.finish
  return { chainId, nonce, priorityFee, maxFee, gasLimit, recipient, value, data, accessList }

namespace Transaction

def decodeBody : Envelope → Decoder Transaction
  | .legacy => legacy <$> LegacyTx.decode
  | .accessList => accessList <$> AccessListTx.decode
  | .feeMarket => feeMarket <$> FeeMarketTx.decode

/-- Reads a transaction, which is all there is. -/
def decode : Decoder Transaction := do
  Decoder.enter .transaction
  let envelope ← Envelope.decode
  let frame ← Decoder.item
  Decoder.ensure frame.isList .unexpectedValue
  Decoder.finish
  Decoder.within frame.payload (decodeBody envelope)

end Transaction

end ClearSign
