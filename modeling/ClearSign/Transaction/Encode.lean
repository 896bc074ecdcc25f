import ClearSign.Rlp.Encode
import ClearSign.Transaction.Basic
/-!
# Writing transactions

The shortest bytes that say what a transaction says.  An unsigned transaction of the oldest form
that names its network ends with two blank signature values, each of which may be written in two
ways; what the transaction says does not depend on them.
-/

namespace ClearSign

/-- How a blank signature value is written. -/
inductive BlankSignature where
  | empty
  | zero
  deriving DecidableEq, Repr

def BlankSignature.bytes : BlankSignature → Bytes
  | empty => []
  | zero => [0]

namespace ChainId

/-- An identifier without leading zeros. -/
def ofNat (id : Nat) : ChainId := { raw := Bytes.ofNat id, id }

/-- The identifier of an accepted network, written without leading zeros. -/
def IsCanonical (c : ChainId) : Prop := c.id ∈ supported ∧ c = ofNat c.id

end ChainId

/-- The bytes of a recipient, which are none where a contract is created. -/
def Address.toField : Option Address → Bytes
  | none => []
  | some a => a.bytes

theorem Address.ofField_toField (recipient : Option Address) :
    Address.ofField (Address.toField recipient) = .ok recipient := by
  cases recipient with
  | none => rfl
  | some a => exact Address.ofField_bytes a

def BaseFields.encode (f : BaseFields) : Bytes :=
  Rlp.encodeString f.nonce ++ Rlp.encodeString f.gasPrice ++ Rlp.encodeString f.gasLimit ++
    Rlp.encodeString (Address.toField f.recipient) ++ Rlp.encodeString f.value ++
    Rlp.encodeString f.data

namespace LegacyTx

/-- The common fields, and the chain identifier with two blank values where there is one. -/
def encode (tx : LegacyTx) (r s : BlankSignature) : Bytes :=
  tx.base.encode ++
    match tx.chainId with
    | none => []
    | some c =>
      Rlp.encodeString c.raw ++ Rlp.encodeString r.bytes ++ Rlp.encodeString s.bytes

end LegacyTx

def AccessListTx.encode (tx : AccessListTx) : Bytes :=
  Rlp.encodeString tx.chainId.raw ++ tx.base.encode ++ Rlp.encodeList tx.accessList.payload

def FeeMarketTx.encode (tx : FeeMarketTx) : Bytes :=
  Rlp.encodeString tx.chainId.raw ++ Rlp.encodeString tx.nonce ++
    Rlp.encodeString tx.priorityFee ++ Rlp.encodeString tx.maxFee ++
    Rlp.encodeString tx.gasLimit ++ Rlp.encodeString (Address.toField tx.recipient) ++
    Rlp.encodeString tx.value ++ Rlp.encodeString tx.data ++
    Rlp.encodeList tx.accessList.payload

namespace Transaction

def encodeBody (tx : Transaction) (r s : BlankSignature) : Bytes :=
  match tx with
  | legacy tx => tx.encode r s
  | accessList tx => tx.encode
  | feeMarket tx => tx.encode

/-- The mark of the envelope and the list of the fields. -/
def encode (tx : Transaction) (r s : BlankSignature) : Bytes :=
  tx.envelope.mark ++ Rlp.encodeList (tx.encodeBody r s)

/-- What can be written and read back: the chain identifier is that of an accepted network and the
access list is a list. -/
def IsCanonical (tx : Transaction) : Prop :=
  (∀ c, tx.chainId = some c → c.IsCanonical) ∧
    (∀ item, tx.accessListItem = some item → item.kind = .list)

end Transaction

end ClearSign
