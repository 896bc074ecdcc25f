import ClearSign.Address
import ClearSign.ChainId
import ClearSign.Transaction.Envelope
/-!
# Transactions

The three forms of a transaction and the fields they share.  Amounts are kept as the bytes that
spell them.  A field that a form does not have reads as `none`.
-/

namespace ClearSign

/-- The six fields that the two forms with a single gas price have in common, in their order. -/
structure BaseFields where
  nonce : Bytes
  gasPrice : Bytes
  gasLimit : Bytes
  recipient : Option Address
  value : Bytes
  data : Bytes
  deriving DecidableEq, Repr

/-- The oldest form; without a chain identifier it can be replayed on other networks. -/
structure LegacyTx where
  base : BaseFields
  chainId : Option ChainId
  deriving DecidableEq, Repr

/-- The form with an access list and a single gas price. -/
structure AccessListTx where
  chainId : ChainId
  base : BaseFields
  accessList : Rlp.Item
  deriving DecidableEq, Repr

/-- The form with a fee for the miner and a limit on the whole fee. -/
structure FeeMarketTx where
  chainId : ChainId
  nonce : Bytes
  priorityFee : Bytes
  maxFee : Bytes
  gasLimit : Bytes
  recipient : Option Address
  value : Bytes
  data : Bytes
  accessList : Rlp.Item
  deriving DecidableEq, Repr

inductive Transaction where
  | legacy (tx : LegacyTx)
  | accessList (tx : AccessListTx)
  | feeMarket (tx : FeeMarketTx)
  deriving DecidableEq, Repr

namespace Transaction

def envelope : Transaction → Envelope
  | legacy _ => .legacy
  | accessList _ => .accessList
  | feeMarket _ => .feeMarket

def chainId : Transaction → Option ChainId
  | legacy tx => tx.chainId
  | accessList tx => some tx.chainId
  | feeMarket tx => some tx.chainId

def nonce : Transaction → Bytes
  | legacy tx => tx.base.nonce
  | accessList tx => tx.base.nonce
  | feeMarket tx => tx.nonce

def gasPrice : Transaction → Option Bytes
  | legacy tx => some tx.base.gasPrice
  | accessList tx => some tx.base.gasPrice
  | feeMarket _ => none

def priorityFee : Transaction → Option Bytes
  | legacy _ => none
  | accessList _ => none
  | feeMarket tx => some tx.priorityFee

def maxFee : Transaction → Option Bytes
  | legacy _ => none
  | accessList _ => none
  | feeMarket tx => some tx.maxFee

def gasLimit : Transaction → Bytes
  | legacy tx => tx.base.gasLimit
  | accessList tx => tx.base.gasLimit
  | feeMarket tx => tx.gasLimit

/-- Who receives the value; a transaction without a recipient creates a contract. -/
def recipient : Transaction → Option Address
  | legacy tx => tx.base.recipient
  | accessList tx => tx.base.recipient
  | feeMarket tx => tx.recipient

def value : Transaction → Bytes
  | legacy tx => tx.base.value
  | accessList tx => tx.base.value
  | feeMarket tx => tx.value

def data : Transaction → Bytes
  | legacy tx => tx.base.data
  | accessList tx => tx.base.data
  | feeMarket tx => tx.data

def accessListItem : Transaction → Option Rlp.Item
  | legacy _ => none
  | accessList tx => some tx.accessList
  | feeMarket tx => some tx.accessList

end Transaction

end ClearSign
