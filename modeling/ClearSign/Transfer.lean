import ClearSign.Address
/-!
# Token transfers

A call of `transfer(address,uint256)` on a token contract is recognised by its exact call data: the
selector, the receiver in a word of its own with twelve zero bytes in front, the amount in another
word, and nothing more.  Anything else is simply no transfer.
-/

namespace ClearSign

def abiWordLength : Nat := 32

abbrev AbiWord := Octets abiWordLength

/-- A transfer of tokens: the contract that keeps the accounts, who receives, and how much in the
smallest unit. -/
structure Transfer where
  contract : Address
  receiver : Address
  amount : AbiWord
  deriving DecidableEq, Repr

namespace Transfer

def selector : Bytes := [0xa9, 0x05, 0x9c, 0xbb]

/-- How many zero bytes fill up the receiver's word. -/
def paddingLength : Nat := abiWordLength - addressLength

def callLength : Nat := selector.length + 2 * abiWordLength

/-- Reads receiver and amount off the front of call data. -/
def readCall (data : Bytes) : Except Status ((Address × AbiWord) × Bytes) := do
  let (called, rest) ← Octets.read selector.length data
  if called.bytes ≠ selector then throw .unexpectedValue
  let (padding, rest) ← Octets.read paddingLength rest
  if padding.bytes.any (· != 0) then throw .invalidAddress
  let (receiver, rest) ← Octets.read addressLength rest
  let (amount, rest) ← Octets.read abiWordLength rest
  return ((receiver, amount), rest)

/-- Recognises a transfer from a recipient and its call data.  Only data of the right length is
looked into. -/
def classify {ε : Type} (recipient : Option Address) (data : Bytes) :
    Logged ε (Option Transfer) :=
  match recipient with
  | none => pure none
  | some contract =>
    if data.length ≠ callLength then pure none
    else do
      Logged.enter .transferCall
      match readCall data with
      | .ok ((receiver, amount), []) => return some { contract, receiver, amount }
      | _ => return none

def callData (receiver : Address) (amount : AbiWord) : Bytes :=
  selector ++ List.replicate paddingLength 0 ++ receiver.bytes ++ amount.bytes

end Transfer

end ClearSign
