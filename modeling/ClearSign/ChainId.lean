import ClearSign.Decoder
/-!
# Chain identifiers

A transaction that names its network can only be replayed there.  Three networks are accepted.
The identifier is a big-endian number; its bytes are kept as they came, leading zeros included.
-/

namespace ClearSign

/-- An identifier that has been checked against the accepted networks. -/
structure ChainId where
  raw : Bytes
  id : Nat
  deriving DecidableEq, Repr

namespace ChainId

/-- The main network, its test network and its canary network. -/
def supported : List Nat := [3338, 9990, 2241]

def isSupported (id : Nat) : Bool := supported.contains id

/-- The number an item spells.  A payload of a single byte counts only when the byte is the whole
item. -/
def number (item : Rlp.Item) : Except Stop Nat :=
  match item.payload with
  | [] => .error (.status .unexpected)
  | [b] => if item.kind = .byte then .ok b.toNat else .error (.status .unexpected)
  | bytes => readWord bytes

/-- Reads an item as the identifier of an accepted network. -/
def ofItem (item : Rlp.Item) : Logged Stop ChainId := do
  let id ← Logged.ofExcept (number item)
  if isSupported id then return ⟨item.payload, id⟩
  else Logged.reject .chainId .invalidChainId

/-- Takes an item off the front and reads it as an identifier. -/
def field : Decoder ChainId := do
  StateT.lift (ofItem (← Decoder.item))

/-- The same for an identifier that stands alone, which reports where it is read. -/
def decode : Decoder ChainId := do
  Decoder.enter .chainIdField
  field

end ChainId

end ClearSign
