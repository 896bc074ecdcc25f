import ClearSign.Octets
/-!
# Keccak-256

The hash by which a transaction is known: the sponge over 25 lanes of 64 bits with a rate of 136
bytes, a padding that starts with `0x01`, and a digest of 32 bytes.  Lane `x + 5 * y` stands in
column `x` and row `y`.
-/

namespace ClearSign.Keccak

abbrev State := Vector UInt64 25

/-- The lane in column `x` and row `y`, both taken modulo five. -/
def lane (s : State) (x y : Nat) : UInt64 := s[x % 5 + 5 * (y % 5)]

/-- The state whose lane in column `x` and row `y` is `f x y`. -/
def ofLanes (f : Nat → Nat → UInt64) : State := Vector.ofFn fun i => f (i.val % 5) (i.val / 5)

def rotateLeft (w : UInt64) (n : Nat) : UInt64 :=
  w <<< UInt64.ofNat n ||| w >>> UInt64.ofNat (64 - n)

def offsets : Vector Nat 25 := #v[
  0, 1, 62, 28, 27,
  36, 44, 6, 55, 20,
  3, 10, 43, 25, 39,
  41, 45, 15, 21, 8,
  18, 2, 61, 56, 14]

def roundConstants : List UInt64 := [
  0x0000000000000001, 0x0000000000008082, 0x800000000000808a, 0x8000000080008000,
  0x000000000000808b, 0x0000000080000001, 0x8000000080008081, 0x8000000000008009,
  0x000000000000008a, 0x0000000000000088, 0x0000000080008009, 0x000000008000000a,
  0x000000008000808b, 0x800000000000008b, 0x8000000000008089, 0x8000000000008003,
  0x8000000000008002, 0x8000000000000080, 0x000000000000800a, 0x800000008000000a,
  0x8000000080008081, 0x8000000000008080, 0x0000000080000001, 0x8000000080008008]

def parity (s : State) (x : Nat) : UInt64 :=
  lane s x 0 ^^^ lane s x 1 ^^^ lane s x 2 ^^^ lane s x 3 ^^^ lane s x 4

/-- Adds to each lane the parities of the columns beside it. -/
def theta (s : State) : State :=
  let columns : Vector UInt64 5 := Vector.ofFn fun x => parity s x.val
  ofLanes fun x y =>
    lane s x y ^^^ columns[(x + 4) % 5] ^^^ rotateLeft columns[(x + 1) % 5] 1

/-- Turns each lane and moves it to another place. -/
def rhoPi (s : State) : State :=
  ofLanes fun x y =>
    rotateLeft (lane s (x + 3 * y) x) offsets[(x + 3 * y) % 5 + 5 * (x % 5)]

/-- Combines each lane with the two to its right. -/
def chi (s : State) : State :=
  ofLanes fun x y => lane s x y ^^^ (~~~lane s (x + 1) y &&& lane s (x + 2) y)

def round (s : State) (constant : UInt64) : State :=
  let mixed := chi (rhoPi (theta s))
  mixed.set 0 (mixed[0] ^^^ constant)

def permute (s : State) : State := roundConstants.foldl round s

/-! ## The sponge -/

/-- How many bytes go in at a time. -/
def rate : Nat := 136

def digestLength : Nat := 32

/-- What is put after a message of `length` bytes: it fills the last block, with a bit at its start
and one at its end. -/
def padding (length : Nat) : Bytes :=
  let missing := rate - length % rate
  if missing = 1 then [0x81] else 0x01 :: List.replicate (missing - 2) 0 ++ [0x80]

/-- Eight bytes as a lane, least significant first. -/
def littleEndian (bs : Bytes) : UInt64 := bs.foldr (fun b w => w <<< 8 ||| b.toUInt64) 0

/-- Adds a block to the first lanes. -/
def addBlock (s : State) (block : Bytes) : State :=
  Vector.ofFn fun i => s[i] ^^^ littleEndian ((block.drop (8 * i.val)).take 8)

def absorb (s : State) (bs : Bytes) : State :=
  if bs.length < rate then s
  else absorb (permute (addBlock s (bs.take rate))) (bs.drop rate)
termination_by bs.length
decreasing_by
  rw [List.length_drop]
  unfold rate at *
  omega

def squeeze (s : State) : Octets digestLength :=
  ⟨List.ofFn fun i : Fin digestLength =>
    (lane s (i.val / 8) 0 >>> UInt64.ofNat (8 * (i.val % 8))).toUInt8, List.length_ofFn⟩

def digest (message : Bytes) : Octets digestLength :=
  squeeze (absorb (Vector.replicate 25 0) (message ++ padding message.length))

end ClearSign.Keccak
