import ClearSign.Status
/-!
# Hexadecimal digits

Bytes are shown as two lowercase hexadecimal digits each, the high half first.  `Hex.encode` writes
them into a buffer, `Hex.digits` is the text they form and `Hex.decode` reads such a text back.
-/

namespace ClearSign.Hex

def alphabet : Bytes := Bytes.ofText "0123456789abcdef"

def digit (n : Nat) : Checked UInt8 := Checked.get alphabet n

/-- There is no room for two digits for each byte. -/
inductive EncodeError where
  | outputTooSmall
  deriving DecidableEq, Repr

/-- Writes the digits of each byte into the next two cells; the cells after the last digit stay as
they are. -/
def fillDigits : Bytes → Bytes → Checked Bytes
  | [], out => .ok out
  | b :: bs, _ :: _ :: out => do
    let high ← digit (b.toNat / 16)
    let low ← digit (b.toNat % 16)
    let written ← fillDigits bs out
    return high :: low :: written
  | _ :: _, [_] => .error .outOfBounds
  | _ :: _, [] => .ok []

/-- Writes the digits of `input` to the front of `out` and answers how many there are. -/
def encode (input out : Bytes) : Checked (Written EncodeError Nat) := do
  let size ← Checked.mul Checked.addressBits input.length 2
  if out.length < size then return .failed out .outputTooSmall
  else return .done (← fillDigits input out) size

/-! ## The text and its reading -/

/-- The digit for the low half of `n`. -/
def digitOf (n : Nat) : UInt8 := (alphabet[n % 16]?).getD 0

def digits (bs : Bytes) : Bytes :=
  bs.flatMap fun b => [digitOf (b.toNat / 16), digitOf b.toNat]

def digitValue? (d : UInt8) : Option Nat := alphabet.findIdx? (· == d)

/-- Reads a text of digits, two for each byte. -/
def decode : Bytes → Option Bytes
  | [] => some []
  | [_] => none
  | high :: low :: rest => do
    let high ← digitValue? high
    let low ← digitValue? low
    let bytes ← decode rest
    return UInt8.ofNat (high * 16 + low) :: bytes

theorem digits_cons (b : UInt8) (bs : Bytes) :
    digits (b :: bs) = digitOf (b.toNat / 16) :: digitOf b.toNat :: digits bs := rfl

@[simp] theorem length_digits (bs : Bytes) : (digits bs).length = 2 * bs.length := by
  induction bs with
  | nil => rfl
  | cons b bs ih =>
    simp only [digits_cons, List.length_cons, ih]
    omega

theorem length_alphabet : alphabet.length = 16 := by decide

theorem digit_eq {n : Nat} (h : n < 16) : digit n = .ok (digitOf n) := by
  have hn : n < alphabet.length := by rwa [length_alphabet]
  rw [digit, Checked.get_eq_ok hn, digitOf, Nat.mod_eq_of_lt h, List.getElem?_eq_getElem hn]
  rfl

private theorem digitValue_table : ∀ n : Fin 16, digitValue? (digitOf n) = some n.val := by decide

theorem digitValue_digitOf {n : Nat} (h : n < 16) : digitValue? (digitOf n) = some n :=
  digitValue_table ⟨n, h⟩

theorem digitOf_mod (n : Nat) : digitOf (n % 16) = digitOf n := by
  simp [digitOf]

private theorem mem_alphabet_table : ∀ n : Fin 16, digitOf n ∈ alphabet := by decide

theorem digitOf_mem_alphabet (n : Nat) : digitOf n ∈ alphabet := by
  rw [← digitOf_mod]
  exact mem_alphabet_table ⟨n % 16, Nat.mod_lt _ (by decide)⟩

theorem mem_alphabet_of_mem_digits {bs : Bytes} {d : UInt8} (h : d ∈ digits bs) :
    d ∈ alphabet := by
  obtain ⟨b, -, hb⟩ := List.mem_flatMap.1 h
  simp only [List.mem_cons, List.not_mem_nil, or_false] at hb
  rcases hb with rfl | rfl
  · exact digitOf_mem_alphabet _
  · exact digitOf_mem_alphabet _

theorem zero_notMem_digits (bs : Bytes) : (0 : UInt8) ∉ digits bs := by
  have hzero : (0 : UInt8) ∉ alphabet := by decide
  intro h
  exact hzero (mem_alphabet_of_mem_digits h)

theorem fillDigits_eq {input out : Bytes} (h : 2 * input.length ≤ out.length) :
    fillDigits input out = .ok (digits input ++ out.drop (2 * input.length)) := by
  induction input generalizing out with
  | nil => simp [fillDigits, digits]
  | cons b bs ih =>
    match out, h with
    | [], h => simp at h
    | [_], h => simp at h; omega
    | _ :: _ :: out, h =>
      have hlen : 2 * bs.length ≤ out.length := by
        simp only [List.length_cons] at h
        omega
      have hb := b.toNat_lt
      rw [fillDigits, digit_eq (show b.toNat / 16 < 16 by omega),
        digit_eq (Nat.mod_lt _ (by decide)), ih hlen]
      have hdrop : 2 * (b :: bs).length = 2 * bs.length + 1 + 1 := by
        simp only [List.length_cons]
        omega
      rw [hdrop, List.drop_succ_cons, List.drop_succ_cons, digitOf_mod]
      rfl

open scoped Powers

/-- Within an address space, `encode` writes exactly the digits or nothing. -/
theorem encode_eq {input out : Bytes} (h : input.length * 2 < 2 ^ Checked.addressBits) :
    encode input out =
      if 2 * input.length ≤ out.length then
        .ok (.done (digits input ++ out.drop (2 * input.length)) (2 * input.length))
      else .ok (.failed out .outputTooSmall) := by
  have hmul : Checked.mul Checked.addressBits input.length 2 = .ok (input.length * 2) :=
    Checked.mul_eq_ok h
  rw [encode, hmul]
  simp only [Checked.ok_bind]
  by_cases hout : 2 * input.length ≤ out.length
  · rw [if_neg (by omega), if_pos hout, fillDigits_eq hout, Nat.mul_comm]
    rfl
  · rw [if_pos (by omega), if_neg hout]
    rfl

/-- Cleared cells that are not needed stay cleared. -/
theorem encode_zeros {input : Bytes} (h : input.length * 2 < 2 ^ Checked.addressBits) (room : Nat) :
    encode input (List.replicate (2 * input.length + room) 0) =
      .ok (.done (digits input ++ List.replicate room 0) (2 * input.length)) := by
  rw [encode_eq h, List.length_replicate, if_pos (Nat.le_add_right _ _), List.drop_replicate,
    Nat.add_sub_cancel_left]

@[simp] theorem decode_digits (bs : Bytes) : decode (digits bs) = some bs := by
  induction bs with
  | nil => rfl
  | cons b bs ih =>
    have hb := b.toNat_lt
    rw [digits_cons, decode, digitValue_digitOf (by omega), ← digitOf_mod b.toNat,
      digitValue_digitOf (Nat.mod_lt _ (by decide)), ih]
    have hsum : b.toNat / 16 * 16 + b.toNat % 16 = b.toNat := by omega
    simp only [Option.bind_eq_bind, Option.bind_some, Option.pure_def, hsum, UInt8.ofNat_toNat]

theorem digits_inj {a b : Bytes} (h : digits a = digits b) : a = b := by
  have hdecode := congrArg decode h
  rw [decode_digits, decode_digits] at hdecode
  exact Option.some.inj hdecode

end ClearSign.Hex
