import ClearSign.Decoder
/-!
# Envelopes

The first byte of a transaction tells which of three forms it has.  The two typed forms are marked
by a byte of their own in front of the list; the oldest form has no mark and starts with the list.
-/

namespace ClearSign

inductive Envelope where
  /-- No mark, one gas price. -/
  | legacy
  /-- Marked `0x01`, one gas price and an access list. -/
  | accessList
  /-- Marked `0x02`, two fees in place of the gas price and an access list. -/
  | feeMarket
  deriving DecidableEq, Repr

namespace Envelope

def tag : Envelope → Nat
  | legacy => 0
  | accessList => 1
  | feeMarket => 2

def mark : Envelope → Bytes
  | legacy => []
  | accessList => [0x01]
  | feeMarket => [0x02]

/-- Takes the mark off the front; the marker of a list is left for the list. -/
def decode : Decoder Envelope := fun bs =>
  match bs with
  | [] => Logged.stop (.status .unexpected)
  | b :: rest =>
    if b = 0x01 then pure (accessList, rest)
    else if b = 0x02 then pure (feeMarket, rest)
    else if 0xC0 ≤ b.toNat then pure (legacy, bs)
    else Logged.reject .envelope .unsupportedTx

theorem run_decode_nil : decode.run [] = ⟨[], .error (.status .unexpected)⟩ := rfl

theorem run_decode_mark {e : Envelope} (he : e ≠ legacy) (rest : Bytes) :
    decode.run (e.mark ++ rest) = ⟨[], .ok (e, rest)⟩ := by
  cases e with
  | legacy => exact absurd rfl he
  | accessList => rfl
  | feeMarket => rfl

theorem run_decode_list {b : UInt8} (h : 0xC0 ≤ b.toNat) (rest : Bytes) :
    decode.run (b :: rest) = ⟨[], .ok (legacy, b :: rest)⟩ := by
  have h1 : b ≠ 0x01 := by rintro rfl; exact absurd h (by decide)
  have h2 : b ≠ 0x02 := by rintro rfl; exact absurd h (by decide)
  show decode (b :: rest) = _
  simp only [decode, if_neg h1, if_neg h2, if_pos h]
  rfl

theorem run_decode_other {b : UInt8} (h1 : b ≠ 0x01) (h2 : b ≠ 0x02) (h : b.toNat < 0xC0)
    (rest : Bytes) :
    decode.run (b :: rest) =
      ⟨[.rejected .envelope .unsupportedTx], .error (.status .unsupportedTx)⟩ := by
  show decode (b :: rest) = _
  simp only [decode, if_neg h1, if_neg h2, if_neg (show ¬0xC0 ≤ b.toNat by omega)]
  rfl

end Envelope

end ClearSign
