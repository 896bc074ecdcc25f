import Mathlib.Algebra.Group.Nat.Defs
import ClearSign.Hex
/-!
# What a hexadecimal text says

`Spells` says what the text of some bytes is without a table of digits: two lowercase digits for
each byte, and the numbers they stand for make up the byte.  There is one such text, `digits`
(`spells_iff`), and `decode` reads these texts and no others (`decode_eq_some_iff`).
`encode_exactly` tells when that text is written into a buffer, and what the rest of the buffer
then holds.
-/

namespace ClearSign.Hex

/-- The numerals stand for the numbers up to nine, and the lowercase letters from `a` to `f` for
those from ten on. -/
def StandsFor (d : UInt8) (n : Nat) : Prop :=
  n < 10 ∧ d.toNat = 0x30 + n ∨ 10 ≤ n ∧ n < 16 ∧ d.toNat = 0x61 + (n - 10)

instance (d : UInt8) (n : Nat) : Decidable (StandsFor d n) :=
  inferInstanceAs (Decidable (_ ∨ _))

/-- Two digits for each byte, the one that counts sixteens first. -/
inductive Spells : Bytes → Bytes → Prop
  | nil : Spells [] []
  | cons {high low b : UInt8} {sixteens ones : Nat} {text bytes : Bytes} :
      StandsFor high sixteens → StandsFor low ones → b.toNat = 16 * sixteens + ones →
      Spells text bytes → Spells (high :: low :: text) (b :: bytes)

variable {d : UInt8} {n : Nat} {text bytes input out : Bytes}

/-! ## One digit -/

theorem StandsFor.lt (h : StandsFor d n) : n < 16 := by
  unfold StandsFor at h
  omega

private theorem standsFor_table : ∀ n : Fin 16, StandsFor (digitOf n) n := by decide

theorem standsFor_iff : StandsFor d n ↔ n < 16 ∧ d = digitOf n := by
  constructor
  · intro h
    have hdigit : StandsFor (digitOf n) n := standsFor_table ⟨n, h.lt⟩
    refine ⟨h.lt, UInt8.toNat_inj.1 ?_⟩
    unfold StandsFor at h hdigit
    omega
  · rintro ⟨hn, rfl⟩
    exact standsFor_table ⟨n, hn⟩

theorem digitValue?_eq_some_iff : digitValue? d = some n ↔ StandsFor d n := by
  rw [standsFor_iff]
  constructor
  · intro h
    obtain ⟨hn, hd, -⟩ := List.findIdx?_eq_some_iff_getElem.1 h
    rw [length_alphabet] at hn
    have hget : digitOf n = alphabet[n] := by
      rw [digitOf, Nat.mod_eq_of_lt hn, List.getElem?_eq_getElem]
      rfl
    exact ⟨hn, hget ▸ (beq_iff_eq.1 hd).symm⟩
  · rintro ⟨hn, rfl⟩
    exact digitValue_digitOf hn

/-! ## A text of digits -/

theorem spells_digits (bytes : Bytes) : Spells (digits bytes) bytes := by
  induction bytes with
  | nil => exact .nil
  | cons b bytes ih =>
      have hb := b.toNat_lt
      rw [digits_cons, ← digitOf_mod b.toNat]
      exact .cons (standsFor_iff.2 ⟨by omega, rfl⟩) (standsFor_iff.2 ⟨by omega, rfl⟩) (by omega) ih

/-- There is one text for each row of bytes. -/
theorem spells_iff : Spells text bytes ↔ text = digits bytes := by
  constructor
  · intro h
    induction h with
    | nil => rfl
    | @cons high low b sixteens ones text bytes hhigh hlow hb _ ih =>
        obtain ⟨hsixteens, rfl⟩ := standsFor_iff.1 hhigh
        obtain ⟨hones, rfl⟩ := standsFor_iff.1 hlow
        have hdiv : b.toNat / 16 = sixteens := by omega
        have hmod : b.toNat % 16 = ones := by omega
        rw [digits_cons, ← digitOf_mod b.toNat, hdiv, hmod, ih]
  · rintro rfl
    exact spells_digits bytes

/-- A text of another length, or with a capital letter in it, is not read. -/
theorem decode_eq_some_iff : decode text = some bytes ↔ Spells text bytes := by
  constructor
  · intro h
    induction text using decode.induct generalizing bytes with
    | case1 =>
        cases h
        exact .nil
    | case2 d => cases h
    | case3 high low rest ih =>
        simp only [decode, Option.bind_eq_bind, Option.bind_eq_some_iff, Option.pure_def,
          Option.some.injEq] at h
        obtain ⟨sixteens, hhigh, ones, hlow, bytes, hrest, rfl⟩ := h
        rw [digitValue?_eq_some_iff] at hhigh hlow
        have hsixteens := hhigh.lt
        have hones := hlow.lt
        refine .cons hhigh hlow ?_ (ih hrest)
        rw [UInt8.toNat_ofNat', Nat.mod_eq_of_lt (by omega), Nat.mul_comm]
  · intro h
    rw [spells_iff.1 h, decode_digits]

/-! ## In a buffer -/

/-- What a run that succeeds leaves behind. -/
theorem eq_of_encode_eq_ok {w : Written EncodeError Nat} {size : Nat} (h : input.length < 2 ^ 63)
    (hw : encode input out = .ok w) (hsize : w.outcome = .ok size) :
    2 * input.length ≤ out.length ∧ size = 2 * input.length ∧
      w.buffer = digits input ++ out.drop size := by
  rw [encode_eq (show input.length * 2 < 2 ^ 64 by omega)] at hw
  split at hw
  · rename_i hroom
    cases hw
    cases hsize
    exact ⟨hroom, rfl, rfl⟩
  · cases hw
    cases hsize

/-- If there is room for two digits for each byte, the text stands in front of what the buffer held
from there on, and no other bytes leave the same text in any buffer; otherwise the buffer is as it
was.  The bytes are taken to lie in memory, of which no slice takes up more than half. -/
theorem encode_exactly (input out : Bytes) (h : input.length < 2 ^ 63) :
    ∃ w, encode input out = .ok w ∧
      ((∃ size, w.outcome = .ok size) ↔ 2 * input.length ≤ out.length) ∧
      (∀ size, w.outcome = .ok size →
        size = 2 * input.length ∧ ∃ text, text.length = size ∧
          w.buffer = text ++ out.drop size ∧ Spells text input ∧ decode text = some input ∧
          ∀ other out' w', other.length = input.length → encode other out' = .ok w' →
            w'.outcome = .ok size → w'.buffer.take size = text → other = input) ∧
      ∀ e, w.outcome = .error e → e = .outputTooSmall ∧ w.buffer = out := by
  have hspells := spells_digits input
  have hw : encode input out = _ := encode_eq (show input.length * 2 < 2 ^ 64 by omega)
  by_cases hroom : 2 * input.length ≤ out.length
  · rw [if_pos hroom] at hw
    refine ⟨_, hw, ⟨fun _ => hroom, fun _ => ⟨_, rfl⟩⟩, ?_, nofun⟩
    intro size hsize
    obtain ⟨-, rfl, hbuffer⟩ := eq_of_encode_eq_ok h hw hsize
    refine ⟨rfl, digits input, length_digits input, hbuffer, hspells,
      decode_eq_some_iff.2 hspells, ?_⟩
    intro other out' w' hlength hother hsize' htext
    obtain ⟨-, -, hbuffer'⟩ := eq_of_encode_eq_ok (by omega) hother hsize'
    rw [hbuffer', List.take_left' (by rw [length_digits, hlength])] at htext
    exact digits_inj htext
  · rw [if_neg hroom] at hw
    refine ⟨_, hw, ⟨nofun, fun hle => absurd hle hroom⟩, nofun, ?_⟩
    intro e he
    cases he
    exact ⟨rfl, rfl⟩

/-- The text of two bytes leaves the last of five cells as it was, and three cells are too few. -/
theorem twoBytes_encoded :
    (∃ w, encode [0xDE, 0xAD] (List.replicate 5 0xFF) = .ok w ∧ w.outcome = .ok 4 ∧
        w.buffer = Bytes.ofText "dead" ++ [0xFF]) ∧
      ∃ w, encode [0xDE, 0xAD] (List.replicate 3 0xFF) = .ok w ∧
        w.outcome = .error .outputTooSmall ∧ w.buffer = List.replicate 3 0xFF := by
  constructor
  · obtain ⟨w, hw, hiff, hok, -⟩ :=
      encode_exactly [0xDE, 0xAD] (List.replicate 5 0xFF) (by decide)
    obtain ⟨size, hsize⟩ := hiff.2 (by decide)
    obtain ⟨rfl, text, -, hbuffer, hspells, -⟩ := hok size hsize
    have htext : text = Bytes.ofText "dead" := (spells_iff.1 hspells).trans (by decide)
    subst htext
    exact ⟨w, hw, hsize, hbuffer⟩
  · obtain ⟨w, hw, hiff, -, herror⟩ :=
      encode_exactly [0xDE, 0xAD] (List.replicate 3 0xFF) (by decide)
    cases hout : w.outcome with
    | ok size => exact absurd (hiff.1 ⟨size, hout⟩) (by decide)
    | error e =>
        obtain ⟨rfl, hbuffer⟩ := herror e hout
        exact ⟨w, hw, hout, hbuffer⟩

end ClearSign.Hex
