import ClearSign.Decimal.Amount
import ClearSign.Proofs.Decimal.Digits
import ClearSign.Proofs.Decimal.FixedPoint
/-!
# The text of an amount

The loop over digits, the pointed text and the scratch buffer put together: an amount of at most
`maxNumberBytes` bytes has a text, namely `fixed` of its value, as long as its places leave room in
the buffer (`amountText_of_le`).  A longer one has none.
-/

namespace ClearSign.Decimal

/-- A number that can be shown has no more digits than `maxDigits`. -/
theorem length_text_value_le {num : Bytes} (h : num.length ≤ maxNumberBytes) :
    (text (Bytes.value num)).length ≤ maxDigits := by
  have hpow : 256 ^ num.length ≤ 256 ^ maxNumberBytes := Nat.pow_le_pow_right (by decide) h
  exact length_text_le_maxDigits (Nat.lt_of_lt_of_le (Bytes.value_lt num) hpow)

theorem length_fixed_le {num : Bytes} (h : num.length ≤ maxNumberBytes) (places : Nat) :
    (fixed (Bytes.value num) places).length ≤ max maxDigits (places + 1) + 1 := by
  have hlen := length_text_value_le h
  by_cases hp : places = 0
  · rw [fixed, if_pos hp]
    omega
  · have hfixed := length_fixed (n := Bytes.value num) hp
    unfold pointedSize at hfixed
    omega

/-- The scratch buffer decides, once the number is not too long. -/
theorem amountText_of_le {num : Bytes} {places : Nat} (hnum : num.length ≤ maxNumberBytes)
    (hplaces : places + 3 < 2 ^ 64) :
    amountText num places =
      if places = 0 ∨ pointedSize (Bytes.value num) places ≤ scratchLength then
        .ok (fixed (Bytes.value num) places)
      else .error (.status .unexpectedEnd) := by
  have hread : readNumber num = .ok (Bytes.value num) := if_neg (by omega)
  have hlen : (text (Bytes.value num)).length ≤ 78 := length_text_value_le hnum
  obtain ⟨room, hroom⟩ : ∃ room, scratchLength = (text (Bytes.value num)).length + (room + 1) :=
    ⟨scratchLength - (text (Bytes.value num)).length - 1, by
      change 81 = _ + (81 - _ - 1 + 1)
      omega⟩
  have hdigits : writeDigits (Bytes.value num) (List.replicate scratchLength 0) =
      .ok (.done (text (Bytes.value num) ++ 0 :: List.replicate room 0)
        (text (Bytes.value num)).length) := by
    rw [hroom, writeDigits_eq, if_pos (by simp), List.drop_replicate, Nat.add_sub_cancel_left]
    rfl
  have hlength : (text (Bytes.value num) ++ 0 :: List.replicate room 0).length = scratchLength := by
    rw [List.length_append, List.length_cons, List.length_replicate, hroom]
  have hplace : placePoint (text (Bytes.value num) ++ 0 :: List.replicate room 0) places =
      .ok (placed (text (Bytes.value num)) scratchLength places) := by
    rw [placePoint_digits (fun b hb => isDigit_of_mem_text hb) (by rw [hlength]; decide) hplaces,
      read_text, hlength]
  rw [amountText, hread]
  simp only [Stop.liftM_status_ok, Checked.ok_bind, hdigits, Stop.liftM_checked_ok, Written.done,
    hplace, outcome_placed, pointed_text]
  unfold pointedSize
  by_cases hfits : places = 0 ∨
      max (text (Bytes.value num)).length (places + 1) + 2 ≤ scratchLength
  · rw [if_pos hfits, if_pos hfits]
    rfl
  · rw [if_neg hfits, if_neg hfits]
    rfl

theorem amountText_eq {num : Bytes} {places : Nat} (hnum : num.length ≤ maxNumberBytes)
    (hplaces : places ≤ maxDigits) :
    amountText num places = .ok (fixed (Bytes.value num) places) := by
  have hlen : (text (Bytes.value num)).length ≤ 78 := length_text_value_le hnum
  have hplaces : places ≤ 78 := hplaces
  have hfits : pointedSize (Bytes.value num) places ≤ scratchLength := by
    change max _ _ + 2 ≤ 81
    omega
  rw [amountText_of_le hnum (by omega), if_pos (Or.inr hfits)]

/-- More places than the longest number has digits leave no room for the zero byte. -/
theorem amountText_of_many {num : Bytes} {places : Nat} (hnum : num.length ≤ maxNumberBytes)
    (hmany : maxDigits < places) (hplaces : places + 3 < 2 ^ 64) :
    amountText num places = .error (.status .unexpectedEnd) := by
  have hmany : 78 < places := hmany
  have hfull : ¬(places = 0 ∨ pointedSize (Bytes.value num) places ≤ scratchLength) := by
    change ¬(_ ∨ max _ _ + 2 ≤ 81)
    omega
  rw [amountText_of_le hnum hplaces, if_neg hfull]

theorem amountText_of_lt {num : Bytes} (places : Nat) (h : maxNumberBytes < num.length) :
    amountText num places = .error (.status .valueOutOfRange) := by
  have hread : readNumber num = .error .valueOutOfRange := if_pos h
  rw [amountText, hread]
  rfl

/-- Only the value of the bytes counts. -/
theorem amountText_congr {num num' : Bytes} (places : Nat) (h : num.length ≤ maxNumberBytes)
    (h' : num'.length ≤ maxNumberBytes) (hvalue : Bytes.value num = Bytes.value num') :
    amountText num places = amountText num' places := by
  have hread : readNumber num = readNumber num' := by
    rw [readNumber, readNumber, if_neg (by omega), if_neg (by omega), hvalue]
  rw [amountText, amountText, hread]

end ClearSign.Decimal
