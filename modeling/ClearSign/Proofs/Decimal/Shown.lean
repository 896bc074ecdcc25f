import ClearSign.Proofs.Decimal.Amount
import ClearSign.Proofs.Decimal.Spells
import ClearSign.Proofs.Page
/-!
# Amounts on the screen

The pages of an amount make up the one text that spells its value with so many places, to the last
digit: `pages_of_amount`.
-/

namespace ClearSign.Decimal

variable {num message : Bytes} {places : Nat} {pieces : List Bytes}

/-- The scratch buffer has room for the text and for the zero byte after it. -/
theorem length_fixed_lt (hnum : num.length ≤ maxNumberBytes) (hplaces : places ≤ maxDigits) :
    (fixed (Bytes.value num) places).length < scratchLength := by
  have hlen : _ ≤ max 78 (places + 1) + 1 := length_fixed_le hnum places
  have hplaces : places ≤ 78 := hplaces
  change _ < 81
  omega

theorem exists_pages (hnum : num.length ≤ maxNumberBytes) (hplaces : places ≤ maxDigits)
    (hmessage : 2 ≤ message.length) :
    ∃ pieces, Page.Pages (amountText num places) message pieces ∧
      pieces.flatten = fixed (Bytes.value num) places := by
  have hlen : (fixed (Bytes.value num) places).length < 81 := length_fixed_lt hnum hplaces
  rw [amountText_eq hnum hplaces]
  refine ⟨_, Page.pages_text hmessage ?_ (zero_notMem_fixed _ _), ?_⟩
  · change _ ≤ 255
    omega
  · exact Page.flatMap_chunk_count _ (by omega)

theorem flatten_pages (hnum : num.length ≤ maxNumberBytes) (hplaces : places ≤ maxDigits)
    (hmessage : 2 ≤ message.length) (h : Page.Pages (amountText num places) message pieces) :
    pieces.flatten = fixed (Bytes.value num) places := by
  obtain ⟨pieces', h', hflatten⟩ := exists_pages hnum hplaces hmessage
  rw [h.unique h', hflatten]

/-- The pages of an amount make up its exact decimal text, from which the number is read back; so
only the value of the bytes counts.  What is too long for this, as a number or with its places, is
refused, and the buffer stays as it is. -/
theorem pages_of_amount :
    (∀ num places message, num.length ≤ 32 → places ≤ 78 → 2 ≤ message.length →
        ∃ pieces, Page.Pages (amountText num places) message pieces ∧
          Spells pieces.flatten (Bytes.value num) places ∧
          read pieces.flatten = Bytes.value num ∧ pieces.flatten.length < scratchLength) ∧
      (∀ num num' places message message' pieces pieces', num.length ≤ 32 → num'.length ≤ 32 →
        places ≤ 78 → 2 ≤ message.length → 2 ≤ message'.length →
        Page.Pages (amountText num places) message pieces →
        Page.Pages (amountText num' places) message' pieces' →
          (pieces.flatten = pieces'.flatten ↔ Bytes.value num = Bytes.value num')) ∧
      (∀ zeros num places message page, zeros + num.length ≤ 32 →
        Page.writeText (amountText (List.replicate zeros 0 ++ num) places) message page =
          Page.writeText (amountText num places) message page) ∧
      (∀ num places message page, 32 < num.length →
        Page.writeText (amountText num places) message page =
          .ok (.failed message .valueOutOfRange)) ∧
      ∀ num places message page, num.length ≤ 32 → 79 ≤ places → places + 3 < 2 ^ 64 →
        Page.writeText (amountText num places) message page =
          .ok (.failed message .unexpectedEnd) := by
  refine ⟨?_, ?_, ?_, ?_, ?_⟩
  · intro num places message hnum hplaces hmessage
    obtain ⟨pieces, hpages, hflatten⟩ := exists_pages hnum hplaces hmessage
    refine ⟨pieces, hpages, ?_, ?_, ?_⟩
    · exact spells_iff.2 hflatten
    · rw [hflatten, read_fixed]
    · rw [hflatten]
      exact length_fixed_lt hnum hplaces
  · intro num num' places message message' pieces pieces' hnum hnum' hplaces hmessage hmessage'
      hpages hpages'
    rw [flatten_pages hnum hplaces hmessage hpages, flatten_pages hnum' hplaces hmessage' hpages']
    constructor
    · exact fixed_inj
    · intro hvalue
      rw [hvalue]
  · intro zeros num places message page hlen
    have hvalue : Bytes.value (List.replicate zeros 0 ++ num) = Bytes.value num := by
      rw [Bytes.value_append, Bytes.value_replicate_zero, Nat.zero_mul, Nat.zero_add]
    have hnum : (List.replicate zeros 0 ++ num).length ≤ 32 := by
      rw [List.length_append, List.length_replicate]
      exact hlen
    rw [amountText_congr places hnum (show num.length ≤ 32 by omega) hvalue]
  · intro num places message page hnum
    rw [amountText_of_lt places hnum]
    rfl
  · intro num places message page hnum hmany hplaces
    rw [amountText_of_many hnum hmany hplaces]
    rfl

/-- One unit of a currency with 18 places fills four pages of five bytes, over what stood there
before.  With 79 places it is refused, and so is a number of 33 bytes. -/
theorem oneUnit_pages :
    (∃ pieces, Page.Pages (amountText [1] 18) (List.replicate 6 0xFF) pieces ∧
        pieces.flatten = Bytes.ofText "0.000000000000000001" ∧ read pieces.flatten = 1) ∧
      Page.writeText (amountText [0, 0, 1] 18) (List.replicate 6 0xFF) 7 =
        Page.writeText (amountText [1] 18) (List.replicate 6 0xFF) 7 ∧
      Page.writeText (amountText (List.replicate 33 0) 0) [0xFF, 0xFF] 0 =
        .ok (.failed [0xFF, 0xFF] .valueOutOfRange) ∧
      Page.writeText (amountText [1] 79) [0xFF, 0xFF] 0 =
        .ok (.failed [0xFF, 0xFF] .unexpectedEnd) := by
  obtain ⟨hshown, -, hzeros, hwide, hmany⟩ := pages_of_amount
  obtain ⟨pieces, hpages, hspells, hread, -⟩ :=
    hshown [1] 18 (List.replicate 6 0xFF) (by decide) (by decide) (by decide)
  have htext : fixed 1 18 = Bytes.ofText "0.000000000000000001" := by
    rw [fixed, if_neg (by decide), text_of_lt (by decide)]
    decide
  refine ⟨⟨pieces, hpages, ?_, hread⟩, ?_, ?_, ?_⟩
  · rw [← htext]
    exact spells_iff.1 hspells
  · exact hzeros 2 [1] 18 _ 7 (by decide)
  · exact hwide _ 0 _ 0 (by decide)
  · exact hmany [1] 79 _ 0 (by decide) (by decide) (by decide)

end ClearSign.Decimal
