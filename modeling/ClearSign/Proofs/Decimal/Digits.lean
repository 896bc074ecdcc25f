import ClearSign.Decimal.Digits
import ClearSign.Proofs.Decimal.Spells
/-!
# The loop over digits

Each round of the loop takes the last digit off a number and puts it into the next cell, until no
digit is left or no cell (`digitLoop_last`, `digitLoop_more`).  So the cells hold the digits of the
text from its end, as far as there is room, and the count of rounds tells which of the two came
first: `digitLoop_eq`.  Turned round, a complete row of digits is the text of the number.
-/

namespace ClearSign.Decimal

variable {n : Nat}

/-! ## One round -/

theorem digitLoop_last (h : n < 10) (cell : UInt8) (cells : Bytes) :
    digitLoop n (cell :: cells) =
      .ok { digits := [digit n], free := cells, complete := true, rounds := 1 } := by
  have hadd : Checked.add 8 48 (n % 10) = .ok (48 + n % 10) := Checked.add_eq_ok (by omega)
  rw [digitLoop, hadd]
  simp only [Checked.ok_bind, if_pos (Nat.div_eq_of_lt h), Nat.mod_eq_of_lt h]
  rfl

theorem digitLoop_more {cells : Bytes} {loop : DigitLoop} (h : 10 ≤ n)
    (hloop : digitLoop (n / 10) cells = .ok loop) (cell : UInt8) :
    digitLoop n (cell :: cells) =
      .ok { loop with digits := digit (n % 10) :: loop.digits, rounds := loop.rounds + 1 } := by
  have hadd : Checked.add 8 48 (n % 10) = .ok (48 + n % 10) := Checked.add_eq_ok (by omega)
  have hdiv : n / 10 ≠ 0 := by omega
  rw [digitLoop, hadd]
  simp only [Checked.ok_bind, if_neg hdiv, hloop]
  rfl

/-! ## All rounds -/

/-- The digits come out from the last one on, and the round that finds no cell for its digit counts
as well. -/
theorem digitLoop_eq (n : Nat) (cells : Bytes) :
    digitLoop n cells =
      .ok { digits := (text n).reverse.take cells.length, free := cells.drop (text n).length,
            complete := decide ((text n).length ≤ cells.length),
            rounds := min (text n).length (cells.length + 1) } := by
  induction cells generalizing n with
  | nil =>
      have hpos := length_text_pos n
      have hfull : decide ((text n).length ≤ ([] : Bytes).length) = false :=
        decide_eq_false (by rw [List.length_nil]; omega)
      have hrounds : min (text n).length (([] : Bytes).length + 1) = 1 := by
        rw [List.length_nil]
        omega
      rw [hfull, hrounds, List.length_nil, List.take_zero, List.drop_nil]
      rfl
  | cons cell cells ih =>
      by_cases hn : n < 10
      · rw [digitLoop_last hn, text_of_lt hn]
        simp
      · have htext := text_of_ge (n := n) (by omega)
        have hlen : (text n).length = (text (n / 10)).length + 1 := by
          rw [htext, List.length_append, List.length_singleton]
        have hreverse : (text n).reverse = digit (n % 10) :: (text (n / 10)).reverse := by
          rw [htext, List.reverse_append]
          rfl
        rw [digitLoop_more (by omega) (ih (n / 10)), hlen, hreverse, List.length_cons,
          List.drop_succ_cons, List.take_succ_cons]
        simp

/-- The digits are put in order at the front of the buffer, and the cells after them stay; but where
a cell is missing, those that there was room for stay as they came out. -/
theorem writeDigits_eq (n : Nat) (out : Bytes) :
    writeDigits n out =
      .ok (if (text n).length ≤ out.length then
        .done (text n ++ out.drop (text n).length) (text n).length
      else .failed ((text n).reverse.take out.length) .unexpectedEnd) := by
  rw [writeDigits, digitLoop_eq]
  simp only [Checked.ok_bind, decide_eq_true_eq]
  by_cases h : (text n).length ≤ out.length
  · have hwhole : (text n).reverse.take out.length = (text n).reverse :=
      List.take_of_length_le (by rw [List.length_reverse]; exact h)
    rw [if_pos h, if_pos h, hwhole, List.reverse_reverse, List.length_reverse]
    rfl
  · have hnone : out.drop (text n).length = [] := List.drop_eq_nil_of_le (by omega)
    rw [if_neg h, if_neg h, hnone, List.append_nil]
    rfl

/-- A number of no more than 32 bytes has no more than 78 digits. -/
theorem length_text_le_maxDigits (h : n < 256 ^ maxNumberBytes) : (text n).length ≤ maxDigits := by
  have hmax : 256 ^ maxNumberBytes < 10 ^ maxDigits := by decide
  exact (length_text_le_iff (by decide)).2 (Nat.lt_trans h hmax)

/-- The loop ends with the last digit of the number, or in the round after the last cell.  Its digits
are then the text of the number in front of the cells that were not needed, or the end of that text
backwards. -/
theorem digits_of_number (hn : n < 2 ^ 256) (out : Bytes) :
    ∃ ds loop, IsWhole ds n ∧ ds.length ≤ 78 ∧
      digitLoop n out = .ok loop ∧ loop.rounds = min ds.length (out.length + 1) ∧
      (ds.length ≤ out.length →
        writeDigits n out = .ok (.done (ds ++ out.drop ds.length) ds.length)) ∧
      (out.length < ds.length →
        writeDigits n out = .ok (.failed (ds.reverse.take out.length) .unexpectedEnd)) := by
  have hwidth : n < 256 ^ maxNumberBytes := by
    have hpow : 2 ^ 256 = 256 ^ maxNumberBytes := by decide
    omega
  refine ⟨text n, _, isWhole_iff.2 rfl, length_text_le_maxDigits hwidth, digitLoop_eq n out, rfl,
    ?_, ?_⟩
  · intro hroom
    rw [writeDigits_eq, if_pos hroom]
  · intro hfull
    rw [writeDigits_eq, if_neg (by omega)]

/-- Three digits in four cells, and in two. -/
theorem hundred_written :
    (∃ loop, digitLoop 100 [0xFF, 0xFF] = .ok loop ∧ loop.rounds = 3) ∧
      writeDigits 100 [0xFF, 0xFF] = .ok (.failed [0x30, 0x30] .unexpectedEnd) ∧
      writeDigits 100 [0xFF, 0xFF, 0xFF, 0xFF] = .ok (.done [0x31, 0x30, 0x30, 0xFF] 3) := by
  have htext : text 100 = [0x31, 0x30, 0x30] := by
    rw [text_of_ge (by decide), text_of_ge (by decide), text_of_lt (by decide)]
    decide
  obtain ⟨ds, loop, hds, -, hloop, hrounds, -, hshort⟩ :=
    digits_of_number (n := 100) (by decide) [0xFF, 0xFF]
  obtain ⟨ds', -, hds', -, -, -, hlong, -⟩ :=
    digits_of_number (n := 100) (by decide) [0xFF, 0xFF, 0xFF, 0xFF]
  rw [isWhole_iff, htext] at hds hds'
  subst hds hds'
  exact ⟨⟨loop, hloop, hrounds⟩, hshort (by decide), hlong (by decide)⟩

end ClearSign.Decimal
