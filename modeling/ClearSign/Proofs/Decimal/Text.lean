import Mathlib.Algebra.Group.Nat.Defs
import ClearSign.Decimal.Text
/-!
# Facts about decimal text

* `length_text_le_iff`: how many digits a number has.
* `text_read`: a run of digits without a leading zero is the text of the number it spells.
* `read_fixed`: a text with a point reads back.
* `padded_eq`: a text with zeros in front falls into its whole part and its places.
-/

namespace ClearSign.Decimal

/-! ## Digits -/

theorem digit_toNat {b : UInt8} (h : isDigit b = true) : digit (b.toNat - 48) = b := by
  have hb : 48 ≤ b.toNat ∧ b.toNat ≤ 57 := by simpa [isDigit] using h
  apply UInt8.toNat_inj.1
  rw [toNat_digit (by omega)]
  omega

theorem ne_zero_of_isDigit {b : UInt8} (h : isDigit b = true) : b ≠ 0 := by
  rintro rfl
  cases h

/-! ## The digits of a number -/

theorem length_text_pos (n : Nat) : 0 < (text n).length := by
  by_cases h : n < 10
  · rw [text_of_lt h]
    exact Nat.one_pos
  · rw [text_of_ge (by omega), List.length_append]
    exact Nat.succ_pos _

theorem length_text_le_iff {n k : Nat} (hk : 0 < k) : (text n).length ≤ k ↔ n < 10 ^ k := by
  induction k generalizing n with
  | zero => omega
  | succ k ih =>
      by_cases hn : n < 10
      · have hpow : 10 ^ 1 ≤ 10 ^ (k + 1) := Nat.pow_le_pow_right (by decide) (by omega)
        rw [text_of_lt hn]
        simp only [List.length_singleton]
        omega
      · rw [text_of_ge (by omega), List.length_append, List.length_singleton, Nat.pow_succ]
        by_cases hk : k = 0
        · subst hk
          have hpos := length_text_pos (n / 10)
          omega
        · have hdiv := ih (n := n / 10) (by omega)
          rw [Nat.div_lt_iff_lt_mul (by decide)] at hdiv
          omega

theorem isDigit_of_mem_text {b : UInt8} {n : Nat} (h : b ∈ text n) : isDigit b = true := by
  induction n using Nat.strongRecOn with
  | ind n ih =>
      by_cases hn : n < 10
      · rw [text_of_lt hn, List.mem_singleton] at h
        rw [h]
        exact isDigit_digit hn
      · rw [text_of_ge (by omega), List.mem_append, List.mem_singleton] at h
        rcases h with h | h
        · exact ih (n / 10) (by omega) h
        · rw [h]
          exact isDigit_digit (Nat.mod_lt _ (by decide))

theorem isDigit_of_mem_textWidth {b : UInt8} {places n : Nat} (h : b ∈ textWidth places n) :
    isDigit b = true := by
  induction places generalizing n with
  | zero => cases h
  | succ places ih =>
      rw [textWidth, List.mem_append, List.mem_singleton] at h
      rcases h with h | h
      · exact ih h
      · rw [h]
        exact isDigit_digit (Nat.mod_lt _ (by decide))

theorem zero_notMem_text (n : Nat) : (0 : UInt8) ∉ text n := fun h =>
  ne_zero_of_isDigit (isDigit_of_mem_text h) rfl

theorem zero_notMem_fixed (n places : Nat) : (0 : UInt8) ∉ fixed n places := by
  intro h
  unfold fixed at h
  split at h
  · exact zero_notMem_text n h
  · rw [List.mem_append, List.mem_cons] at h
    rcases h with h | h | h
    · exact zero_notMem_text _ h
    · cases h
    · exact ne_zero_of_isDigit (isDigit_of_mem_textWidth h) rfl

/-! ## Reading -/

theorem read_append_point (bs : Bytes) : read (bs ++ [point]) = read bs := by
  simp [read]

theorem read_append_textWidth (bs : Bytes) {places n : Nat} (h : n < 10 ^ places) :
    read (bs ++ textWidth places n) = read bs * 10 ^ places + n := by
  induction places generalizing n with
  | zero =>
      have hn : n = 0 := by omega
      simp [textWidth, hn]
  | succ places ih =>
      have hdiv : n / 10 < 10 ^ places := by
        rw [Nat.div_lt_iff_lt_mul (by decide)]
        exact h
      have hread : read (bs ++ textWidth places (n / 10)) = read bs * 10 ^ places + n / 10 :=
        ih hdiv
      rw [textWidth, ← List.append_assoc, read_append_digit _ (Nat.mod_lt _ (by decide)), hread,
        Nat.pow_succ]
      have hmul : read bs * (10 ^ places * 10) = read bs * 10 ^ places * 10 := by
        rw [Nat.mul_assoc]
      omega

/-- A text with a point reads back. -/
theorem read_fixed (n places : Nat) : read (fixed n places) = n := by
  unfold fixed
  split
  · exact read_text n
  · have hsplit : text (n / 10 ^ places) ++ point :: textWidth places (n % 10 ^ places) =
        (text (n / 10 ^ places) ++ [point]) ++ textWidth places (n % 10 ^ places) := by simp
    have hmod : n % 10 ^ places < 10 ^ places := Nat.mod_lt _ (Nat.pow_pos (by decide))
    rw [hsplit, read_append_textWidth _ hmod, read_append_point, read_text, Nat.mul_comm]
    exact Nat.div_add_mod n (10 ^ places)

theorem fixed_inj {m n places : Nat} (h : fixed m places = fixed n places) : m = n := by
  rw [← read_fixed m places, h, read_fixed]

/-- Zeros in front do not count. -/
theorem read_replicate_append (k : Nat) (bs : Bytes) :
    read (List.replicate k (digit 0) ++ bs) = read bs := by
  induction k with
  | zero => rfl
  | succ k ih =>
      rw [List.replicate_succ, List.cons_append, ← ih]
      simp [read, digit, point]

/-- Digits after a text make it the text of a larger number. -/
theorem text_read_append {n : Nat} (hn : 0 < n) {ds : Bytes} (hd : ∀ b ∈ ds, isDigit b = true) :
    text (read (text n ++ ds)) = text n ++ ds := by
  induction ds generalizing n with
  | nil => rw [List.append_nil, read_text]
  | cons d ds ih =>
      have hb : 48 ≤ d.toNat ∧ d.toNat ≤ 57 := by simpa [isDigit] using hd d (by simp)
      have htext : text (10 * n + (d.toNat - 48)) = text n ++ [d] := by
        have hdiv : (10 * n + (d.toNat - 48)) / 10 = n := by omega
        have hmod : (10 * n + (d.toNat - 48)) % 10 = d.toNat - 48 := by omega
        rw [text_of_ge (by omega), hdiv, hmod, digit_toNat (hd d (by simp))]
      have hassoc : text n ++ d :: ds = text (10 * n + (d.toNat - 48)) ++ ds := by
        rw [htext, List.append_assoc]
        rfl
      rw [hassoc]
      exact ih (by omega) fun b hb => hd b (List.mem_cons_of_mem _ hb)

theorem text_read {d : UInt8} {ds : Bytes} (hd : ∀ b ∈ d :: ds, isDigit b = true)
    (hne : d ≠ digit 0) : text (read (d :: ds)) = d :: ds := by
  have hdigit : isDigit d = true := hd d (by simp)
  have hb : 48 ≤ d.toNat ∧ d.toNat ≤ 57 := by simpa [isDigit] using hdigit
  have hpos : 0 < d.toNat - 48 := by
    refine Nat.pos_of_ne_zero fun h => hne ?_
    rw [← digit_toNat hdigit, h]
  have htext : text (d.toNat - 48) = [d] := by rw [text_of_lt (by omega), digit_toNat hdigit]
  have happend : d :: ds = text (d.toNat - 48) ++ ds := by
    rw [htext]
    rfl
  rw [happend]
  exact text_read_append hpos fun b hb => hd b (List.mem_cons_of_mem _ hb)

/-! ## Padding -/

theorem textWidth_zero (places : Nat) :
    textWidth places 0 = List.replicate places (digit 0) := by
  induction places with
  | zero => rfl
  | succ places ih => rw [textWidth, ih, List.replicate_succ']

/-- A number with room to spare has zeros in front. -/
theorem textWidth_eq {places n : Nat} (h : (text n).length ≤ places) :
    textWidth places n = List.replicate (places - (text n).length) (digit 0) ++ text n := by
  induction places generalizing n with
  | zero =>
      have := length_text_pos n
      omega
  | succ places ih =>
      by_cases hn : n < 10
      · rw [textWidth, Nat.div_eq_of_lt hn, textWidth_zero, text_of_lt hn, Nat.mod_eq_of_lt hn]
        rfl
      · have htext := text_of_ge (n := n) (by omega)
        have hlen : (text n).length = (text (n / 10)).length + 1 := by
          rw [htext, List.length_append, List.length_singleton]
        have hdiv := ih (n := n / 10) (by omega)
        have hsub : places + 1 - (text n).length = places - (text (n / 10)).length := by omega
        rw [hsub, htext, ← List.append_assoc, ← hdiv]
        rfl

/-- The last places of a number that has a whole part as well. -/
theorem text_eq_append {places n : Nat} (h : 10 ^ places ≤ n) :
    text n = text (n / 10 ^ places) ++ textWidth places (n % 10 ^ places) := by
  induction places generalizing n with
  | zero => simp [textWidth]
  | succ places ih =>
      have hpow : 10 ^ (places + 1) = 10 ^ places * 10 := Nat.pow_succ ..
      have hpos : 0 < 10 ^ places := Nat.pow_pos (by decide)
      have hle : 10 ^ places ≤ n / 10 := by
        rw [Nat.le_div_iff_mul_le (by decide), ← hpow]
        exact h
      have hwhole : n / 10 / 10 ^ places = n / 10 ^ (places + 1) := by
        rw [Nat.div_div_eq_div_mul, hpow, Nat.mul_comm]
      have hlast : n % 10 ^ (places + 1) % 10 = n % 10 :=
        Nat.mod_mod_of_dvd n ⟨10 ^ places, by rw [hpow, Nat.mul_comm]⟩
      have hrest : n % 10 ^ (places + 1) / 10 = n / 10 % 10 ^ places := by
        rw [hpow, Nat.mul_comm, Nat.mod_mul_right_div_self]
      calc text n = text (n / 10) ++ [digit (n % 10)] := text_of_ge (by omega)
        _ = text (n / 10 / 10 ^ places) ++ textWidth places (n / 10 % 10 ^ places) ++
              [digit (n % 10)] := by rw [ih hle]
        _ = text (n / 10 ^ (places + 1)) ++ textWidth (places + 1) (n % 10 ^ (places + 1)) := by
              rw [hwhole, textWidth, hlast, hrest, List.append_assoc]

/-- With as many zeros in front as the places need, the text falls into its whole part and its
places. -/
theorem padded_eq (n places : Nat) :
    List.replicate (places + 1 - (text n).length) (digit 0) ++ text n =
      text (n / 10 ^ places) ++ textWidth places (n % 10 ^ places) := by
  by_cases h : 10 ^ places ≤ n
  · have hlen : ¬(text n).length ≤ places := by
      by_cases hp : places = 0
      · have := length_text_pos n
        omega
      · rw [length_text_le_iff (by omega)]
        omega
    have hsub : places + 1 - (text n).length = 0 := by omega
    rw [hsub, List.replicate_zero, List.nil_append]
    exact text_eq_append h
  · have hlt : n < 10 ^ places := by omega
    by_cases hp : places = 0
    · subst hp
      have hn : n = 0 := by omega
      subst hn
      have htext : text 0 = [digit 0] := text_of_lt (by decide)
      simp [textWidth, htext]
    · have hle : (text n).length ≤ places := (length_text_le_iff (by omega)).2 hlt
      have hsub : places + 1 - (text n).length = places - (text n).length + 1 := by omega
      rw [Nat.div_eq_of_lt hlt, Nat.mod_eq_of_lt hlt, textWidth_eq hle, hsub,
        List.replicate_succ, text_of_lt (n := 0) (by decide)]
      rfl

end ClearSign.Decimal
