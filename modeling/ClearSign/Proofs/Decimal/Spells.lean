import Mathlib.Data.List.Induction
import ClearSign.Proofs.Decimal.Text
/-!
# What a decimal text says

`Spells` says what the decimal text of a number with so many places is, without computing it: its
whole part without a zero too many in front, a point, and as many digits as there are places.  There
is one such text, `fixed` (`spells_iff`), and one for a whole number, `text` (`isWhole_iff`).
-/

namespace ClearSign.Decimal

/-- The digits of a whole number; a zero stands in front only if it is all there is. -/
structure IsWhole (ds : Bytes) (n : Nat) : Prop where
  digits : ∀ d ∈ ds, isDigit d = true
  ne_nil : ds ≠ []
  zero_alone : ds.head? = some (digit 0) → ds = [digit 0]
  read_eq : read ds = n

/-- So many digits, zeros in front included. -/
structure IsPlaces (ds : Bytes) (places n : Nat) : Prop where
  digits : ∀ d ∈ ds, isDigit d = true
  length_eq : ds.length = places
  read_eq : read ds = n

/-- The text is that of `n` divided by ten to the power `places`, to the last digit. -/
def Spells (shown : Bytes) (n places : Nat) : Prop :=
  ∃ whole last, IsWhole whole (n / 10 ^ places) ∧ IsPlaces last places (n % 10 ^ places) ∧
    shown = whole ++ if places = 0 then [] else point :: last

variable {ds : Bytes} {n places : Nat}

theorem text_zero_alone (h : (text n).head? = some (digit 0)) : text n = [digit 0] := by
  induction n using Nat.strongRecOn with
  | ind n ih =>
    by_cases hn : n < 10
    · rw [text_of_lt hn] at h ⊢
      rw [Option.some.inj h]
    · -- a longer number starts with the first digit of its tens, which are not zero
      have hhead : (text n).head? = (text (n / 10)).head? := by
        obtain ⟨d, more, hd⟩ :=
          List.exists_cons_of_ne_nil (List.length_pos_iff.1 (length_text_pos (n / 10)))
        rw [text_of_ge (by omega), hd]
        rfl
      have hzero := ih (n / 10) (by omega) (hhead ▸ h)
      have hread := read_text (n / 10)
      rw [hzero] at hread
      have hten : n / 10 = 0 := hread.symm
      omega

theorem isWhole_iff : IsWhole ds n ↔ ds = text n := by
  constructor
  · rintro ⟨hdigits, hne, hzero, rfl⟩
    obtain ⟨d, more, rfl⟩ := List.exists_cons_of_ne_nil hne
    by_cases hd : d = digit 0
    · rw [hzero (by rw [hd]; rfl)]
      exact (text_of_lt (n := 0) (by decide)).symm
    · exact (text_read hdigits hd).symm
  · rintro rfl
    exact ⟨fun d hd => isDigit_of_mem_text hd, List.length_pos_iff.1 (length_text_pos n),
      text_zero_alone, read_text n⟩

theorem textWidth_read (h : ∀ d ∈ ds, isDigit d = true) : textWidth ds.length (read ds) = ds := by
  -- from the last digit, as `textWidth` makes them
  induction ds using List.reverseRecOn with
  | nil => rfl
  | append_singleton ds d ih =>
    have hd : isDigit d = true := h d (by simp)
    have hb : 48 ≤ d.toNat ∧ d.toNat ≤ 57 := by simpa [isDigit] using hd
    have hread : read (ds ++ [d]) = 10 * read ds + (d.toNat - 48) :=
      calc read (ds ++ [d]) = read (ds ++ [digit (d.toNat - 48)]) := by rw [digit_toNat hd]
        _ = 10 * read ds + (d.toNat - 48) := read_append_digit ds (by omega)
    have hfront : (10 * read ds + (d.toNat - 48)) / 10 = read ds := by omega
    have hlast : (10 * read ds + (d.toNat - 48)) % 10 = d.toNat - 48 := by omega
    rw [List.length_append, List.length_singleton, textWidth, hread, hfront, hlast,
      ih fun b hb => h b (List.mem_append_left _ hb), digit_toNat hd]

theorem isPlaces_iff (hn : n < 10 ^ places) : IsPlaces ds places n ↔ ds = textWidth places n := by
  constructor
  · rintro ⟨hdigits, rfl, rfl⟩
    exact (textWidth_read hdigits).symm
  · rintro rfl
    have hread := read_append_textWidth [] hn
    rw [List.nil_append] at hread
    exact ⟨fun d hd => isDigit_of_mem_textWidth hd, length_textWidth places n,
      hread.trans (by simp [read])⟩

/-- There is one text for a number and its places. -/
theorem spells_iff {shown : Bytes} : Spells shown n places ↔ shown = fixed n places := by
  have hmod : n % 10 ^ places < 10 ^ places := Nat.mod_lt _ (Nat.pow_pos (by decide))
  have hparts : Spells shown n places ↔ shown = text (n / 10 ^ places) ++
      if places = 0 then [] else point :: textWidth places (n % 10 ^ places) := by
    unfold Spells
    simp only [isWhole_iff, isPlaces_iff hmod]
    constructor
    · rintro ⟨_, _, rfl, rfl, h⟩
      exact h
    · intro h
      exact ⟨_, _, rfl, rfl, h⟩
  rw [hparts, fixed]
  by_cases hp : places = 0
  · subst hp
    simp
  · rw [if_neg hp, if_neg hp]

end ClearSign.Decimal
