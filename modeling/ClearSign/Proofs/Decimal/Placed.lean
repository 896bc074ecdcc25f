import Mathlib.Data.List.TakeWhile
import ClearSign.Proofs.Decimal.FixedPoint
import ClearSign.Proofs.Decimal.Spells
/-!
# What a buffer comes to hold

`placePoint` from the outside, by what stands in the buffer before it and after it.

* `run_spelt_in_place`: a run of digits becomes the text that spells its number or, where there is no
  room for a point, the whole number.  Nothing else is left in the buffer.
* `first_stray_refused`: a byte that is no digit is found out if it is the first one after the leading
  zeros.  A later one is taken for a digit (`stray_letter_kept`).

The buffer is taken to lie in memory, of which no slice takes up more than half, so that lengths can
be added.
-/

namespace ClearSign

/-! ## A buffer and its first zero byte -/

namespace Bytes

variable {s : Bytes}

theorem untilZero_of_notMem (h : 0 ∉ s) : untilZero s = s := by
  rw [untilZero, List.takeWhile_eq_self_iff]
  intro b hb
  rw [bne_iff_ne]
  rintro rfl
  exact h hb

theorem zero_notMem_untilZero (s : Bytes) : 0 ∉ untilZero s := by
  intro h
  have hne := List.mem_takeWhile_imp h
  cases hne

theorem exists_eq_untilZero_append (h : 0 ∈ s) : ∃ rest, s = untilZero s ++ 0 :: rest := by
  induction s with
  | nil => cases h
  | cons b s ih =>
      by_cases hb : b = 0
      · subst hb
        exact ⟨s, rfl⟩
      · have hmem : 0 ∈ s := (List.mem_cons.1 h).resolve_left fun h => hb h.symm
        obtain ⟨rest, hrest⟩ := ih hmem
        have hcons : untilZero (b :: s) = b :: untilZero s :=
          List.takeWhile_cons_of_pos (by simpa using hb)
        exact ⟨rest, by rw [hcons, List.cons_append, ← hrest]⟩

end Bytes

namespace Decimal

variable {ds run s : Bytes} {places size : Nat}

/-! ## The buffer as a whole -/

theorem length_withoutZeros_le (run : Bytes) : (withoutZeros run).length ≤ run.length + 1 := by
  induction run with
  | nil => exact Nat.le_refl _
  | cons d run ih =>
      rw [withoutZeros, List.length_cons]
      split
      · omega
      · rw [List.length_cons]
        omega

theorem length_pointed_le (hlen : ds.length ≤ size)
    (hfits : places = 0 ∨ max ds.length (places + 1) + 2 ≤ size) :
    (pointed ds places).length ≤ size := by
  by_cases hp : places = 0
  · rw [hp, pointed_zero]
    exact hlen
  · have hroom := hfits.resolve_left hp
    rw [length_pointed hp]
    omega

theorem length_buffer_placed (hlen : ds.length ≤ size) :
    (placed ds size places).buffer.length = size := by
  have hfill : ∀ {bs : Bytes}, bs.length ≤ size → (bs.rightpad size (0 : UInt8)).length = size := by
    intro bs h
    rw [List.length_rightpad, Nat.max_eq_left h]
  unfold placed
  split
  · rename_i hfits
    exact hfill (length_pointed_le hlen hfits)
  · exact hfill hlen

/-- A run of digits, with leading zeros or without a digit at all, becomes the text of its number
with so many places, as soon as there are cells for it and a zero byte.  Without places a cell that
ends the text is not asked for.  Where cells are missing, the digits of the number are left. -/
theorem run_spelt_in_place :
    (∀ (run rest : Bytes) (places : Nat), (∀ b ∈ run, isDigit b = true) →
        (run ++ 0 :: rest).length < 2 ^ 63 → places + 3 < 2 ^ 64 →
          ∃ ds shown w, IsWhole ds (read run) ∧ Spells shown (read run) places ∧
            placePoint (run ++ 0 :: rest) places = .ok w ∧
            w.buffer.length = (run ++ 0 :: rest).length ∧
            if places = 0 ∨ max ds.length (places + 1) + 2 ≤ (run ++ 0 :: rest).length then
              w.outcome = .ok shown ∧ ∃ zeros, w.buffer = shown ++ List.replicate zeros 0
            else
              w.outcome = .error .bufferTooShort ∧
                ∃ zeros, w.buffer = ds ++ List.replicate zeros 0) ∧
      (∀ places, placePoint [] places = .ok (.failed [] .bufferTooShort)) ∧
      ∀ (s : Bytes) (places : Nat), s ≠ [] → 0 ∉ s →
        placePoint s places = .ok (.failed s .bufferFull) := by
  refine ⟨?_, fun places => rfl, ?_⟩
  · intro run rest places hd hsize hplaces
    have hlen : (text (read run)).length ≤ (run ++ 0 :: rest).length := by
      have hwithout := length_withoutZeros_le run
      rw [withoutZeros_eq_text hd] at hwithout
      rw [List.length_append, List.length_cons]
      omega
    refine ⟨_, _, _, isWhole_iff.2 rfl, spells_iff.2 rfl, placePoint_digits hd hsize hplaces,
      length_buffer_placed hlen, ?_⟩
    unfold placed
    rw [pointed_text]
    split
    · exact ⟨rfl, _, rfl⟩
    · exact ⟨rfl, _, rfl⟩
  · intro s places hne hz
    have hempty : s.isEmpty = false := by simpa using hne
    rw [placePoint, hempty, Bytes.untilZero_of_notMem hz]
    simp only [Bool.false_eq_true, if_false, if_true]
    rfl

/-- A thousandth, in a buffer that it fills and in one that is a cell too short. -/
theorem thousandth_spelt_in_place :
    (∃ w, placePoint [0x30, 0x31, 0, 0xFF, 0xFF, 0xFF] 3 = .ok w ∧
        w.outcome = .ok (Bytes.ofText "0.001") ∧
        ∃ zeros, w.buffer = Bytes.ofText "0.001" ++ List.replicate zeros 0) ∧
      (∃ w, placePoint [0x30, 0x31, 0, 0xFF, 0xFF] 3 = .ok w ∧
        w.outcome = .error .bufferTooShort ∧ ∃ zeros, w.buffer = 0x31 :: List.replicate zeros 0) ∧
      placePoint [0x30, 0x31] 3 = .ok (.failed [0x30, 0x31] .bufferFull) := by
  obtain ⟨hrun, -, hfull⟩ := run_spelt_in_place
  have hdigits : ∀ b ∈ ([0x30, 0x31] : Bytes), isDigit b = true := by simp [isDigit]
  have htext : text (read [0x30, 0x31]) = [0x31] := text_of_lt (by decide)
  have hfixed : fixed (read [0x30, 0x31]) 3 = Bytes.ofText "0.001" := by
    rw [fixed, if_neg (by decide), text_of_lt (by decide)]
    decide
  refine ⟨?_, ?_, hfull _ 3 (by decide) (by decide)⟩
  · obtain ⟨ds, shown, w, hds, hshown, hw, -, hfits⟩ :=
      hrun [0x30, 0x31] [0xFF, 0xFF, 0xFF] 3 hdigits (by decide) (by decide)
    rw [isWhole_iff, htext] at hds
    rw [spells_iff, hfixed] at hshown
    subst hds hshown
    rw [if_pos (by simp)] at hfits
    exact ⟨w, hw, hfits⟩
  · obtain ⟨ds, shown, w, hds, -, hw, -, hfits⟩ :=
      hrun [0x30, 0x31] [0xFF, 0xFF] 3 hdigits (by decide) (by decide)
    rw [isWhole_iff, htext] at hds
    subst hds
    rw [if_neg (by simp)] at hfits
    exact ⟨w, hw, hfits⟩

/-! ## Bytes that are no digits -/

theorem mem_withoutZeros {b : UInt8} (h : b ∈ withoutZeros run) : b = digit 0 ∨ b ∈ run := by
  induction run with
  | nil => exact Or.inl (List.mem_singleton.1 h)
  | cons d run ih =>
      rw [withoutZeros] at h
      split at h
      · exact (ih h).imp_right (List.mem_cons_of_mem d)
      · exact Or.inr h

/-- A point is put among the bytes once, and besides it only zeros. -/
theorem mem_pointed {b : UInt8} (h : b ∈ pointed ds places) : b = point ∨ b = digit 0 ∨ b ∈ ds := by
  unfold pointed at h
  split at h
  · exact Or.inr (Or.inr h)
  · have hwhole : b = point ∨ b ∈ ds.leftpad (places + 1) (digit 0) := by
      rcases List.mem_append.1 h with h | h
      · exact Or.inr (List.mem_of_mem_take h)
      · exact (List.mem_cons.1 h).imp_right List.mem_of_mem_drop
    apply hwhole.imp_right
    intro h
    exact (List.mem_append.1 h).imp_left List.eq_of_mem_replicate

theorem count_point_pointed_le (ds : Bytes) (places : Nat) :
    (pointed ds places).count point ≤ ds.count point + 1 := by
  unfold pointed
  split
  · exact Nat.le_succ _
  · have hzeros : (ds.leftpad (places + 1) (digit 0)).count point = ds.count point := by
      have hne : (digit 0 == point) = false := by decide
      rw [List.leftpad, List.count_append, List.count_replicate, hne]
      exact Nat.zero_add _
    have hsplit := congrArg (List.count point)
      (List.take_append_drop ((ds.leftpad (places + 1) (digit 0)).length - places)
        (ds.leftpad (places + 1) (digit 0)))
    rw [List.count_append, hzeros] at hsplit
    rw [List.count_append, List.count_cons_self, ← hsplit]
    omega

theorem pointed_of_digits (hd : ∀ b ∈ ds, isDigit b = true) (places : Nat) :
    (∀ b ∈ pointed ds places, isDigit b = true ∨ b = point) ∧
      (pointed ds places).count point ≤ 1 := by
  have hnone : ds.count point = 0 := by
    rw [List.count_eq_zero]
    intro h
    cases hd point h
  constructor
  · intro b hb
    rcases mem_pointed hb with rfl | rfl | hb
    · exact Or.inr rfl
    · exact Or.inl rfl
    · exact Or.inl (hd b hb)
  · have hcount := count_point_pointed_le ds places
    omega

/-- The byte at index `i` is no digit, and only zeros stand in front of it. -/
def StraysAt (run : Bytes) (i : Nat) : Prop :=
  ∃ b more, run = List.replicate i (digit 0) ++ b :: more ∧ isDigit b = false

theorem straysAt_iff {i : Nat} :
    StraysAt run i ↔
      run.findIdx? (fun b => !isDigit b) = some i ∧ ∀ j < i, run[j]? = some (digit 0) := by
  constructor
  · rintro ⟨b, more, rfl, hb⟩
    have hzero : (!isDigit (digit 0)) = false := rfl
    constructor
    · rw [List.findIdx?_append, List.findIdx?_replicate, List.findIdx?_cons]
      simp [hzero, hb]
    · intro j hj
      rw [List.getElem?_append_left (by simpa using hj)]
      simp [hj]
  · rintro ⟨hfirst, hzeros⟩
    obtain ⟨hi, hb, -⟩ := List.findIdx?_eq_some_iff_getElem.1 hfirst
    have htake : run.take i = List.replicate i (digit 0) := by
      apply List.ext_getElem?
      intro j
      rw [List.getElem?_take, List.getElem?_replicate]
      split
      · rename_i hj
        exact hzeros j hj
      · rfl
    refine ⟨run[i], run.drop (i + 1), ?_, by simpa using hb⟩
    rw [← htake, ← List.drop_eq_getElem_cons hi, List.take_append_drop]

/-- Either the first byte after the leading zeros is a digit, or there is a stray. -/
theorem digit_or_strays (run : Bytes) :
    (∀ d, (withoutZeros run).head? = some d → isDigit d = true) ∨ ∃ i, StraysAt run i := by
  rcases leadingZeros_cases run with ⟨k, rfl⟩ | ⟨k, b, more, rfl, hne⟩
  · left
    intro d hd
    rw [← List.append_nil (List.replicate _ _), withoutZeros_append] at hd
    cases hd
    rfl
  · cases hb : isDigit b with
    | false => exact Or.inr ⟨k, b, more, rfl, hb⟩
    | true =>
        left
        intro d hd
        rw [withoutZeros_append, withoutZeros, if_neg hne] at hd
        cases hd
        exact hb

theorem StraysAt.not_digit {i : Nat} (h : StraysAt run i) :
    ¬∀ d, (withoutZeros run).head? = some d → isDigit d = true := by
  obtain ⟨b, more, rfl, hb⟩ := h
  have hne : b ≠ digit 0 := by
    rintro rfl
    cases hb
  intro hd
  rw [withoutZeros_append, withoutZeros, if_neg hne] at hd
  rw [hd b rfl] at hb
  cases hb

theorem StraysAt.unique {i j : Nat} (hi : StraysAt run i) (hj : StraysAt run j) : i = j :=
  Option.some.inj ((straysAt_iff.1 hi).1.symm.trans (straysAt_iff.1 hj).1)

theorem outcome_placed_ne (ds : Bytes) (size places i : Nat) :
    (placed ds size places).outcome ≠ .error (.notADigit i) := by
  rw [outcome_placed]
  split
  · exact nofun
  · exact nofun

/-- A byte that is no digit is refused, with its index and the buffer as it was, just when only zeros
stand in front of it in the run.  Any other run gets its point, and one of digits comes out as digits
with at most one point among them. -/
theorem first_stray_refused (hz : 0 ∈ s) (hsize : s.length < 2 ^ 63)
    (hplaces : places + 3 < 2 ^ 64) :
    ∃ w, placePoint s places = .ok w ∧
      (∀ i, w.outcome = .error (.notADigit i) ↔
        (Bytes.untilZero s).findIdx? (fun b => !isDigit b) = some i ∧
          ∀ j < i, (Bytes.untilZero s)[j]? = some (digit 0)) ∧
      (∀ i, w.outcome = .error (.notADigit i) → w.buffer = s) ∧
      ((∀ i, w.outcome ≠ .error (.notADigit i)) →
        w = placed (withoutZeros (Bytes.untilZero s)) s.length places) ∧
      ((∀ b ∈ Bytes.untilZero s, isDigit b = true) →
        ∀ shown, w.outcome = .ok shown →
          (∀ b ∈ shown, isDigit b = true ∨ b = point) ∧ shown.count point ≤ 1) := by
  obtain ⟨rest, hs⟩ := Bytes.exists_eq_untilZero_append hz
  have hrun := Bytes.zero_notMem_untilZero s
  generalize Bytes.untilZero s = run at hs hrun ⊢
  subst hs
  simp only [← straysAt_iff]
  rcases digit_or_strays run with hdigit | ⟨k, hk⟩
  · refine ⟨_, placePoint_placed hrun hdigit hsize hplaces, ?_, ?_, fun _ => rfl, ?_⟩
    · intro i
      exact ⟨fun h => absurd h (outcome_placed_ne _ _ _ i), fun h => absurd hdigit h.not_digit⟩
    · intro i h
      exact absurd h (outcome_placed_ne _ _ _ i)
    · intro hd shown hshown
      rw [outcome_placed] at hshown
      split at hshown
      · cases hshown
        apply pointed_of_digits
        intro b hb
        rcases mem_withoutZeros hb with rfl | hb
        · rfl
        · exact hd b hb
      · cases hshown
  · obtain ⟨b, more, rfl, hb⟩ := hk
    have hmore : 0 ∉ b :: more := fun h => hrun (List.mem_append_right _ h)
    refine ⟨_, placePoint_refused hb hmore k rest places, ?_, fun _ _ => rfl, ?_, ?_⟩
    · intro i
      constructor
      · intro h
        cases h
        exact ⟨b, more, rfl, hb⟩
      · intro h
        rw [h.unique ⟨b, more, rfl, hb⟩]
        rfl
    · intro h
      exact absurd rfl (h k)
    · intro _ shown hshown
      cases hshown

/-- A letter after a zero is found out. -/
theorem letter_after_zero_refused :
    ∃ w, placePoint [0x30, 0x61, 0x31, 0] 2 = .ok w ∧ w.outcome = .error (.notADigit 1) ∧
      w.buffer = [0x30, 0x61, 0x31, 0] := by
  obtain ⟨w, hw, hiff, hbuffer, -⟩ :=
    first_stray_refused (s := [0x30, 0x61, 0x31, 0]) (by decide) (by decide)
      (show 2 + 3 < 2 ^ 64 by decide)
  have hrefused : w.outcome = .error (.notADigit 1) := (hiff 1).2 (by decide)
  exact ⟨w, hw, hrefused, hbuffer 1 hrefused⟩

/-- A letter after any other digit is shown with it. -/
theorem stray_letter_kept :
    placePoint [0x31, 0x61, 0, 0] 0 = .ok (.done [0x31, 0x61, 0, 0] (Bytes.ofText "1a")) ∧
      ¬∀ (s : Bytes) (places i : Nat), 0 ∈ s → s.length < 2 ^ 63 → places + 3 < 2 ^ 64 →
        (Bytes.untilZero s).findIdx? (fun b => !isDigit b) = some i →
          placePoint s places = .ok (.failed s (.notADigit i)) := by
  have hkept : placePoint [0x31, 0x61, 0, 0] 0 =
      .ok (.done [0x31, 0x61, 0, 0] (Bytes.ofText "1a")) := rfl
  refine ⟨hkept, ?_⟩
  intro h
  have hrefused := h [0x31, 0x61, 0, 0] 0 1 (by decide) (by decide) (by decide) (by decide)
  have houtcome := congrArg Written.outcome (Except.ok.inj (hkept.symm.trans hrefused))
  cases houtcome

end Decimal

end ClearSign
