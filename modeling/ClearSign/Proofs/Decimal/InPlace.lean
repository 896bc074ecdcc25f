import ClearSign.Decimal.FixedPoint
import ClearSign.Proofs.Checked
import ClearSign.Proofs.Decimal.Digits
/-!
# The routines that fill buffers keep within them

What a buffer holds decides what `placePoint` and `writeDigits` come to, but not whether they come
to anything.  Each step of `placePoint` is shown here to stay inside the buffer by its size and the
number of digits in it alone, so the bytes may be anything: a run of digits, something else, or what
an earlier call has left behind.
-/

namespace ClearSign.Decimal

open Checked

/-! ## Placing a point -/

section

variable {s : Bytes} {size places : Nat}

theorem gives_moveToFront {start stop : Nat} (h : start ≤ stop) (hs : stop ≤ s.length) :
    (moveToFront s start stop).Gives fun r => r.1.length = s.length ∧ r.2 = stop - start := by
  unfold moveToFront
  apply (gives_move h hs (by omega)).bind
  intro moved hmoved
  apply (gives_sub h).bind
  intro count hcount
  apply (gives_fill 0 (by omega) (Nat.le_refl _)).bind
  intro cleared hcleared
  exact gives_pure ⟨by dsimp only; omega, hcount⟩

theorem gives_keepFirst (h : 1 ≤ s.length) :
    (keepFirst s).Gives fun r => r.1.length = s.length ∧ r.2 = 1 := by
  unfold keepFirst
  apply (gives_fill 0 h (Nat.le_refl _)).bind
  intro cleared hcleared
  exact gives_pure ⟨hcleared, rfl⟩

/-- The padding and the digits behind it take up one cell more than there are places. -/
theorem gives_padFront (hsize : size ≤ places) (hroom : places + 1 ≤ s.length)
    (hword : places + 1 < 2 ^ 64) :
    (padFront s size places).Gives fun r => r.1.length = s.length ∧ r.2 = places + 1 := by
  unfold padFront
  apply (gives_sub hsize).bind
  intro missing hmissing
  apply (gives_add_address (by omega)).bind
  intro padding hpadding
  apply (gives_move (Nat.zero_le _) (by omega) (by omega)).bind
  intro moved hmoved
  apply (gives_fill (digit 0) (Nat.zero_le _) (by omega)).bind
  intro padded hpadded
  apply (gives_add_address (by omega)).bind
  intro total htotal
  exact gives_pure ⟨by dsimp only; omega, by dsimp only; omega⟩

theorem gives_insertPoint (hplaces : places ≤ size) (hroom : size + 1 ≤ s.length)
    (hword : size + 1 < 2 ^ 64) :
    (insertPoint s size places).Gives fun r => r.1.length = s.length ∧ r.2 = size + 1 := by
  unfold insertPoint
  apply (gives_sub hplaces).bind
  intro position hposition
  apply (gives_add_address (by omega)).bind
  intro after hafter
  apply (gives_move (by omega) (by omega) (by omega)).bind
  intro moved hmoved
  apply (gives_set point (by omega)).bind
  intro pointed hpointed
  apply (gives_add_address (by omega)).bind
  intro total htotal
  exact gives_pure ⟨by dsimp only; omega, htotal⟩

/-- The text that a routine answers with is the front of its buffer. -/
def InPlace {ε : Type} (length : Nat) (w : Written ε Bytes) : Prop :=
  w.Within length fun buffer text => text <+: buffer

theorem gives_pointDigits (hsize : size ≤ s.length) (hs : s.length < 2 ^ 63)
    (hplaces : places + 3 < 2 ^ 64) :
    (pointDigits s size places).Gives (InPlace s.length) := by
  unfold pointDigits
  split
  · apply (gives_take hsize).bind
    intro text htext
    apply gives_pure
    apply Written.within_done rfl
    rw [htext]
    exact List.take_prefix _ _
  · apply (gives_add_address (by omega)).bind
    intro least hleast
    apply (gives_add_address (by omega)).bind
    intro needed hneeded
    split
    · exact gives_pure (Written.within_failed _ rfl)
    · -- The test has left room for the digits that the point goes between, and for the point.
      apply Gives.ite_bind (P := fun r => r.1.length = s.length ∧ r.2 = max size least)
      · intro hshort
        apply (gives_padFront (by omega) (by omega) (by omega)).mono
        intro r hr
        exact ⟨hr.1, by omega⟩
      · intro hlong
        exact gives_pure ⟨rfl, by omega⟩
      · rintro ⟨padded, digits⟩ ⟨hpadded, hdigits⟩
        dsimp only at hpadded hdigits
        apply (gives_insertPoint (by omega) (by omega) (by omega)).bind
        rintro ⟨pointed, total⟩ ⟨hpointed, htotal⟩
        dsimp only at hpointed htotal
        apply (gives_take (by omega)).bind
        intro text htext
        apply gives_pure
        apply Written.within_done (by omega)
        rw [htext]
        exact List.take_prefix _ _

theorem firstNonzero_lt {run : Bytes} {start first : Nat}
    (h : firstNonzero run start = .ok (some first)) : start ≤ first ∧ first < start + run.length := by
  induction run generalizing start with
  | nil => cases h
  | cons b bs ih =>
      rw [List.length_cons]
      unfold firstNonzero at h
      split at h
      · cases h
      · split at h
        · cases h
          omega
        · have := ih h
          omega

/-- What is done once there is a digit at the front, or something in place of one. -/
theorem gives_pointRun (hpos : 0 < size) (hsize : size ≤ s.length) (hs : s.length < 2 ^ 63)
    (hplaces : places + 3 < 2 ^ 64) :
    Gives (do
      let run ← Checked.take s size
      match firstNonzero run 0 with
      | .error e => return .failed s e
      | .ok first =>
        let (s, size) ←
          match first with
          | some start => moveToFront s start size
          | none => keepFirst s
        pointDigits s size places) (InPlace s.length) := by
  apply (gives_take hsize).bind
  intro run hrun
  cases hfirst : firstNonzero run 0 with
  | error e => exact gives_pure (Written.within_failed _ rfl)
  | ok first =>
      have hdigits : ∀ r : Bytes × Nat, r.1.length = s.length ∧ r.2 ≤ s.length →
          (pointDigits r.1 r.2 places).Gives (InPlace s.length) := by
        intro r hr
        rw [← hr.1]
        exact gives_pointDigits (by omega) (by omega) hplaces
      cases first with
      | some start =>
          have hstart := firstNonzero_lt hfirst
          rw [hrun, List.length_take] at hstart
          apply (gives_moveToFront (by omega) hsize).bind
          intro r hr
          exact hdigits r ⟨hr.1, by omega⟩
      | none =>
          apply (gives_keepFirst (by omega)).bind
          intro r hr
          exact hdigits r ⟨hr.1, by omega⟩

/-- Whatever the buffer holds, a point is placed in it without leaving it. -/
theorem gives_placePoint (hs : s.length < 2 ^ 63) (hplaces : places + 3 < 2 ^ 64) :
    (placePoint s places).Gives (InPlace s.length) := by
  have hrun : (Bytes.untilZero s).length ≤ s.length :=
    (List.takeWhile_prefix _).length_le
  unfold placePoint
  split
  · exact gives_pure (Written.within_failed _ rfl)
  · rename_i hempty
    have hpos : 0 < s.length := by
      rw [List.length_pos_iff]
      rintro rfl
      exact hempty rfl
    dsimp only
    split
    · exact gives_pure (Written.within_failed _ rfl)
    · split
      · -- An empty run takes the first cell.
        apply (gives_set (digit 0) hpos).bind
        intro zero hzero
        have hrest := gives_pointRun (s := zero) Nat.one_pos (by omega) (by omega) hplaces
        rw [hzero] at hrest
        exact hrest
      · exact gives_pointRun (by omega) hrun hs hplaces

end

/-! ## Writing digits -/

theorem gives_writeDigits (n : Nat) (out : Bytes) :
    (writeDigits n out).Gives (Written.Within out.length fun _ count => count ≤ out.length) := by
  rw [writeDigits_eq]
  apply gives_ok
  split
  · rename_i hroom
    apply Written.within_done _ hroom
    rw [List.length_append, List.length_drop]
    omega
  · apply Written.within_failed
    rw [List.length_take, List.length_reverse]
    omega

end ClearSign.Decimal
