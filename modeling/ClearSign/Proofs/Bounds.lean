import ClearSign.Proofs.Decimal.InPlace
import ClearSign.Proofs.Review.Coverage
import ClearSign.Proofs.Review.Report
import ClearSign.Proofs.Session.Refinement
/-!
# Everything keeps within bounds

The places where a word or an index could leave its range are the checked operations, and a run that
gets past all of them does not end in a trap.  So each entry point is shown to come to a result, for
every input it can be handed: reviews that were never read, buffers too short for anything, and
bytes that are no text.
-/

namespace ClearSign

open Checked

/-! ## Pages and digits -/

namespace Page

variable {text label out title : Bytes} {page : Nat}

theorem gives_putTerminated (h : text.length < out.length) :
    (putTerminated text out).Gives fun out' => out'.length = out.length := by
  unfold putTerminated
  apply (gives_replace (Nat.zero_le _) (Nat.le_of_lt h) rfl).bind
  intro written hwritten
  rw [← hwritten] at h ⊢
  exact gives_set 0 h

/-- The count of pages fits a byte, and the page is one of them. -/
theorem gives_write (text out : Bytes) (page : Nat) :
    (write text out page).Gives
      (Written.Within out.length fun _ pages => page < pages ∧ pages ≤ maxCount) := by
  unfold write
  dsimp only
  split
  · exact gives_pure (Written.within_failed _ rfl)
  · rename_i hroom
    split
    · exact gives_pure (Written.within_failed _ rfl)
    · rename_i hcount
      split
      · exact gives_pure (Written.within_failed _ rfl)
      · rename_i hpage
        have hchunk := length_chunk_le text (capacity out) page
        have hlast : capacity out + 1 = out.length := by
          unfold capacity at hroom ⊢
          omega
        apply (gives_putTerminated (by omega)).bind
        intro written hwritten
        exact gives_pure (Written.within_done hwritten ⟨by omega, by omega⟩)

theorem gives_writeTitle (label title : Bytes) :
    (writeTitle label title).Gives (Written.Within title.length fun _ _ => True) := by
  unfold writeTitle
  split
  · exact gives_pure (Written.within_failed _ rfl)
  · apply (gives_putTerminated (by omega)).bind
    intro written hwritten
    exact gives_pure (Written.within_done hwritten trivial)

end Page

theorem Hex.gives_encode {input : Bytes} (h : input.length < 2 ^ 63) (out : Bytes) :
    (encode input out).Gives
      (Written.Within out.length fun _ size => size = 2 * input.length ∧ size ≤ out.length) := by
  rw [encode_eq (show input.length * 2 < 2 ^ 64 by omega)]
  split
  · rename_i hroom
    apply gives_ok
    apply Written.within_done
    · rw [List.length_append, length_digits, List.length_drop]
      omega
    · exact ⟨rfl, hroom⟩
  · exact gives_ok (Written.within_failed _ rfl)

/-! ## All entry points -/

namespace Review

/-- The table always has room for its fields, and their count fits a byte. -/
theorem length_rows_le (r : Review) (expert : Bool) :
    r.rows expert ≠ .error .unexpectedNumberItems ∧
      ∀ rows, r.rows expert = .ok rows → rows.length ≤ maxRows := by
  constructor
  · intro h
    cases rows_eq_error h
  · intro rows h
    rw [rows_eq_ok h]
    exact length_table_le r

theorem exists_renderItem (r : Review) (expert : Bool) (index page : Nat) (screen : Screen) :
    ∃ rendered, (r.renderItem expert index page screen).outcome = .ok rendered ∧
      rendered.screen.title.length = screen.title.length ∧
      rendered.screen.message.length = screen.message.length :=
  ⟨_, outcome_renderItem r expert index page screen, length_itemView ..⟩

end Review

/-- No input makes a word or an index leave its range.  Where a length is added to or doubled, the
bytes are taken to lie in memory, of which no slice takes up more than half. -/
theorem keeps_within_bounds :
    (∀ raw, (Review.parse raw).NeverTraps) ∧
      (∀ (r : Review) (expert : Bool),
        (r.validate expert).NeverTraps ∧ r.rows expert ≠ .error .unexpectedNumberItems ∧
          ∀ rows, r.rows expert = .ok rows → rows.length ≤ maxRows) ∧
      (∀ (tx : Transaction) (info : UInt32),
        ∃ v, Signature.recoveryByte tx (Signature.isOdd info) = .ok v) ∧
      (∀ (r : Review) (expert : Bool) (index page : Nat) (screen : Screen),
        ∃ rendered, (r.renderItem expert index page screen).outcome = .ok rendered ∧
          rendered.screen.title.length = screen.title.length ∧
          rendered.screen.message.length = screen.message.length) ∧
      (∀ calls, ∃ result, (Session.initial.run calls).outcome = .ok result) ∧
      (∀ (s : Bytes) (places : Nat), s.length < 2 ^ 63 → places + 3 < 2 ^ 64 →
        (Decimal.placePoint s places).Gives
          (Written.Within s.length fun buffer text => text <+: buffer)) ∧
      (∀ (n : Nat) (out : Bytes),
        (Decimal.writeDigits n out).Gives
          (Written.Within out.length fun _ count => count ≤ out.length)) ∧
      (∀ (text out : Bytes) (page : Nat),
        (Page.write text out page).Gives
          (Written.Within out.length fun _ pages => page < pages ∧ pages ≤ Page.maxCount)) ∧
      (∀ (label title : Bytes),
        (Page.writeTitle label title).Gives (Written.Within title.length fun _ _ => True)) ∧
      ∀ (input out : Bytes), input.length < 2 ^ 63 →
        (Hex.encode input out).Gives
          (Written.Within out.length fun _ size => size = 2 * input.length ∧ size ≤ out.length) := by
  refine ⟨Review.neverTraps_parse, ?_, ?_, Review.exists_renderItem, ?_, ?_,
    Decimal.gives_writeDigits, Page.gives_write, Page.gives_writeTitle, ?_⟩
  · intro r expert
    exact ⟨(Review.endsIn_validate r expert).neverTraps, Review.length_rows_le r expert⟩
  · intro tx info
    exact ⟨_, Signature.recoveryByte_eq tx _⟩
  · intro calls
    obtain ⟨s, hrun, -⟩ := Session.run_represents Session.represents_initial calls
    exact ⟨_, hrun⟩
  · intro s places hs hplaces
    exact Decimal.gives_placePoint hs hplaces
  · intro input out hinput
    exact Hex.gives_encode hinput out

/-- A letter stands in the run of digits, and there are more places than cells. -/
theorem letter_keeps_within_bounds :
    (Decimal.placePoint [0x31, 0x61, 0, 0] 7).Gives
        (Written.Within 4 fun buffer text => text <+: buffer) ∧
      (Hex.encode [0xAB, 0xCD] [0]).Gives
        (Written.Within 1 fun _ size => size = 4 ∧ size ≤ 1) := by
  obtain ⟨-, -, -, -, -, hpoint, -, -, -, hhex⟩ := keeps_within_bounds
  exact ⟨hpoint _ _ (by decide) (by decide), hhex _ _ (by decide)⟩

end ClearSign
