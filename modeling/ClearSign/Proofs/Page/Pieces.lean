import Mathlib.Algebra.Order.Floor.Div
import ClearSign.Proofs.Page
/-!
# A text in pieces

The pages of a text are its pieces in order.  `Cut` says what that means without reckoning with
places in the text: put together they are the text, and only the last may be shorter than the room
there is.  `write_exactly` tells for each page whether it is written, and what stands in the buffer
after that.
-/

namespace ClearSign.Page

/-- Each piece but the last fills the room, and the last is empty only if there is no text. -/
structure Cut (text : Bytes) (room : Nat) (pieces : List Bytes) : Prop where
  flatten_eq : pieces.flatten = text
  full : ∀ piece ∈ pieces.dropLast, piece.length = room
  last : ∃ piece, pieces.getLast? = some piece ∧ piece.length ≤ room ∧ (piece = [] → text = [])

variable {text : Bytes} {room size page : Nat}

theorem count_eq_max_ceilDiv (length room : Nat) :
    count length room = max 1 (length ⌈/⌉ room) := by
  rw [Nat.ceilDiv_eq_add_pred_div, count]

/-! ## Places in the text -/

/-- A page after the first begins within the text. -/
theorem mul_lt_of_lt_count {length : Nat} (hroom : 0 < room) (hpos : 0 < page)
    (h : page < count length room) : page * room < length := by
  have hdiv : page + 1 ≤ (length + room - 1) / room := by
    rw [count] at h
    omega
  rw [Nat.le_div_iff_mul_le hroom, Nat.succ_mul] at hdiv
  omega

theorem length_chunk_of_le (h : (page + 1) * room ≤ text.length) :
    (chunk text room page).length = room := by
  rw [Nat.succ_mul] at h
  rw [chunk, List.length_take, List.length_drop]
  omega

theorem chunk_eq_nil (hroom : 0 < room) (hpage : page < count text.length room)
    (h : chunk text room page = []) : text = [] := by
  have hlen := congrArg List.length h
  rw [chunk, List.length_take, List.length_drop, List.length_nil] at hlen
  by_cases hpos : 0 < page
  · have hlt := mul_lt_of_lt_count hroom hpos hpage
    omega
  · have hzero : page = 0 := by omega
    rw [hzero, Nat.zero_mul] at hlen
    exact List.length_eq_zero_iff.1 (by omega)

/-- The pages are the pieces of the text. -/
theorem cut_chunks (text : Bytes) (hroom : 0 < room) :
    Cut text room ((List.range (count text.length room)).map (chunk text room)) := by
  obtain ⟨last, hlast⟩ := Nat.exists_eq_succ_of_ne_zero (count_pos text.length room).ne'
  have hsplit : (List.range (count text.length room)).map (chunk text room) =
      (List.range last).map (chunk text room) ++ [chunk text room last] := by
    rw [hlast, List.range_succ, List.map_append]
    rfl
  refine ⟨flatMap_chunk_count text hroom, ?_, ?_⟩
  · intro piece hpiece
    rw [hsplit, List.dropLast_concat] at hpiece
    obtain ⟨page, hpage, rfl⟩ := List.mem_map.1 hpiece
    rw [List.mem_range] at hpage
    apply length_chunk_of_le
    calc (page + 1) * room ≤ last * room := Nat.mul_le_mul_right room hpage
      _ ≤ text.length := Nat.le_of_lt (mul_lt_of_lt_count hroom (by omega) (by omega))
  · refine ⟨chunk text room last, ?_, length_chunk_le text room last, ?_⟩
    · rw [hsplit, List.getLast?_concat]
    · exact chunk_eq_nil hroom (by omega)

/-! ## Which pages there are -/

theorem exists_view_iff :
    (∃ shown, view text size page = .ok shown) ↔
      1 < size ∧ count text.length (size - 1) ≤ maxCount ∧
        page < count text.length (size - 1) := by
  constructor
  · rintro ⟨⟨bytes, n⟩, h⟩
    obtain ⟨hsize, rfl, hcount, hpage, -⟩ := view_eq_ok h
    exact ⟨hsize, hcount, hpage⟩
  · rintro ⟨hsize, hcount, hpage⟩
    unfold view
    rw [if_neg (by omega), if_neg (by omega), if_neg (by omega)]
    exact ⟨_, rfl⟩

theorem eq_of_view_error {s : Status} (h : view text size page = .error s) :
    s = if size ≤ 1 then .unexpectedEnd
      else if maxCount < count text.length (size - 1) then .valueOutOfRange
      else .pageOutOfRange := by
  by_cases hsize : size ≤ 1
  · rw [view, if_pos hsize] at h
    cases h
    exact (if_pos hsize).symm
  · rw [view, if_neg hsize] at h
    rw [if_neg hsize]
    by_cases hcount : maxCount < count text.length (size - 1)
    · rw [if_pos hcount] at h ⊢
      cases h
      rfl
    · rw [if_neg hcount] at h ⊢
      split at h
      · cases h
        rfl
      · cases h

/-- A page is written if there is room for a byte and the zero after it, the pages can be counted in
a byte, and it is one of them.  Its piece of the text stands in front of a zero and of what the buffer
held from there on; otherwise the buffer is as it was, and the first condition that fails tells the
reason. -/
theorem write_exactly (text out : Bytes) (page : Nat) :
    let room := out.length - 1
    let pages := max 1 (text.length ⌈/⌉ room)
    ∃ w, write text out page = .ok w ∧
      ((∃ shown, w.outcome = .ok shown) ↔ 1 ≤ room ∧ pages ≤ 255 ∧ page < pages) ∧
      (∀ shown, w.outcome = .ok shown →
        shown = pages ∧ ∃ piece, piece = (text.drop (page * room)).take room ∧
          w.buffer = piece ++ 0 :: out.drop (piece.length + 1)) ∧
      (∀ e, w.outcome = .error e →
        w.buffer = out ∧ e = if out.length ≤ 1 then .unexpectedEnd
          else if 255 < pages then .valueOutOfRange
          else .pageOutOfRange) ∧
      (1 ≤ room →
        Cut text room ((List.range pages).map fun i => (text.drop (i * room)).take room)) := by
  intro room pages
  have hpages : count text.length (out.length - 1) = pages := count_eq_max_ceilDiv ..
  have hiff : (∃ shown, view text out.length page = .ok shown) ↔
      1 < out.length ∧ pages ≤ 255 ∧ page < pages := hpages ▸ exists_view_iff
  have hcut : 1 ≤ room →
      Cut text room ((List.range pages).map fun i => (text.drop (i * room)).take room) :=
    hpages ▸ cut_chunks text
  cases hview : view text out.length page with
  | ok shown =>
      obtain ⟨bytes, n⟩ := shown
      obtain ⟨hsize, hn, hcount, hpage, rfl⟩ := view_eq_ok hview
      rw [hpages] at hn
      subst hn
      refine ⟨_, write_eq text out page, ?_⟩
      rw [hview]
      refine ⟨⟨fun _ => ⟨by omega, hcount, hpage⟩, fun _ => ⟨_, rfl⟩⟩, ?_, nofun, hcut⟩
      intro shown hshown
      cases hshown
      exact ⟨rfl, _, rfl, rfl⟩
  | error e =>
      refine ⟨_, write_eq text out page, ?_⟩
      rw [hview] at hiff ⊢
      refine ⟨⟨nofun, ?_⟩, nofun, ?_, hcut⟩
      · rintro ⟨hroom, hshown⟩
        obtain ⟨_, h⟩ := hiff.2 ⟨by omega, hshown⟩
        cases h
      · intro e' he'
        cases he'
        exact ⟨rfl, hpages ▸ eq_of_view_error hview⟩

/-- Eleven bytes on a screen for five: the third page has one of them, and there is no fourth. -/
theorem lastByte_written :
    (∃ w, write (Bytes.ofText "0123456789a") (List.replicate 6 0xFF) 2 = .ok w ∧
        w.outcome = .ok 3 ∧ w.buffer = [0x61, 0, 0xFF, 0xFF, 0xFF, 0xFF]) ∧
      ∃ w, write (Bytes.ofText "0123456789a") (List.replicate 6 0xFF) 3 = .ok w ∧
        w.buffer = List.replicate 6 0xFF := by
  constructor
  · obtain ⟨w, hw, hiff, hshown, -, -⟩ :=
      write_exactly (Bytes.ofText "0123456789a") (List.replicate 6 0xFF) 2
    obtain ⟨shown, hok⟩ := hiff.2 (by decide)
    obtain ⟨rfl, piece, hpiece, hbuffer⟩ := hshown shown hok
    have hlast : piece = [0x61] := hpiece.trans (by decide)
    subst hlast
    exact ⟨w, hw, hok, hbuffer⟩
  · obtain ⟨w, hw, hiff, -, herror, -⟩ :=
      write_exactly (Bytes.ofText "0123456789a") (List.replicate 6 0xFF) 3
    cases hout : w.outcome with
    | ok shown =>
        obtain ⟨-, -, hpage⟩ := hiff.1 ⟨shown, hout⟩
        exact absurd hpage (by decide)
    | error e => exact ⟨w, hw, (herror e hout).1⟩

end ClearSign.Page
