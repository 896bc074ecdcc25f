import ClearSign.Status
/-!
# Byte strings of a fixed length

Addresses, words of call data and digests have a length that never varies; `Octets n` carries it.
The module also reads a number that has to fit a machine word.
-/

namespace ClearSign

/-- Exactly `n` bytes. -/
structure Octets (n : Nat) where
  bytes : Bytes
  length_bytes : bytes.length = n
  deriving DecidableEq, Repr

namespace Octets

variable {n : Nat}

/-- Takes `n` bytes off the front. -/
def read (n : Nat) (bs : Bytes) : Except Status (Octets n × Bytes) :=
  if h : n ≤ bs.length then
    .ok (⟨bs.take n, by rw [List.length_take, Nat.min_eq_left h]⟩, bs.drop n)
  else .error .unexpectedEnd

theorem read_append (x : Octets n) (rest : Bytes) : read n (x.bytes ++ rest) = .ok (x, rest) := by
  have h : n ≤ (x.bytes ++ rest).length := by
    rw [List.length_append, x.length_bytes]
    omega
  have htake : (x.bytes ++ rest).take n = x.bytes := List.take_left' x.length_bytes
  have hdrop : (x.bytes ++ rest).drop n = rest := List.drop_left' x.length_bytes
  rw [read, dif_pos h]
  simp only [hdrop]
  congr 2
  cases x
  simpa using htake

theorem eq_append_of_read {bs rest : Bytes} {x : Octets n} (h : read n bs = .ok (x, rest)) :
    bs = x.bytes ++ rest := by
  unfold read at h
  split at h
  · cases h
    exact (List.take_append_drop n bs).symm
  · cases h

theorem read_eq_error_iff {bs : Bytes} {s : Status} :
    read n bs = .error s ↔ bs.length < n ∧ s = .unexpectedEnd := by
  unfold read
  split
  · constructor
    · intro h
      cases h
    · omega
  · constructor
    · intro h
      cases h
      exact ⟨by omega, rfl⟩
    · rintro ⟨-, rfl⟩
      rfl

end Octets

/-! ## Numbers of at most eight bytes -/

/-- How many bytes a machine word has. -/
def wordBytes : Nat := 8

/-- The number that the bytes spell, if they fit a machine word: they are set at the end of a word
of zeros. -/
def readWord (bs : Bytes) : Except Stop Nat :=
  if wordBytes < bs.length then .error (.status .valueOutOfRange)
  else do
    let start ← Checked.sub wordBytes bs.length
    let word ← Checked.replace (List.replicate wordBytes 0) start wordBytes bs
    return Bytes.value word

theorem readWord_of_le {bs : Bytes} (h : bs.length ≤ wordBytes) :
    readWord bs = .ok (Bytes.value bs) := by
  have hreplace : Checked.replace (List.replicate wordBytes 0) (wordBytes - bs.length) wordBytes bs
      = .ok ((List.replicate wordBytes 0).take (wordBytes - bs.length) ++ bs ++
          (List.replicate wordBytes 0).drop wordBytes) :=
    Checked.replace_eq_ok (by omega) (by simp) (by omega)
  rw [readWord, if_neg (by omega), Checked.sub_eq_ok h]
  simp only [Stop.liftM_checked_ok, Checked.ok_bind, hreplace]
  simp [Bytes.value_append, pure, Except.pure]

theorem readWord_of_lt {bs : Bytes} (h : wordBytes < bs.length) :
    readWord bs = .error (.status .valueOutOfRange) := if_pos h

end ClearSign
