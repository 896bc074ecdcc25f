import ClearSign.Decoder
/-!
# Addresses

An address has twenty bytes.  The recipient of a transaction may be left empty, which stands for
the creation of a contract.
-/

namespace ClearSign

def addressLength : Nat := 20

abbrev Address := Octets addressLength

namespace Address

/-- Reads a recipient: no bytes stand for none. -/
def ofField (bs : Bytes) : Except Status (Option Address) :=
  if bs.isEmpty then .ok none
  else if h : bs.length = addressLength then .ok (some ⟨bs, h⟩)
  else .error .invalidAddress

theorem ofField_nil : ofField [] = .ok none := rfl

theorem ofField_bytes (a : Address) : ofField a.bytes = .ok (some a) := by
  have hne : a.bytes.isEmpty = false := by
    have := a.length_bytes
    cases h : a.bytes with
    | nil => rw [h] at this; cases this
    | cons b bs => rfl
  simp [ofField, hne, a.length_bytes]

theorem ofField_eq_none_iff {bs : Bytes} : ofField bs = .ok none ↔ bs = [] := by
  unfold ofField
  split
  · simpa using List.isEmpty_iff.1 ‹_›
  · split <;> simp_all [List.isEmpty_iff]

theorem ofField_eq_some_iff {bs : Bytes} {a : Address} :
    ofField bs = .ok (some a) ↔ bs = a.bytes := by
  constructor
  · intro h
    unfold ofField at h
    split at h
    · simp at h
    · split at h
      · cases h
        rfl
      · cases h
  · rintro rfl
    exact ofField_bytes a

theorem ofField_eq_error_iff {bs : Bytes} {s : Status} :
    ofField bs = .error s ↔ bs ≠ [] ∧ bs.length ≠ addressLength ∧ s = .invalidAddress := by
  unfold ofField
  split <;> rename_i hempty
  · simp [List.isEmpty_iff.1 hempty]
  · have hne : bs ≠ [] := fun h => hempty (List.isEmpty_iff.2 h)
    split <;> rename_i hlength
    · simp [hlength]
    · constructor
      · intro h
        cases h
        exact ⟨hne, hlength, rfl⟩
      · rintro ⟨-, -, rfl⟩
        rfl

/-- Takes an item off the front and reads its payload as a recipient. -/
def field : Decoder (Option Address) := do
  let payload ← Decoder.payload
  match ofField payload with
  | .ok recipient => return recipient
  | .error s => Decoder.fail s

end Address

end ClearSign
