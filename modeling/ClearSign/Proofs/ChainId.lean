import ClearSign.Proofs.Decoder
/-!
# Which items name a network

An item is accepted as a chain identifier when the number it spells belongs to an accepted network;
the identifier keeps the bytes of the item and that number.
-/

namespace ClearSign.ChainId

/-- The number is the big-endian value of the payload. -/
theorem eq_value_of_number {item : Rlp.Item} {n : Nat} (h : number item = .ok n) :
    n = Bytes.value item.payload := by
  unfold number at h
  split at h
  · cases h
  · rename_i b hb
    split at h
    · cases h
      rw [hb, Bytes.value_singleton]
    · cases h
  · by_cases hlen : item.payload.length ≤ wordBytes
    · rw [readWord_of_le hlen] at h
      cases h
      rfl
    · rw [readWord_of_lt (by omega)] at h
      cases h

theorem number_of_length {item : Rlp.Item} (h : 2 ≤ item.payload.length)
    (h' : item.payload.length ≤ wordBytes) : number item = .ok (Bytes.value item.payload) := by
  unfold number
  split
  · rename_i hp
    rw [hp] at h
    simp at h
  · rename_i hp
    rw [hp] at h
    simp at h
  · exact readWord_of_le h'

theorem ofItem_eq_ok_iff {item : Rlp.Item} {c : ChainId} :
    (ofItem item).outcome = .ok c ↔
      number item = .ok c.id ∧ c.id ∈ supported ∧ c.raw = item.payload := by
  unfold ofItem
  rw [Logged.bind_outcome_eq_ok]
  constructor
  · rintro ⟨id, hid, h⟩
    split at h
    · rename_i hs
      cases h
      exact ⟨hid, List.contains_iff_mem.1 hs, rfl⟩
    · cases h
  · rintro ⟨hid, hs, hraw⟩
    refine ⟨c.id, hid, ?_⟩
    rw [if_pos (show isSupported c.id = true from List.contains_iff_mem.2 hs), ← hraw]
    rfl

theorem ofItem_eq_ok {item : Rlp.Item} {c : ChainId} (h : (ofItem item).outcome = .ok c) :
    c.raw = item.payload ∧ c.id = Bytes.value item.payload ∧ c.id ∈ supported := by
  obtain ⟨hid, hs, hraw⟩ := ofItem_eq_ok_iff.1 h
  exact ⟨hraw, eq_value_of_number hid, hs⟩

theorem reads_field {c : ChainId} {bs rest : Bytes} :
    Decoder.Reads field bs c rest ↔
      ∃ item, Rlp.readItem bs = .ok (item, rest) ∧ (ofItem item).outcome = .ok c := by
  simp only [field, Decoder.reads_bind, Decoder.reads_item, Decoder.reads_lift]
  constructor
  · rintro ⟨item, next, hitem, hc, rfl⟩
    exact ⟨item, hitem, hc⟩
  · rintro ⟨item, hitem, hc⟩
    exact ⟨item, rest, hitem, hc, rfl⟩

theorem readsItem_field : field.ReadsItem fun c item => (ofItem item).outcome = .ok c :=
  fun _ _ _ => reads_field

/-! ## Refusals -/

/-- The item spells no number at all. -/
def Unnumbered (item : Rlp.Item) : Prop :=
  item.payload = [] ∨ item.payload.length = 1 ∧ item.kind ≠ .byte

theorem number_eq_error_iff {item : Rlp.Item} {stop : Stop} :
    number item = .error stop ↔
      Unnumbered item ∧ stop = .status .unexpected ∨
        wordBytes < item.payload.length ∧ stop = .status .valueOutOfRange := by
  obtain ⟨kind, payload⟩ := item
  match payload with
  | [] => simp [number, Unnumbered, eq_comm, wordBytes]
  | [b] =>
      by_cases hk : kind = .byte
      · simp [number, Unnumbered, hk, wordBytes]
      · simp [number, Unnumbered, hk, wordBytes, eq_comm]
  | b :: b' :: bytes =>
      have hcount : ¬Unnumbered ⟨kind, b :: b' :: bytes⟩ := by simp [Unnumbered]
      have hnumber : number ⟨kind, b :: b' :: bytes⟩ = readWord (b :: b' :: bytes) := rfl
      rw [hnumber]
      dsimp only
      by_cases hlen : (b :: b' :: bytes).length ≤ wordBytes
      · rw [readWord_of_le hlen]
        simp only [hcount, reduceCtorEq, false_and, Nat.not_lt.2 hlen, or_self]
      · have hlong : wordBytes < (b :: b' :: bytes).length := Nat.not_le.1 hlen
        rw [readWord_of_lt hlong]
        simp only [hcount, hlong, Except.error.injEq, false_and, true_and, false_or, eq_comm]

theorem ofItem_eq_error_iff {item : Rlp.Item} {stop : Stop} :
    (ofItem item).outcome = .error stop ↔
      number item = .error stop ∨
        ∃ id, number item = .ok id ∧ id ∉ supported ∧ stop = .status .invalidChainId := by
  unfold ofItem
  rw [Logged.outcome_bind]
  change (number item).bind _ = _ ↔ _
  cases number item with
  | error e => simp [Except.bind]
  | ok id =>
      by_cases hs : id ∈ supported
      · have hsupported : isSupported id = true := List.contains_iff_mem.2 hs
        simp [Except.bind, hsupported, hs]
      · have hsupported : isSupported id = false := by simpa [isSupported] using hs
        simp [Except.bind, hsupported, hs, Logged.reject, eq_comm]

theorem ofItem_eq_unexpected_iff {item : Rlp.Item} :
    (ofItem item).outcome = .error (.status .unexpected) ↔ Unnumbered item := by
  rw [ofItem_eq_error_iff, number_eq_error_iff]
  simp

theorem ofItem_eq_valueOutOfRange_iff {item : Rlp.Item} :
    (ofItem item).outcome = .error (.status .valueOutOfRange) ↔
      wordBytes < item.payload.length := by
  rw [ofItem_eq_error_iff, number_eq_error_iff]
  simp

/-! ## What the payload decides -/

variable {item : Rlp.Item} {c : ChainId}

/-- The payload has two to eight bytes and spells the number of an accepted network. -/
def Spelt (payload : Bytes) : Prop :=
  2 ≤ payload.length ∧ payload.length ≤ 8 ∧ Bytes.value payload ∈ supported

theorem width_supported : ∀ id ∈ supported, 2 ≤ Bytes.width id ∧ Bytes.width id ≤ 8 := by decide

theorem le_of_mem_supported : ∀ id ∈ supported, 0x100 ≤ id := by decide

theorem two_le_length_of_supported {payload : Bytes} (h : Bytes.value payload ∈ supported) :
    2 ≤ payload.length := by
  -- no accepted number fits a single byte
  have hlow := le_of_mem_supported _ h
  have hlt := Bytes.value_lt payload
  apply Nat.not_lt.1
  intro hshort
  have hpow : 256 ^ payload.length ≤ 256 ^ 1 := Nat.pow_le_pow_right (by decide) (by omega)
  omega

theorem number_eq_ok_iff {n : Nat} :
    number item = .ok n ↔
      ¬Unnumbered item ∧ item.payload.length ≤ wordBytes ∧ n = Bytes.value item.payload := by
  constructor
  · intro h
    refine ⟨?_, ?_, eq_value_of_number h⟩
    · intro hcount
      cases h.symm.trans (number_eq_error_iff.2 (.inl ⟨hcount, rfl⟩))
    · apply Nat.not_lt.1
      intro hlong
      cases h.symm.trans (number_eq_error_iff.2 (.inr ⟨hlong, rfl⟩))
  · rintro ⟨hcount, hlen, rfl⟩
    cases h : number item with
    | ok n => rw [eq_value_of_number h]
    | error stop =>
        rcases number_eq_error_iff.1 h with ⟨hcount', -⟩ | ⟨hlong, -⟩
        · exact absurd hcount' hcount
        · omega

theorem ofItem_eq_ok_iff_spelt :
    (ofItem item).outcome = .ok c ↔
      Spelt item.payload ∧ c = ⟨item.payload, Bytes.value item.payload⟩ := by
  rw [ofItem_eq_ok_iff]
  constructor
  · rintro ⟨hnumber, hs, hraw⟩
    obtain ⟨-, hlen, hid⟩ := number_eq_ok_iff.1 hnumber
    have hc : c = ⟨item.payload, Bytes.value item.payload⟩ := by
      cases c
      cases hid
      cases hraw
      rfl
    rw [hid] at hs
    exact ⟨⟨two_le_length_of_supported hs, hlen, hs⟩, hc⟩
  · rintro ⟨⟨hlow, hhigh, hs⟩, rfl⟩
    exact ⟨number_of_length hlow hhigh, hs, rfl⟩

theorem ofItem_eq_invalidChainId_iff :
    (ofItem item).outcome = .error (.status .invalidChainId) ↔
      ¬Spelt item.payload ∧ ¬Unnumbered item ∧ item.payload.length ≤ 8 := by
  rw [ofItem_eq_error_iff, number_eq_error_iff]
  simp only [number_eq_ok_iff]
  constructor
  · rintro ((⟨-, hstop⟩ | ⟨-, hstop⟩) | ⟨id, ⟨hcount, hlen, rfl⟩, hs, -⟩)
    · cases hstop
    · cases hstop
    · exact ⟨fun hspelt => hs hspelt.2.2, hcount, hlen⟩
  · rintro ⟨hspelt, hcount, hlen⟩
    refine .inr ⟨_, ⟨hcount, hlen, rfl⟩, ?_, trivial⟩
    intro hs
    exact hspelt ⟨two_le_length_of_supported hs, hlen, hs⟩

/-! ## Reasons -/

/-- The reasons for which an item is refused as an identifier. -/
def refusals : List Status := [.unexpected, .valueOutOfRange, .invalidChainId]

theorem endsIn_ofItem (item : Rlp.Item) : (ofItem item).EndsIn refusals := by
  refine Logged.EndsIn.bind ?_ fun id _ => ?_
  · cases h : number item with
    | ok id => exact Logged.endsIn_pure id
    | error stop =>
        rcases number_eq_error_iff.1 h with ⟨-, rfl⟩ | ⟨-, rfl⟩
        · exact Logged.endsIn_stop (by decide) rfl
        · exact Logged.endsIn_stop (by decide) rfl
  · split
    · exact Logged.endsIn_pure _
    · exact Logged.endsIn_reject _ (by decide) rfl

/-- The field is refused with its item, unless there is none. -/
theorem fails_field_iff {bs : Bytes} {s : Status} (hs : s ∈ refusals) :
    Decoder.Fails field bs (.status s) ↔
      ∃ item rest, Rlp.readItem bs = .ok (item, rest) ∧
        (ofItem item).outcome = .error (.status s) := by
  have hend : ∀ s ∈ refusals, s ∉ [Status.unexpectedEnd] := by decide
  unfold field
  rw [(Decoder.endsIn_item (List.mem_singleton_self _)).fails_bind (hend s hs)]
  simp only [Decoder.reads_item, Decoder.fails_lift]

theorem endsIn_field : Decoder.EndsIn (.unexpectedEnd :: refusals) field :=
  (Decoder.endsIn_item (by decide)).bind fun item =>
    Decoder.endsIn_lift ((endsIn_ofItem item).mono (by decide))

end ClearSign.ChainId
