import ClearSign.Rlp.Item
/-!
# Writing items

The shortest encoding of a string or of a list of given payload: a single byte below `0x80` is its
own encoding, a payload of up to 55 bytes has its length in the marker, and a longer one has it in
as few bytes as possible after the marker.

`readItem_encodeString` and `readItem_encodeList` say that an item so written is read back, whatever
follows it.
-/

namespace ClearSign.Rlp

/-- The longest payload whose length is in the marker. -/
def maxShort : Nat := 55

/-- The marker and the length of a payload; `base` is the marker of an empty one. -/
def header (base length : Nat) : Bytes :=
  if length ≤ maxShort then [UInt8.ofNat (base + length)]
  else UInt8.ofNat (base + maxShort + Bytes.width length) :: Bytes.ofNat length

/-- The kind under which a string is read back. -/
def stringKind : Bytes → Kind
  | [b] => if b.toNat < 0x80 then .byte else .string
  | _ => .string

theorem stringKind_eq_byte_iff {bs : Bytes} :
    stringKind bs = .byte ↔ ∃ b : UInt8, bs = [b] ∧ b.toNat < 0x80 := by
  match bs with
  | [] => simp [stringKind]
  | [b] => by_cases hb : b.toNat < 0x80 <;> simp [stringKind, hb]
  | _ :: _ :: _ => simp [stringKind]

theorem stringKind_ne_list (bs : Bytes) : stringKind bs ≠ .list := by
  match bs with
  | [] => simp [stringKind]
  | [b] => by_cases hb : b.toNat < 0x80 <;> simp [stringKind, hb]
  | _ :: _ :: _ => simp [stringKind]

def encodeString (bs : Bytes) : Bytes :=
  if stringKind bs = .byte then bs else header 0x80 bs.length ++ bs

def encodeList (payload : Bytes) : Bytes := header 0xC0 payload.length ++ payload

/-- A number without leading zeros. -/
def encodeNat (n : Nat) : Bytes := encodeString (Bytes.ofNat n)

theorem width_pos {n : Nat} (h : 0 < n) : 0 < Bytes.width n := by
  unfold Bytes.width
  rw [if_neg (by omega)]
  exact Nat.succ_pos _

private theorem readItem_header_short {kind : Kind} {base : Nat} {payload : Bytes}
    (hm : Marker.ofByte (UInt8.ofNat (base + payload.length)) = .ok (.short kind payload.length))
    (hp : payload.length ≤ maxShort) (rest : Bytes) :
    readItem (header base payload.length ++ payload ++ rest) = .ok (⟨kind, payload⟩, rest) := by
  rw [header, if_pos hp]
  simp only [List.cons_append, List.nil_append]
  rw [readItem_short hm, if_neg (by simp), List.take_left, List.drop_left]

private theorem readItem_header_long {kind : Kind} {base : Nat} {payload : Bytes}
    (hm : Marker.ofByte (UInt8.ofNat (base + maxShort + Bytes.width payload.length)) =
      .ok (.long kind (Bytes.width payload.length)))
    (hp : maxShort < payload.length) (hw : Bytes.width payload.length ≤ wordBytes) (rest : Bytes) :
    readItem (header base payload.length ++ payload ++ rest) = .ok (⟨kind, payload⟩, rest) := by
  have htake : ∀ tail : Bytes,
      (Bytes.ofNat payload.length ++ tail).take (Bytes.width payload.length) =
        Bytes.ofNat payload.length := fun tail => List.take_left' (Bytes.length_ofNat _)
  have hdrop : ∀ tail : Bytes,
      (Bytes.ofNat payload.length ++ tail).drop (Bytes.width payload.length) = tail :=
    fun tail => List.drop_left' (Bytes.length_ofNat _)
  rw [header, if_neg (by omega)]
  simp only [List.cons_append, List.append_assoc]
  rw [readItem_long hm hw, htake, Bytes.value_ofNat, if_neg (by simp),
    ← List.drop_drop, hdrop, List.take_left, List.drop_left]

theorem readItem_encodeString {bs : Bytes} (hw : Bytes.width bs.length ≤ wordBytes) (rest : Bytes) :
    readItem (encodeString bs ++ rest) = .ok (⟨stringKind bs, bs⟩, rest) := by
  unfold encodeString
  split
  · rename_i hk
    rw [hk]
    obtain ⟨b, rfl, hb⟩ := stringKind_eq_byte_iff.1 hk
    exact readItem_self hb rest
  · rename_i hk
    have hs : stringKind bs = .string := by
      cases hkind : stringKind bs with
      | byte => exact absurd hkind hk
      | string => rfl
      | list => exact absurd hkind (stringKind_ne_list bs)
    rw [hs]
    by_cases hp : bs.length ≤ maxShort
    · unfold maxShort at hp
      refine readItem_header_short ?_ hp rest
      have hn : (UInt8.ofNat (0x80 + bs.length)).toNat = 0x80 + bs.length := by
        rw [UInt8.toNat_ofNat', Nat.mod_eq_of_lt (by omega)]
      rw [Marker.ofByte_short_string (by omega) (by omega), hn, Nat.add_sub_cancel_left]
    · have hpos : 0 < Bytes.width bs.length := width_pos (by omega)
      refine readItem_header_long ?_ (by omega) hw rest
      unfold wordBytes at hw
      have hn : (UInt8.ofNat (0x80 + maxShort + Bytes.width bs.length)).toNat =
          0xB7 + Bytes.width bs.length := by
        rw [UInt8.toNat_ofNat', Nat.mod_eq_of_lt (by unfold maxShort; omega)]
        unfold maxShort
        omega
      rw [Marker.ofByte_long_string (by omega) (by omega), hn, Nat.add_sub_cancel_left]

theorem readItem_encodeList {payload : Bytes} (hw : Bytes.width payload.length ≤ wordBytes)
    (rest : Bytes) :
    readItem (encodeList payload ++ rest) = .ok (⟨.list, payload⟩, rest) := by
  unfold encodeList
  by_cases hp : payload.length ≤ maxShort
  · unfold maxShort at hp
    refine readItem_header_short ?_ hp rest
    have hn : (UInt8.ofNat (0xC0 + payload.length)).toNat = 0xC0 + payload.length := by
      rw [UInt8.toNat_ofNat', Nat.mod_eq_of_lt (by omega)]
    rw [Marker.ofByte_short_list (by omega) (by omega), hn, Nat.add_sub_cancel_left]
  · have hpos : 0 < Bytes.width payload.length := width_pos (by omega)
    refine readItem_header_long ?_ (by omega) hw rest
    unfold wordBytes at hw
    have hn : (UInt8.ofNat (0xC0 + maxShort + Bytes.width payload.length)).toNat =
        0xF7 + Bytes.width payload.length := by
      rw [UInt8.toNat_ofNat', Nat.mod_eq_of_lt (by unfold maxShort; omega)]
      unfold maxShort
      omega
    rw [Marker.ofByte_long_list (by omega), hn, Nat.add_sub_cancel_left]

end ClearSign.Rlp
