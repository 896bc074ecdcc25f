import Mathlib.Algebra.Group.Nat.Defs
import ClearSign.Rlp.Encode
/-!
# Headers

What stands before the payload of an item is nothing, a marker, or a marker and the bytes of a
length.  `Item.Header` lists these headers without reading anything.  A payload may have several,
since a length may be written in the long form where the short one would do, and with zeros in
front; yet bytes begin with one item at most.

* `readItem_eq_ok_iff`: an item is read exactly where one of its headers and its payload stand in
  front.
* `readItem_eq_error_iff`: where no item stands in front, the bytes end too early.
* `readItem_finds_front`: the two together, with what they say of lengths.
-/

namespace ClearSign.Rlp

/-! ## Markers -/

/-- The marker of an empty payload of a kind; the markers of longer ones come after it. -/
inductive Kind.Base : Kind → Nat → Prop
  | string : Base .string 0x80
  | list : Base .list 0xC0

namespace Marker

/-- Every byte is a marker, and the three forms share out the bytes between them. -/
theorem exists_ofByte (b : UInt8) :
    ∃ m, ofByte b = .ok m ∧
      match m with
      | .self => b.toNat < 0x80
      | .short kind length => ∃ base, kind.Base base ∧ length ≤ maxShort ∧ b.toNat = base + length
      | .long kind width =>
        ∃ base, kind.Base base ∧ 0 < width ∧ width ≤ wordBytes ∧
          b.toNat = base + maxShort + width := by
  have hb := b.toNat_lt
  unfold maxShort wordBytes
  by_cases h1 : b.toNat < 0x80
  · exact ⟨_, ofByte_self h1, h1⟩
  · by_cases h2 : b.toNat ≤ 0xB7
    · exact ⟨_, ofByte_short_string (by omega) h2, 0x80, .string, by omega, by omega⟩
    · by_cases h3 : b.toNat < 0xC0
      · exact ⟨_, ofByte_long_string (by omega) h3, 0x80, .string, by omega, by omega, by omega⟩
      · by_cases h4 : b.toNat ≤ 0xF7
        · exact ⟨_, ofByte_short_list (by omega) h4, 0xC0, .list, by omega, by omega⟩
        · exact ⟨_, ofByte_long_list (by omega), 0xC0, .list, by omega, by omega, by omega⟩

variable {b : UInt8} {kind : Kind} {length width : Nat}

theorem ofByte_eq_short_iff :
    ofByte b = .ok (.short kind length) ↔
      ∃ base, kind.Base base ∧ length ≤ maxShort ∧ b.toNat = base + length := by
  constructor
  · intro h
    obtain ⟨m, hm, hrange⟩ := exists_ofByte b
    cases h.symm.trans hm
    exact hrange
  · rintro ⟨base, hbase, hlength, hb⟩
    unfold maxShort at hlength
    cases hbase with
    | string => rw [ofByte_short_string (by omega) (by omega), hb, Nat.add_sub_cancel_left]
    | list => rw [ofByte_short_list (by omega) (by omega), hb, Nat.add_sub_cancel_left]

theorem ofByte_eq_long_iff :
    ofByte b = .ok (.long kind width) ↔
      ∃ base, kind.Base base ∧ 0 < width ∧ width ≤ wordBytes ∧
        b.toNat = base + maxShort + width := by
  constructor
  · intro h
    obtain ⟨m, hm, hrange⟩ := exists_ofByte b
    cases h.symm.trans hm
    exact hrange
  · rintro ⟨base, hbase, hpos, hwidth, hb⟩
    unfold maxShort at hb
    unfold wordBytes at hwidth
    cases hbase with
    | string => rw [ofByte_long_string (by omega) (by omega), hb, Nat.add_sub_cancel_left]
    | list => rw [ofByte_long_list (by omega), hb, Nat.add_sub_cancel_left]

theorem width_le_of_ofByte (h : ofByte b = .ok (.long kind width)) : width ≤ wordBytes := by
  obtain ⟨_, -, -, hwidth, -⟩ := ofByte_eq_long_iff.1 h
  exact hwidth

end Marker

theorem width_le_of_lt {n : Nat} (h : n < 2 ^ 64) : Bytes.width n ≤ wordBytes :=
  Bytes.width_le_iff.2 h

/-- A width that a marker gives is read as far as there are bytes, and the length that comes out
fits an index. -/
theorem readLength_of_marker {b : UInt8} {kind : Kind} {width : Nat}
    (h : Marker.ofByte b = .ok (.long kind width)) (bs : Bytes) :
    readLength (b :: bs) width =
        (if bs.length < width then .error (.status .unexpectedEnd)
        else .ok (Bytes.value (bs.take width))) ∧
      Bytes.value (bs.take width) < 2 ^ Checked.addressBits := by
  have hwidth := Marker.width_le_of_ofByte h
  have hlen : (bs.take width).length ≤ wordBytes := by
    rw [List.length_take]
    omega
  constructor
  · rw [readLength, if_neg (by omega)]
    by_cases hshort : bs.length < width
    · rw [if_pos (by simp; omega), if_pos hshort]
    · rw [if_neg (by simp; omega), if_neg hshort, List.drop_succ_cons, List.drop_zero,
        readWord_of_le hlen]
  · calc Bytes.value (bs.take width) < 256 ^ (bs.take width).length := Bytes.value_lt _
      _ ≤ 256 ^ wordBytes := Nat.pow_le_pow_right (by decide) hlen
      _ = 2 ^ Checked.addressBits := by decide

/-! ## Headers -/

/-- The bytes that may stand before the payload of an item. -/
inductive Item.Header : Item → Bytes → Prop
  /-- A byte that is no marker is an item by itself. -/
  | self {b : UInt8} (hb : b.toNat < 0x80) : Header ⟨.byte, [b]⟩ []
  | short {kind : Kind} {base : Nat} {payload : Bytes} {b : UInt8} (hbase : kind.Base base)
      (hlength : payload.length ≤ maxShort) (hb : b.toNat = base + payload.length) :
      Header ⟨kind, payload⟩ [b]
  | long {kind : Kind} {base : Nat} {payload length : Bytes} {b : UInt8} (hbase : kind.Base base)
      (hpos : 0 < length.length) (hwidth : length.length ≤ wordBytes)
      (hb : b.toNat = base + maxShort + length.length)
      (hvalue : Bytes.value length = payload.length) : Header ⟨kind, payload⟩ (b :: length)

/-- The bytes begin with an item, under this header, and `rest` is what follows it. -/
structure Front (bs header : Bytes) (item : Item) (rest : Bytes) : Prop where
  isHeader : item.Header header
  eq_append : bs = header ++ item.payload ++ rest

variable {bs rest header : Bytes} {item : Item}

theorem Front.readItem_eq (h : Front bs header item rest) : readItem bs = .ok (item, rest) := by
  obtain ⟨hheader, rfl⟩ := h
  cases hheader with
  | self hb => exact readItem_self hb rest
  | @short kind base payload b hbase hlength hb =>
      have hm := Marker.ofByte_eq_short_iff.2 ⟨base, hbase, hlength, hb⟩
      rw [List.append_assoc, List.singleton_append, readItem_short hm, if_neg (by simp),
        List.take_left, List.drop_left]
  | @long kind base payload length b hbase hpos hwidth hb hvalue =>
      have hm := Marker.ofByte_eq_long_iff.2 ⟨base, hbase, hpos, hwidth, hb⟩
      rw [List.append_assoc, List.cons_append, readItem_long hm hwidth, List.take_left, hvalue,
        if_neg (by simp), ← List.drop_drop, List.drop_left, List.take_left, List.drop_left]

/-- One case for each form of the marker.  The sizes of what is there decide between the two
sides. -/
theorem exists_front_or_error (bs : Bytes) :
    (∃ header item rest, Front bs header item rest) ∨
      readItem bs = .error (.status .unexpectedEnd) := by
  cases bs with
  | nil => exact .inr rfl
  | cons b bs =>
      obtain ⟨m, hm, hrange⟩ := Marker.exists_ofByte b
      cases m with
      | self => exact .inl ⟨[], ⟨.byte, [b]⟩, bs, .self hrange, rfl⟩
      | short kind length =>
          obtain ⟨base, hbase, hlength, hb⟩ := hrange
          by_cases hshort : bs.length < length
          · right
            rw [readItem_short hm, if_pos hshort]
          · left
            have hlen : (bs.take length).length = length := List.length_take_of_le (by omega)
            refine ⟨[b], ⟨kind, bs.take length⟩, bs.drop length,
              .short hbase (by omega) (by omega), ?_⟩
            rw [List.append_assoc, List.take_append_drop, List.singleton_append]
      | long kind width =>
          obtain ⟨base, hbase, hpos, hwidth, hb⟩ := hrange
          by_cases hshort : bs.length < width + Bytes.value (bs.take width)
          · right
            rw [readItem_long hm hwidth, if_pos hshort]
          · left
            have hlen : (bs.take width).length = width := List.length_take_of_le (by omega)
            have hpayload : ((bs.drop width).take (Bytes.value (bs.take width))).length =
                Bytes.value (bs.take width) :=
              List.length_take_of_le (by rw [List.length_drop]; omega)
            refine ⟨b :: bs.take width, ⟨kind, (bs.drop width).take (Bytes.value (bs.take width))⟩,
              (bs.drop width).drop (Bytes.value (bs.take width)),
              .long hbase (by omega) (by omega) (by omega) hpayload.symm, ?_⟩
            rw [List.append_assoc, List.take_append_drop, List.cons_append,
              List.take_append_drop]

theorem exists_front_of_readItem (h : readItem bs = .ok (item, rest)) :
    ∃ header, Front bs header item rest := by
  rcases exists_front_or_error bs with ⟨header, item', rest', hfront⟩ | herror
  · cases h.symm.trans hfront.readItem_eq
    exact ⟨header, hfront⟩
  · cases h.symm.trans herror

theorem readItem_eq_ok_iff :
    readItem bs = .ok (item, rest) ↔ ∃ header, Front bs header item rest := by
  constructor
  · exact exists_front_of_readItem
  · rintro ⟨header, h⟩
    exact h.readItem_eq

/-- Bytes begin with one item at most, and it stands under one header. -/
theorem Front.unique {header' rest' : Bytes} {item' : Item} (h : Front bs header item rest)
    (h' : Front bs header' item' rest') : header = header' ∧ item = item' ∧ rest = rest' := by
  have hread := h.readItem_eq.symm.trans h'.readItem_eq
  cases hread
  have happend : header ++ item.payload ++ rest = header' ++ item.payload ++ rest :=
    h.eq_append.symm.trans h'.eq_append
  exact ⟨List.append_cancel_right (List.append_cancel_right happend), rfl, rfl⟩

/-- An item takes up at least one byte, its own or that of a marker. -/
theorem Front.length_lt (h : Front bs header item rest) : rest.length < bs.length :=
  readItem_consumes h.readItem_eq

theorem readItem_eq_error {stop : Stop} (h : readItem bs = .error stop) :
    stop = .status .unexpectedEnd := by
  rcases exists_front_or_error bs with ⟨header, item, rest, hfront⟩ | herror
  · cases h.symm.trans hfront.readItem_eq
  · cases h.symm.trans herror
    rfl

theorem readItem_eq_error_iff {stop : Stop} :
    readItem bs = .error stop ↔
      stop = .status .unexpectedEnd ∧ ¬∃ header item rest, Front bs header item rest := by
  constructor
  · intro h
    refine ⟨readItem_eq_error h, ?_⟩
    rintro ⟨header, item, rest, hfront⟩
    cases h.symm.trans hfront.readItem_eq
  · rintro ⟨rfl, hnone⟩
    exact (exists_front_or_error bs).resolve_left hnone

/-- Reading finds the item with which bytes begin, under whichever header it stands, and takes up at
least one byte.  Where bytes begin with no item they end too early: no marker announces a length of
too many bytes, and no length that can be announced is too large for an index. -/
theorem readItem_finds_front (bs : Bytes) :
    (∀ item rest, readItem bs = .ok (item, rest) ↔ ∃ header, Front bs header item rest) ∧
      (∀ header item rest header' item' rest', Front bs header item rest →
        Front bs header' item' rest' → header = header' ∧ item = item' ∧ rest = rest') ∧
      (∀ header item rest, Front bs header item rest → rest.length < bs.length) ∧
      (∀ stop, readItem bs = .error stop ↔
        stop = .status .unexpectedEnd ∧ ¬∃ header item rest, Front bs header item rest) ∧
      ∀ b kind width, Marker.ofByte b = .ok (.long kind width) → ∀ tail : Bytes,
        width ≤ wordBytes ∧
          readLength (b :: tail) width ≠ .error (.status .valueOutOfRange) ∧
          ∀ length, readLength (b :: tail) width = .ok length → length < 2 ^ Checked.addressBits := by
  refine ⟨fun item rest => readItem_eq_ok_iff, ?_, ?_, fun stop => readItem_eq_error_iff, ?_⟩
  · intro header item rest header' item' rest' h h'
    exact h.unique h'
  · intro header item rest h
    exact h.length_lt
  · intro b kind width hm tail
    obtain ⟨hlength, hbound⟩ := readLength_of_marker hm tail
    refine ⟨Marker.width_le_of_ofByte hm, ?_, ?_⟩
    · rw [hlength]
      split
      · nofun
      · nofun
    · intro length h
      rw [hlength] at h
      split at h
      · cases h
      · cases h
        exact hbound

/-- Two bytes whose length is written in two bytes, although it has room in the marker, and one byte
more. -/
def paddedLength : Bytes := [0xB9, 0x00, 0x02, 0x0D, 0x0A, 0x05]

theorem paddedLength_found :
    readItem paddedLength = .ok (⟨.string, [0x0D, 0x0A]⟩, [0x05]) ∧
      (∀ header item rest, Front paddedLength header item rest → header = [0xB9, 0x00, 0x02]) ∧
      ([0x05] : Bytes).length < paddedLength.length ∧
      readLength paddedLength 2 ≠ .error (.status .valueOutOfRange) := by
  obtain ⟨hread, hunique, hconsumes, -, hrange⟩ := readItem_finds_front paddedLength
  have hmarker : Marker.ofByte 0xB9 = .ok (.long .string 2) :=
    Marker.ofByte_eq_long_iff.2 ⟨0x80, .string, by decide, by decide, by decide⟩
  have hfront : Front paddedLength [0xB9, 0x00, 0x02] ⟨.string, [0x0D, 0x0A]⟩ [0x05] :=
    ⟨.long .string (by decide) (by decide) (by decide) (by decide), rfl⟩
  refine ⟨(hread _ _).2 ⟨_, hfront⟩, ?_, hconsumes _ _ _ hfront, (hrange _ _ _ hmarker _).2.1⟩
  intro header item rest h
  exact (hunique _ _ _ _ _ _ h hfront).1

end ClearSign.Rlp
