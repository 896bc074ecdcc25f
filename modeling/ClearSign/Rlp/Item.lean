import ClearSign.Octets
/-!
# Items of the recursive length encoding

An item is a single byte below `0x80`, which stands for itself, or a marker with a length and then
a payload of that length.  Only the front of a list is read here; its payload is left as bytes.

* `readItem` takes one item off the front and `scan` takes items until nothing is left.
* `readItem_consumes`: an item takes up at least one byte, so a scan ends.
-/

namespace ClearSign.Rlp

/-- What an item is, as its first byte tells. -/
inductive Kind where
  | byte
  | string
  | list
  deriving DecidableEq, Repr

/-- An item without its marker and length. -/
structure Item where
  kind : Kind
  payload : Bytes
  deriving DecidableEq, Repr

namespace Item

def length (item : Item) : Nat := item.payload.length

def isEmpty (item : Item) : Bool := item.payload.isEmpty

def isList (item : Item) : Bool := item.kind == .list

end Item

/-! ## Markers -/

inductive Marker where
  /-- The byte is an item by itself. -/
  | self
  /-- The payload has `length` bytes and follows at once. -/
  | short (kind : Kind) (length : Nat)
  /-- The length takes up `width` bytes, and the payload comes after them. -/
  | long (kind : Kind) (width : Nat)
  deriving DecidableEq, Repr

/-- Strings have the markers from `0x80`, lists those from `0xC0`; up to 55 bytes the marker holds
the length. -/
def Marker.ofByte (b : UInt8) : Checked Marker :=
  if b.toNat < 0x80 then .ok .self
  else if b.toNat ≤ 0xB7 then .short .string <$> Checked.sub b.toNat 0x80
  else if b.toNat < 0xC0 then .long .string <$> Checked.sub b.toNat 0xB7
  else if b.toNat ≤ 0xF7 then .short .list <$> Checked.sub b.toNat 0xC0
  else .long .list <$> Checked.sub b.toNat 0xF7

theorem Marker.ofByte_self {b : UInt8} (h : b.toNat < 0x80) : ofByte b = .ok .self := if_pos h

theorem Marker.ofByte_short_string {b : UInt8} (h : 0x80 ≤ b.toNat) (h' : b.toNat ≤ 0xB7) :
    ofByte b = .ok (.short .string (b.toNat - 0x80)) := by
  rw [ofByte, if_neg (by omega), if_pos h', Checked.sub_eq_ok h]
  rfl

theorem Marker.ofByte_long_string {b : UInt8} (h : 0xB7 < b.toNat) (h' : b.toNat < 0xC0) :
    ofByte b = .ok (.long .string (b.toNat - 0xB7)) := by
  rw [ofByte, if_neg (by omega), if_neg (by omega), if_pos h', Checked.sub_eq_ok (by omega)]
  rfl

theorem Marker.ofByte_short_list {b : UInt8} (h : 0xC0 ≤ b.toNat) (h' : b.toNat ≤ 0xF7) :
    ofByte b = .ok (.short .list (b.toNat - 0xC0)) := by
  rw [ofByte, if_neg (by omega), if_neg (by omega), if_neg (by omega), if_pos h',
    Checked.sub_eq_ok h]
  rfl

theorem Marker.ofByte_long_list {b : UInt8} (h : 0xF7 < b.toNat) :
    ofByte b = .ok (.long .list (b.toNat - 0xF7)) := by
  rw [ofByte, if_neg (by omega), if_neg (by omega), if_neg (by omega), if_neg (by omega),
    Checked.sub_eq_ok (by omega)]
  rfl

/-! ## Reading -/

/-- The length that the `width` bytes after the marker spell. -/
def readLength (bs : Bytes) (width : Nat) : Except Stop Nat :=
  if wordBytes < width then .error (.status .valueOutOfRange)
  else if bs.length < 1 + width then .error (.status .unexpectedEnd)
  else readWord ((bs.drop 1).take width)

/-- Splits what follows a header of `header` bytes after `length` bytes. -/
def readPayload (kind : Kind) (bs : Bytes) (header length : Nat) : Except Stop (Item × Bytes) := do
  let body ← Checked.drop bs header
  if body.length < length then .error (.status .unexpectedEnd)
  else return (⟨kind, body.take length⟩, body.drop length)

def readItem : Bytes → Except Stop (Item × Bytes)
  | [] => .error (.status .unexpectedEnd)
  | b :: bs => do
    match ← Marker.ofByte b with
    | .self => return (⟨.byte, [b]⟩, bs)
    | .short kind length => readPayload kind (b :: bs) 1 length
    | .long kind width =>
      let length ← readLength (b :: bs) width
      let header ← Checked.add Checked.addressBits 1 width
      readPayload kind (b :: bs) header length

theorem readPayload_eq {kind : Kind} {bs : Bytes} {header length : Nat} (h : header ≤ bs.length) :
    readPayload kind bs header length =
      if bs.length < header + length then .error (.status .unexpectedEnd)
      else .ok (⟨kind, (bs.drop header).take length⟩, bs.drop (header + length)) := by
  rw [readPayload, Checked.drop_eq_ok h]
  simp only [Stop.liftM_checked_ok, Checked.ok_bind, List.length_drop, List.drop_drop]
  split
  · rw [if_pos (by omega)]
  · rw [if_neg (by omega)]
    rfl

theorem readItem_self {b : UInt8} (h : b.toNat < 0x80) (bs : Bytes) :
    readItem (b :: bs) = .ok (⟨.byte, [b]⟩, bs) := by
  rw [readItem, Marker.ofByte_self h]
  rfl

theorem readItem_short {b : UInt8} {kind : Kind} {length : Nat}
    (h : Marker.ofByte b = .ok (.short kind length)) (bs : Bytes) :
    readItem (b :: bs) =
      if bs.length < length then .error (.status .unexpectedEnd)
      else .ok (⟨kind, bs.take length⟩, bs.drop length) := by
  have hread : readItem (b :: bs) = readPayload kind (b :: bs) 1 length := by
    rw [readItem, h]
    rfl
  rw [hread, readPayload_eq (by simp)]
  simp [Nat.add_comm 1 length]

theorem readItem_long {b : UInt8} {kind : Kind} {width : Nat}
    (h : Marker.ofByte b = .ok (.long kind width)) (hw : width ≤ wordBytes) (bs : Bytes) :
    readItem (b :: bs) =
      if bs.length < width + Bytes.value (bs.take width) then .error (.status .unexpectedEnd)
      else .ok (⟨kind, (bs.drop width).take (Bytes.value (bs.take width))⟩,
        bs.drop (width + Bytes.value (bs.take width))) := by
  have hadd : Checked.add Checked.addressBits 1 width = .ok (1 + width) :=
    Checked.add_eq_ok (by unfold Checked.addressBits; unfold wordBytes at hw; omega)
  rw [readItem, h]
  simp only [Stop.liftM_checked_ok, Checked.ok_bind]
  rw [readLength, if_neg (by omega)]
  by_cases hshort : bs.length < width
  · rw [if_pos (by simp; omega), if_pos (by omega)]
    rfl
  · have hlen : (bs.take width).length ≤ wordBytes := by
      rw [List.length_take]
      omega
    rw [if_neg (by simp; omega)]
    simp only [List.drop_succ_cons, List.drop_zero]
    rw [readWord_of_le hlen]
    simp only [Checked.ok_bind, hadd, Stop.liftM_checked_ok]
    rw [readPayload_eq (by simp; omega)]
    simp only [List.length_cons, Nat.add_comm 1 width, Nat.add_right_comm width 1,
      List.drop_succ_cons]
    by_cases hlong : bs.length < width + Bytes.value (bs.take width)
    · rw [if_pos (by omega), if_pos hlong]
    · rw [if_neg (by omega), if_neg (by omega)]

theorem readItem_consumes {bs rest : Bytes} {item : Item} (h : readItem bs = .ok (item, rest)) :
    rest.length < bs.length := by
  have hshort : ∀ {b : UInt8} {kind : Kind} {length : Nat} {bs : Bytes},
      Marker.ofByte b = .ok (.short kind length) → readItem (b :: bs) = .ok (item, rest) →
        rest.length < (b :: bs).length := by
    intro b kind length bs hm h
    rw [readItem_short hm] at h
    split at h
    · cases h
    · cases h
      rw [List.length_drop, List.length_cons]
      omega
  have hlong : ∀ {b : UInt8} {kind : Kind} {width : Nat} {bs : Bytes},
      Marker.ofByte b = .ok (.long kind width) → width ≤ wordBytes →
        readItem (b :: bs) = .ok (item, rest) → rest.length < (b :: bs).length := by
    intro b kind width bs hm hw h
    rw [readItem_long hm hw] at h
    split at h
    · cases h
    · cases h
      rw [List.length_drop, List.length_cons]
      omega
  cases bs with
  | nil => cases h
  | cons b bs =>
    have hb := b.toNat_lt
    by_cases h1 : b.toNat < 0x80
    · rw [readItem_self h1] at h
      cases h
      simp
    · by_cases h2 : b.toNat ≤ 0xB7
      · exact hshort (Marker.ofByte_short_string (by omega) h2) h
      · by_cases h3 : b.toNat < 0xC0
        · exact hlong (Marker.ofByte_long_string (by omega) h3) (by unfold wordBytes; omega) h
        · by_cases h4 : b.toNat ≤ 0xF7
          · exact hshort (Marker.ofByte_short_list (by omega) h4) h
          · exact hlong (Marker.ofByte_long_list (by omega)) (by unfold wordBytes; omega) h

/-! ## Scanning -/

/-- The items of a byte string in order, each with what is left after it, and why the scan ended
before the end of the bytes, if it did. -/
structure Scan where
  items : List (Item × Bytes)
  stop : Option Stop
  deriving DecidableEq, Repr

def Scan.cons (item : Item) (rest : Bytes) (more : Scan) : Scan :=
  ⟨(item, rest) :: more.items, more.stop⟩

/-- Takes items off the front until nothing is left or no item can be read. -/
def scan : Bytes → Scan
  | [] => ⟨[], none⟩
  | b :: bs =>
    match _h : readItem (b :: bs) with
    | .error e => ⟨[], some e⟩
    | .ok (item, rest) => (scan rest).cons item rest
termination_by bs => bs.length
decreasing_by exact readItem_consumes _h

/-- A scan that asks for a first item even when there are no bytes. -/
def scanSome (bs : Bytes) : Scan :=
  match readItem bs with
  | .error e => ⟨[], some e⟩
  | .ok (item, rest) => (scan rest).cons item rest

theorem scan_nil : scan [] = ⟨[], none⟩ := by rw [scan]

theorem scan_of_ok {bs rest : Bytes} {item : Item} (h : readItem bs = .ok (item, rest)) :
    scan bs = (scan rest).cons item rest := by
  cases bs with
  | nil => cases h
  | cons b bs =>
    rw [scan]
    split
    · rename_i e he
      rw [h] at he
      cases he
    · rename_i item' rest' he
      rw [h] at he
      cases he
      rfl

theorem scan_of_error {bs : Bytes} {e : Stop} (hbs : bs ≠ []) (h : readItem bs = .error e) :
    scan bs = ⟨[], some e⟩ := by
  cases bs with
  | nil => exact absurd rfl hbs
  | cons b bs =>
    rw [scan]
    split
    · rename_i e' he
      rw [h] at he
      cases he
      rfl
    · rename_i item' rest' he
      rw [h] at he
      cases he

end ClearSign.Rlp
