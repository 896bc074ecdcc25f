import ClearSign.Proofs.Rlp.Header
/-!
# Rows of items

A list of items is laid out one item after the other, so a byte string is taken apart by reading
items off its front.  `Takes bs items rest` says that `items` stand at the front of `bs` and `rest`
is what follows them; `Splits bs items` says that a scan of `bs` finds `items` and nothing else.

* `readItem_append`, `readItem_of_append`: bytes after an item have no part in it, and an item that
  is cut short is no item.
* `takes_append`: a row of items is taken off in parts.
* `splits_iff_takes`: a byte string splits into the items that can be taken off it one by one.
-/

namespace ClearSign.Rlp

/-! ## One item -/

theorem readItem_empty (rest : Bytes) : readItem (0x80 :: rest) = .ok (⟨.string, []⟩, rest) := by
  rw [readItem_short (Marker.ofByte_short_string (by decide) (by decide))]
  simp

/-- A list that takes up all the bytes. -/
theorem readItem_shortList {b : UInt8} {payload : Bytes} (h : 0xC0 ≤ b.toNat)
    (h' : b.toNat ≤ 0xF7) (hlen : payload.length = b.toNat - 0xC0) :
    readItem (b :: payload) = .ok (⟨.list, payload⟩, []) := by
  rw [readItem_short (Marker.ofByte_short_list h h'), ← hlen, if_neg (Nat.lt_irrefl _),
    List.take_length, List.drop_length]

/-- Bytes after an item have no part in it. -/
theorem readItem_append {bs rest : Bytes} {item : Item} (h : readItem bs = .ok (item, rest))
    (more : Bytes) : readItem (bs ++ more) = .ok (item, rest ++ more) := by
  obtain ⟨header, hheader, rfl⟩ := exists_front_of_readItem h
  refine readItem_eq_ok_iff.2 ⟨header, hheader, ?_⟩
  rw [List.append_assoc _ rest more]

/-- Where an item is cut short, no shorter item is found in its place. -/
theorem readItem_of_append {front more rest : Bytes} {item : Item}
    (h : readItem (front ++ more) = .ok (item, rest)) (hcut : rest.length < more.length) :
    readItem front = .error (.status .unexpectedEnd) := by
  cases hfront : readItem front with
  | error e => rw [readItem_eq_error hfront]
  | ok r =>
      obtain ⟨item', rest'⟩ := r
      have happend := readItem_append hfront more
      rw [h] at happend
      cases happend
      rw [List.length_append] at hcut
      omega

theorem marker_of_readItem_list {b : UInt8} {bs rest : Bytes} {item : Item}
    (h : readItem (b :: bs) = .ok (item, rest)) (hl : item.kind = .list) : 0xC0 ≤ b.toNat := by
  obtain ⟨header, hheader, happend⟩ := exists_front_of_readItem h
  cases hheader with
  | self hb => cases hl
  | short hbase hlength hb =>
      cases hl
      cases hbase
      cases happend
      omega
  | long hbase hpos hwidth hb hvalue =>
      cases hl
      cases hbase
      cases happend
      omega

/-! ## Rows -/

/-- The items stand one after the other at the front of the bytes, and `rest` follows them. -/
def Takes : Bytes → List Item → Bytes → Prop
  | bs, [], rest => bs = rest
  | bs, item :: items, rest => ∃ next, readItem bs = .ok (item, next) ∧ Takes next items rest

@[simp] theorem takes_nil {bs rest : Bytes} : Takes bs [] rest ↔ bs = rest := Iff.rfl

theorem takes_cons {bs rest : Bytes} {item : Item} {items : List Item} :
    Takes bs (item :: items) rest ↔
      ∃ next, readItem bs = .ok (item, next) ∧ Takes next items rest := Iff.rfl

theorem takes_append {bs rest : Bytes} {xs ys : List Item} :
    Takes bs (xs ++ ys) rest ↔ ∃ next, Takes bs xs next ∧ Takes next ys rest := by
  induction xs generalizing bs with
  | nil => simp
  | cons x xs ih =>
      simp only [List.cons_append, takes_cons, ih]
      constructor
      · rintro ⟨mid, hx, next, hxs, hys⟩
        exact ⟨next, ⟨mid, hx, hxs⟩, hys⟩
      · rintro ⟨next, ⟨mid, hx, hxs⟩, hys⟩
        exact ⟨mid, hx, next, hxs, hys⟩

/-- The bytes are exactly these items: a scan finds them and meets the end after the last one. -/
def Splits (bs : Bytes) (items : List Item) : Prop :=
  (scan bs).stop = none ∧ (scan bs).items.map Prod.fst = items

instance (bs : Bytes) (items : List Item) : Decidable (Splits bs items) :=
  inferInstanceAs (Decidable (_ ∧ _))

theorem Splits.unique {bs : Bytes} {xs ys : List Item} (hx : Splits bs xs) (hy : Splits bs ys) :
    xs = ys := hx.2.symm.trans hy.2

theorem splits_nil_iff {bs : Bytes} : Splits bs [] ↔ bs = [] := by
  constructor
  · rintro ⟨hstop, hitems⟩
    refine Decidable.byContradiction fun hbs => ?_
    cases h : readItem bs with
    | error e =>
        rw [scan_of_error hbs h] at hstop
        cases hstop
    | ok r =>
        rw [scan_of_ok h] at hitems
        cases hitems
  · rintro rfl
    rw [Splits, scan_nil]
    exact ⟨rfl, rfl⟩

theorem splits_cons_iff {bs : Bytes} {item : Item} {items : List Item} :
    Splits bs (item :: items) ↔ ∃ next, readItem bs = .ok (item, next) ∧ Splits next items := by
  constructor
  · rintro ⟨hstop, hitems⟩
    have hbs : bs ≠ [] := by
      rintro rfl
      rw [scan_nil] at hitems
      cases hitems
    cases h : readItem bs with
    | error e =>
        rw [scan_of_error hbs h] at hstop
        cases hstop
    | ok r =>
        rw [scan_of_ok h] at hstop hitems
        obtain ⟨hitem, hrest⟩ := List.cons.inj hitems
        exact ⟨r.2, by rw [← hitem], hstop, hrest⟩
  · rintro ⟨next, h, hstop, hitems⟩
    rw [Splits, scan_of_ok h]
    exact ⟨hstop, congrArg (item :: ·) hitems⟩

theorem splits_iff_takes {bs : Bytes} {items : List Item} :
    Splits bs items ↔ Takes bs items [] := by
  induction items generalizing bs with
  | nil => exact splits_nil_iff
  | cons item items ih => simp only [splits_cons_iff, takes_cons, ih]

end ClearSign.Rlp
