import ClearSign.Rlp.Encode
import ClearSign.Proofs.Rlp.Items
/-!
# Reading back a row of items

Items written one after the other in their shortest form are taken off again in the same order,
whatever follows them.  A string is read back under the kind that its bytes tell.
-/

namespace ClearSign.Rlp

/-- A string as it is read back. -/
def Item.ofString (bs : Bytes) : Item := ⟨stringKind bs, bs⟩

def Item.ofList (payload : Bytes) : Item := ⟨.list, payload⟩

/-- The shortest form of an item. -/
def Item.encode (item : Item) : Bytes :=
  if item.kind = .list then encodeList item.payload else encodeString item.payload

/-- The item is a list, or a string under its own kind. -/
def Item.IsCanonical (item : Item) : Prop :=
  item = ofList item.payload ∨ item = ofString item.payload

theorem Item.isCanonical_ofString (bs : Bytes) : (ofString bs).IsCanonical := .inr rfl

theorem Item.isCanonical_ofList (payload : Bytes) : (ofList payload).IsCanonical := .inl rfl

@[simp] theorem Item.encode_ofString (bs : Bytes) : (ofString bs).encode = encodeString bs :=
  if_neg (stringKind_ne_list bs)

@[simp] theorem Item.encode_ofList (payload : Bytes) :
    (ofList payload).encode = encodeList payload :=
  if_pos rfl

theorem length_le_encodeString (bs : Bytes) : bs.length ≤ (encodeString bs).length := by
  unfold encodeString
  split
  · exact Nat.le_refl _
  · rw [List.length_append]
    exact Nat.le_add_left _ _

theorem length_le_encodeList (payload : Bytes) : payload.length ≤ (encodeList payload).length := by
  rw [encodeList, List.length_append]
  exact Nat.le_add_left _ _

theorem Item.length_le_encode (item : Item) : item.payload.length ≤ item.encode.length := by
  unfold encode
  split
  · exact length_le_encodeList _
  · exact length_le_encodeString _

theorem Item.readItem_encode {item : Item} (hc : item.IsCanonical)
    (hlen : item.payload.length < 2 ^ 64) (rest : Bytes) :
    readItem (item.encode ++ rest) = .ok (item, rest) := by
  rcases hc with hc | hc
  · rw [hc, encode_ofList]
    exact readItem_encodeList (width_le_of_lt hlen) rest
  · rw [hc, encode_ofString]
    exact readItem_encodeString (width_le_of_lt hlen) rest

theorem Item.length_le_flatMap_encode {item : Item} {items : List Item} (h : item ∈ items) :
    item.payload.length ≤ (items.flatMap encode).length := by
  obtain ⟨front, back, rfl⟩ := List.append_of_mem h
  have hitem := item.length_le_encode
  rw [List.flatMap_append, List.flatMap_cons, List.length_append, List.length_append]
  omega

theorem takes_encode {items : List Item} (hc : ∀ item ∈ items, item.IsCanonical)
    (hlen : ∀ item ∈ items, item.payload.length < 2 ^ 64) (rest : Bytes) :
    Takes (items.flatMap Item.encode ++ rest) items rest := by
  induction items with
  | nil => exact rfl
  | cons item items ih =>
      refine takes_cons.2 ⟨items.flatMap Item.encode ++ rest, ?_, ?_⟩
      · rw [List.flatMap_cons, List.append_assoc]
        exact Item.readItem_encode (hc item List.mem_cons_self) (hlen item List.mem_cons_self) _
      · exact ih (fun i hi => hc i (List.mem_cons_of_mem _ hi))
          fun i hi => hlen i (List.mem_cons_of_mem _ hi)

/-- Items in their shortest form split into just these items. -/
theorem splits_encode {items : List Item} (hc : ∀ item ∈ items, item.IsCanonical)
    (hlen : ∀ item ∈ items, item.payload.length < 2 ^ 64) :
    Splits (items.flatMap Item.encode) items := by
  have htakes := takes_encode hc hlen []
  rw [List.append_nil] at htakes
  exact splits_iff_takes.2 htakes

end ClearSign.Rlp
