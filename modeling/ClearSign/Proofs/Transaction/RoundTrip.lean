import ClearSign.Proofs.Rlp.RoundTrip
import ClearSign.Proofs.Transaction.Spelling
/-!
# Reading back what was written

Each transaction has a row of items, and these are what it is written as.  As the items spell the
transaction, the reader gives it back; so two transactions with the same encoding are the same.
-/

namespace ClearSign

open Rlp (Item)

/-! ## Identifiers and blank values -/

/-- A canonical identifier is read from its own bytes. -/
theorem ChainId.IsCanonical.ofItem_eq {c : ChainId} (h : c.IsCanonical) :
    (ofItem (Item.ofString c.raw)).outcome = .ok c := by
  obtain ⟨hs, hc⟩ := h
  obtain ⟨hlow, hhigh⟩ := width_supported c.id hs
  have hraw : c.raw = Bytes.ofNat c.id := congrArg ChainId.raw hc
  have hlen : (Item.ofString c.raw).payload.length = Bytes.width c.id := by
    rw [Item.ofString, hraw, Bytes.length_ofNat]
  refine ofItem_eq_ok_iff.2 ⟨?_, hs, rfl⟩
  rw [number_of_length (by omega) (by unfold wordBytes; omega), Item.ofString, hraw,
    Bytes.value_ofNat]

theorem BlankSignature.isBlank (b : BlankSignature) : (Item.ofString b.bytes).IsBlank := by
  refine ⟨Rlp.stringKind_ne_list _, ?_⟩
  cases b with
  | empty => exact .inl rfl
  | zero => exact .inr rfl

/-! ## The items of a transaction -/

def BaseFields.items (f : BaseFields) : List Item :=
  [f.nonce, f.gasPrice, f.gasLimit, Address.toField f.recipient, f.value, f.data].map Item.ofString

def Transaction.items (tx : Transaction) (r s : BlankSignature) : List Item :=
  match tx with
  | legacy tx =>
    tx.base.items ++
      match tx.chainId with
      | none => []
      | some c => [c.raw, r.bytes, s.bytes].map Item.ofString
  | accessList tx =>
    Item.ofString tx.chainId.raw :: tx.base.items ++ [Item.ofList tx.accessList.payload]
  | feeMarket tx =>
    [tx.chainId.raw, tx.nonce, tx.priorityFee, tx.maxFee, tx.gasLimit,
      Address.toField tx.recipient, tx.value, tx.data].map Item.ofString ++
      [Item.ofList tx.accessList.payload]

theorem BaseFields.encode_eq (f : BaseFields) : f.encode = f.items.flatMap Item.encode := by
  simp [encode, items, List.flatMap_cons]

theorem BaseFields.spelledBy_items (f : BaseFields) : f.SpelledBy f.items :=
  ⟨_, _, _, _, _, _, rfl, rfl, rfl, rfl, rfl, rfl, rfl⟩

namespace Transaction

theorem encodeBody_eq (tx : Transaction) (r s : BlankSignature) :
    tx.encodeBody r s = (tx.items r s).flatMap Item.encode := by
  cases tx with
  | legacy tx =>
      obtain ⟨base, chainId⟩ := tx
      cases chainId with
      | none => simp [encodeBody, LegacyTx.encode, items, BaseFields.encode_eq]
      | some c => simp [encodeBody, LegacyTx.encode, items, BaseFields.encode_eq]
  | accessList tx => simp [encodeBody, AccessListTx.encode, items, BaseFields.encode_eq]
  | feeMarket tx => simp [encodeBody, FeeMarketTx.encode, items]

theorem isCanonical_items (tx : Transaction) (r s : BlankSignature) :
    ∀ item ∈ tx.items r s, item.IsCanonical := by
  have hmap : ∀ (fields : List Bytes), ∀ item ∈ fields.map Item.ofString, item.IsCanonical := by
    intro fields item hitem
    obtain ⟨bs, -, rfl⟩ := List.mem_map.1 hitem
    exact Item.isCanonical_ofString bs
  intro item hitem
  cases tx with
  | legacy tx =>
      obtain ⟨base, chainId⟩ := tx
      rcases List.mem_append.1 hitem with h | h
      · exact hmap _ item h
      · cases chainId with
        | none => cases h
        | some c => exact hmap _ item h
  | accessList tx =>
      rcases List.mem_append.1 hitem with h | h
      · exact hmap (tx.chainId.raw :: _) item h
      · cases List.mem_singleton.1 h
        exact Item.isCanonical_ofList _
  | feeMarket tx =>
      rcases List.mem_append.1 hitem with h | h
      · exact hmap _ item h
      · cases List.mem_singleton.1 h
        exact Item.isCanonical_ofList _

theorem IsCanonical.spelledBy_items {tx : Transaction} (h : tx.IsCanonical)
    (r s : BlankSignature) : tx.SpelledBy (tx.items r s) := by
  obtain ⟨hid, hlist⟩ := h
  cases tx with
  | legacy tx =>
      obtain ⟨base, chainId⟩ := tx
      cases chainId with
      | none =>
          rw [items, List.append_nil]
          exact base.spelledBy_items
      | some c =>
          exact ⟨base.items, _, _, _, rfl, base.spelledBy_items, (hid c rfl).ofItem_eq, r.isBlank,
            s.isBlank⟩
  | accessList tx =>
      have hkind : tx.accessList.kind = .list := hlist _ rfl
      have hitem : Item.ofList tx.accessList.payload = tx.accessList := by
        rw [Item.ofList, ← hkind]
      refine ⟨_, tx.base.items, ?_, (hid _ rfl).ofItem_eq, tx.base.spelledBy_items, hkind⟩
      rw [items, hitem]
  | feeMarket tx =>
      have hkind : tx.accessList.kind = .list := hlist _ rfl
      have hitem : Item.ofList tx.accessList.payload = tx.accessList := by
        rw [Item.ofList, ← hkind]
      refine ⟨.ofString tx.chainId.raw, .ofString tx.nonce, .ofString tx.priorityFee,
        .ofString tx.maxFee, .ofString tx.gasLimit, .ofString (Address.toField tx.recipient),
        .ofString tx.value, .ofString tx.data, ?_, (hid _ rfl).ofItem_eq, rfl, rfl, rfl, rfl, rfl,
        rfl, rfl, hkind⟩
      rw [items, hitem]
      rfl

/-! ## The round trip -/

theorem length_encodeBody_le (tx : Transaction) (r s : BlankSignature) :
    (tx.encodeBody r s).length ≤ (tx.encode r s).length := by
  have hlist := Rlp.length_le_encodeList (tx.encodeBody r s)
  rw [encode, List.length_append]
  omega

theorem frames_encode {tx : Transaction} {r s : BlankSignature}
    (hlen : (tx.encode r s).length < 2 ^ 64) :
    tx.envelope.Frames (tx.encodeBody r s) (tx.encode r s) := by
  have hbody := tx.length_encodeBody_le r s
  have hread : Rlp.readItem (Rlp.encodeList (tx.encodeBody r s)) =
      .ok (⟨.list, tx.encodeBody r s⟩, []) := by
    have h := Rlp.readItem_encodeList (Rlp.width_le_of_lt (n := (tx.encodeBody r s).length)
      (by omega)) []
    rwa [List.append_nil] at h
  refine ⟨_, rfl, hread, ?_⟩
  intro he b hb
  rw [encode, he] at hb
  change b ∈ (Rlp.encodeList (tx.encodeBody r s)).head? at hb
  cases hframe : Rlp.encodeList (tx.encodeBody r s) with
  | nil =>
      rw [hframe] at hb
      cases hb
  | cons first more =>
      rw [hframe] at hb hread
      cases hb
      exact Rlp.marker_of_readItem_list hread rfl

theorem IsCanonical.writtenAs_encode {tx : Transaction} (h : tx.IsCanonical)
    {r s : BlankSignature} (hlen : (tx.encode r s).length < 2 ^ 64) :
    tx.WrittenAs (tx.encode r s) := by
  have hbody := tx.length_encodeBody_le r s
  refine ⟨tx.encodeBody r s, tx.items r s, frames_encode hlen, ?_, h.spelledBy_items r s⟩
  rw [encodeBody_eq] at hbody ⊢
  refine Rlp.splits_encode (tx.isCanonical_items r s) fun item hitem => ?_
  have hitem := Item.length_le_flatMap_encode hitem
  omega

/-- A canonical transaction is read back from its encoding as it was, however its blank signature
values are written, and no other canonical transaction has the same encoding. -/
theorem parse_encode (tx : Transaction) (r s : BlankSignature) (hc : tx.IsCanonical)
    (hlen : (tx.encode r s).length < 2 ^ 64) :
    (∃ review, (Review.parse (tx.encode r s)).outcome = .ok review ∧ review.tx = tx ∧
        review.raw = tx.encode r s) ∧
      ∀ (other : Transaction) (r' s' : BlankSignature), other.IsCanonical →
        other.encode r' s' = tx.encode r s → other = tx := by
  have hparse : ∀ (t : Transaction) (a b : BlankSignature), t.IsCanonical →
      (t.encode a b).length < 2 ^ 64 →
        ∃ review, (Review.parse (t.encode a b)).outcome = .ok review ∧ review.tx = t ∧
          review.raw = t.encode a b := by
    intro t a b ht hl
    exact ⟨⟨t.encode a b, t, Transfer.recognised t.recipient t.data⟩,
      Review.parse_eq_ok_iff.2 ⟨rfl, ht.writtenAs_encode hl, rfl⟩, rfl, rfl⟩
  refine ⟨hparse tx r s hc hlen, ?_⟩
  intro other r' s' ho heq
  obtain ⟨review, hreview, htx, -⟩ := hparse tx r s hc hlen
  obtain ⟨review', hreview', htx', -⟩ := hparse other r' s' ho (by rw [heq]; exact hlen)
  rw [heq, hreview] at hreview'
  cases hreview'
  rw [← htx, ← htx']

/-- A transaction bound to the main network whose data is too long for a short marker. -/
def longCall : Transaction :=
  .legacy
    { base :=
        { nonce := [0x09], gasPrice := [0x04, 0xA8, 0x17, 0xC8, 0x00], gasLimit := [0xFD, 0xE8],
          recipient := some ⟨List.replicate 20 0xCC, rfl⟩, value := [],
          data := List.replicate 70 0x80 }
      chainId := some (ChainId.ofNat 3338) }

theorem longCall_isCanonical : longCall.IsCanonical := by
  constructor
  · intro c hc
    cases hc
    exact ⟨by decide, rfl⟩
  · intro item hitem
    cases hitem

theorem longCall_read_back :
    longCall.IsCanonical ∧ (longCall.encode .empty .zero).length < 2 ^ 64 ∧
      (∃ review, (Review.parse (longCall.encode .empty .zero)).outcome = .ok review ∧
        review.tx = longCall ∧ review.raw = longCall.encode .empty .zero) ∧
      longCall.encode .zero .empty ≠ longCall.encode .empty .zero := by
  have hlen : (longCall.encode .empty .zero).length < 2 ^ 64 := by decide +kernel
  exact ⟨longCall_isCanonical, hlen,
    (parse_encode longCall .empty .zero longCall_isCanonical hlen).1, by decide +kernel⟩

end Transaction

end ClearSign
