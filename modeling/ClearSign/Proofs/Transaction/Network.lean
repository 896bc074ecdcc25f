import ClearSign.Rlp.Encode
import ClearSign.Proofs.Transaction.Layout
/-!
# Which identifiers name a network

An item names a network when its payload has two to eight bytes and spells one of the accepted
numbers; the payload is kept as it came, leading zeros included.  Anything else is refused, and the
payload and the kind of the item tell how: `accepted_exactly`.  For a number in its shortest form
this is a matter of the number alone, with a gap between `0x80` and `0xFF` where a byte is wrapped
and so counts as no number.
-/

namespace ClearSign

namespace ChainId

variable {item : Rlp.Item} {c : ChainId}

/-! ## Identifiers that stand alone -/

/-- What stands alone is decided by its item. -/
theorem outcome_decode_of_item {bs rest : Bytes} (h : Rlp.readItem bs = .ok (item, rest)) :
    (decode.run bs).outcome = (ofItem item).outcome.map fun c => (c, rest) := by
  have hitem : Decoder.Reads Decoder.item bs item rest := Decoder.reads_item.2 h
  rw [decode, Decoder.Reads.outcome_bind ((Decoder.reads_enter (u := ())).2 rfl), field,
    hitem.outcome_bind, StateT.run_lift, Logged.outcome_bind]
  rfl

theorem reads_decode_of_item {bs rest rest' : Bytes} (h : Rlp.readItem bs = .ok (item, rest)) :
    Decoder.Reads decode bs c rest' ↔ (ofItem item).outcome = .ok c ∧ rest' = rest := by
  unfold Decoder.Reads
  rw [outcome_decode_of_item h]
  cases (ofItem item).outcome with
  | error stop => simp [Except.map]
  | ok c' => simp [Except.map, eq_comm]

theorem fails_decode_of_item {bs rest : Bytes} {stop : Stop}
    (h : Rlp.readItem bs = .ok (item, rest)) :
    Decoder.Fails decode bs stop ↔ (ofItem item).outcome = .error stop := by
  unfold Decoder.Fails
  rw [outcome_decode_of_item h]
  cases (ofItem item).outcome with
  | error stop' => simp [Except.map]
  | ok c' => simp [Except.map]

/-! ## Numbers in their shortest form -/

variable {n : Nat} {more rest : Bytes}

/-- The number is zero, or it fills a byte that is not its own encoding. -/
def Wrapped (n : Nat) : Prop := n = 0 ∨ 0x80 ≤ n ∧ n ≤ 0xFF

/-- The item as which the shortest form of a number is read. -/
def shortest (n : Nat) : Rlp.Item := ⟨Rlp.stringKind (Bytes.ofNat n), Bytes.ofNat n⟩

theorem length_shortest (n : Nat) : (shortest n).payload.length = Bytes.width n :=
  Bytes.length_ofNat n

theorem kind_shortest_eq_byte_iff : (shortest n).kind = .byte ↔ 0 < n ∧ n < 0x80 := by
  unfold shortest
  rw [Rlp.stringKind_eq_byte_iff]
  constructor
  · rintro ⟨b, hb, hlow⟩
    have hwidth : Bytes.width n = 1 := by rw [← Bytes.length_ofNat, hb]; rfl
    have hvalue : b.toNat = n := by rw [← Bytes.value_singleton b, ← hb, Bytes.value_ofNat]
    have hpos := Bytes.width_le_iff (n := n) (w := 0)
    omega
  · rintro ⟨hpos, hlow⟩
    have hone : Bytes.width n ≤ 1 := Bytes.width_le_iff.2 (by omega)
    have hsome := Rlp.width_pos hpos
    obtain ⟨b, hb⟩ := List.length_eq_one_iff.1
      (show (Bytes.ofNat n).length = 1 by rw [Bytes.length_ofNat]; omega)
    have hvalue : b.toNat = n := by rw [← Bytes.value_singleton b, ← hb, Bytes.value_ofNat]
    exact ⟨b, hb, by omega⟩

theorem unnumbered_shortest_iff : Unnumbered (shortest n) ↔ Wrapped n := by
  have hzero := Bytes.width_le_iff (n := n) (w := 0)
  have hone := Bytes.width_le_iff (n := n) (w := 1)
  unfold Unnumbered Wrapped
  rw [← List.length_eq_zero_iff, length_shortest, Ne, kind_shortest_eq_byte_iff]
  omega

theorem spelt_ofNat_iff : Spelt (Bytes.ofNat n) ↔ n ∈ supported := by
  rw [Spelt, Bytes.value_ofNat, Bytes.length_ofNat]
  constructor
  · rintro ⟨-, -, hs⟩
    exact hs
  · intro hs
    obtain ⟨hlow, hhigh⟩ := width_supported n hs
    exact ⟨hlow, hhigh, hs⟩

theorem readItem_encodeNat (hn : n < 2 ^ 64) (more : Bytes) :
    Rlp.readItem (Rlp.encodeNat n ++ more) = .ok (shortest n, more) := by
  have hwidth := Rlp.width_le_of_lt hn
  apply Rlp.readItem_encodeString
  apply Rlp.width_le_of_lt
  rw [Bytes.length_ofNat]
  unfold wordBytes at hwidth
  omega

theorem reads_decode_encodeNat (hn : n < 2 ^ 64) :
    Decoder.Reads decode (Rlp.encodeNat n ++ more) c rest ↔
      n ∈ supported ∧ c = ⟨Bytes.ofNat n, n⟩ ∧ rest = more := by
  have hvalue : (shortest n).payload.value = n := Bytes.value_ofNat n
  rw [reads_decode_of_item (readItem_encodeNat hn more), ofItem_eq_ok_iff_spelt, hvalue, and_assoc]
  exact and_congr_left' spelt_ofNat_iff

theorem fails_decode_encodeNat (hn : n < 2 ^ 64) {stop : Stop} :
    Decoder.Fails decode (Rlp.encodeNat n ++ more) stop ↔
      (ofItem (shortest n)).outcome = .error stop :=
  fails_decode_of_item (readItem_encodeNat hn more)

/-! ## Acceptance -/

/-- An identifier is accepted when it spells the number of an accepted network in two to eight bytes,
and its payload tells why it is refused otherwise.  So a number that is written in its shortest form
is taken off the front when it belongs to an accepted network, and the identifier of an accepted
transaction is the number of such a network. -/
theorem accepted_exactly :
    (∀ item : Rlp.Item,
        (∀ c, (ofItem item).outcome = .ok c ↔
          Spelt item.payload ∧ c = ⟨item.payload, Bytes.value item.payload⟩) ∧
        ((ofItem item).outcome = .error (.status .valueOutOfRange) ↔ 8 < item.payload.length) ∧
        ((ofItem item).outcome = .error (.status .unexpected) ↔
          item.payload = [] ∨ item.payload.length = 1 ∧ item.kind ≠ .byte) ∧
        ((ofItem item).outcome = .error (.status .invalidChainId) ↔
          ¬Spelt item.payload ∧ ¬8 < item.payload.length ∧
            ¬(item.payload = [] ∨ item.payload.length = 1 ∧ item.kind ≠ .byte))) ∧
      (∀ n, n < 2 ^ 64 → ∀ more,
        (∀ c rest, Decoder.Reads decode (Rlp.encodeNat n ++ more) c rest ↔
          n ∈ supported ∧ c = ⟨Bytes.ofNat n, n⟩ ∧ rest = more) ∧
        (Decoder.Fails decode (Rlp.encodeNat n ++ more) (.status .unexpected) ↔
          n = 0 ∨ 0x80 ≤ n ∧ n ≤ 0xFF) ∧
        (Decoder.Fails decode (Rlp.encodeNat n ++ more) (.status .invalidChainId) ↔
          n ∉ supported ∧ ¬(n = 0 ∨ 0x80 ≤ n ∧ n ≤ 0xFF))) ∧
      ∀ raw r c, (Review.parse raw).outcome = .ok r → r.tx.chainId = some c →
        c.id ∈ supported ∧ c.id = Bytes.value c.raw := by
  refine ⟨?_, ?_, ?_⟩
  · intro item
    refine ⟨fun c => ofItem_eq_ok_iff_spelt, ofItem_eq_valueOutOfRange_iff,
      ofItem_eq_unexpected_iff, ?_⟩
    rw [ofItem_eq_invalidChainId_iff, Nat.not_lt, and_comm (a := ¬Unnumbered item)]
    rfl
  · intro n hn more
    have hlen : (shortest n).payload.length ≤ 8 := by
      rw [length_shortest]
      exact Rlp.width_le_of_lt hn
    refine ⟨fun c rest => reads_decode_encodeNat hn, ?_, ?_⟩
    · rw [fails_decode_encodeNat hn, ofItem_eq_unexpected_iff]
      exact unnumbered_shortest_iff
    · rw [fails_decode_encodeNat hn, ofItem_eq_invalidChainId_iff, unnumbered_shortest_iff,
        and_iff_left hlen]
      exact and_congr_left' (not_congr spelt_ofNat_iff)
  · intro raw r c hparse hc
    obtain ⟨-, ⟨payload, items, -, -, hspelled⟩, -⟩ := Review.parse_eq_ok_iff.1 hparse
    obtain ⟨hid, hs⟩ := hspelled.readFrom.number c hc
    exact ⟨hs, hid⟩

/-- Two bytes of the main network stand behind six zeros, which are kept; with one zero more they are
too long.  The least number that needs a wrapper is refused as none, and the one before it as that
of no network. -/
theorem paddedIdentifier_accepted :
    (ofItem ⟨.string, List.replicate 6 0 ++ [0x0D, 0x0A]⟩).outcome =
        .ok ⟨List.replicate 6 0 ++ [0x0D, 0x0A], 3338⟩ ∧
      (ofItem ⟨.string, List.replicate 7 0 ++ [0x0D, 0x0A]⟩).outcome =
        .error (.status .valueOutOfRange) ∧
      Rlp.encodeNat 3338 = [0x82, 0x0D, 0x0A] ∧
      Decoder.Reads decode (Rlp.encodeNat 3338 ++ [0x80]) ⟨[0x0D, 0x0A], 3338⟩ [0x80] ∧
      Decoder.Fails decode (Rlp.encodeNat 0x80 ++ [0x80]) (.status .unexpected) ∧
      Decoder.Fails decode (Rlp.encodeNat 0x7F ++ [0x80]) (.status .invalidChainId) ∧
      ∃ r c, (Review.parse Review.eightItems).outcome = .ok r ∧ r.tx.chainId = some c ∧
        c.id ∈ supported ∧ c.id = Bytes.value c.raw := by
  obtain ⟨hitem, hnumber, hparse⟩ := accepted_exactly
  obtain ⟨hread, -, -⟩ := hnumber 3338 (by decide) [0x80]
  obtain ⟨-, hwrapped, -⟩ := hnumber 0x80 (by decide) [0x80]
  obtain ⟨-, -, hother⟩ := hnumber 0x7F (by decide) [0x80]
  obtain ⟨r, c, hr, hc⟩ : ∃ r c, (Review.parse Review.eightItems).outcome = .ok r ∧
      r.tx.chainId = some c := ⟨_, _, rfl, rfl⟩
  have hpadded : Spelt (List.replicate 6 0 ++ [0x0D, 0x0A]) := ⟨by decide, by decide, by decide⟩
  refine ⟨((hitem _).1 _).2 ⟨hpadded, rfl⟩, (hitem _).2.1.2 (by decide), by decide,
    (hread _ _).2 ⟨by decide, rfl, rfl⟩, hwrapped.2 (by decide), hother.2 (by decide), r, c, hr, hc,
    hparse _ _ _ hr hc⟩

end ChainId

end ClearSign
