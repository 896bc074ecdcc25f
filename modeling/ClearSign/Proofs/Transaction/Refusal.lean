import ClearSign.Proofs.Transaction.Layout
/-!
# Why a buffer is refused

A buffer is refused because it is malformed, because of a policy, or with `unexpected`, which says
that no item names a network where one has to.  Most reasons can come from many steps of the reader.
Those that come from one place only are told apart here by what the buffer holds at that place:

* `Envelope.Reaches` says which item the reader takes for the name of the network, once it has come
  so far; `fails_decode_iff` that it is refused with that item exactly when that item is refused.
* `refusal_of_parse` puts this together for whole buffers.
-/

namespace ClearSign

open Decoder

/-! ## The item that should name the network -/

/-- The reader of the list comes to `id` as the name of the network.  As many items stand before it
as the form has there, and the recipient, where it is one of them, is acceptable. -/
def Envelope.Reaches (e : Envelope) (payload : Bytes) (id : Rlp.Item) : Prop :=
  ∃ front next rest, Rlp.Takes payload front next ∧ front.length = e.layout.chainId ∧
    (∀ recipient ∈ front[e.layout.recipient]?, recipient.IsRecipient) ∧
    Rlp.readItem next = .ok (id, rest)

theorem Envelope.reaches_iff_of_first {e : Envelope} {payload : Bytes} {id : Rlp.Item}
    (he : e.layout.chainId = 0) :
    e.Reaches payload id ↔ ∃ rest, Rlp.readItem payload = .ok (id, rest) := by
  constructor
  · rintro ⟨front, next, rest, htakes, hlen, -, hid⟩
    rw [he] at hlen
    have hfront : front = [] := List.length_eq_zero_iff.1 hlen
    rw [hfront, Rlp.takes_nil] at htakes
    rw [htakes]
    exact ⟨rest, hid⟩
  · rintro ⟨rest, hid⟩
    refine ⟨[], payload, rest, rfl, he.symm, ?_, hid⟩
    intro recipient h
    cases h

/-- The common fields are read off any six items of which the fourth may be a recipient. -/
theorem BaseFields.exists_reads_iff {bs rest : Bytes} :
    (∃ base, Reads decode bs base rest) ↔
      ∃ items, Rlp.Takes bs items rest ∧ items.length = 6 ∧
        ∀ recipient ∈ items[3]?, recipient.IsRecipient := by
  simp only [readsItems_decode bs _ rest]
  constructor
  · rintro ⟨base, items, htakes, hspelled⟩
    obtain ⟨recipient, hplace, hrecipient⟩ := hspelled.recipient
    refine ⟨items, htakes, hspelled.length_eq, ?_⟩
    intro recipient' h
    cases Option.mem_unique h hplace
    exact hrecipient
  · rintro ⟨items, htakes, hlen, hrecipient⟩
    match items, hlen with
    | [i1, i2, i3, i4, i5, i6], _ =>
      obtain ⟨base, hbase⟩ := Transaction.exists_base (hrecipient i4 rfl)
      exact ⟨base, _, htakes, hbase⟩

section

variable {payload : Bytes} {s : Status} (hs : s ∈ ChainId.refusals)

include hs

theorem Transaction.notMem_fieldRefusals : s ∉ fieldRefusals := by
  have hdisjoint : ∀ s ∈ ChainId.refusals, s ∉ fieldRefusals := by decide
  exact hdisjoint s hs

/-- When the other fields come after the network, only the network is refused as one. -/
theorem ChainId.fails_field_bind {α : Type} {f : ChainId → Decoder α}
    (hf : ∀ c, (f c).EndsIn Transaction.fieldRefusals) :
    Fails (field >>= f) payload (.status s) ↔
      ∃ id rest, Rlp.readItem payload = .ok (id, rest) ∧
        (ofItem id).outcome = .error (.status s) := by
  rw [fails_bind_of_endsIn hf (Transaction.notMem_fieldRefusals hs), fails_field_iff hs]

theorem LegacyTx.fails_decode_iff :
    Fails decode payload (.status s) ↔
      ∃ base next, Reads BaseFields.decode payload base next ∧
        ∃ id rest, Rlp.readItem next = .ok (id, rest) ∧
          (ChainId.ofItem id).outcome = .error (.status s) := by
  have hbase : ∀ s ∈ ChainId.refusals, s ∉ [Status.unexpectedEnd, .invalidAddress] := by decide
  unfold decode
  rw [fails_enter_bind, BaseFields.endsIn_decode.fails_bind (hbase s hs)]
  apply exists_congr
  intro base
  apply exists_congr
  intro next
  apply and_congr_right
  intro _
  rw [endsIn_atEnd.fails_bind (Transaction.notMem_fieldRefusals hs)]
  simp only [reads_atEnd]
  cases next with
  | nil =>
      -- Nothing follows the common fields, and there is no item to be refused.
      constructor
      · rintro ⟨_, _, ⟨rfl, rfl⟩, h⟩
        cases h
      · rintro ⟨_, _, h, -⟩
        cases h
  | cons b next =>
      rw [← ChainId.fails_field_bind hs (endsIn_decodeSignature base)]
      constructor
      · rintro ⟨_, _, ⟨rfl, rfl⟩, h⟩
        exact h
      · intro h
        exact ⟨_, _, ⟨rfl, rfl⟩, h⟩

theorem Transaction.fails_decodeBody_iff {e : Envelope} :
    Fails (decodeBody e) payload (.status s) ↔
      ∃ id, e.Reaches payload id ∧ (ChainId.ofItem id).outcome = .error (.status s) := by
  cases e with
  | legacy =>
      rw [decodeBody, fails_map, LegacyTx.fails_decode_iff hs]
      constructor
      · rintro ⟨base, next, hbase, id, rest, hid, hrefused⟩
        obtain ⟨front, htakes, hlen, hrecipient⟩ := BaseFields.exists_reads_iff.1 ⟨base, hbase⟩
        exact ⟨id, ⟨front, next, rest, htakes, hlen, hrecipient, hid⟩, hrefused⟩
      · rintro ⟨id, ⟨front, next, rest, htakes, hlen, hrecipient, hid⟩, hrefused⟩
        obtain ⟨base, hbase⟩ := BaseFields.exists_reads_iff.2 ⟨front, htakes, hlen, hrecipient⟩
        exact ⟨base, next, hbase, id, rest, hid, hrefused⟩
  | accessList =>
      have hfirst : Envelope.accessList.layout.chainId = 0 := rfl
      rw [decodeBody, fails_map, AccessListTx.decode, fails_enter_bind,
        ChainId.fails_field_bind hs AccessListTx.endsIn_fields]
      simp only [Envelope.reaches_iff_of_first hfirst, exists_and_right]
  | feeMarket =>
      have hfirst : Envelope.feeMarket.layout.chainId = 0 := rfl
      rw [decodeBody, fails_map, FeeMarketTx.decode, fails_enter_bind,
        ChainId.fails_field_bind hs FeeMarketTx.endsIn_fields]
      simp only [Envelope.reaches_iff_of_first hfirst, exists_and_right]

end

/-! ## Whole buffers -/

/-- The first byte is the mark of no form. -/
def Envelope.Unmarked (raw : Bytes) : Prop :=
  ∃ b rest, raw = b :: rest ∧ b ≠ 0x01 ∧ b ≠ 0x02 ∧ b.toNat < 0xC0

theorem Envelope.fails_decode_iff {raw : Bytes} {stop : Stop} :
    Fails decode raw stop ↔
      raw = [] ∧ stop = .status .unexpected ∨ Unmarked raw ∧ stop = .status .unsupportedTx := by
  cases raw with
  | nil => simp [Fails, run_decode_nil, Unmarked, eq_comm]
  | cons b rest =>
      rw [Fails, outcome_decode_cons]
      by_cases h1 : b = 0x01
      · simp [h1, Unmarked]
      · by_cases h2 : b = 0x02
        · simp [h2, Unmarked]
        · by_cases h3 : 0xC0 ≤ b.toNat
          · simp [h1, h2, h3, Unmarked, Nat.not_lt.2 h3]
          · simp [h1, h2, h3, Unmarked, Nat.lt_of_not_le h3, eq_comm]

namespace Transaction

/-- The steps between the mark and the fields have three reasons of their own.  Any other comes from
the mark or from the fields of a frame. -/
theorem fails_decode_iff {raw : Bytes} {s : Status}
    (hs : s ∉ [Status.unexpectedValue, .unexpectedEnd, .unexpectedCharacters]) :
    Fails decode raw (.status s) ↔
      Fails Envelope.decode raw (.status s) ∨
        ∃ e payload, e.Frames payload raw ∧ Fails (decodeBody e) payload (.status s) := by
  unfold decode
  rw [fails_enter_bind, fails_bind]
  apply or_congr_right
  constructor
  · rintro ⟨e, frame, hmark, h⟩
    obtain ⟨⟨kind, payload⟩, rest, hframe, hcheck⟩ := ((endsIn_item (by decide)).fails_bind hs).1 h
    obtain ⟨_, _, hlist, hend⟩ := ((endsIn_ensure _ (by decide) rfl).fails_bind hs).1 hcheck
    obtain ⟨_, _, hfinish, hbody⟩ := ((endsIn_finish (by decide)).fails_bind hs).1 hend
    obtain ⟨hkind, rfl⟩ := reads_ensure.1 hlist
    obtain ⟨rfl, rfl⟩ := reads_finish.1 hfinish
    obtain rfl : kind = .list := of_decide_eq_true hkind
    exact ⟨e, payload, Envelope.frames_iff.2 ⟨frame, hmark, hframe⟩, fails_within.1 hbody⟩
  · rintro ⟨e, payload, hframes, h⟩
    obtain ⟨frame, hmark, hframe⟩ := Envelope.frames_iff.1 hframes
    refine ⟨e, frame, hmark, ?_⟩
    apply (reads_item.2 hframe).fails_bind
    apply ((reads_ensure (u := ())).2 ⟨rfl, rfl⟩).fails_bind
    apply ((reads_finish (u := ())).2 ⟨rfl, rfl⟩).fails_bind
    exact fails_within.2 h

end Transaction

namespace Review

variable {raw : Bytes}

/-- The reader of a buffer comes to `id` as the name of the network. -/
def Reaches (raw : Bytes) (id : Rlp.Item) : Prop :=
  ∃ (e : Envelope) (payload : Bytes), e.Frames payload raw ∧ e.Reaches payload id

/-- A buffer is refused as the name of a network is, when the reader comes to one. -/
theorem outcome_parse_of_network {s : Status} (hs : s ∈ ChainId.refusals) :
    (parse raw).outcome = .error (.status s) ↔
      raw = [] ∧ s = .unexpected ∨
        ∃ id, Reaches raw id ∧ (ChainId.ofItem id).outcome = .error (.status s) := by
  have hsteps : ∀ s ∈ ChainId.refusals,
      s ∉ [Status.unexpectedValue, .unexpectedEnd, .unexpectedCharacters] ∧ s ≠ .unsupportedTx := by
    decide
  obtain ⟨hstep, hmark⟩ := hsteps s hs
  rw [outcome_parse_eq_error_iff, Transaction.fails_decode_iff hstep, Envelope.fails_decode_iff]
  simp only [Transaction.fails_decodeBody_iff hs, Stop.status.injEq, hmark, and_false, or_false]
  apply or_congr_right
  constructor
  · rintro ⟨e, payload, hframes, id, hreaches, hrefused⟩
    exact ⟨id, ⟨e, payload, hframes, hreaches⟩, hrefused⟩
  · rintro ⟨id, ⟨e, payload, hframes, hreaches⟩, hrefused⟩
    exact ⟨e, payload, hframes, id, hreaches, hrefused⟩

theorem outcome_parse_eq_unsupportedTx_iff :
    (parse raw).outcome = .error (.status .unsupportedTx) ↔ Envelope.Unmarked raw := by
  rw [outcome_parse_eq_error_iff, Transaction.fails_decode_iff (by decide),
    Envelope.fails_decode_iff]
  have hbody : ∀ e payload, ¬Fails (Transaction.decodeBody e) payload (.status .unsupportedTx) :=
    fun e payload => (Transaction.endsIn_decodeBody e).not_fails (by decide) payload
  simp [hbody]

/-- Each reason belongs to exactly one of the three kinds, and the reason tells the place where the
kinds of items or a first byte decide. -/
theorem refusal_of_parse (raw : Bytes) :
    (∀ stop, (parse raw).outcome = .error stop → ∃ s : Status, stop = .status s ∧
        [s.isMalformedInput, s.isPolicyRejection, s == .unexpected].count true = 1 ∧
        s ∉ [.ok, .noData, .pageOutOfRange, .contextMismatch, .unexpectedNumberItems]) ∧
      ((parse raw).outcome = .error (.status .unexpected) ↔
        raw = [] ∨ ∃ id, Reaches raw id ∧
          (id.payload = [] ∨ id.payload.length = 1 ∧ id.kind ≠ .byte)) ∧
      ((parse raw).outcome = .error (.status .valueOutOfRange) ↔
        ∃ id, Reaches raw id ∧ 8 < id.payload.length) ∧
      ((parse raw).outcome = .error (.status .unsupportedTx) ↔
        ∃ b rest, raw = b :: rest ∧ b ≠ 0x01 ∧ b ≠ 0x02 ∧ b.toNat < 0xC0) := by
  refine ⟨?_, ?_, ?_, outcome_parse_eq_unsupportedTx_iff⟩
  · intro stop hstop
    obtain ⟨s, hs, rfl, -⟩ := (endsIn_parse raw).refused stop hstop
    have hkinds : ∀ s ∈ Transaction.refusals,
        [s.isMalformedInput, s.isPolicyRejection, s == .unexpected].count true = 1 ∧
          s ∉ [.ok, .noData, .pageOutOfRange, .contextMismatch, .unexpectedNumberItems] := by
      decide
    exact ⟨s, rfl, hkinds s hs⟩
  · rw [outcome_parse_of_network (by decide)]
    simp only [ChainId.ofItem_eq_unexpected_iff, ChainId.Unnumbered, and_true]
  · rw [outcome_parse_of_network (by decide)]
    simp only [ChainId.ofItem_eq_valueOutOfRange_iff, reduceCtorEq, and_false, false_or, wordBytes]

/-- The network is named by a byte that would be an item by itself, but is wrapped in a string. -/
def wrappedByte : Bytes := [0x81, 0x05]

/-- Nine bytes stand where the network should be named, after six empty fields. -/
def nineBytes : Bytes :=
  [0x80, 0x80, 0x80, 0x80, 0x80, 0x80, 0x89, 0, 0, 0, 0, 0, 0, 0, 0x0D, 0x0A]

theorem refusal_of_network :
    (parse (0x01 :: 0xC2 :: wrappedByte)).outcome = .error (.status .unexpected) ∧
      (parse (0xD0 :: nineBytes)).outcome = .error (.status .valueOutOfRange) ∧
      ∃ s : Status, (parse (0xD0 :: nineBytes)).outcome = .error (.status s) ∧
        [s.isMalformedInput, s.isPolicyRejection, s == .unexpected].count true = 1 := by
  obtain ⟨-, hunexpected, -, -⟩ := refusal_of_parse (0x01 :: 0xC2 :: wrappedByte)
  obtain ⟨hkinds, -, hrange, -⟩ := refusal_of_parse (0xD0 :: nineBytes)
  have hwrapped : Reaches (0x01 :: 0xC2 :: wrappedByte) ⟨.string, [0x05]⟩ := by
    refine ⟨.accessList, wrappedByte, ⟨_, rfl, ?_, nofun⟩, [], wrappedByte, [], rfl, rfl, nofun, ?_⟩
    · exact Rlp.readItem_shortList (by decide) (by decide) (by decide)
    · rw [wrappedByte, Rlp.readItem_short (Rlp.Marker.ofByte_short_string (by decide) (by decide))]
      simp
  have hlong : Reaches (0xD0 :: nineBytes) ⟨.string, [0, 0, 0, 0, 0, 0, 0, 0x0D, 0x0A]⟩ := by
    refine ⟨.legacy, nineBytes, ⟨_, rfl, ?_, ?_⟩, List.replicate 6 ⟨.string, []⟩,
      nineBytes.drop 6, [], ?_, rfl, ?_, ?_⟩
    · exact Rlp.readItem_shortList (by decide) (by decide) (by decide)
    · intro _ b hb
      cases hb
      decide
    · exact ⟨_, Rlp.readItem_empty _, _, Rlp.readItem_empty _, _, Rlp.readItem_empty _,
        _, Rlp.readItem_empty _, _, Rlp.readItem_empty _, _, Rlp.readItem_empty _, rfl⟩
    · intro recipient h
      cases h
      exact .inl rfl
    · rw [nineBytes]
      simp only [List.drop_succ_cons, List.drop_zero]
      rw [Rlp.readItem_short (Rlp.Marker.ofByte_short_string (by decide) (by decide))]
      simp
  have hnine := hrange.2 ⟨_, hlong, by decide⟩
  refine ⟨hunexpected.2 (.inr ⟨_, hwrapped, .inr ⟨rfl, by decide⟩⟩), hnine, ?_⟩
  obtain ⟨s, hs, hone, -⟩ := hkinds _ hnine
  rw [hs] at hnine
  exact ⟨s, hnine, hone⟩

end Review

end ClearSign
