import ClearSign.Proofs.Review.Pages
/-!
# Which transactions are shown as transfers

A transaction is shown in plain terms when its call is recognised as a transfer.  `Names` spells out
what such a call is, byte for byte, and `recognised_exactly` says that those calls are recognised and
no others.  What is shown as the amount is then the number in the last word of the call data.
-/

namespace ClearSign

namespace Transfer

/-! ## The bytes of a call -/

/-- What stands in front of the two arguments: the selector, and the zeros that fill up the first
word. -/
def opening : Bytes := [0xA9, 0x05, 0x9C, 0xBB] ++ List.replicate 12 0

/-- The recipient is `contract`, and the call data is the opening, the receiver and the amount with
nothing after them. -/
structure Names (recipient : Option Address) (data contract receiver amount : Bytes) : Prop where
  recipient_eq : recipient.map Octets.bytes = some contract
  length_receiver : receiver.length = 20
  length_amount : amount.length = 32
  data_eq : data = opening ++ receiver ++ amount

/-- The bytes of the three parts. -/
def parts (t : Transfer) : Bytes × Bytes × Bytes :=
  (t.contract.bytes, t.receiver.bytes, t.amount.bytes)

variable {recipient : Option Address} {data contract receiver amount : Bytes} {t : Transfer}

theorem callData_eq (receiver : Address) (amount : AbiWord) :
    callData receiver amount = opening ++ receiver.bytes ++ amount.bytes := rfl

theorem names_iff :
    Names recipient data contract receiver amount ↔
      ∃ t, recognised recipient data = some t ∧ t.parts = (contract, receiver, amount) := by
  simp only [recognised_eq_some_iff]
  constructor
  · rintro ⟨hcontract, hreceiver, hamount, hdata⟩
    obtain ⟨a, ha, rfl⟩ := Option.map_eq_some_iff.1 hcontract
    exact ⟨⟨a, ⟨receiver, hreceiver⟩, ⟨amount, hamount⟩⟩, ⟨ha, hdata⟩, rfl⟩
  · rintro ⟨t, ⟨rfl, rfl⟩, hparts⟩
    cases hparts
    exact ⟨rfl, t.receiver.length_bytes, t.amount.length_bytes, callData_eq _ _⟩

theorem recognised_eq_none_iff :
    recognised recipient data = none ↔
      ∀ contract receiver amount, ¬Names recipient data contract receiver amount := by
  simp only [names_iff]
  constructor
  · rintro hnone contract receiver amount ⟨t, ht, -⟩
    rw [hnone] at ht
    cases ht
  · intro hnames
    apply Option.eq_none_iff_forall_ne_some.2
    intro t ht
    exact hnames _ _ _ ⟨t, ht, rfl⟩

theorem Names.length_eq (h : Names recipient data contract receiver amount) : data.length = 68 := by
  have hopening : opening.length = 16 := rfl
  rw [h.data_eq, List.length_append, List.length_append, hopening, h.length_receiver,
    h.length_amount]

theorem Names.getElem?_eq (h : Names recipient data contract receiver amount) {i : Nat}
    (hi : i < 16) : data[i]? = opening[i]? := by
  rw [h.data_eq, List.append_assoc, List.getElem?_append_left hi]

/-- The two arguments stand side by side behind the opening. -/
theorem data_eq_of_recognised (h : recognised recipient data = some t) :
    t.receiver.bytes = (data.drop 16).take 20 ∧ t.amount.bytes = data.drop 36 ∧
      data = opening ++ (data.drop 16).take 20 ++ data.drop 36 := by
  obtain ⟨-, rfl⟩ := recognised_eq_some_iff.1 h
  have hreceiver := receiverArgument_callData t.receiver t.amount
  have hlen := length_callData t.receiver t.amount
  have hamount := amountArgument_callData t.receiver t.amount
  rw [receiverArgument] at hreceiver
  rw [amountArgument, List.take_of_length_le (by rw [List.length_drop]; omega)] at hamount
  refine ⟨hreceiver.symm, hamount.symm, ?_⟩
  rw [hreceiver, hamount]
  exact callData_eq _ _

end Transfer

/-! ## The amount that is shown -/

namespace Review

variable {raw : Bytes} {r : Review} {t : Transfer}

/-- Whoever looks at the review, its third item is the amount, and that is shown as this text. -/
def ShowsAmount (r : Review) (text : Bytes) : Prop :=
  ∀ expert, ∃ rows, r.rows expert = .ok rows ∧ rows[2]? = some .amount ∧
    ∀ (page : Nat) (screen : Screen), Field.amount.label.length < screen.title.length →
      2 ≤ screen.message.length →
        (r.renderItem expert 2 page screen).outcome =
          .ok (pageView Field.amount.label text page screen.title.length screen.message.length)

theorem amountArgument_of_parse (hparse : (parse raw).outcome = .ok r)
    (ht : r.transfer = some t) :
    Transfer.amountArgument r.tx.data = r.tx.data.drop (r.tx.data.length - 32) := by
  have hlen := Transfer.length_callData t.receiver t.amount
  rw [← (transfer_of_parse hparse ht).2] at hlen
  rw [Transfer.amountArgument, hlen, List.take_of_length_le (by rw [List.length_drop]; omega)]

theorem showsAmount_of_transfer (hparse : (parse raw).outcome = .ok r)
    (ht : r.transfer = some t) :
    r.ShowsAmount (Decimal.text (Bytes.value (r.tx.data.drop (r.tx.data.length - 32)))) := by
  intro expert
  have htransfer : r.isTransfer = true := by rw [isTransfer, ht]; rfl
  have hvalid : (r.validate expert).outcome = .ok () := by
    rw [validate, htransfer]
    rfl
  have hthird : r.table[2]? = some .amount := by
    rw [table, if_pos htransfer]
    rfl
  have hfits : r.Fits .amount := by
    intro num hnum
    obtain ⟨t', -, rfl⟩ := Option.map_eq_some_iff.1 hnum
    exact Nat.le_of_eq t'.amount.length_bytes
  obtain ⟨rows, hrows, -, hitems⟩ := exists_text_of_item hparse hvalid
  cases rows_eq_ok hrows
  obtain ⟨text, htext, -, hpages⟩ := hitems 2 .amount hthird hfits
  rw [Transaction.textOf, amountArgument_of_parse hparse ht] at htext
  cases htext
  exact ⟨r.table, hrows, hthird, hpages⟩

end Review

/-! ## Recognition -/

namespace Transfer

/-- A call is recognised as a transfer when it is one, byte for byte; every transfer has such a call,
and the parts come back from it unchanged, each from bytes of its own.  What is shown as the amount
of an accepted transfer is the number that the last 32 bytes spell. -/
theorem recognised_exactly {ε : Type} :
    (∀ recipient data contract receiver amount,
        (∃ t, (classify recipient data : Logged ε (Option Transfer)).outcome = .ok (some t) ∧
            t.parts = (contract, receiver, amount)) ↔
          Names recipient data contract receiver amount) ∧
      (∀ recipient data,
        (classify recipient data : Logged ε (Option Transfer)).outcome = .ok none ↔
          ∀ contract receiver amount, ¬Names recipient data contract receiver amount) ∧
      (∀ t : Transfer, (classify (some t.contract) (callData t.receiver t.amount) :
          Logged ε (Option Transfer)).outcome = .ok (some t)) ∧
      (∀ recipient data t,
        (classify recipient data : Logged ε (Option Transfer)).outcome = .ok (some t) →
          recipient = some t.contract ∧ t.receiver.bytes = (data.drop 16).take 20 ∧
            t.amount.bytes = data.drop 36 ∧
            data = opening ++ (data.drop 16).take 20 ++ data.drop 36) ∧
      (∀ recipient data, (data.length ≠ 68 ∨ ∃ i < 16, data[i]? ≠ opening[i]?) →
        (classify recipient data : Logged ε (Option Transfer)).outcome = .ok none) ∧
      ∀ raw r t, (Review.parse raw).outcome = .ok r → r.transfer = some t →
        r.ShowsAmount (Decimal.text (Bytes.value (r.tx.data.drop (r.tx.data.length - 32)))) := by
  simp only [outcome_classify, Except.ok.injEq]
  refine ⟨?_, ?_, ?_, ?_, ?_, ?_⟩
  · intro recipient data contract receiver amount
    exact names_iff.symm
  · intro recipient data
    exact recognised_eq_none_iff
  · intro t
    exact recognised_eq_some_iff.2 ⟨rfl, rfl⟩
  · intro recipient data t ht
    exact ⟨(recognised_eq_some_iff.1 ht).1, data_eq_of_recognised ht⟩
  · intro recipient data hother
    apply recognised_eq_none_iff.2
    intro contract receiver amount hnames
    rcases hother with hlen | ⟨i, hi, hbyte⟩
    · exact hlen hnames.length_eq
    · exact hbyte (hnames.getElem?_eq hi)
  · intro raw r t hparse ht
    exact Review.showsAmount_of_transfer hparse ht

/-- A transfer of seven units on a contract of twenty equal bytes.  With a bit set in the last zero
in front of the receiver, the same call is no transfer. -/
theorem tokenCall_recognised :
    Names Review.tokenCall.tx.recipient Review.tokenCall.tx.data (List.replicate 20 0xcd)
        Review.payer.bytes (List.replicate 31 0 ++ [7]) ∧
      (∃ t, (classify Review.tokenCall.tx.recipient Review.tokenCall.tx.data :
          Logged Stop (Option Transfer)).outcome = .ok (some t) ∧
        t.parts = (List.replicate 20 0xcd, Review.payer.bytes, List.replicate 31 0 ++ [7])) ∧
      (classify Review.tokenCall.tx.recipient (Review.tokenCall.tx.data.set 15 1) :
          Logged Stop (Option Transfer)).outcome = .ok none ∧
      (Review.parse Review.tokenCall.raw).outcome = .ok Review.tokenCall ∧
      (Review.tokenCall.renderItem true 2 0
          ⟨List.replicate 7 0xaa, List.replicate 2 0xaa⟩).outcome =
        .ok ⟨⟨Bytes.ofText "Amount" ++ [0], Bytes.ofText "7" ++ [0]⟩, .ok 1⟩ := by
  obtain ⟨hnames, -, -, -, hother, hshows⟩ := @recognised_exactly Stop
  have hcall : Names Review.tokenCall.tx.recipient Review.tokenCall.tx.data
      (List.replicate 20 0xcd) Review.payer.bytes (List.replicate 31 0 ++ [7]) :=
    ⟨rfl, rfl, rfl, rfl⟩
  have hparse : (Review.parse Review.tokenCall.raw).outcome = .ok Review.tokenCall := by rfl
  obtain ⟨rows, -, -, hpages⟩ := hshows _ _ _ hparse rfl true
  refine ⟨hcall, (hnames _ _ _ _ _).2 hcall, ?_, hparse, ?_⟩
  · exact hother _ _ (.inr ⟨15, by decide, by decide⟩)
  · have hamount : Bytes.value (Review.tokenCall.tx.data.drop
        (Review.tokenCall.tx.data.length - 32)) = 7 := by rfl
    rw [hpages 0 _ (by decide) (by decide), hamount, Decimal.text_of_lt (by decide)]
    rfl

end Transfer

end ClearSign
