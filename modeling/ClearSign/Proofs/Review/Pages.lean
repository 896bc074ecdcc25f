import ClearSign.Proofs.Page.Pieces
import ClearSign.Proofs.Transfer
import ClearSign.Proofs.Review.Walk
/-!
# The pages of an item

An item of a review has one text, which the transaction tells and, for the hash, the bytes it came
in: `Transaction.textOf`.  A screen shows it a page at a time.  Which bytes stand on a page depends
on the size of the screen, and on nothing that stood there before: `exists_text_of_item`.
-/

namespace ClearSign

/-! ## The text of a field -/

/-- The text of a field.  The receiver and the amount of a transfer are the arguments of the call,
and its contract is the recipient of the transaction. -/
def Transaction.textOf (tx : Transaction) (raw : Bytes) : Field → Option Bytes
  | .receiver => some (Bytes.ofText "0x" ++ Hex.digits (Transfer.receiverArgument tx.data))
  | .contract | .recipient => tx.recipient.map fun a => Bytes.ofText "0x" ++ Hex.digits a.bytes
  | .amount => some (Decimal.text (Bytes.value (Transfer.amountArgument tx.data)))
  | .nonce => some (Decimal.text (Bytes.value tx.nonce))
  | .maxPriorityFee => tx.priorityFee.map fun fee => Decimal.text (Bytes.value fee)
  | .maxFee => tx.maxFee.map fun fee => Decimal.text (Bytes.value fee)
  | .gasLimit => some (Decimal.text (Bytes.value tx.gasLimit))
  | .gasPrice => tx.gasPrice.map fun price => Decimal.text (Bytes.value price)
  | .value => some (Decimal.text (Bytes.value tx.value))
  | .coinValue => some (Decimal.fixed (Bytes.value tx.value) 18)
  | .data =>
    some (Hex.digits (tx.data.take 10) ++ if 10 < tx.data.length then Bytes.ofText "..." else [])
  | .hash => some (Hex.digits (Keccak.digest raw).bytes)

def Field.IsAddress : Field → Prop
  | receiver | contract | recipient => True
  | _ => False

/-- `0x` and forty lowercase hexadecimal digits. -/
def IsAddressText (text : Bytes) : Prop :=
  ∃ digits, text = Bytes.ofText "0x" ++ digits ∧ digits.length = 40 ∧
    ∀ d ∈ digits, d ∈ Bytes.ofText "0123456789abcdef"

theorem Review.isAddressText_addressDigits (a : Address) :
    IsAddressText (addressDigits a) := by
  refine ⟨Hex.digits a.bytes, rfl, ?_, fun d hd => Hex.mem_alphabet_of_mem_digits hd⟩
  rw [Hex.length_digits, a.length_bytes]
  rfl

namespace Review

/-- No amount that the field shows is longer than 32 bytes. -/
def Fits (r : Review) (f : Field) : Prop := ∀ num, r.number f = some num → num.length ≤ 32

section Accepted

variable {raw : Bytes} {r : Review} {f : Field} {text : Bytes}

theorem transfer_of_parse (hparse : (parse raw).outcome = .ok r) {t : Transfer}
    (ht : r.transfer = some t) :
    r.tx.recipient = some t.contract ∧ r.tx.data = Transfer.callData t.receiver t.amount := by
  obtain ⟨-, -, htransfer⟩ := parse_eq_ok_iff.1 hparse
  exact Transfer.recipient_and_data_of_recognised (htransfer.symm.trans ht)

/-- What the review says of a field is what the transaction tells. -/
theorem textOf_eq_some (hparse : (parse raw).outcome = .ok r) (h : r.fullText f = .ok text) :
    r.tx.textOf raw f = some text := by
  have hplain : ∀ {num : Bytes}, amountDigits num 0 = .ok text →
      some (Decimal.text (Bytes.value num)) = some text := by
    intro num hnum
    obtain ⟨-, rfl⟩ := amountDigits_eq_ok hnum
    rfl
  cases f with
  | receiver =>
      obtain ⟨t, ht, htext⟩ := part_bind_eq_ok h
      cases htext
      rw [Transaction.textOf, (transfer_of_parse hparse ht).2, Transfer.receiverArgument_callData]
      rfl
  | contract =>
      obtain ⟨t, ht, htext⟩ := part_bind_eq_ok h
      cases htext
      rw [Transaction.textOf, (transfer_of_parse hparse ht).1]
      rfl
  | amount =>
      obtain ⟨t, ht, htext⟩ := part_bind_eq_ok h
      rw [Transaction.textOf, (transfer_of_parse hparse ht).2, Transfer.amountArgument_callData]
      exact hplain htext
  | recipient =>
      obtain ⟨a, ha, htext⟩ := part_bind_eq_ok h
      cases htext
      rw [Transaction.textOf, ha]
      rfl
  | nonce => exact hplain h
  | maxPriorityFee =>
      obtain ⟨fee, hfee, htext⟩ := part_bind_eq_ok h
      rw [Transaction.textOf, hfee]
      exact hplain htext
  | maxFee =>
      obtain ⟨fee, hfee, htext⟩ := part_bind_eq_ok h
      rw [Transaction.textOf, hfee]
      exact hplain htext
  | gasLimit => exact hplain h
  | gasPrice =>
      obtain ⟨price, hprice, htext⟩ := part_bind_eq_ok h
      rw [Transaction.textOf, hprice]
      exact hplain htext
  | value => exact hplain h
  | coinValue =>
      obtain ⟨-, rfl⟩ := amountDigits_eq_ok h
      rfl
  | data =>
      cases h
      rfl
  | hash =>
      obtain ⟨rfl, -, -⟩ := parse_eq_ok_iff.1 hparse
      cases h
      rfl

theorem isAddressText_of_fullText (hf : f.IsAddress) (h : r.fullText f = .ok text) :
    IsAddressText text := by
  cases f with
  | receiver =>
      obtain ⟨t, -, htext⟩ := part_bind_eq_ok h
      cases htext
      exact isAddressText_addressDigits t.receiver
  | contract =>
      obtain ⟨t, -, htext⟩ := part_bind_eq_ok h
      cases htext
      exact isAddressText_addressDigits t.contract
  | recipient =>
      obtain ⟨a, -, htext⟩ := part_bind_eq_ok h
      cases htext
      exact isAddressText_addressDigits a
  | _ => cases hf

/-- Call data is listed only where there is some: a transfer has 68 bytes of it. -/
theorem data_ne_nil_of_lists (hparse : (parse raw).outcome = .ok r) (hf : r.Lists .data) :
    r.tx.data ≠ [] := by
  intro hnil
  rcases hf with ht | hdata
  · obtain ⟨t, ht⟩ := Option.isSome_iff_exists.1 ht
    have hlen := Transfer.length_callData t.receiver t.amount
    rw [← (transfer_of_parse hparse ht).2, hnil] at hlen
    cases hlen
  · rw [hnil] at hdata
    cases hdata

/-- A listed field always has something to show. -/
theorem length_fullText_pos (hparse : (parse raw).outcome = .ok r) (hf : r.Lists f)
    (h : r.fullText f = .ok text) : 0 < text.length := by
  refine fullText_cases (P := fun t => 0 < t.length) ?_ ?_ ?_ ?_ h
  · intro a
    rw [length_addressDigits]
    decide
  · intro num places _ _
    have hpos := Decimal.length_text_pos (Bytes.value num / 10 ^ places)
    unfold Decimal.fixed
    split
    · exact Decimal.length_text_pos _
    · rw [List.length_append]
      omega
  · rintro rfl
    have hdata := List.length_pos_iff.2 (data_ne_nil_of_lists hparse hf)
    have hshown : dataShown = 10 := rfl
    rw [length_preview, hshown]
    omega
  · intro d
    rw [length_digest_digits]
    decide

end Accepted

/-! ## Pages -/

/-- A page of a text on a screen with buffers of these sizes, under its label. -/
def pageView (label text : Bytes) (page titleSize messageSize : Nat) : Rendered :=
  let pages := text.length ⌈/⌉ (messageSize - 1)
  if page < pages then
    ⟨⟨Page.padded label titleSize,
      Page.padded (Page.chunk text (messageSize - 1) page) messageSize⟩, .ok pages⟩
  else
    ⟨⟨Page.padded label titleSize, List.replicate messageSize 0⟩, .error .pageOutOfRange⟩

theorem count_eq_ceilDiv {length capacity : Nat} (hl : 0 < length) (hc : 0 < capacity) :
    Page.count length capacity = length ⌈/⌉ capacity := by
  have hpos : 0 < (length + capacity - 1) / capacity := Nat.div_pos (by omega) hc
  rw [← Nat.ceilDiv_eq_add_pred_div] at hpos
  rw [Page.count_eq_max_ceilDiv]
  exact Nat.max_eq_right hpos

theorem fieldView_eq_pageView {r : Review} {f : Field} {text : Bytes} {titleSize messageSize : Nat}
    (htext : r.fullText f = .ok text) (hpos : 0 < text.length) (htitle : f.label.length < titleSize)
    (hmessage : 2 ≤ messageSize) (page : Nat) :
    r.fieldView f page titleSize messageSize =
      pageView f.label text page titleSize messageSize := by
  have hlen : text.length ≤ Page.maxCount := Nat.le_trans (length_fullText_le htext) (by decide)
  have hview := Page.view_eq hmessage hlen page
  rw [count_eq_ceilDiv hpos (by omega)] at hview
  unfold fieldView pageView
  rw [if_neg (by omega), htext]
  dsimp only [Except.bind]
  by_cases hpage : page < text.length ⌈/⌉ (messageSize - 1)
  · rw [hview, if_pos hpage, if_pos hpage]
  · rw [hview, if_neg hpage, if_neg hpage]

/-! ## Items -/

theorem itemCount_of_rows {r : Review} {expert : Bool} {rows : List Field}
    (h : r.rows expert = .ok rows) : r.itemCount expert = .ok rows.length := by
  rw [itemCount, h]
  rfl

/-- Every item of an accepted transaction that may be shown has one text, unless it is an amount of
more than 32 bytes.  A screen with room for the label and for one byte shows any page of it, and
nothing that stood on the screen before. -/
theorem exists_text_of_item {raw : Bytes} {r : Review} {expert : Bool}
    (hparse : (parse raw).outcome = .ok r) (hvalid : (r.validate expert).outcome = .ok ()) :
    ∃ rows, r.rows expert = .ok rows ∧ r.itemCount expert = .ok rows.length ∧
      ∀ index f, rows[index]? = some f → r.Fits f →
        ∃ text, r.tx.textOf raw f = some text ∧ (f.IsAddress → IsAddressText text) ∧
          ∀ (page : Nat) (screen : Screen), f.label.length < screen.title.length →
            2 ≤ screen.message.length →
              (r.renderItem expert index page screen).outcome =
                .ok (pageView f.label text page screen.title.length screen.message.length) := by
  have hrows := validate_eq_ok_iff.1 hvalid
  refine ⟨r.table, hrows, itemCount_of_rows hrows, ?_⟩
  intro index f hf hfits
  have hlists : r.Lists f := mem_table.1 (List.mem_of_getElem? hf)
  obtain ⟨text, htext⟩ := exists_fullText hlists hfits
  refine ⟨text, textOf_eq_some hparse htext, ?_, ?_⟩
  · intro haddress
    exact isAddressText_of_fullText haddress htext
  · intro page screen htitle hmessage
    have hpos := length_fullText_pos hparse hlists htext
    rw [outcome_renderItem, itemView_eq hrows hf,
      fieldView_eq_pageView htext hpos htitle hmessage]

def payer : Address := ⟨List.replicate 20 0xab, rfl⟩

/-- A transfer of seven units. -/
def tokenCall : Review where
  raw := [0xf8, 0x5f, 0x05, 0x07, 0x09, 0x94] ++ List.replicate 20 0xcd ++ [0x80, 0xb8, 0x44] ++
    Transfer.callData payer ⟨List.replicate 31 0 ++ [7], rfl⟩
  tx := .legacy {
    base := {
      nonce := [5], gasPrice := [7], gasLimit := [9]
      recipient := some ⟨List.replicate 20 0xcd, rfl⟩, value := []
      data := Transfer.callData payer ⟨List.replicate 31 0 ++ [7], rfl⟩ }
    chainId := none }
  transfer := some {
    contract := ⟨List.replicate 20 0xcd, rfl⟩, receiver := payer
    amount := ⟨List.replicate 31 0 ++ [7], rfl⟩ }

/-- The 42 bytes of its first item fill two pages of 21 to the last cell, and there is no third. -/
theorem tokenCall_pages :
    (parse tokenCall.raw).outcome = .ok tokenCall ∧
      (tokenCall.validate false).outcome = .ok () ∧
      (tokenCall.renderItem false 0 1
          ⟨List.replicate 10 0xaa, List.replicate 22 0xaa⟩).outcome =
        .ok ⟨⟨Bytes.ofText "Receiver" ++ [0, 0], Bytes.ofText "babababababababababab" ++ [0]⟩,
          .ok 2⟩ ∧
      (tokenCall.renderItem false 0 2
          ⟨List.replicate 10 0xaa, List.replicate 22 0xaa⟩).outcome =
        .ok ⟨⟨Bytes.ofText "Receiver" ++ [0, 0], List.replicate 22 0⟩,
          .error .pageOutOfRange⟩ := by
  have hparse : (parse tokenCall.raw).outcome = .ok tokenCall := by rfl
  have hvalid : (tokenCall.validate false).outcome = .ok () := by rfl
  obtain ⟨rows, hrows, -, hitems⟩ := exists_text_of_item hparse hvalid
  have htable : tokenCall.rows false = .ok [.receiver, .contract, .amount, .nonce, .gasLimit,
      .gasPrice, .value, .data, .hash] := by rfl
  rw [htable] at hrows
  cases hrows
  obtain ⟨text, htext, -, hpages⟩ := hitems 0 .receiver rfl nofun
  cases htext
  refine ⟨hparse, hvalid, ?_, ?_⟩
  · rw [hpages 1 _ (by decide) (by decide)]
    rfl
  · rw [hpages 2 _ (by decide) (by decide)]
    rfl

end Review

end ClearSign
