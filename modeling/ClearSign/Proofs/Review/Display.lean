import ClearSign.Review.Render
import ClearSign.Proofs.Page
import ClearSign.Proofs.Review.Text
/-!
# What the screen shows

The table of a review is the same for both settings under which it may be shown, and whether a field
stands in it is a matter of the review alone (`mem_table`).  Rendering clears the screen first, so
what it leaves depends on the sizes of the two buffers and not on their contents:
`outcome_renderItem` gives it as `itemView`, without a trap.
-/

namespace ClearSign

/-! ## Tables -/

/-- Only the two ways to show a value share a label. -/
theorem Field.label_eq_iff {f g : Field} :
    f.label = g.label ↔ f = g ∨ f = value ∧ g = coinValue ∨ f = coinValue ∧ g = value := by
  cases f <;> cases g <;> decide

theorem Field.length_label_lt (f : Field) : f.label.length < 17 := by
  cases f <;> decide

theorem Field.zero_notMem_label (f : Field) : (0 : UInt8) ∉ f.label := by
  cases f <;> decide

/-! ## Fields that not every form has -/

namespace Transaction

variable {tx : Transaction}

theorem exists_priorityFee (h : tx.envelope = .feeMarket) : ∃ fee, tx.priorityFee = some fee := by
  cases tx with
  | legacy _ => cases h
  | accessList _ => cases h
  | feeMarket f => exact ⟨f.priorityFee, rfl⟩

theorem exists_maxFee (h : tx.envelope = .feeMarket) : ∃ fee, tx.maxFee = some fee := by
  cases tx with
  | legacy _ => cases h
  | accessList _ => cases h
  | feeMarket f => exact ⟨f.maxFee, rfl⟩

theorem exists_gasPrice (h : tx.envelope ≠ .feeMarket) : ∃ price, tx.gasPrice = some price := by
  cases tx with
  | legacy l => exact ⟨l.base.gasPrice, rfl⟩
  | accessList a => exact ⟨a.base.gasPrice, rfl⟩
  | feeMarket _ => exact absurd rfl h

theorem gasPrice_eq_none (h : tx.envelope = .feeMarket) : tx.gasPrice = none := by
  cases tx with
  | legacy _ => cases h
  | accessList _ => cases h
  | feeMarket _ => rfl

theorem fees_eq_none (h : tx.envelope ≠ .feeMarket) : tx.priorityFee = none ∧ tx.maxFee = none := by
  cases tx with
  | legacy _ => exact ⟨rfl, rfl⟩
  | accessList _ => exact ⟨rfl, rfl⟩
  | feeMarket _ => exact absurd rfl h

end Transaction

namespace Review

/-- The fields that are shown of a review once it may be shown at all. -/
def table (r : Review) : List Field :=
  if r.isTransfer then
    [.receiver, .contract, .amount, .nonce] ++ r.feeFields ++ [.value, .data, .hash]
  else
    (if r.tx.recipient.isSome then [.recipient] else []) ++ [.coinValue] ++
      (if r.tx.data.isEmpty then [] else [.data]) ++ r.feeFields ++ [.nonce, .hash]

/-- Whether a field is among them. -/
def Lists (r : Review) : Field → Prop
  | .receiver | .contract | .amount | .value => r.isTransfer = true
  | .recipient => r.isTransfer = false ∧ r.tx.recipient.isSome = true
  | .coinValue => r.isTransfer = false
  | .data => r.isTransfer = true ∨ r.tx.data.isEmpty = false
  | .maxPriorityFee | .maxFee => r.envelope = .feeMarket
  | .gasPrice => r.envelope ≠ .feeMarket
  | .nonce | .gasLimit | .hash => True

/-- Every table has room, so only the policy can refuse one. -/
theorem rows_eq (r : Review) (expert : Bool) :
    r.rows expert = if r.isTransfer || expert then .ok r.table else .error .unsupportedTx := by
  unfold rows table feeFields
  cases r.isTransfer with
  | true =>
      by_cases he : r.envelope = .feeMarket
      · simp only [if_pos he]
        rfl
      · simp only [if_neg he]
        rfl
  | false =>
      cases expert with
      | false => rfl
      | true =>
          by_cases he : r.envelope = .feeMarket
          · simp only [if_pos he]
            cases r.tx.recipient.isSome <;> cases r.tx.data.isEmpty <;> rfl
          · simp only [if_neg he]
            cases r.tx.recipient.isSome <;> cases r.tx.data.isEmpty <;> rfl

theorem rows_eq_ok {r : Review} {expert : Bool} {rows : List Field}
    (h : r.rows expert = .ok rows) : rows = r.table := by
  rw [rows_eq] at h
  split at h
  · exact (Except.ok.inj h).symm
  · cases h

theorem rows_eq_error {r : Review} {expert : Bool} {s : Status}
    (h : r.rows expert = .error s) : s = .unsupportedTx := by
  rw [rows_eq] at h
  split at h
  · cases h
  · exact (Except.error.inj h).symm

theorem validate_eq_ok_iff {r : Review} {expert : Bool} :
    (r.validate expert).outcome = .ok () ↔ r.rows expert = .ok r.table := by
  rw [rows_eq]
  unfold validate
  split
  · exact ⟨fun _ => rfl, fun _ => rfl⟩
  · exact ⟨nofun, nofun⟩

theorem mem_feeFields {r : Review} {f : Field} :
    f ∈ r.feeFields ↔ f = .gasLimit ∨
      r.envelope = .feeMarket ∧ (f = .maxPriorityFee ∨ f = .maxFee) ∨
      r.envelope ≠ .feeMarket ∧ f = .gasPrice := by
  unfold feeFields
  by_cases he : r.envelope = .feeMarket
  · rw [if_pos he]
    grind
  · rw [if_neg he]
    grind

theorem mem_table {r : Review} {f : Field} : f ∈ r.table ↔ r.Lists f := by
  unfold table
  cases hr : r.isTransfer with
  | true => cases f <;> simp [Lists, hr, mem_feeFields]
  | false =>
      have hrecipient : f ∈ (if r.tx.recipient.isSome then [Field.recipient] else []) ↔
          r.tx.recipient.isSome = true ∧ f = .recipient := by
        cases r.tx.recipient.isSome <;> simp
      have hdata : f ∈ (if r.tx.data.isEmpty then [] else [Field.data]) ↔
          r.tx.data.isEmpty = false ∧ f = .data := by
        cases r.tx.data.isEmpty <;> simp
      simp only [Bool.false_eq_true, if_false, List.mem_append, hrecipient, hdata, mem_feeFields]
      cases f <;> simp [Lists, hr]

theorem label_inj_of_lists {r : Review} {f g : Field} (hf : r.Lists f) (hg : r.Lists g)
    (h : f.label = g.label) : f = g := by
  rcases Field.label_eq_iff.1 h with h | ⟨rfl, rfl⟩ | ⟨rfl, rfl⟩
  · exact h
  · exact absurd (hg.symm.trans hf) Bool.false_ne_true
  · exact absurd (hf.symm.trans hg) Bool.false_ne_true

/-- The amount that a field shows. -/
def number (r : Review) : Field → Option Bytes
  | .amount => r.transfer.map fun t => t.amount.bytes
  | .nonce => some r.tx.nonce
  | .maxPriorityFee => r.tx.priorityFee
  | .maxFee => r.tx.maxFee
  | .gasLimit => some r.tx.gasLimit
  | .gasPrice => r.tx.gasPrice
  | .value | .coinValue => some r.tx.value
  | .receiver | .contract | .recipient | .data | .hash => none

theorem exists_amountDigits {num : Bytes} (places : Nat)
    (h : num.length ≤ Decimal.maxNumberBytes) : ∃ text, amountDigits num places = .ok text :=
  ⟨_, if_pos h⟩

theorem fullText_of_number {r : Review} {f : Field} {num : Bytes} (h : r.number f = some num) :
    ∃ places, r.fullText f = amountDigits num places := by
  have hpart : ∀ {x : Option Bytes}, x = some num →
      ((part x).bind fun n => amountDigits n 0) = amountDigits num 0 := by
    rintro x rfl
    rfl
  cases f with
  | amount =>
      obtain ⟨t, ht, rfl⟩ := Option.map_eq_some_iff.1 h
      exact ⟨0, by rw [fullText, ht]; rfl⟩
  | nonce => exact ⟨0, by rw [← Option.some.inj h]; rfl⟩
  | maxPriorityFee => exact ⟨0, hpart h⟩
  | maxFee => exact ⟨0, hpart h⟩
  | gasLimit => exact ⟨0, by rw [← Option.some.inj h]; rfl⟩
  | gasPrice => exact ⟨0, hpart h⟩
  | value => exact ⟨0, by rw [← Option.some.inj h]; rfl⟩
  | coinValue => exact ⟨coinPlaces, by rw [← Option.some.inj h]; rfl⟩
  | receiver => cases h
  | contract => cases h
  | recipient => cases h
  | data => cases h
  | hash => cases h

/-- A listed field lacks no part of the transaction, so only an amount can be without a text. -/
theorem exists_fullText {r : Review} {f : Field} (hf : r.Lists f)
    (hnum : ∀ num, r.number f = some num → num.length ≤ Decimal.maxNumberBytes) :
    ∃ text, r.fullText f = .ok text := by
  cases hn : r.number f with
  | some num =>
      obtain ⟨places, htext⟩ := fullText_of_number hn
      rw [htext]
      exact exists_amountDigits places (hnum num hn)
  | none =>
      have htransfer : r.isTransfer = true → ∃ t, r.transfer = some t :=
        Option.isSome_iff_exists.1
      cases f with
      | receiver =>
          obtain ⟨t, ht⟩ := htransfer hf
          exact ⟨addressDigits t.receiver, by rw [fullText, ht]; rfl⟩
      | contract =>
          obtain ⟨t, ht⟩ := htransfer hf
          exact ⟨addressDigits t.contract, by rw [fullText, ht]; rfl⟩
      | recipient =>
          obtain ⟨a, ha⟩ := Option.isSome_iff_exists.1 hf.2
          exact ⟨addressDigits a, by rw [fullText, ha]; rfl⟩
      | data => exact ⟨_, rfl⟩
      | hash => exact ⟨_, rfl⟩
      | amount =>
          obtain ⟨t, ht⟩ := htransfer hf
          rw [number, ht] at hn
          cases hn
      | maxPriorityFee =>
          obtain ⟨fee, hfee⟩ := Transaction.exists_priorityFee hf
          cases hfee.symm.trans hn
      | maxFee =>
          obtain ⟨fee, hfee⟩ := Transaction.exists_maxFee hf
          cases hfee.symm.trans hn
      | gasPrice =>
          obtain ⟨price, hprice⟩ := Transaction.exists_gasPrice hf
          cases hprice.symm.trans hn
      | nonce => cases hn
      | gasLimit => cases hn
      | value => cases hn
      | coinValue => cases hn

/-! ## Rendering -/

/-- A screen on which nothing stands. -/
def blank (titleSize messageSize : Nat) : Screen :=
  ⟨List.replicate titleSize 0, List.replicate messageSize 0⟩

/-- What a page of a field leaves on a blank screen. -/
def fieldView (r : Review) (f : Field) (page titleSize messageSize : Nat) : Rendered :=
  if titleSize ≤ f.label.length then ⟨blank titleSize messageSize, .error .unexpectedEnd⟩
  else
    match (r.fullText f).bind fun text => Page.view text messageSize page with
    | .ok (bytes, n) => ⟨⟨Page.padded f.label titleSize, Page.padded bytes messageSize⟩, .ok n⟩
    | .error s => ⟨⟨Page.padded f.label titleSize, List.replicate messageSize 0⟩, .error s⟩

/-- What a page of the field at an index leaves on any screen with buffers of these sizes. -/
def itemView (r : Review) (expert : Bool) (index page titleSize messageSize : Nat) : Rendered :=
  match r.rows expert with
  | .error s => ⟨blank titleSize messageSize, .error s⟩
  | .ok rows =>
    match rows[index]? with
    | none => ⟨blank titleSize messageSize, .error .pageOutOfRange⟩
    | some f => r.fieldView f page titleSize messageSize

theorem renderField_blank (r : Review) (f : Field) (page titleSize messageSize : Nat) :
    r.renderField f (blank titleSize messageSize) page =
      .ok (r.fieldView f page titleSize messageSize) := by
  unfold renderField fieldView blank
  rw [Page.writeTitle_zeros]
  split
  · rfl
  · rw [fieldText_eq, Page.writeText_zeros]
    cases (r.fullText f).bind fun text => Page.view text messageSize page with
    | ok view => rfl
    | error s => rfl

/-- Rendering never traps, and nothing that stood on the screen before has a part in it. -/
theorem outcome_renderItem (r : Review) (expert : Bool) (index page : Nat) (screen : Screen) :
    (r.renderItem expert index page screen).outcome =
      .ok (r.itemView expert index page screen.title.length screen.message.length) := by
  have hcleared : screen.cleared = blank screen.title.length screen.message.length := rfl
  unfold renderItem itemView
  rw [Logged.outcome_bind_ok rfl]
  cases r.rows expert with
  | error s => rfl
  | ok rows =>
      cases h : rows[index]? with
      | none => simp only [h]; rfl
      | some f => simp only [h, hcleared, renderField_blank]; rfl

/-- The buffers keep their sizes. -/
theorem length_itemView (r : Review) (expert : Bool) (index page titleSize messageSize : Nat) :
    (r.itemView expert index page titleSize messageSize).screen.title.length = titleSize ∧
      (r.itemView expert index page titleSize messageSize).screen.message.length =
        messageSize := by
  have hblank : (blank titleSize messageSize).title.length = titleSize ∧
      (blank titleSize messageSize).message.length = messageSize :=
    ⟨List.length_replicate, List.length_replicate⟩
  unfold itemView
  split
  · exact hblank
  · split
    · exact hblank
    · unfold fieldView
      split
      · exact hblank
      · split
        · rename_i bytes n hview
          obtain ⟨text, -, hview⟩ := Checked.bind_eq_ok.1 hview
          obtain ⟨hsize, -, -, -, rfl⟩ := Page.view_eq_ok hview
          have hlen := Page.length_chunk_le text (messageSize - 1) page
          exact ⟨Page.length_padded (by omega), Page.length_padded (by omega)⟩
        · exact ⟨Page.length_padded (by omega), List.length_replicate⟩

end Review

end ClearSign
