import ClearSign.Review
import ClearSign.Transaction.Encode
import ClearSign.Proofs.ChainId
/-!
# The items that spell a transaction

`SpelledBy` says, without reading anything, which items a transaction is made of.  A decoder of a
form reads a transaction exactly when the bytes of the list split into items that spell it, so what
holds of such items holds of all that is ever read.

* `readsAllItems_decodeBody`: what the fields of a form are read as.
* `parse_eq_ok_iff`: what a whole buffer is read as.
* `endsIn_parse`: reading always ends with a review, or for one of the reasons in `refusals`.
-/

namespace ClearSign

/-! ## Recipients -/

theorem Address.ofField_eq_ok_iff {bs : Bytes} {recipient : Option Address} :
    ofField bs = .ok recipient ↔ bs = toField recipient := by
  cases recipient with
  | none => exact ofField_eq_none_iff
  | some a => exact ofField_eq_some_iff

theorem Address.reads_field {recipient : Option Address} {bs rest : Bytes} :
    Decoder.Reads field bs recipient rest ↔
      ∃ item, Rlp.readItem bs = .ok (item, rest) ∧ item.payload = toField recipient := by
  unfold field
  rw [Decoder.reads_bind]
  constructor
  · rintro ⟨payload, next, hpayload, h⟩
    obtain ⟨item, hitem, rfl⟩ := Decoder.reads_payload.1 hpayload
    split at h
    · rename_i dest hto
      obtain ⟨rfl, rfl⟩ := Decoder.reads_pure.1 h
      exact ⟨item, hitem, ofField_eq_ok_iff.1 hto⟩
    · exact absurd h Decoder.not_reads_fail
  · rintro ⟨item, hitem, hto⟩
    refine ⟨item.payload, rest, Decoder.reads_payload.2 ⟨item, hitem, rfl⟩, ?_⟩
    rw [ofField_eq_ok_iff.2 hto]
    exact Decoder.reads_pure.2 ⟨rfl, rfl⟩

theorem Address.readsItem_field :
    field.ReadsItem fun recipient item => item.payload = toField recipient :=
  fun _ _ _ => reads_field

theorem Address.endsIn_field : Decoder.EndsIn [.unexpectedEnd, .invalidAddress] field := by
  refine (Decoder.endsIn_payload (by decide)).bind fun payload => ?_
  split
  · exact Decoder.endsIn_pure _
  · rename_i s hs
    obtain ⟨-, -, rfl⟩ := ofField_eq_error_iff.1 hs
    exact Decoder.endsIn_fail (by decide) rfl

/-- The reasons for which the other fields of a list are refused. -/
def Transaction.fieldRefusals : List Status :=
  [.unexpectedType, .unexpectedEnd, .unexpectedCharacters, .invalidAddress, .invalidRsValues]

/-- The reasons for which the list of a transaction is refused. -/
def Transaction.listRefusals : List Status := ChainId.refusals ++ fieldRefusals

/-- The reasons for which a buffer is refused. -/
def Transaction.refusals : List Status := .unsupportedTx :: .unexpectedValue :: listRefusals

/-! ## Forms -/

/-- An item that may stand where a signature value will go. -/
def Rlp.Item.IsBlank (item : Rlp.Item) : Prop :=
  item.kind ≠ .list ∧ (item.payload = [] ∨ item.payload = [0])

theorem LegacyTx.isBlankSignature_iff {item : Rlp.Item} :
    isBlankSignature item = true ↔ item.IsBlank := by
  simp [isBlankSignature, Rlp.Item.IsBlank, Rlp.Item.isList, Rlp.Item.isEmpty]

/-- The six items of the common fields. -/
def BaseFields.SpelledBy (f : BaseFields) (items : List Rlp.Item) : Prop :=
  ∃ nonce gasPrice gasLimit recipient value data,
    items = [nonce, gasPrice, gasLimit, recipient, value, data] ∧
      f.nonce = nonce.payload ∧ f.gasPrice = gasPrice.payload ∧ f.gasLimit = gasLimit.payload ∧
      recipient.payload = Address.toField f.recipient ∧ f.value = value.payload ∧
      f.data = data.payload

/-- The common items, which three more follow where a network is named. -/
def LegacyTx.SpelledBy (tx : LegacyTx) (items : List Rlp.Item) : Prop :=
  match tx.chainId with
  | none => tx.base.SpelledBy items
  | some c =>
    ∃ front id r s, items = front ++ [id, r, s] ∧ tx.base.SpelledBy front ∧
      (ChainId.ofItem id).outcome = .ok c ∧ r.IsBlank ∧ s.IsBlank

def AccessListTx.SpelledBy (tx : AccessListTx) (items : List Rlp.Item) : Prop :=
  ∃ id front, items = id :: front ++ [tx.accessList] ∧
    (ChainId.ofItem id).outcome = .ok tx.chainId ∧ tx.base.SpelledBy front ∧
    tx.accessList.kind = .list

def FeeMarketTx.SpelledBy (tx : FeeMarketTx) (items : List Rlp.Item) : Prop :=
  ∃ id nonce priorityFee maxFee gasLimit recipient value data,
    items =
        [id, nonce, priorityFee, maxFee, gasLimit, recipient, value, data, tx.accessList] ∧
      (ChainId.ofItem id).outcome = .ok tx.chainId ∧ tx.nonce = nonce.payload ∧
      tx.priorityFee = priorityFee.payload ∧ tx.maxFee = maxFee.payload ∧
      tx.gasLimit = gasLimit.payload ∧ recipient.payload = Address.toField tx.recipient ∧
      tx.value = value.payload ∧ tx.data = data.payload ∧ tx.accessList.kind = .list

def Transaction.SpelledBy : Transaction → List Rlp.Item → Prop
  | legacy tx => tx.SpelledBy
  | accessList tx => tx.SpelledBy
  | feeMarket tx => tx.SpelledBy

open Decoder

theorem BaseFields.readsItems_decode : decode.ReadsItems SpelledBy := by
  have hfields :=
    readsItem_payload.bind fun nonce =>
    readsItem_payload.bind fun gasPrice =>
    readsItem_payload.bind fun gasLimit =>
    Address.readsItem_field.bind fun recipient =>
    readsItem_payload.bind fun value =>
    readsItem_payload.bind fun data =>
    readsItems_pure ({ nonce, gasPrice, gasLimit, recipient, value, data } : BaseFields)
  refine (hfields.after_enter .baseFields).congr ?_
  intro f items
  cases f
  simp only [SpelledBy, BaseFields.mk.injEq]
  constructor
  · grind
  · grind

theorem BaseFields.SpelledBy.length_eq {f : BaseFields} {items : List Rlp.Item}
    (h : f.SpelledBy items) : items.length = 6 := by
  obtain ⟨_, _, _, _, _, _, rfl, -⟩ := h
  rfl

theorem BaseFields.endsIn_decode : EndsIn [.unexpectedEnd, .invalidAddress] decode :=
  have hpayload : EndsIn [.unexpectedEnd, .invalidAddress] payload := endsIn_payload (by decide)
  (endsIn_enter _).bind fun _ => hpayload.bind fun _ => hpayload.bind fun _ =>
    hpayload.bind fun _ => Address.endsIn_field.bind fun _ => hpayload.bind fun _ =>
    hpayload.bind fun _ => endsIn_pure _

/-- What follows the identifier of the network. -/
def LegacyTx.decodeSignature (base : BaseFields) (chainId : ChainId) : Decoder LegacyTx := do
  let r ← item
  let s ← item
  if isBlankSignature r && isBlankSignature s then
    finish
    return { base, chainId := some chainId }
  else
    reject .legacy .invalidRsValues

theorem LegacyTx.readsAllItems_decodeSignature (base : BaseFields) (chainId : ChainId) :
    (decodeSignature base chainId).ReadsAllItems fun tx items =>
      ∃ r s, items = [r, s] ∧ r.IsBlank ∧ s.IsBlank ∧ tx = { base, chainId := some chainId } := by
  have hvalues :=
    readsItem_item.bind_all fun r =>
    readsItem_item.bind_all fun s =>
    (readsAllItems_finish ({ base, chainId := some chainId } : LegacyTx)).or_reject
      (isBlankSignature r && isBlankSignature s) .legacy .invalidRsValues
  refine hvalues.congr ?_
  intro tx items
  simp only [Bool.and_eq_true, isBlankSignature_iff]
  constructor
  · grind
  · grind

theorem LegacyTx.readsAllItems_decode : decode.ReadsAllItems SpelledBy := by
  have hfields :=
    BaseFields.readsItems_decode.bind_all fun base =>
    (ChainId.readsItem_field.bind_all fun chainId =>
      readsAllItems_decodeSignature base chainId).after_atEnd (by simp)
      ({ base, chainId := none } : LegacyTx)
  refine (hfields.after_enter .legacy).congr ?_
  rintro ⟨base, chainId⟩ items
  cases chainId with
  | none =>
      simp only [SpelledBy, LegacyTx.mk.injEq]
      constructor
      · grind
      · grind
  | some c =>
      simp only [SpelledBy, LegacyTx.mk.injEq]
      constructor
      · grind
      · grind

theorem LegacyTx.endsIn_decodeSignature (base : BaseFields) (chainId : ChainId) :
    EndsIn Transaction.fieldRefusals (decodeSignature base chainId) := by
  refine (endsIn_item (by decide)).bind fun r => (endsIn_item (by decide)).bind fun s => ?_
  split
  · exact (endsIn_finish (by decide)).bind fun _ => endsIn_pure _
  · exact endsIn_reject _ (by decide) rfl

theorem LegacyTx.endsIn_decode : EndsIn Transaction.listRefusals decode := by
  refine (endsIn_enter _).bind fun _ => (BaseFields.endsIn_decode.mono (by decide)).bind fun base =>
    endsIn_atEnd.bind fun done => ?_
  split
  · exact endsIn_pure _
  · exact (ChainId.endsIn_field.mono (by decide)).bind fun c =>
      (endsIn_decodeSignature base c).mono (by decide)

theorem AccessListTx.readsAllItems_decode : decode.ReadsAllItems SpelledBy := by
  have hfields :=
    ChainId.readsItem_field.bind_all fun chainId =>
    BaseFields.readsItems_decode.bind_all fun base =>
    readsItem_list.bind_all fun accessList =>
    readsAllItems_finish ({ chainId, base, accessList } : AccessListTx)
  refine (hfields.after_enter .accessList).congr ?_
  intro tx items
  cases tx
  simp only [SpelledBy, AccessListTx.mk.injEq]
  constructor
  · grind
  · grind

theorem AccessListTx.endsIn_fields (chainId : ChainId) :
    EndsIn Transaction.fieldRefusals (do
      let base ← BaseFields.decode
      let accessList ← list
      finish
      return ({ chainId, base, accessList } : AccessListTx)) :=
  (BaseFields.endsIn_decode.mono (by decide)).bind fun _ =>
    (endsIn_list (by decide) (by decide)).bind fun _ =>
    (endsIn_finish (by decide)).bind fun _ => endsIn_pure _

theorem AccessListTx.endsIn_decode : EndsIn Transaction.listRefusals decode :=
  (endsIn_enter _).bind fun _ => (ChainId.endsIn_field.mono (by decide)).bind fun c =>
    (endsIn_fields c).mono (by decide)

theorem FeeMarketTx.readsAllItems_decode : decode.ReadsAllItems SpelledBy := by
  have hfields :=
    ChainId.readsItem_field.bind_all fun chainId =>
    readsItem_payload.bind_all fun nonce =>
    readsItem_payload.bind_all fun priorityFee =>
    readsItem_payload.bind_all fun maxFee =>
    readsItem_payload.bind_all fun gasLimit =>
    Address.readsItem_field.bind_all fun recipient =>
    readsItem_payload.bind_all fun value =>
    readsItem_payload.bind_all fun data =>
    readsItem_list.bind_all fun accessList =>
    readsAllItems_finish ({
      chainId, nonce, priorityFee, maxFee, gasLimit, recipient, value, data
      accessList } : FeeMarketTx)
  refine (hfields.after_enter .feeMarket).congr ?_
  intro tx items
  cases tx
  simp only [SpelledBy, FeeMarketTx.mk.injEq]
  constructor
  · grind
  · grind

theorem FeeMarketTx.endsIn_fields (chainId : ChainId) :
    EndsIn Transaction.fieldRefusals (do
      let nonce ← payload
      let priorityFee ← payload
      let maxFee ← payload
      let gasLimit ← payload
      let recipient ← Address.field
      let value ← payload
      let data ← payload
      let accessList ← list
      finish
      return ({
        chainId, nonce, priorityFee, maxFee, gasLimit, recipient, value, data
        accessList } : FeeMarketTx)) :=
  have hpayload : EndsIn Transaction.fieldRefusals payload := endsIn_payload (by decide)
  hpayload.bind fun _ => hpayload.bind fun _ => hpayload.bind fun _ => hpayload.bind fun _ =>
    (Address.endsIn_field.mono (by decide)).bind fun _ => hpayload.bind fun _ =>
    hpayload.bind fun _ => (endsIn_list (by decide) (by decide)).bind fun _ =>
    (endsIn_finish (by decide)).bind fun _ => endsIn_pure _

theorem FeeMarketTx.endsIn_decode : EndsIn Transaction.listRefusals decode :=
  (endsIn_enter _).bind fun _ => (ChainId.endsIn_field.mono (by decide)).bind fun c =>
    (endsIn_fields c).mono (by decide)

/-! ## Whole buffers -/

/-- The mark of the envelope and one list around `payload`, which ends where the bytes end. -/
def Envelope.Frames (e : Envelope) (payload raw : Bytes) : Prop :=
  ∃ frame, raw = e.mark ++ frame ∧ Rlp.readItem frame = .ok (⟨.list, payload⟩, []) ∧
    (e = .legacy → ∀ b ∈ raw.head?, 0xC0 ≤ b.toNat)

theorem Envelope.outcome_decode_cons (b : UInt8) (bs : Bytes) :
    (decode.run (b :: bs)).outcome =
      if b = 0x01 then .ok (accessList, bs)
      else if b = 0x02 then .ok (feeMarket, bs)
      else if 0xC0 ≤ b.toNat then .ok (legacy, b :: bs)
      else .error (.status .unsupportedTx) := by
  change (decode (b :: bs)).outcome = _
  rw [decode]
  by_cases h1 : b = 0x01
  · rw [if_pos h1, if_pos h1]
    rfl
  · by_cases h2 : b = 0x02
    · rw [if_neg h1, if_neg h1, if_pos h2, if_pos h2]
      rfl
    · by_cases h3 : 0xC0 ≤ b.toNat
      · rw [if_neg h1, if_neg h1, if_neg h2, if_neg h2, if_pos h3, if_pos h3]
        rfl
      · rw [if_neg h1, if_neg h1, if_neg h2, if_neg h2, if_neg h3, if_neg h3]
        rfl

theorem Envelope.reads_decode {e : Envelope} {bs rest : Bytes} :
    Reads decode bs e rest ↔
      bs = e.mark ++ rest ∧ (e = legacy → ∃ b more, bs = b :: more ∧ 0xC0 ≤ b.toNat) := by
  constructor
  · intro h
    cases bs with
    | nil => cases h
    | cons b bs =>
        rw [Reads, outcome_decode_cons] at h
        split at h
        · rename_i h1
          cases h
          exact ⟨by rw [h1]; rfl, nofun⟩
        · split at h
          · rename_i h2
            cases h
            exact ⟨by rw [h2]; rfl, nofun⟩
          · split at h
            · rename_i h3
              cases h
              exact ⟨rfl, fun _ => ⟨b, bs, rfl, h3⟩⟩
            · cases h
  · rintro ⟨hbs, hlist⟩
    by_cases he : e = legacy
    · subst he
      obtain ⟨b, more, rfl, hb⟩ := hlist rfl
      cases hbs
      exact congrArg Logged.outcome (run_decode_list hb more)
    · rw [hbs]
      exact congrArg Logged.outcome (run_decode_mark he rest)

theorem Envelope.endsIn_decode : EndsIn [.unexpected, .unsupportedTx] decode := by
  intro bs
  cases bs with
  | nil => exact Logged.endsIn_stop (by decide) rfl
  | cons b rest =>
      change (decode (b :: rest)).EndsIn _
      rw [decode]
      split
      · exact Logged.endsIn_pure _
      · split
        · exact Logged.endsIn_pure _
        · split
          · exact Logged.endsIn_pure _
          · exact Logged.endsIn_reject _ (by decide) rfl

/-- A frame is read as a mark and one item. -/
theorem Envelope.frames_iff {e : Envelope} {payload raw : Bytes} :
    e.Frames payload raw ↔
      ∃ frame, Reads decode raw e frame ∧ Rlp.readItem frame = .ok (⟨.list, payload⟩, []) := by
  constructor
  · rintro ⟨frame, hraw, hframe, hlist⟩
    refine ⟨frame, reads_decode.2 ⟨hraw, ?_⟩, hframe⟩
    intro he
    cases raw with
    | nil =>
        have hnil : frame = [] := (List.append_eq_nil_iff.1 hraw.symm).2
        rw [hnil] at hframe
        cases hframe
    | cons b more => exact ⟨b, more, rfl, hlist he b rfl⟩
  · rintro ⟨frame, hmark, hframe⟩
    obtain ⟨hraw, hlist⟩ := reads_decode.1 hmark
    refine ⟨frame, hraw, hframe, ?_⟩
    intro he b hb
    obtain ⟨b', more, rfl, hb'⟩ := hlist he
    cases hb
    exact hb'

/-- A buffer is framed in one way. -/
theorem Envelope.Frames.unique {e e' : Envelope} {payload payload' raw : Bytes}
    (h : e.Frames payload raw) (h' : e'.Frames payload' raw) : e = e' ∧ payload = payload' := by
  obtain ⟨frame, hmark, hframe⟩ := frames_iff.1 h
  obtain ⟨frame', hmark', hframe'⟩ := frames_iff.1 h'
  obtain ⟨rfl, rfl⟩ := hmark.unique hmark'
  rw [hframe] at hframe'
  cases hframe'
  exact ⟨rfl, rfl⟩

namespace Transaction

theorem readsAllItems_decodeBody (e : Envelope) :
    (decodeBody e).ReadsAllItems fun tx items => tx.envelope = e ∧ tx.SpelledBy items := by
  cases e with
  | legacy =>
      refine (LegacyTx.readsAllItems_decode.map legacy).congr ?_
      intro tx items
      cases tx <;> simp [envelope, SpelledBy]
  | accessList =>
      refine (AccessListTx.readsAllItems_decode.map accessList).congr ?_
      intro tx items
      cases tx <;> simp [envelope, SpelledBy]
  | feeMarket =>
      refine (FeeMarketTx.readsAllItems_decode.map feeMarket).congr ?_
      intro tx items
      cases tx <;> simp [envelope, SpelledBy]

theorem endsIn_decodeBody (e : Envelope) : EndsIn listRefusals (decodeBody e) := by
  cases e with
  | legacy => exact LegacyTx.endsIn_decode.map _
  | accessList => exact AccessListTx.endsIn_decode.map _
  | feeMarket => exact FeeMarketTx.endsIn_decode.map _

/-- The buffer is a frame of the transaction's own envelope around items that spell it. -/
def WrittenAs (tx : Transaction) (raw : Bytes) : Prop :=
  ∃ payload items, tx.envelope.Frames payload raw ∧ Rlp.Splits payload items ∧ tx.SpelledBy items

theorem reads_decode {tx : Transaction} {raw rest : Bytes} :
    Reads decode raw tx rest ↔ tx.WrittenAs raw ∧ rest = [] := by
  simp only [decode, reads_bind, reads_enter, reads_item, reads_ensure, reads_finish, reads_within]
  constructor
  · intro h
    obtain ⟨_, _, rfl, e, frame, hmark, h⟩ := h
    obtain ⟨⟨kind, payload⟩, _, hframe, h⟩ := h
    obtain ⟨_, _, ⟨hkind, rfl⟩, _, _, ⟨rfl, rfl⟩, h⟩ := h
    obtain ⟨⟨left, hbody⟩, rfl⟩ := h
    obtain rfl : kind = .list := of_decide_eq_true hkind
    obtain ⟨-, items, hsplits, rfl, hspelled⟩ := (readsAllItems_decodeBody e ..).1 hbody
    exact ⟨⟨payload, items, Envelope.frames_iff.2 ⟨frame, hmark, hframe⟩, hsplits, hspelled⟩, rfl⟩
  · rintro ⟨⟨payload, items, hframes, hsplits, hspelled⟩, rfl⟩
    obtain ⟨frame, hmark, hframe⟩ := Envelope.frames_iff.1 hframes
    have hbody : Reads (decodeBody tx.envelope) payload tx [] :=
      (readsAllItems_decodeBody _ ..).2 ⟨rfl, items, hsplits, rfl, hspelled⟩
    refine ⟨(), raw, rfl, tx.envelope, frame, hmark, ?_⟩
    refine ⟨⟨.list, payload⟩, [], hframe, ?_⟩
    exact ⟨(), [], ⟨rfl, rfl⟩, (), [], ⟨rfl, rfl⟩, ⟨[], hbody⟩, rfl⟩

theorem writtenAs_iff {tx : Transaction} {e : Envelope} {payload raw : Bytes}
    {items : List Rlp.Item} (hframes : e.Frames payload raw) (hsplits : Rlp.Splits payload items) :
    tx.WrittenAs raw ↔ tx.envelope = e ∧ tx.SpelledBy items := by
  constructor
  · rintro ⟨payload', items', hframes', hsplits', hspelled⟩
    obtain ⟨he, rfl⟩ := hframes'.unique hframes
    rw [hsplits'.unique hsplits] at hspelled
    exact ⟨he, hspelled⟩
  · rintro ⟨rfl, hspelled⟩
    exact ⟨payload, items, hframes, hsplits, hspelled⟩

theorem endsIn_decode : EndsIn refusals decode :=
  (endsIn_enter _).bind fun _ => (Envelope.endsIn_decode.mono (by decide)).bind fun e =>
    (endsIn_item (by decide)).bind fun _ => (endsIn_ensure _ (by decide) rfl).bind fun _ =>
    (endsIn_finish (by decide)).bind fun _ => ((endsIn_decodeBody e).mono (by decide)).within _

end Transaction

/-! ## Reviews -/

/-- The transfer that a recipient and its call data amount to. -/
def Transfer.recognised (recipient : Option Address) (data : Bytes) : Option Transfer :=
  match recipient with
  | none => none
  | some contract =>
    if data.length ≠ callLength then none
    else
      match readCall data with
      | .ok ((receiver, amount), []) => some { contract, receiver, amount }
      | _ => none

theorem Transfer.outcome_classify {ε : Type} (recipient : Option Address) (data : Bytes) :
    (classify recipient data : Logged ε (Option Transfer)).outcome =
      .ok (recognised recipient data) := by
  cases recipient with
  | none => rfl
  | some contract =>
      unfold classify recognised
      dsimp only
      split
      · rfl
      · rw [Logged.outcome_bind]
        change (match readCall data with
          | .ok ((receiver, amount), []) => pure (some { contract, receiver, amount })
          | _ => pure none : Logged ε (Option Transfer)).outcome = _
        split <;> rfl

/-- A call that is no transfer is not refused for that. -/
theorem Transfer.endsIn_classify {reasons : List Status} (recipient : Option Address)
    (data : Bytes) : (classify recipient data : Logged Stop _).EndsIn reasons := by
  unfold classify
  split
  · exact Logged.endsIn_pure none
  · split
    · exact Logged.endsIn_pure none
    · refine (Logged.endsIn_enter _).bind fun _ _ => ?_
      split
      · exact Logged.endsIn_pure _
      · exact Logged.endsIn_pure none

namespace Review

/-- A buffer is refused when its transaction is. -/
theorem outcome_parse_eq_error_iff {raw : Bytes} {stop : Stop} :
    (parse raw).outcome = .error stop ↔ Fails Transaction.decode raw stop := by
  unfold parse Fails
  rw [Logged.outcome_bind_ok rfl]
  cases h : (Transaction.decode.run raw).outcome with
  | error e =>
      rw [Logged.outcome_bind_error h]
      simp
  | ok p =>
      rw [Logged.outcome_bind_ok h, Logged.outcome_bind_ok (Transfer.outcome_classify _ _)]
      simp

/-- A review is what a whole buffer spells, and the transfer that this amounts to. -/
theorem parse_eq_ok_iff {raw : Bytes} {r : Review} :
    (parse raw).outcome = .ok r ↔
      r.raw = raw ∧ r.tx.WrittenAs raw ∧
        r.transfer = Transfer.recognised r.tx.recipient r.tx.data := by
  unfold parse
  simp only [Logged.bind_outcome_eq_ok, Transfer.outcome_classify]
  constructor
  · rintro ⟨_, _, ⟨tx, rest⟩, htx, _, ht, h⟩
    cases ht
    cases h
    exact ⟨rfl, (Transaction.reads_decode.1 htx).1, rfl⟩
  · rintro ⟨rfl, hw, ht⟩
    refine ⟨(), rfl, (r.tx, []), Transaction.reads_decode.2 ⟨hw, rfl⟩, _, rfl, ?_⟩
    rw [← ht]
    rfl

theorem exists_parse_eq_iff {raw : Bytes} {tx : Transaction} :
    (∃ r, (parse raw).outcome = .ok r ∧ r.tx = tx) ↔ tx.WrittenAs raw := by
  constructor
  · rintro ⟨r, hr, rfl⟩
    exact (parse_eq_ok_iff.1 hr).2.1
  · intro htx
    exact ⟨⟨raw, tx, Transfer.recognised tx.recipient tx.data⟩,
      parse_eq_ok_iff.2 ⟨rfl, htx, rfl⟩, rfl⟩

theorem endsIn_parse (raw : Bytes) : (parse raw).EndsIn Transaction.refusals :=
  (Logged.endsIn_enter _).bind fun _ _ => (Transaction.endsIn_decode raw).bind fun p _ =>
    (Transfer.endsIn_classify p.1.recipient p.1.data).bind fun _ _ => Logged.endsIn_pure _

theorem neverTraps_parse (raw : Bytes) : (parse raw).NeverTraps := (endsIn_parse raw).neverTraps

end Review

end ClearSign
