import ClearSign.Proofs.Transaction.Spelling
/-!
# What is accepted, and where its fields stand

A buffer is accepted when it is the mark of a form and one list, and the items of the list are those
that the form admits.  Nothing is read here: the bytes are split into items first, then the items
are counted and the ones with a rule of their own are looked at.

`Envelope.layout` tells at which place each field of a form stands, and `ReadFrom` that every
accessor answers with the item at its place.
-/

namespace ClearSign

/-! ## What a form admits -/

/-- The item names an accepted network. -/
def Rlp.Item.NamesNetwork (item : Rlp.Item) : Prop :=
  ∃ c, (ChainId.ofItem item).outcome = .ok c

/-- The item is an address, or stands for none. -/
def Rlp.Item.IsRecipient (item : Rlp.Item) : Prop :=
  item.payload.length = 0 ∨ item.payload.length = 20

/-- What a form asks of the items of its list. -/
def Envelope.Admits : Envelope → List Rlp.Item → Prop
  | legacy, items =>
    (items.length = 6 ∨
      items.length = 9 ∧ (∃ id ∈ items[6]?, id.NamesNetwork) ∧
        (∃ r ∈ items[7]?, r.IsBlank) ∧ (∃ s ∈ items[8]?, s.IsBlank)) ∧
      ∃ recipient ∈ items[3]?, recipient.IsRecipient
  | accessList, items =>
    items.length = 8 ∧ (∃ id ∈ items[0]?, id.NamesNetwork) ∧
      (∃ list ∈ items[7]?, list.kind = .list) ∧ ∃ recipient ∈ items[4]?, recipient.IsRecipient
  | feeMarket, items =>
    items.length = 9 ∧ (∃ id ∈ items[0]?, id.NamesNetwork) ∧
      (∃ list ∈ items[8]?, list.kind = .list) ∧ ∃ recipient ∈ items[5]?, recipient.IsRecipient

/-! ## Where the fields stand -/

/-- The places of the fields in the list, counted from zero.  A form need not have a field. -/
structure Layout where
  chainId : Nat
  nonce : Nat
  gasPrice : Option Nat
  priorityFee : Option Nat
  maxFee : Option Nat
  gasLimit : Nat
  recipient : Nat
  value : Nat
  data : Nat
  accessList : Option Nat

def Envelope.layout : Envelope → Layout
  | legacy =>
    { nonce := 0, gasPrice := some 1, priorityFee := none, maxFee := none, gasLimit := 2,
      recipient := 3, value := 4, data := 5, chainId := 6, accessList := none }
  | accessList =>
    { chainId := 0, nonce := 1, gasPrice := some 2, priorityFee := none, maxFee := none,
      gasLimit := 3, recipient := 4, value := 5, data := 6, accessList := some 7 }
  | feeMarket =>
    { chainId := 0, nonce := 1, gasPrice := none, priorityFee := some 2, maxFee := some 3,
      gasLimit := 4, recipient := 5, value := 6, data := 7, accessList := some 8 }

/-- The payload of the item at a place, if there is such an item. -/
def payloadAt (items : List Rlp.Item) (place : Nat) : Option Bytes :=
  items[place]?.map Rlp.Item.payload

/-- Every accessor answers with the payload at the place of its field, and with nothing where the
form has no such field.  The access list is the item itself, an empty recipient stands for none,
and the number of the network is what its bytes spell. -/
structure Transaction.ReadFrom (tx : Transaction) (items : List Rlp.Item) : Prop where
  chainId : tx.chainId.map ChainId.raw = payloadAt items tx.envelope.layout.chainId
  number : ∀ c ∈ tx.chainId, c.id = Bytes.value c.raw ∧ c.id ∈ ChainId.supported
  nonce : some tx.nonce = payloadAt items tx.envelope.layout.nonce
  gasPrice : tx.gasPrice = tx.envelope.layout.gasPrice.bind (payloadAt items)
  priorityFee : tx.priorityFee = tx.envelope.layout.priorityFee.bind (payloadAt items)
  maxFee : tx.maxFee = tx.envelope.layout.maxFee.bind (payloadAt items)
  gasLimit : some tx.gasLimit = payloadAt items tx.envelope.layout.gasLimit
  recipient : some (Address.toField tx.recipient) = payloadAt items tx.envelope.layout.recipient
  value : some tx.value = payloadAt items tx.envelope.layout.value
  data : some tx.data = payloadAt items tx.envelope.layout.data
  accessList : tx.accessListItem = tx.envelope.layout.accessList.bind (items[·]?)

/-! ## From spelling to places and back -/

theorem Address.length_toField (recipient : Option Address) :
    (toField recipient).length = 0 ∨ (toField recipient).length = 20 := by
  cases recipient with
  | none => exact .inl rfl
  | some a => exact .inr a.length_bytes

theorem Address.toField_inj {a b : Option Address} (h : toField a = toField b) : a = b := by
  have hread := ofField_toField a
  rw [h, ofField_toField] at hread
  exact (Except.ok.inj hread).symm

theorem Rlp.Item.isRecipient_iff {item : Rlp.Item} :
    item.IsRecipient ↔ ∃ recipient, item.payload = Address.toField recipient := by
  constructor
  · intro h
    by_cases hempty : item.payload = []
    · exact ⟨none, hempty⟩
    · have hlen : item.payload.length = addressLength := by
        rcases h with h | h
        · exact absurd (List.length_eq_zero_iff.1 h) hempty
        · exact h
      exact ⟨some ⟨item.payload, hlen⟩, rfl⟩
  · rintro ⟨recipient, h⟩
    rw [IsRecipient, h]
    exact Address.length_toField recipient

theorem BaseFields.SpelledBy.recipient {f : BaseFields} {items : List Rlp.Item}
    (h : f.SpelledBy items) : ∃ recipient ∈ items[3]?, recipient.IsRecipient := by
  obtain ⟨nonce, gasPrice, gasLimit, recipient, value, data, rfl, -, -, -, hto, -⟩ := h
  exact ⟨recipient, rfl, Rlp.Item.isRecipient_iff.2 ⟨f.recipient, hto⟩⟩

/-- The common fields stand in a row of their own, which starts at a place of the list. -/
structure BaseFields.StandAt (f : BaseFields) (items : List Rlp.Item) (start : Nat) : Prop where
  nonce : some f.nonce = payloadAt items start
  gasPrice : some f.gasPrice = payloadAt items (start + 1)
  gasLimit : some f.gasLimit = payloadAt items (start + 2)
  recipient : some (Address.toField f.recipient) = payloadAt items (start + 3)
  value : some f.value = payloadAt items (start + 4)
  data : some f.data = payloadAt items (start + 5)

theorem BaseFields.SpelledBy.standAt {f : BaseFields} {items : List Rlp.Item}
    (h : f.SpelledBy items) (before after : List Rlp.Item) :
    f.StandAt (before ++ items ++ after) before.length := by
  obtain ⟨nonce, gasPrice, gasLimit, recipient, value, data, rfl, h⟩ := h
  obtain ⟨hnonce, hprice, hgas, hto, hvalue, hdata⟩ := h
  have hplace : ∀ k, payloadAt (before ++ [nonce, gasPrice, gasLimit, recipient, value, data] ++
      after) (before.length + k) =
        payloadAt ([nonce, gasPrice, gasLimit, recipient, value, data] ++ after) k := by
    intro k
    rw [payloadAt, List.append_assoc, List.getElem?_append_right (Nat.le_add_right _ _),
      Nat.add_sub_cancel_left]
    rfl
  exact {
    nonce := (congrArg some hnonce).trans (hplace 0).symm
    gasPrice := (congrArg some hprice).trans (hplace 1).symm
    gasLimit := (congrArg some hgas).trans (hplace 2).symm
    recipient := (congrArg some hto.symm).trans (hplace 3).symm
    value := (congrArg some hvalue).trans (hplace 4).symm
    data := (congrArg some hdata).trans (hplace 5).symm }

theorem ChainId.number_of_item {item : Rlp.Item} {c : ChainId}
    (h : (ofItem item).outcome = .ok c) :
    ∀ c' ∈ some c, c'.id = Bytes.value c'.raw ∧ c'.id ∈ supported := by
  obtain ⟨hraw, hid, hs⟩ := ofItem_eq_ok h
  intro c' hc'
  cases hc'
  exact ⟨by rw [hraw, hid], hs⟩

namespace Transaction

theorem SpelledBy.admits {tx : Transaction} {items : List Rlp.Item} (h : tx.SpelledBy items) :
    tx.envelope.Admits items := by
  cases tx with
  | legacy tx =>
      obtain ⟨base, chainId⟩ := tx
      cases chainId with
      | none =>
          have hbase : base.SpelledBy items := h
          exact ⟨.inl hbase.length_eq, hbase.recipient⟩
      | some c =>
          obtain ⟨front, id, r, s, rfl, hbase, hc, hr, hs⟩ := h
          have hlen := hbase.length_eq
          obtain ⟨recipient, hplace, hrecipient⟩ := hbase.recipient
          have hnetwork : ∀ k, (front ++ [id, r, s])[6 + k]? = [id, r, s][k]? := by
            intro k
            rw [← hlen, List.getElem?_append_right (Nat.le_add_right _ _), Nat.add_sub_cancel_left]
          refine ⟨.inr ⟨?_, ⟨id, hnetwork 0, c, hc⟩, ⟨r, hnetwork 1, hr⟩, s, hnetwork 2, hs⟩,
            recipient, ?_, hrecipient⟩
          · rw [List.length_append, hlen]
            rfl
          · exact (List.getElem?_append_left (by omega)).trans hplace
  | accessList tx =>
      obtain ⟨id, front, rfl, hc, hbase, hl⟩ := h
      have hlen := hbase.length_eq
      obtain ⟨recipient, hplace, hrecipient⟩ := hbase.recipient
      refine ⟨?_, ⟨id, rfl, tx.chainId, hc⟩, ⟨tx.accessList, ?_, hl⟩, recipient, ?_, hrecipient⟩
      · simp [hlen]
      · simp [hlen]
      · exact (List.getElem?_append_left (by simp [hlen])).trans hplace
  | feeMarket tx =>
      obtain ⟨id, nonce, priorityFee, maxFee, gasLimit, recipient, value, data, h⟩ := h
      obtain ⟨rfl, hc, -, -, -, -, hto, -, -, hl⟩ := h
      exact ⟨rfl, ⟨id, rfl, tx.chainId, hc⟩, ⟨tx.accessList, rfl, hl⟩, recipient, rfl,
        Rlp.Item.isRecipient_iff.2 ⟨tx.recipient, hto⟩⟩

theorem SpelledBy.readFrom {tx : Transaction} {items : List Rlp.Item} (h : tx.SpelledBy items) :
    tx.ReadFrom items := by
  cases tx with
  | legacy tx =>
      obtain ⟨base, chainId⟩ := tx
      cases chainId with
      | none =>
          have hbase : base.SpelledBy items := h
          have hstand := hbase.standAt [] []
          rw [List.nil_append, List.append_nil] at hstand
          exact {
            chainId := by
              symm
              simp [payloadAt, Transaction.chainId, envelope, Envelope.layout, hbase.length_eq]
            number := nofun
            nonce := hstand.nonce
            gasPrice := hstand.gasPrice
            priorityFee := rfl
            maxFee := rfl
            gasLimit := hstand.gasLimit
            recipient := hstand.recipient
            value := hstand.value
            data := hstand.data
            accessList := rfl }
      | some c =>
          obtain ⟨front, id, r, s, rfl, hbase, hc, -, -⟩ := h
          have hstand := hbase.standAt [] [id, r, s]
          exact {
            chainId := by
              simp [payloadAt, Transaction.chainId, envelope, Envelope.layout, hbase.length_eq,
                (ChainId.ofItem_eq_ok hc).1]
            number := ChainId.number_of_item hc
            nonce := hstand.nonce
            gasPrice := hstand.gasPrice
            priorityFee := rfl
            maxFee := rfl
            gasLimit := hstand.gasLimit
            recipient := hstand.recipient
            value := hstand.value
            data := hstand.data
            accessList := rfl }
  | accessList tx =>
      obtain ⟨id, front, rfl, hc, hbase, -⟩ := h
      have hstand := hbase.standAt [id] [tx.accessList]
      exact {
        chainId := congrArg some (ChainId.ofItem_eq_ok hc).1
        number := ChainId.number_of_item hc
        nonce := hstand.nonce
        gasPrice := hstand.gasPrice
        priorityFee := rfl
        maxFee := rfl
        gasLimit := hstand.gasLimit
        recipient := hstand.recipient
        value := hstand.value
        data := hstand.data
        accessList := by simp [accessListItem, envelope, Envelope.layout, hbase.length_eq] }
  | feeMarket tx =>
      obtain ⟨id, nonce, priorityFee, maxFee, gasLimit, recipient, value, data, h⟩ := h
      obtain ⟨rfl, hc, hnonce, hpriority, hmax, hgas, hto, hvalue, hdata, -⟩ := h
      exact {
        chainId := congrArg some (ChainId.ofItem_eq_ok hc).1
        number := ChainId.number_of_item hc
        nonce := congrArg some hnonce
        gasPrice := rfl
        priorityFee := congrArg some hpriority
        maxFee := congrArg some hmax
        gasLimit := congrArg some hgas
        recipient := congrArg some hto.symm
        value := congrArg some hvalue
        data := congrArg some hdata
        accessList := rfl }

/-- Six items with a recipient in the fourth place spell the common fields. -/
theorem exists_base {nonce gasPrice gasLimit recipient value data : Rlp.Item}
    (h : recipient.IsRecipient) :
    ∃ base : BaseFields, base.SpelledBy [nonce, gasPrice, gasLimit, recipient, value, data] := by
  obtain ⟨dest, hto⟩ := Rlp.Item.isRecipient_iff.1 h
  let base : BaseFields :=
    { nonce := nonce.payload, gasPrice := gasPrice.payload, gasLimit := gasLimit.payload,
      recipient := dest, value := value.payload, data := data.payload }
  refine ⟨base, nonce, gasPrice, gasLimit, recipient, value, data, rfl, ?_⟩
  exact ⟨rfl, rfl, rfl, hto, rfl, rfl⟩

theorem exists_spelledBy {e : Envelope} {items : List Rlp.Item} (h : e.Admits items) :
    ∃ tx : Transaction, tx.envelope = e ∧ tx.SpelledBy items := by
  cases e with
  | legacy =>
      obtain ⟨hform, recipient, hplace, hrecipient⟩ := h
      rcases hform with hlen | ⟨hlen, ⟨id, hid, c, hc⟩, ⟨r, hr, hrb⟩, s, hs, hsb⟩
      · match items, hlen with
        | [nonce, gasPrice, gasLimit, recipient, value, data], _ =>
          cases hplace
          obtain ⟨base, hbase⟩ := exists_base hrecipient
          exact ⟨.legacy { base, chainId := none }, rfl, hbase⟩
      · match items, hlen with
        | [nonce, gasPrice, gasLimit, recipient, value, data, id, r, s], _ =>
          cases hplace
          cases hid
          cases hr
          cases hs
          obtain ⟨base, hbase⟩ := exists_base hrecipient
          exact ⟨.legacy { base, chainId := some c }, rfl, _, id, r, s, rfl, hbase, hc, hrb, hsb⟩
  | accessList =>
      obtain ⟨hlen, ⟨id, hid, chainId, hc⟩, ⟨accessList, hl, hlist⟩, recipient, hplace,
        hrecipient⟩ := h
      match items, hlen with
      | [id, nonce, gasPrice, gasLimit, recipient, value, data, accessList], _ =>
        cases hplace
        cases hid
        cases hl
        obtain ⟨base, hbase⟩ := exists_base hrecipient
        exact ⟨.accessList { chainId, base, accessList }, rfl, id, _, rfl, hc, hbase, hlist⟩
  | feeMarket =>
      obtain ⟨hlen, ⟨id, hid, chainId, hc⟩, ⟨accessList, hl, hlist⟩, recipient, hplace,
        hrecipient⟩ := h
      match items, hlen with
      | [id, nonce, priorityFee, maxFee, gasLimit, recipient, value, data, accessList], _ =>
        cases hplace
        cases hid
        cases hl
        obtain ⟨dest, hto⟩ := Rlp.Item.isRecipient_iff.1 hrecipient
        let tx : FeeMarketTx :=
          { chainId, nonce := nonce.payload, priorityFee := priorityFee.payload,
            maxFee := maxFee.payload, gasLimit := gasLimit.payload, recipient := dest,
            value := value.payload, data := data.payload, accessList }
        have hspelled : tx.SpelledBy
            [id, nonce, priorityFee, maxFee, gasLimit, recipient, value, data, accessList] := by
          refine ⟨id, nonce, priorityFee, maxFee, gasLimit, recipient, value, data, rfl, hc, ?_⟩
          exact ⟨rfl, rfl, rfl, rfl, hto, rfl, rfl, hlist⟩
        exact ⟨.feeMarket tx, rfl, hspelled⟩

theorem ReadFrom.chainId_eq {tx : Transaction} {items : List Rlp.Item} (h : tx.ReadFrom items) :
    tx.chainId =
      (payloadAt items tx.envelope.layout.chainId).map fun raw => ⟨raw, Bytes.value raw⟩ := by
  rw [← h.chainId]
  cases hc : tx.chainId with
  | none => rfl
  | some c =>
      obtain ⟨raw, id⟩ := c
      obtain ⟨hid, -⟩ := h.number _ hc
      dsimp only at hid
      rw [hid]
      rfl

/-- The form and the items tell the transaction. -/
theorem ReadFrom.unique {tx tx' : Transaction} {items : List Rlp.Item} (h : tx.ReadFrom items)
    (h' : tx'.ReadFrom items) (he : tx.envelope = tx'.envelope) : tx = tx' := by
  have hchain : tx.chainId = tx'.chainId := by rw [h.chainId_eq, h'.chainId_eq, he]
  have hnonce : some tx.nonce = some tx'.nonce := by rw [h.nonce, h'.nonce, he]
  have hprice : tx.gasPrice = tx'.gasPrice := by rw [h.gasPrice, h'.gasPrice, he]
  have hpriority : tx.priorityFee = tx'.priorityFee := by rw [h.priorityFee, h'.priorityFee, he]
  have hmax : tx.maxFee = tx'.maxFee := by rw [h.maxFee, h'.maxFee, he]
  have hgas : some tx.gasLimit = some tx'.gasLimit := by rw [h.gasLimit, h'.gasLimit, he]
  have hto : tx.recipient = tx'.recipient := by
    apply Address.toField_inj
    apply Option.some.inj
    rw [h.recipient, h'.recipient, he]
  have hvalue : some tx.value = some tx'.value := by rw [h.value, h'.value, he]
  have hdata : some tx.data = some tx'.data := by rw [h.data, h'.data, he]
  have hlist : tx.accessListItem = tx'.accessListItem := by rw [h.accessList, h'.accessList, he]
  -- Two forms have different envelopes, and a form is what its accessors answer.
  rcases tx with ⟨⟨⟨⟩, _⟩⟩ | ⟨⟨_, ⟨⟩, _⟩⟩ | ⟨⟨⟩⟩ <;>
    rcases tx' with ⟨⟨⟨⟩, _⟩⟩ | ⟨⟨_, ⟨⟩, _⟩⟩ | ⟨⟨⟩⟩ <;>
    simp_all [envelope, Transaction.chainId, Transaction.nonce, Transaction.gasPrice,
      Transaction.priorityFee, Transaction.maxFee, Transaction.gasLimit, Transaction.recipient,
      Transaction.value, Transaction.data, accessListItem]

theorem spelledBy_iff {tx : Transaction} {items : List Rlp.Item} :
    tx.SpelledBy items ↔ tx.envelope.Admits items ∧ tx.ReadFrom items := by
  constructor
  · intro h
    exact ⟨h.admits, h.readFrom⟩
  · rintro ⟨hadmits, hread⟩
    obtain ⟨tx', he, hspelled⟩ := exists_spelledBy hadmits
    rw [hread.unique hspelled.readFrom he.symm]
    exact hspelled

end Transaction

/-! ## Acceptance -/

namespace Review

theorem exists_parse_iff (raw : Bytes) :
    (∃ r, (parse raw).outcome = .ok r) ↔ ∃ tx : Transaction, tx.WrittenAs raw := by
  simp only [← exists_parse_eq_iff]
  constructor
  · rintro ⟨r, hr⟩
    exact ⟨r.tx, r, hr, rfl⟩
  · rintro ⟨_, r, hr, -⟩
    exact ⟨r, hr⟩

/-- Acceptance is a matter of splitting the list into items and looking at them; what is accepted
is read off the places of its form, and none of its bytes is left out of account. -/
theorem parse_accepts_iff (raw : Bytes) :
    ((∃ r, (parse raw).outcome = .ok r) ↔
      ∃ (e : Envelope) (payload : Bytes) (items : List Rlp.Item),
        e.Frames payload raw ∧ Rlp.Splits payload items ∧ e.Admits items) ∧
      ∀ r, (parse raw).outcome = .ok r →
        r.raw = raw ∧ ∃ (payload : Bytes) (items : List Rlp.Item),
          r.envelope.Frames payload raw ∧ Rlp.Splits payload items ∧ r.tx.ReadFrom items := by
  constructor
  · rw [exists_parse_iff]
    constructor
    · rintro ⟨tx, payload, items, hframes, hsplits, hspelled⟩
      exact ⟨tx.envelope, payload, items, hframes, hsplits, hspelled.admits⟩
    · rintro ⟨e, payload, items, hframes, hsplits, hadmits⟩
      obtain ⟨tx, rfl, hspelled⟩ := Transaction.exists_spelledBy hadmits
      exact ⟨tx, payload, items, hframes, hsplits, hspelled⟩
  · intro r hr
    obtain ⟨hraw, ⟨payload, items, hframes, hsplits, hspelled⟩, -⟩ := parse_eq_ok_iff.1 hr
    exact ⟨hraw, payload, items, hframes, hsplits, hspelled.readFrom⟩

/-- What the forms would admit if every list with an access list had nine items. -/
def AdmitsNine : Envelope → List Rlp.Item → Prop
  | .legacy, items => Envelope.legacy.Admits items
  | .accessList, items =>
    items.length = 9 ∧ (∃ id ∈ items[0]?, id.NamesNetwork) ∧
      (∃ list ∈ items[8]?, list.kind = .list) ∧ ∃ recipient ∈ items[4]?, recipient.IsRecipient
  | .feeMarket, items => Envelope.feeMarket.Admits items

/-- A transaction with an access list and a single gas price, all of its fields empty. -/
def eightItems : Bytes := [0x01, 0xCA, 0x82, 0x0D, 0x0A, 0x80, 0x80, 0x80, 0x80, 0x80, 0x80, 0xC0]

/-- With a single gas price there is one field less than with two fees, so eight items are enough
and nine are never what is accepted. -/
theorem eight_items_suffice :
    ¬((∃ r, (parse eightItems).outcome = .ok r) ↔
      ∃ (e : Envelope) (payload : Bytes) (items : List Rlp.Item),
        e.Frames payload eightItems ∧ Rlp.Splits payload items ∧ AdmitsNine e items) := by
  intro hiff
  obtain ⟨e, payload, items, ⟨frame, hmark, hframe, -⟩, hsplits, hadmits⟩ := hiff.1 ⟨_, rfl⟩
  cases e with
  | legacy =>
      cases hmark
      cases hframe
  | feeMarket => cases hmark
  | accessList =>
      cases hmark
      have hencode : [0xCA, 0x82, 0x0D, 0x0A, 0x80, 0x80, 0x80, 0x80, 0x80, 0x80, 0xC0] =
          Rlp.encodeList [0x82, 0x0D, 0x0A, 0x80, 0x80, 0x80, 0x80, 0x80, 0x80, 0xC0] ++ [] := by
        decide +kernel
      rw [hencode, Rlp.readItem_encodeList (by decide)] at hframe
      cases hframe
      have height : Rlp.Splits [0x82, 0x0D, 0x0A, 0x80, 0x80, 0x80, 0x80, 0x80, 0x80, 0xC0]
          (⟨.string, [0x0D, 0x0A]⟩ :: List.replicate 6 ⟨.string, []⟩ ++ [⟨.list, []⟩]) := by
        decide +kernel
      have hlen : items.length = 8 := congrArg List.length (hsplits.unique height)
      have hnine : items.length = 9 := hadmits.1
      omega

end Review

end ClearSign
