import ClearSign.Proofs.Transaction.Layout
/-!
# Which kinds of items matter

A form is made up of numbers, a recipient and data, and of items of which the reader looks at the
kind: an access list has to be a list, and a blank signature value must not be one.  At the other
places the payload alone decides, so a list is taken for the string that has the same payload.

`Envelope.asStrings` puts strings at those places; `parse_of_asStrings` says that a buffer is read
as if they stood there.
-/

namespace ClearSign

/-! ## Items in place of which strings may stand -/

/-- The places of numbers, of the recipient and of the data. -/
def Layout.plainPlaces (l : Layout) : List Nat :=
  [l.chainId, l.nonce, l.gasLimit, l.recipient, l.value, l.data] ++ l.gasPrice.toList ++
    l.priorityFee.toList ++ l.maxFee.toList

def Rlp.Item.asString (item : Rlp.Item) : Rlp.Item := ⟨.string, item.payload⟩

/-- The items, with strings at the places where numbers, the recipient and the data belong. -/
def Envelope.asStrings (e : Envelope) (items : List Rlp.Item) : List Rlp.Item :=
  items.mapIdx fun place item => if place ∈ e.layout.plainPlaces then item.asString else item

/-- An item names a network by its payload. -/
theorem Rlp.Item.namesNetwork_iff {item : Rlp.Item} :
    item.NamesNetwork ↔
      item.payload.length ≤ wordBytes ∧ Bytes.value item.payload ∈ ChainId.supported := by
  constructor
  · rintro ⟨c, hc⟩
    obtain ⟨⟨-, hlen, hs⟩, -⟩ := ChainId.ofItem_eq_ok_iff_spelt.1 hc
    exact ⟨hlen, hs⟩
  · rintro ⟨hlen, hs⟩
    have hbytes := ChainId.two_le_length_of_supported hs
    exact ⟨_, ChainId.ofItem_eq_ok_iff_spelt.2 ⟨⟨hbytes, hlen, hs⟩, rfl⟩⟩

namespace Envelope

variable {e : Envelope} {items : List Rlp.Item} {place : Nat}

theorem length_asStrings (e : Envelope) (items : List Rlp.Item) :
    (e.asStrings items).length = items.length := List.length_mapIdx

theorem getElem?_asStrings_of_mem (h : place ∈ e.layout.plainPlaces) :
    (e.asStrings items)[place]? = items[place]?.map Rlp.Item.asString := by
  rw [asStrings, List.getElem?_mapIdx]
  simp only [if_pos h]

theorem getElem?_asStrings_of_notMem (h : place ∉ e.layout.plainPlaces) :
    (e.asStrings items)[place]? = items[place]? := by
  rw [asStrings, List.getElem?_mapIdx]
  simp only [if_neg h, Option.map_id_fun', id]

theorem payloadAt_asStrings (e : Envelope) (items : List Rlp.Item) :
    payloadAt (e.asStrings items) = payloadAt items := by
  funext place
  unfold payloadAt
  by_cases h : place ∈ e.layout.plainPlaces
  · rw [getElem?_asStrings_of_mem h, Option.map_map]
    rfl
  · rw [getElem?_asStrings_of_notMem h]

/-- What a payload decides, a string decides. -/
theorem exists_asStrings_iff {P : Rlp.Item → Prop} (h : place ∈ e.layout.plainPlaces)
    (hP : ∀ item : Rlp.Item, P item.asString ↔ P item) :
    (∃ item ∈ (e.asStrings items)[place]?, P item) ↔ ∃ item ∈ items[place]?, P item := by
  rw [getElem?_asStrings_of_mem h]
  cases items[place]? with
  | none => simp
  | some item => simpa using hP item

theorem admits_asStrings : e.Admits (e.asStrings items) ↔ e.Admits items := by
  have hnetwork : ∀ item : Rlp.Item, item.asString.NamesNetwork ↔ item.NamesNetwork := by
    intro item
    rw [Rlp.Item.namesNetwork_iff, Rlp.Item.namesNetwork_iff]
    rfl
  have hrecipient : ∀ item : Rlp.Item, item.asString.IsRecipient ↔ item.IsRecipient :=
    fun _ => Iff.rfl
  unfold Admits
  cases e with
  | legacy =>
      have hid : 6 ∈ legacy.layout.plainPlaces := by decide
      have hto : 3 ∈ legacy.layout.plainPlaces := by decide
      have hr : 7 ∉ legacy.layout.plainPlaces := by decide
      have hs : 8 ∉ legacy.layout.plainPlaces := by decide
      simp only [length_asStrings, exists_asStrings_iff hid hnetwork,
        exists_asStrings_iff hto hrecipient, getElem?_asStrings_of_notMem hr,
        getElem?_asStrings_of_notMem hs]
  | accessList =>
      have hid : 0 ∈ accessList.layout.plainPlaces := by decide
      have hto : 4 ∈ accessList.layout.plainPlaces := by decide
      have hlist : 7 ∉ accessList.layout.plainPlaces := by decide
      simp only [length_asStrings, exists_asStrings_iff hid hnetwork,
        exists_asStrings_iff hto hrecipient, getElem?_asStrings_of_notMem hlist]
  | feeMarket =>
      have hid : 0 ∈ feeMarket.layout.plainPlaces := by decide
      have hto : 5 ∈ feeMarket.layout.plainPlaces := by decide
      have hlist : 8 ∉ feeMarket.layout.plainPlaces := by decide
      simp only [length_asStrings, exists_asStrings_iff hid hnetwork,
        exists_asStrings_iff hto hrecipient, getElem?_asStrings_of_notMem hlist]

theorem accessList_asStrings (e : Envelope) (items : List Rlp.Item) :
    e.layout.accessList.bind ((e.asStrings items)[·]?) =
      e.layout.accessList.bind (items[·]?) := by
  cases e with
  | legacy => rfl
  | accessList => exact getElem?_asStrings_of_notMem (by decide)
  | feeMarket => exact getElem?_asStrings_of_notMem (by decide)

end Envelope

/-! ## What is read in either case -/

namespace Transaction

variable {tx : Transaction} {items items' : List Rlp.Item}

/-- Only the payloads and the access list are read. -/
theorem ReadFrom.congr (h : tx.ReadFrom items) (hpayload : payloadAt items = payloadAt items')
    (hlist : tx.envelope.layout.accessList.bind (items[·]?) =
      tx.envelope.layout.accessList.bind (items'[·]?)) :
    tx.ReadFrom items' where
  chainId := hpayload ▸ h.chainId
  number := h.number
  nonce := hpayload ▸ h.nonce
  gasPrice := hpayload ▸ h.gasPrice
  priorityFee := hpayload ▸ h.priorityFee
  maxFee := hpayload ▸ h.maxFee
  gasLimit := hpayload ▸ h.gasLimit
  recipient := hpayload ▸ h.recipient
  value := hpayload ▸ h.value
  data := hpayload ▸ h.data
  accessList := h.accessList.trans hlist

theorem readFrom_asStrings :
    tx.ReadFrom (tx.envelope.asStrings items) ↔ tx.ReadFrom items := by
  have hpayload := Envelope.payloadAt_asStrings tx.envelope items
  have hlist := Envelope.accessList_asStrings tx.envelope items
  constructor
  · intro h
    exact h.congr hpayload hlist
  · intro h
    exact h.congr hpayload.symm hlist.symm

theorem spelledBy_asStrings :
    tx.SpelledBy (tx.envelope.asStrings items) ↔ tx.SpelledBy items := by
  rw [spelledBy_iff, spelledBy_iff, Envelope.admits_asStrings, readFrom_asStrings]

end Transaction

namespace Review

variable {e : Envelope} {payload raw : Bytes} {items : List Rlp.Item}

/-- Where lists stand in place of numbers, of the recipient or of the data, a buffer is refused just
when it would be with strings of the same payloads, and otherwise the same is read. -/
theorem parse_of_asStrings (hframes : e.Frames payload raw) (hsplits : Rlp.Splits payload items) :
    ((∃ r, (parse raw).outcome = .ok r) ↔ e.Admits (e.asStrings items)) ∧
      ∀ payload' raw' items', e.Frames payload' raw' → Rlp.Splits payload' items' →
        e.asStrings items = e.asStrings items' → ∀ tx : Transaction,
          (∃ r, (parse raw).outcome = .ok r ∧ r.tx = tx) ↔
            ∃ r, (parse raw').outcome = .ok r ∧ r.tx = tx := by
  constructor
  · rw [exists_parse_iff, Envelope.admits_asStrings]
    simp only [Transaction.writtenAs_iff hframes hsplits]
    constructor
    · rintro ⟨tx, rfl, hspelled⟩
      exact hspelled.admits
    · exact Transaction.exists_spelledBy
  · intro payload' raw' items' hframes' hsplits' halike tx
    rw [exists_parse_eq_iff, exists_parse_eq_iff, Transaction.writtenAs_iff hframes hsplits,
      Transaction.writtenAs_iff hframes' hsplits']
    apply and_congr_right
    rintro rfl
    rw [← Transaction.spelledBy_asStrings, halike, Transaction.spelledBy_asStrings]

/-- The fields of a transaction with an access list, each written as a list, the network included. -/
def listedPayload : Bytes :=
  [0xC2, 0x0D, 0x0A, 0xC1, 0x05, 0xC1, 0x07, 0xC1, 0x09, 0xD4] ++ List.replicate 20 0x11 ++
    [0xC1, 0x01, 0xC1, 0x80, 0xC0]

def listedItems : List Rlp.Item :=
  [⟨.list, [0x0D, 0x0A]⟩, ⟨.list, [0x05]⟩, ⟨.list, [0x07]⟩, ⟨.list, [0x09]⟩,
    ⟨.list, List.replicate 20 0x11⟩, ⟨.list, [0x01]⟩, ⟨.list, [0x80]⟩, ⟨.list, []⟩]

/-- The same fields as they should be written. -/
def stringPayload : Bytes :=
  [0x82, 0x0D, 0x0A, 0x05, 0x07, 0x09, 0x94] ++ List.replicate 20 0x11 ++ [0x01, 0x81, 0x80, 0xC0]

def stringItems : List Rlp.Item :=
  [⟨.string, [0x0D, 0x0A]⟩, ⟨.byte, [0x05]⟩, ⟨.byte, [0x07]⟩, ⟨.byte, [0x09]⟩,
    ⟨.string, List.replicate 20 0x11⟩, ⟨.byte, [0x01]⟩, ⟨.string, [0x80]⟩, ⟨.list, []⟩]

/-- They are told apart by no field. -/
theorem listedPayload_read :
    ∃ r r', (parse (0x01 :: 0xE3 :: listedPayload)).outcome = .ok r ∧
      (parse (0x01 :: 0xDF :: stringPayload)).outcome = .ok r' ∧ r.tx = r'.tx := by
  have hlisted : Envelope.accessList.Frames listedPayload (0x01 :: 0xE3 :: listedPayload) :=
    ⟨_, rfl, Rlp.readItem_shortList (by decide) (by decide) (by decide), nofun⟩
  have hstring : Envelope.accessList.Frames stringPayload (0x01 :: 0xDF :: stringPayload) :=
    ⟨_, rfl, Rlp.readItem_shortList (by decide) (by decide) (by decide), nofun⟩
  have hlistedItems : Rlp.Splits listedPayload listedItems := by decide +kernel
  have hstringItems : Rlp.Splits stringPayload stringItems := by decide +kernel
  obtain ⟨-, hsame⟩ := parse_of_asStrings hlisted hlistedItems
  obtain ⟨r, hr⟩ : ∃ r, (parse (0x01 :: 0xE3 :: listedPayload)).outcome = .ok r := ⟨_, rfl⟩
  obtain ⟨r', hr', heq⟩ := (hsame _ _ _ hstring hstringItems (by decide) r.tx).1 ⟨r, hr, rfl⟩
  exact ⟨r, r', hr, hr', heq.symm⟩

/-- Six empty fields, of which the price is an empty list. -/
def listedPrice : Bytes := [0x80, 0xC0, 0x80, 0x80, 0x80, 0x80]

/-- Not every list in place of a number is refused. -/
theorem listedPrice_accepted :
    ¬∀ (e : Envelope) (payload raw : Bytes) (items : List Rlp.Item) (place : Nat) (item : Rlp.Item),
      e.Frames payload raw → Rlp.Splits payload items → place ∈ e.layout.plainPlaces →
        items[place]? = some item → item.kind = .list → ¬∃ r, (parse raw).outcome = .ok r := by
  intro h
  have hframes : Envelope.legacy.Frames listedPrice (0xC6 :: listedPrice) := by
    refine ⟨_, rfl, Rlp.readItem_shortList (by decide) (by decide) (by decide), ?_⟩
    intro _ b hb
    cases hb
    decide
  have hitems : Rlp.Splits listedPrice
      [⟨.string, []⟩, ⟨.list, []⟩, ⟨.string, []⟩, ⟨.string, []⟩, ⟨.string, []⟩, ⟨.string, []⟩] := by
    decide +kernel
  exact h _ _ _ _ 1 _ hframes hitems (by decide) rfl rfl ⟨_, rfl⟩

end Review

end ClearSign
