import ClearSign.Review.Field
import ClearSign.Proofs.Decimal.Amount
/-!
# What a field says in full

`fullText` gives the text of a field as mathematics: an address and the start of call data in
hexadecimal digits, an amount in decimal ones.  `fieldText_eq` says that the routines with their
scratch buffers write exactly that, so making up a text never traps.  Each kind of text determines
what it is the text of.
-/

namespace ClearSign.Review

/-! ## The three kinds of text -/

def addressDigits (a : Address) : Bytes := addressMark ++ Hex.digits a.bytes

/-- An amount, unless it is too long to be shown. -/
def amountDigits (num : Bytes) (places : Nat) : Except Status Bytes :=
  if num.length ≤ Decimal.maxNumberBytes then .ok (Decimal.fixed (Bytes.value num) places)
  else .error .valueOutOfRange

/-- The start of call data. -/
def preview (data : Bytes) : Bytes :=
  Hex.digits (data.take dataShown) ++ if dataShown < data.length then ellipsis else []

/-- A part that not every transaction has. -/
def part {α : Type} (x : Option α) : Except Status α :=
  match x with
  | some a => .ok a
  | none => .error .noData

def fullText (r : Review) : Field → Except Status Bytes
  | .receiver => (part r.transfer).bind fun t => .ok (addressDigits t.receiver)
  | .contract => (part r.transfer).bind fun t => .ok (addressDigits t.contract)
  | .amount => (part r.transfer).bind fun t => amountDigits t.amount.bytes 0
  | .recipient => (part r.tx.recipient).bind fun dest => .ok (addressDigits dest)
  | .nonce => amountDigits r.tx.nonce 0
  | .maxPriorityFee => (part r.tx.priorityFee).bind fun fee => amountDigits fee 0
  | .maxFee => (part r.tx.maxFee).bind fun fee => amountDigits fee 0
  | .gasLimit => amountDigits r.tx.gasLimit 0
  | .gasPrice => (part r.tx.gasPrice).bind fun price => amountDigits price 0
  | .value => amountDigits r.tx.value 0
  | .coinValue => amountDigits r.tx.value coinPlaces
  | .data => .ok (preview r.tx.data)
  | .hash => .ok (Hex.digits (Keccak.digest r.raw).bytes)

/-! ## The routines write these texts -/

theorem amountText_eq_digits {places : Nat} (h : places ≤ Decimal.maxDigits) (num : Bytes) :
    Decimal.amountText num places = liftM (amountDigits num places) := by
  unfold amountDigits
  split
  · rename_i hnum
    exact Decimal.amountText_eq hnum h
  · rename_i hnum
    exact Decimal.amountText_of_lt places (by omega)

theorem hexText_eq {bs : Bytes} {size : Nat} (lead : Bytes) (h : size = 2 * bs.length)
    (hsize : size < 2 ^ 64) : hexText lead bs size = .ok (lead ++ Hex.digits bs) := by
  have hencode : Hex.encode bs (List.replicate size 0) =
      .ok (.done (Hex.digits bs) (2 * bs.length)) := by
    rw [h, ← Nat.add_zero (2 * bs.length),
      Hex.encode_zeros (show bs.length * 2 < 2 ^ 64 by omega), List.replicate_zero,
      List.append_nil, Nat.add_zero]
  have htake : Checked.take (Hex.digits bs) (2 * bs.length) = .ok (Hex.digits bs) := by
    rw [Checked.take_eq_ok (by simp), List.take_of_length_le (by simp)]
  rw [hexText, hencode]
  simp only [Stop.liftM_checked_ok, Checked.ok_bind, Written.done, htake]
  rfl

theorem addressText_eq (a : Address) : addressText a = .ok (addressDigits a) :=
  hexText_eq addressMark (by rw [a.length_bytes]) (by decide)

theorem hashText_eq (r : Review) : hashText r = .ok (Hex.digits (Keccak.digest r.raw).bytes) := by
  have hsize : 2 * Keccak.digestLength = 2 * (Keccak.digest r.raw).bytes.length := by
    rw [(Keccak.digest r.raw).length_bytes]
  rw [hashText, hexText_eq [] hsize (by decide), List.nil_append]

theorem dataText_eq (data : Bytes) : dataText data = .ok (preview data) := by
  have hellipsis : ellipsis.length = 3 := by decide
  have hshown : dataShown = 10 := rfl
  have hlen : (data.take dataShown).length = min data.length 10 := by
    rw [List.length_take, hshown, Nat.min_comm]
  have hprefix : Checked.take data (min data.length dataShown) = .ok (data.take dataShown) := by
    rw [Checked.take_eq_ok (Nat.min_le_left _ _), Nat.min_comm, ← List.take_eq_take_min]
  obtain ⟨room, hroom⟩ : ∃ room, 2 * dataShown + ellipsis.length =
      (Hex.digits (data.take dataShown)).length + room :=
    ⟨23 - (Hex.digits (data.take dataShown)).length, by
      rw [hellipsis, hshown, Hex.length_digits, ← hshown, hlen]
      omega⟩
  have hencode : Hex.encode (data.take dataShown)
      (List.replicate (2 * dataShown + ellipsis.length) 0) =
        .ok (.done (Hex.digits (data.take dataShown) ++ List.replicate room 0)
          (Hex.digits (data.take dataShown)).length) := by
    rw [hroom, Hex.length_digits,
      Hex.encode_zeros (show (data.take dataShown).length * 2 < 2 ^ 64 by omega)]
  rw [dataText, hprefix]
  simp only [Stop.liftM_checked_ok, Checked.ok_bind, hencode, Written.done]
  rw [hellipsis, hshown, Hex.length_digits, ← hshown, hlen] at hroom
  unfold preview
  split
  · have hfull : room = ellipsis.length := by omega
    have hreplace : Checked.replace (Hex.digits (data.take dataShown) ++ List.replicate room 0)
        (Hex.digits (data.take dataShown)).length
        ((Hex.digits (data.take dataShown)).length + ellipsis.length) ellipsis =
          .ok (Hex.digits (data.take dataShown) ++ ellipsis) := by
      rw [Checked.replace_eq_ok (by omega) (by simp [hfull]) (by omega), List.take_left,
        List.drop_of_length_le (by simp [hfull]), List.append_nil]
    have htake : Checked.take (Hex.digits (data.take dataShown) ++ ellipsis)
        ((Hex.digits (data.take dataShown)).length + ellipsis.length) =
          .ok (Hex.digits (data.take dataShown) ++ ellipsis) := by
      rw [← List.length_append, Checked.take_eq_ok (Nat.le_refl _), List.take_length]
    simp only [hreplace, Stop.liftM_checked_ok, Checked.ok_bind, htake]
  · have htake : Checked.take (Hex.digits (data.take dataShown) ++ List.replicate room 0)
        (Hex.digits (data.take dataShown)).length = .ok (Hex.digits (data.take dataShown)) := by
      rw [Checked.take_eq_ok (by simp), List.take_left]
    simp only [htake, Stop.liftM_checked_ok, List.append_nil]

theorem require_bind {α : Type} {x : Option α} {routine : α → Except Stop Bytes}
    {text : α → Except Status Bytes} (h : ∀ a, routine a = liftM (text a)) :
    (require x >>= routine) = liftM ((part x).bind text) := by
  cases x with
  | none => rfl
  | some a => exact h a

/-- The text of a field is made up without a trap. -/
theorem fieldText_eq (r : Review) (f : Field) : r.fieldText f = liftM (r.fullText f) := by
  have hplain := amountText_eq_digits (show 0 ≤ Decimal.maxDigits by decide)
  have hcoins := amountText_eq_digits (show coinPlaces ≤ Decimal.maxDigits by decide)
  cases f with
  | receiver => exact require_bind fun t => addressText_eq t.receiver
  | contract => exact require_bind fun t => addressText_eq t.contract
  | amount => exact require_bind fun t => hplain t.amount.bytes
  | recipient => exact require_bind addressText_eq
  | nonce => exact hplain r.tx.nonce
  | maxPriorityFee => exact require_bind hplain
  | maxFee => exact require_bind hplain
  | gasLimit => exact hplain r.tx.gasLimit
  | gasPrice => exact require_bind hplain
  | value => exact hplain r.tx.value
  | coinValue => exact hcoins r.tx.value
  | data => exact dataText_eq r.tx.data
  | hash => exact hashText_eq r

/-! ## What every text is like -/

theorem amountDigits_eq_ok {num t : Bytes} {places : Nat} (h : amountDigits num places = .ok t) :
    num.length ≤ Decimal.maxNumberBytes ∧ t = Decimal.fixed (Bytes.value num) places := by
  unfold amountDigits at h
  split at h
  · cases h
    exact ⟨by assumption, rfl⟩
  · cases h

theorem part_bind_eq_ok {α : Type} {x : Option α} {text : α → Except Status Bytes} {t : Bytes}
    (h : (part x).bind text = .ok t) : ∃ a, x = some a ∧ text a = .ok t := by
  cases x with
  | none => cases h
  | some a => exact ⟨a, rfl, h⟩

/-- A text is that of an address, an amount, call data or a digest. -/
theorem fullText_cases {P : Bytes → Prop} {r : Review} {f : Field} {t : Bytes}
    (haddress : ∀ a, P (addressDigits a))
    (hamount : ∀ num places, places ≤ coinPlaces → num.length ≤ Decimal.maxNumberBytes →
      P (Decimal.fixed (Bytes.value num) places))
    (hpreview : f = .data → P (preview r.tx.data))
    (hdigest : ∀ d : Octets Keccak.digestLength, P (Hex.digits d.bytes))
    (h : r.fullText f = .ok t) : P t := by
  have haddress : ∀ {a : Address}, Except.ok (addressDigits a) = (.ok t : Except Status Bytes) →
      P t := by
    intro a ha
    cases ha
    exact haddress a
  have hplain : ∀ {num : Bytes}, amountDigits num 0 = .ok t → P t := by
    intro num hnum
    obtain ⟨hlen, rfl⟩ := amountDigits_eq_ok hnum
    exact hamount num 0 (Nat.zero_le _) hlen
  cases f with
  | receiver =>
      obtain ⟨_, -, ht⟩ := part_bind_eq_ok h
      exact haddress ht
  | contract =>
      obtain ⟨_, -, ht⟩ := part_bind_eq_ok h
      exact haddress ht
  | amount =>
      obtain ⟨_, -, ht⟩ := part_bind_eq_ok h
      exact hplain ht
  | recipient =>
      obtain ⟨_, -, ht⟩ := part_bind_eq_ok h
      exact haddress ht
  | nonce => exact hplain h
  | maxPriorityFee =>
      obtain ⟨_, -, ht⟩ := part_bind_eq_ok h
      exact hplain ht
  | maxFee =>
      obtain ⟨_, -, ht⟩ := part_bind_eq_ok h
      exact hplain ht
  | gasLimit => exact hplain h
  | gasPrice =>
      obtain ⟨_, -, ht⟩ := part_bind_eq_ok h
      exact hplain ht
  | value => exact hplain h
  | coinValue =>
      obtain ⟨hlen, rfl⟩ := amountDigits_eq_ok h
      exact hamount r.tx.value coinPlaces (Nat.le_refl _) hlen
  | data =>
      cases h
      exact hpreview rfl
  | hash =>
      cases h
      exact hdigest (Keccak.digest r.raw)

theorem zero_notMem_fullText {r : Review} {f : Field} {t : Bytes} (h : r.fullText f = .ok t) :
    (0 : UInt8) ∉ t := by
  have hmark : (0 : UInt8) ∉ addressMark := by decide
  have hellipsis : (0 : UInt8) ∉ ellipsis := by decide
  refine fullText_cases (P := fun t => (0 : UInt8) ∉ t) ?_ ?_ ?_ ?_ h
  · intro a ha
    rcases List.mem_append.1 ha with ha | ha
    · exact hmark ha
    · exact Hex.zero_notMem_digits a.bytes ha
  · intro num places _ _
    exact Decimal.zero_notMem_fixed _ _
  · intro _ hd
    rcases List.mem_append.1 hd with hd | hd
    · exact Hex.zero_notMem_digits _ hd
    · split at hd
      · exact hellipsis hd
      · cases hd
  · intro d
    exact Hex.zero_notMem_digits d.bytes

theorem length_addressDigits (a : Address) : (addressDigits a).length = 42 := by
  have hmark : addressMark.length = 2 := by decide
  have hlen : a.bytes.length = 20 := a.length_bytes
  rw [addressDigits, List.length_append, Hex.length_digits, hmark, hlen]

theorem length_digest_digits (d : Octets Keccak.digestLength) :
    (Hex.digits d.bytes).length = 64 := by
  have hlen : d.bytes.length = 32 := d.length_bytes
  rw [Hex.length_digits, hlen]

theorem length_preview (data : Bytes) : (preview data).length =
    2 * min dataShown data.length + if dataShown < data.length then 3 else 0 := by
  unfold preview
  rw [List.length_append, Hex.length_digits, List.length_take]
  split
  · rfl
  · rfl

/-- The longest text is that of an amount with a point. -/
theorem length_fullText_le {r : Review} {f : Field} {t : Bytes} (h : r.fullText f = .ok t) :
    t.length ≤ Decimal.maxDigits + 1 := by
  refine fullText_cases (P := fun t => t.length ≤ 79) ?_ ?_ ?_ ?_ h
  · intro a
    rw [length_addressDigits]
    decide
  · intro num places hplaces hnum
    have hplaces : places ≤ 18 := hplaces
    have hfixed : _ ≤ max 78 (places + 1) + 1 := Decimal.length_fixed_le hnum places
    omega
  · intro _
    have hmin : min dataShown r.tx.data.length ≤ 10 := Nat.min_le_left _ _
    rw [length_preview]
    split
    · omega
    · omega
  · intro d
    rw [length_digest_digits]
    decide

/-! ## What a text determines -/

theorem addressDigits_inj {a b : Address} (h : addressDigits a = addressDigits b) : a = b := by
  have hbytes : a.bytes = b.bytes := Hex.digits_inj (List.append_cancel_left h)
  cases a
  cases b
  cases hbytes
  rfl

theorem amountDigits_inj {a b t : Bytes} {places : Nat} (ha : amountDigits a places = .ok t)
    (hb : amountDigits b places = .ok t) : Bytes.value a = Bytes.value b := by
  have hfixed : Decimal.fixed (Bytes.value a) places = Decimal.fixed (Bytes.value b) places := by
    rw [← (amountDigits_eq_ok ha).2, ← (amountDigits_eq_ok hb).2]
  exact Decimal.fixed_inj hfixed

/-- The start of call data is determined, and whether there is more of it; the ellipsis is told
apart by its length. -/
theorem preview_inj {a b : Bytes} (h : preview a = preview b) :
    a.take dataShown = b.take dataShown ∧
      (a = b ∧ a.length ≤ dataShown ∨ dataShown < a.length ∧ dataShown < b.length) := by
  have hlen := congrArg List.length h
  rw [length_preview, length_preview] at hlen
  unfold preview at h
  by_cases ha : dataShown < a.length
  · have hb : dataShown < b.length := by
      rw [if_pos ha] at hlen
      split at hlen
      · assumption
      · omega
    rw [if_pos ha, if_pos hb] at h
    exact ⟨Hex.digits_inj (List.append_cancel_right h), Or.inr ⟨ha, hb⟩⟩
  · have hb : ¬dataShown < b.length := by
      intro hb
      rw [if_neg ha, if_pos hb] at hlen
      omega
    rw [if_neg ha, if_neg hb, List.append_nil, List.append_nil] at h
    have htake := Hex.digits_inj h
    refine ⟨htake, Or.inl ⟨?_, by omega⟩⟩
    rwa [List.take_of_length_le (by omega), List.take_of_length_le (by omega)] at htake

end ClearSign.Review
