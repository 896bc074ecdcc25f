import ClearSign.Proofs.Transaction.Spelling
/-!
# Which calls are transfers

Call data is read as a transfer exactly when it is what `callData` writes for some receiver and some
amount (`recognised_eq_some_iff`).  So a recognised transfer names the recipient of the transaction
as its contract, and its receiver and its amount are the two arguments of the call.
-/

namespace ClearSign.Transfer

/-! ## The arguments of a call -/

/-- The first argument, without the zeros that fill up its word. -/
def receiverArgument (data : Bytes) : Bytes := (data.drop 16).take 20

/-- The second argument. -/
def amountArgument (data : Bytes) : Bytes := (data.drop 36).take 32

theorem length_callData (receiver : Address) (amount : AbiWord) :
    (callData receiver amount).length = 68 := by
  have hreceiver : receiver.bytes.length = 20 := receiver.length_bytes
  have hamount : amount.bytes.length = 32 := amount.length_bytes
  have hfront : (selector ++ List.replicate paddingLength 0).length = 16 := by decide
  rw [callData, List.length_append, List.length_append, hfront, hreceiver, hamount]

theorem receiverArgument_callData (receiver : Address) (amount : AbiWord) :
    receiverArgument (callData receiver amount) = receiver.bytes := by
  have hreceiver : receiver.bytes.length = 20 := receiver.length_bytes
  have hfront : (selector ++ List.replicate paddingLength 0).length = 16 := by decide
  rw [receiverArgument, callData, List.append_assoc, List.drop_left' hfront,
    List.take_left' hreceiver]

theorem amountArgument_callData (receiver : Address) (amount : AbiWord) :
    amountArgument (callData receiver amount) = amount.bytes := by
  have hreceiver : receiver.bytes.length = 20 := receiver.length_bytes
  have hamount : amount.bytes.length = 32 := amount.length_bytes
  have hfront : (selector ++ List.replicate paddingLength 0 ++ receiver.bytes).length = 36 := by
    have hhead : (selector ++ List.replicate paddingLength 0).length = 16 := by decide
    rw [List.length_append, hhead, hreceiver]
  rw [amountArgument, callData, List.drop_left' hfront, List.take_of_length_le (by omega)]

/-! ## Recognition -/

theorem eq_replicate_of_any_eq_false {n : Nat} {padding : Octets n}
    (h : ¬padding.bytes.any (· != 0) = true) : padding.bytes = List.replicate n 0 := by
  apply List.eq_replicate_iff.2
  refine ⟨padding.length_bytes, ?_⟩
  intro b hb
  apply Decidable.byContradiction
  intro hne
  exact h (List.any_eq_true.2 ⟨b, hb, by simpa using hne⟩)

theorem eq_callData_of_readCall {data rest : Bytes} {receiver : Address} {amount : AbiWord}
    (h : readCall data = .ok ((receiver, amount), rest)) :
    data = callData receiver amount ++ rest := by
  unfold readCall at h
  obtain ⟨⟨called, afterSelector⟩, hcalled, h⟩ := Checked.bind_eq_ok.1 h
  dsimp only at h
  split at h
  · cases h
  · rename_i hselector
    obtain ⟨⟨padding, afterPadding⟩, hpadding, h⟩ := Checked.bind_eq_ok.1 h
    split at h
    · cases h
    · rename_i hzeros
      obtain ⟨⟨dest, afterDest⟩, hdest, h⟩ := Checked.bind_eq_ok.1 h
      obtain ⟨⟨sum, afterSum⟩, hsum, h⟩ := Checked.bind_eq_ok.1 h
      cases h
      have hcall : called.bytes = selector := Decidable.not_not.1 hselector
      have hpad : padding.bytes = List.replicate paddingLength 0 :=
        eq_replicate_of_any_eq_false hzeros
      have harguments : afterPadding = dest.bytes ++ afterDest := Octets.eq_append_of_read hdest
      have hlast : afterDest = sum.bytes ++ afterSum := Octets.eq_append_of_read hsum
      calc
        data = selector ++ afterSelector := by
          rw [Octets.eq_append_of_read hcalled, hcall]
        _ = selector ++ (List.replicate paddingLength 0 ++ afterPadding) := by
          rw [Octets.eq_append_of_read hpadding, hpad]
        _ = callData dest sum ++ afterSum := by
          rw [harguments, hlast]
          simp only [callData, List.append_assoc]

theorem recipient_and_data_of_recognised {recipient : Option Address} {data : Bytes}
    {t : Transfer} (h : recognised recipient data = some t) :
    recipient = some t.contract ∧ data = callData t.receiver t.amount := by
  unfold recognised at h
  split at h
  · cases h
  · split at h
    · cases h
    · split at h
      · rename_i hcall
        cases h
        have hdata := eq_callData_of_readCall hcall
        rw [List.append_nil] at hdata
        exact ⟨rfl, hdata⟩
      · cases h

theorem readCall_callData (receiver : Address) (amount : AbiWord) :
    readCall (callData receiver amount) = .ok ((receiver, amount), []) := by
  let called : Octets selector.length := ⟨selector, rfl⟩
  let padding : Octets paddingLength := ⟨List.replicate paddingLength 0, List.length_replicate⟩
  have hzeros : ¬padding.bytes.any (· != 0) = true := by decide
  have hparts : callData receiver amount =
      called.bytes ++ (padding.bytes ++ (receiver.bytes ++ (amount.bytes ++ []))) := by
    simp only [callData, called, padding, List.append_assoc, List.append_nil]
  rw [readCall, hparts, Octets.read_append called]
  simp only [Checked.ok_bind]
  rw [if_neg (not_not_intro rfl), Octets.read_append padding]
  simp only [Checked.ok_bind]
  rw [if_neg hzeros, Octets.read_append receiver]
  simp only [Checked.ok_bind]
  rw [Octets.read_append amount]
  rfl

/-- A call is a transfer exactly when it is written as one. -/
theorem recognised_eq_some_iff {recipient : Option Address} {data : Bytes} {t : Transfer} :
    recognised recipient data = some t ↔
      recipient = some t.contract ∧ data = callData t.receiver t.amount := by
  constructor
  · exact recipient_and_data_of_recognised
  · rintro ⟨rfl, rfl⟩
    have hlen : (callData t.receiver t.amount).length = callLength := length_callData _ _
    unfold recognised
    dsimp only
    rw [if_neg (not_not_intro hlen), readCall_callData]

end ClearSign.Transfer
