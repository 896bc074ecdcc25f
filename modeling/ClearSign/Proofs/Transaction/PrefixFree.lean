import ClearSign.Proofs.Transaction.Spelling
/-!
# No accepted buffer starts another

A buffer that is accepted is told apart from everything longer and everything shorter, and the
status says which it was.  The mark of the envelope is found again in any buffer that agrees with
the accepted one up to its length, and the list behind it is a single item, so what follows is left
over and what is missing is missed.
-/

namespace ClearSign

open Decoder

/-! ## The mark -/

namespace Envelope

theorem length_mark_le (e : Envelope) : e.mark.length ≤ 1 := by
  cases e <;> decide

theorem reads_decode_append {e : Envelope} {raw frame : Bytes} (h : Reads decode raw e frame)
    (more : Bytes) : Reads decode (raw ++ more) e (frame ++ more) := by
  obtain ⟨hraw, hlist⟩ := reads_decode.1 h
  refine reads_decode.2 ⟨by rw [hraw, List.append_assoc], ?_⟩
  intro he
  obtain ⟨b, tail, htail, hb⟩ := hlist he
  exact ⟨b, tail ++ more, by rw [htail, List.cons_append], hb⟩

/-- The mark stands in every front that is not empty. -/
theorem exists_reads_decode_of_append {e : Envelope} {front more frame : Bytes}
    (h : Reads decode (front ++ more) e frame) (hfront : front ≠ []) :
    ∃ frame', Reads decode front e frame' ∧ frame = frame' ++ more := by
  obtain ⟨hraw, hlist⟩ := reads_decode.1 h
  have hmark : e.mark <+: front ++ more := by
    rw [hraw]
    exact List.prefix_append _ _
  have hlen : e.mark.length ≤ front.length :=
    Nat.le_trans e.length_mark_le (List.length_pos_iff.2 hfront)
  obtain ⟨frame', hframe'⟩ :=
    List.prefix_of_prefix_length_le hmark (List.prefix_append front more) hlen
  have hframe : frame = frame' ++ more := by
    rw [← hframe', List.append_assoc] at hraw
    exact (List.append_cancel_left hraw).symm
  refine ⟨frame', reads_decode.2 ⟨hframe'.symm, ?_⟩, hframe⟩
  intro he
  obtain ⟨b, tail, htail, hb⟩ := hlist he
  cases front with
  | nil => exact absurd rfl hfront
  | cons c front =>
      cases htail
      exact ⟨b, front, rfl, hb⟩

end Envelope

/-! ## The list behind it -/

namespace Transaction

variable {e : Envelope} {raw frame : Bytes}

theorem fails_decode_of_item {stop : Stop} (hmark : Reads Envelope.decode raw e frame)
    (h : Rlp.readItem frame = .error stop) : Fails decode raw stop := by
  apply ((reads_enter (u := ())).2 rfl).fails_bind
  apply hmark.fails_bind
  apply fails_bind.2
  exact .inl (fails_item.2 h)

theorem fails_decode_of_rest {payload rest : Bytes} (hmark : Reads Envelope.decode raw e frame)
    (h : Rlp.readItem frame = .ok (⟨.list, payload⟩, rest)) (hrest : rest ≠ []) :
    Fails decode raw (.status .unexpectedCharacters) := by
  apply ((reads_enter (u := ())).2 rfl).fails_bind
  apply hmark.fails_bind
  apply (reads_item.2 h).fails_bind
  apply ((reads_ensure (u := ())).2 ⟨rfl, rfl⟩).fails_bind
  apply fails_bind.2
  exact .inl (fails_finish.2 ⟨hrest, rfl⟩)

end Transaction

/-! ## Whole buffers -/

namespace Review

/-- Bytes after an accepted buffer are left over, and a buffer that stops short of an accepted one
ends too early, wherever it stops. -/
theorem accepted_prefixFree {raw : Bytes} {r : Review} (h : (parse raw).outcome = .ok r) :
    (∀ more, more ≠ [] →
        (parse (raw ++ more)).outcome = .error (.status .unexpectedCharacters)) ∧
      (∀ front, front ≠ [] → front <+: raw → front ≠ raw →
        (parse front).outcome = .error (.status .unexpectedEnd)) ∧
      (parse []).outcome = .error (.status .unexpected) := by
  obtain ⟨-, ⟨payload, items, hframes, -, -⟩, -⟩ := parse_eq_ok_iff.1 h
  obtain ⟨frame, hmark, hframe⟩ := Envelope.frames_iff.1 hframes
  refine ⟨?_, ?_, rfl⟩
  · intro more hmore
    apply outcome_parse_eq_error_iff.2
    have hlonger := Rlp.readItem_append hframe more
    exact Transaction.fails_decode_of_rest (Envelope.reads_decode_append hmark more) hlonger hmore
  · intro front hfront hprefix hne
    obtain ⟨more, rfl⟩ := hprefix
    have hmore : more ≠ [] := fun hnil => hne (by rw [hnil, List.append_nil])
    obtain ⟨frame', hmark', rfl⟩ := Envelope.exists_reads_decode_of_append hmark hfront
    apply outcome_parse_eq_error_iff.2
    have hcut := Rlp.readItem_of_append hframe (List.length_pos_iff.2 hmore)
    exact Transaction.fails_decode_of_item hmark' hcut

/-- A transaction with an access list whose list has its length in a byte of its own. -/
def wideHeader : Bytes :=
  [0x01, 0xF8, 0x0A, 0x82, 0x0D, 0x0A, 0x80, 0x80, 0x80, 0x80, 0x80, 0x80, 0xC0]

/-- Cut inside the length of the list, cut before the access list, and with an empty list behind
it. -/
theorem wideHeader_prefixFree :
    (∃ r, (parse wideHeader).outcome = .ok r) ∧
      (parse [0x01, 0xF8]).outcome = .error (.status .unexpectedEnd) ∧
      (parse (wideHeader.take 12)).outcome = .error (.status .unexpectedEnd) ∧
      (parse (wideHeader ++ [0xC0])).outcome = .error (.status .unexpectedCharacters) := by
  have haccepted : ∃ r, (parse wideHeader).outcome = .ok r := ⟨_, rfl⟩
  refine ⟨haccepted, ?_⟩
  obtain ⟨r, hr⟩ := haccepted
  obtain ⟨hlonger, hshorter, -⟩ := accepted_prefixFree hr
  refine ⟨?_, ?_, ?_⟩
  · exact hshorter _ (by decide) (by decide) (by decide)
  · exact hshorter _ (by decide) (List.take_prefix 12 wideHeader) (by decide)
  · exact hlonger _ (by decide)

end Review

end ClearSign
