import ClearSign.Signature
import ClearSign.Proofs.Transaction.Layout
/-!
# What a recovery byte tells

The recovery byte is the low byte of a number that holds the parity and, for the oldest form of
transaction, a base and the network.  Which number this is can be told from the bytes of the
transaction (`Scheme.ToldBy`).

* `recoveryByte_eq`, `recovered_eq`: the sums never trap, and for an accepted network none of them
  is clamped.
* `Scheme.ToldBy.unique`, `toldBy_of_writtenAs`: the bytes of an accepted transaction tell one
  scheme, which is that of the transaction.
* `lowByte_inj`: the low byte tells the schemes and the parities apart.
-/

namespace ClearSign

namespace Signature

/-! ## The byte of a transaction -/

def recovered (tx : Transaction) (odd : Bool) : UInt8 :=
  match tx with
  | .legacy legacy =>
    match legacy.chainId with
    | none => UInt8.ofNat (unprotectedBase + odd.toNat)
    | some c =>
      UInt8.ofNat
        (min (protectedBase + odd.toNat + min (min c.id maxWord * 2) maxWord) maxWord)
  | _ => UInt8.ofNat odd.toNat

theorem recoveryByte_eq (tx : Transaction) (odd : Bool) :
    recoveryByte tx odd = .ok (recovered tx odd) := by
  have hodd : odd.toNat ≤ 1 := by cases odd <;> decide
  unfold recoveryByte recovered
  cases tx with
  | legacy legacy =>
      cases h : legacy.chainId with
      | none =>
          have hadd : Checked.add 8 unprotectedBase odd.toNat = .ok (unprotectedBase + odd.toNat) :=
            Checked.add_eq_ok (by unfold unprotectedBase; omega)
          simp only [h, hadd, Checked.ok_bind]
          rfl
      | some c =>
          have hadd : Checked.add 32 protectedBase odd.toNat = .ok (protectedBase + odd.toNat) :=
            Checked.add_eq_ok (by unfold protectedBase; omega)
          simp only [h, hadd, Checked.ok_bind]
          rfl
  | accessList _ => rfl
  | feeMarket _ => rfl

/-- The parity is the lowest bit of the signing device's answer. -/
theorem toNat_isOdd (info : UInt32) : (isOdd info).toNat = info.toNat % 2 := by
  have hbit : (info &&& parityBit).toNat = info.toNat % 2 := by
    rw [UInt32.toNat_and]
    exact Nat.and_one_is_mod _
  unfold isOdd
  rcases Nat.mod_two_eq_zero_or_one info.toNat with hmod | hmod
  · have hzero : info &&& parityBit = 0 := UInt32.toNat_inj.1 (hbit.trans hmod)
    rw [hzero, hmod]
    rfl
  · have hone : info &&& parityBit = parityBit := UInt32.toNat_inj.1 (hbit.trans hmod)
    rw [hone, hmod]
    rfl

/-! ## Schemes -/

/-- What the byte holds beside the parity. -/
inductive Scheme where
  /-- A marked form is signed with its network, and the byte holds nothing else. -/
  | marked
  /-- The oldest form, which names no network. -/
  | unprotected
  /-- The oldest form, bound to a network. -/
  | bound (network : Nat)
  deriving DecidableEq, Repr

namespace Scheme

/-- The number to which the parity is added. -/
def offset : Scheme → Nat
  | marked => 0
  | unprotected => unprotectedBase
  | bound network => protectedBase + 2 * network

/-- The bytes of a transaction tell the scheme: a marked form by the mark, and the oldest one by how
many items there are and by the seventh. -/
def ToldBy (raw : Bytes) : Scheme → Prop
  | marked => raw.head? = some 0x01 ∨ raw.head? = some 0x02
  | unprotected =>
    ∃ payload items, Rlp.readItem raw = .ok (⟨.list, payload⟩, []) ∧ Rlp.Splits payload items ∧
      items.length = 6
  | bound network =>
    ∃ payload items, Rlp.readItem raw = .ok (⟨.list, payload⟩, []) ∧ Rlp.Splits payload items ∧
      items.length ≠ 6 ∧ ∃ id ∈ items[6]?, network = Bytes.value id.payload

def ofTransaction : Transaction → Scheme
  | .legacy tx =>
    match tx.chainId with
    | none => unprotected
    | some c => bound c.id
  | .accessList _ | .feeMarket _ => marked

/-- The schemes of the transactions that are accepted. -/
def accepted : List Scheme := marked :: unprotected :: ChainId.supported.map bound

theorem not_list_of_marked {raw payload : Bytes} (h : marked.ToldBy raw) :
    Rlp.readItem raw ≠ .ok (⟨.list, payload⟩, []) := by
  intro hread
  cases raw with
  | nil => cases hread
  | cons b bs =>
      have hlist := Rlp.marker_of_readItem_list hread rfl
      rcases h with h | h
      · cases h
        exact absurd hlist (by decide)
      · cases h
        exact absurd hlist (by decide)

/-- Bytes tell one scheme at most. -/
theorem ToldBy.unique {raw : Bytes} {s s' : Scheme} (h : s.ToldBy raw) (h' : s'.ToldBy raw) :
    s = s' := by
  have hitems : ∀ {payload payload' : Bytes} {items items' : List Rlp.Item},
      Rlp.readItem raw = .ok (⟨.list, payload⟩, []) → Rlp.Splits payload items →
        Rlp.readItem raw = .ok (⟨.list, payload'⟩, []) → Rlp.Splits payload' items' →
          items = items' := by
    intro payload payload' items items' hread hsplits hread' hsplits'
    cases hread.symm.trans hread'
    exact hsplits.unique hsplits'
  cases s with
  | marked =>
      cases s' with
      | marked => rfl
      | unprotected =>
          obtain ⟨_, _, hread, -⟩ := h'
          exact absurd hread (not_list_of_marked h)
      | bound network =>
          obtain ⟨_, _, hread, -⟩ := h'
          exact absurd hread (not_list_of_marked h)
  | unprotected =>
      obtain ⟨_, _, hread, hsplits, hlen⟩ := h
      cases s' with
      | marked => exact absurd hread (not_list_of_marked h')
      | unprotected => rfl
      | bound network =>
          obtain ⟨_, _, hread', hsplits', hlen', -⟩ := h'
          rw [hitems hread hsplits hread' hsplits'] at hlen
          exact absurd hlen hlen'
  | bound network =>
      obtain ⟨_, _, hread, hsplits, hlen, id, hid, hnetwork⟩ := h
      cases s' with
      | marked => exact absurd hread (not_list_of_marked h')
      | unprotected =>
          obtain ⟨_, _, hread', hsplits', hlen'⟩ := h'
          rw [← hitems hread hsplits hread' hsplits'] at hlen'
          exact absurd hlen' hlen
      | bound network' =>
          obtain ⟨_, _, hread', hsplits', -, id', hid', hnetwork'⟩ := h'
          rw [← hitems hread hsplits hread' hsplits'] at hid'
          cases Option.mem_unique hid hid'
          rw [hnetwork, hnetwork']

theorem toldBy_of_writtenAs {tx : Transaction} {raw : Bytes} (h : tx.WrittenAs raw) :
    (ofTransaction tx).ToldBy raw := by
  obtain ⟨payload, items, ⟨frame, hraw, hframe, -⟩, hsplits, hspelled⟩ := h
  cases tx with
  | legacy tx =>
      obtain ⟨base, chainId⟩ := tx
      rw [← show raw = frame from hraw] at hframe
      cases chainId with
      | none =>
          have hbase : base.SpelledBy items := hspelled
          exact ⟨payload, items, hframe, hsplits, hbase.length_eq⟩
      | some c =>
          obtain ⟨front, id, r, s, rfl, hbase, hc, -, -⟩ := hspelled
          have hlen := hbase.length_eq
          obtain ⟨-, hid, -⟩ := ChainId.ofItem_eq_ok hc
          exact ⟨payload, _, hframe, hsplits, by simp [hlen], id, by simp [hlen], hid⟩
  | accessList tx =>
      rw [hraw]
      exact .inl rfl
  | feeMarket tx =>
      rw [hraw]
      exact .inr rfl

/-! ## Networks -/

/-- The numbers of the accepted networks are small, so no sum reaches the largest word. -/
theorem le_maxWord_of_supported {id : Nat} (h : id ∈ ChainId.supported) :
    protectedBase + 1 + id * 2 ≤ maxWord := by
  revert id
  decide

theorem supported_of_writtenAs {tx : Transaction} {raw : Bytes} (h : tx.WrittenAs raw) :
    ∀ c ∈ tx.chainId, c.id ∈ ChainId.supported := by
  obtain ⟨payload, items, -, -, hspelled⟩ := h
  intro c hc
  exact (hspelled.readFrom.number c hc).2

theorem mem_accepted {tx : Transaction} (h : ∀ c ∈ tx.chainId, c.id ∈ ChainId.supported) :
    ofTransaction tx ∈ accepted := by
  unfold accepted
  cases tx with
  | legacy tx =>
      obtain ⟨base, chainId⟩ := tx
      cases chainId with
      | none => exact List.mem_cons_of_mem _ List.mem_cons_self
      | some c =>
          have hc : c.id ∈ ChainId.supported := h c rfl
          exact List.mem_cons_of_mem _ (List.mem_cons_of_mem _ (List.mem_map_of_mem hc))
  | accessList tx => exact List.mem_cons_self
  | feeMarket tx => exact List.mem_cons_self

/-- The low bytes of the accepted schemes lie two apart at least. -/
theorem lowByte_inj :
    ∀ s ∈ accepted, ∀ s' ∈ accepted, ∀ p < 2, ∀ p' < 2,
      (s.offset + p) % 256 = (s'.offset + p') % 256 → s = s' ∧ p = p' := by
  decide

end Scheme

theorem recovered_eq {tx : Transaction} (h : ∀ c ∈ tx.chainId, c.id ∈ ChainId.supported)
    (odd : Bool) :
    recovered tx odd = UInt8.ofNat ((Scheme.ofTransaction tx).offset + odd.toNat) := by
  have hodd : odd.toNat ≤ 1 := by cases odd <;> decide
  cases tx with
  | legacy tx =>
      obtain ⟨base, chainId⟩ := tx
      cases chainId with
      | none => rfl
      | some c =>
          have hsmall := Scheme.le_maxWord_of_supported (h c rfl)
          have hexact : min (protectedBase + odd.toNat + min (min c.id maxWord * 2) maxWord) maxWord
              = protectedBase + 2 * c.id + odd.toNat := by
            omega
          exact congrArg UInt8.ofNat hexact
  | accessList tx => exact congrArg UInt8.ofNat (Nat.zero_add _).symm
  | feeMarket tx => exact congrArg UInt8.ofNat (Nat.zero_add _).symm

/-- The byte that is computed holds the scheme and the parity, and nothing else. -/
theorem recoveryByte_eq_ofNat {raw : Bytes} {tx : Transaction} (h : tx.WrittenAs raw)
    (info : UInt32) :
    recoveryByte tx (isOdd info) =
      .ok (UInt8.ofNat ((Scheme.ofTransaction tx).offset + info.toNat % 2)) := by
  rw [recoveryByte_eq, recovered_eq (Scheme.supported_of_writtenAs h), toNat_isOdd]

/-- Two transactions with one recovery byte have one scheme, and the points have one parity. -/
theorem scheme_and_parity_of_recoveryByte_eq {raw raw' : Bytes} {tx tx' : Transaction}
    (h : tx.WrittenAs raw) (h' : tx'.WrittenAs raw') {info info' : UInt32}
    (heq : recoveryByte tx (isOdd info) = recoveryByte tx' (isOdd info')) :
    Scheme.ofTransaction tx = Scheme.ofTransaction tx' ∧ info.toNat % 2 = info'.toNat % 2 := by
  have hscheme := Scheme.mem_accepted (Scheme.supported_of_writtenAs h)
  have hscheme' := Scheme.mem_accepted (Scheme.supported_of_writtenAs h')
  have hparity : info.toNat % 2 < 2 := Nat.mod_lt _ (by decide)
  have hparity' : info'.toNat % 2 < 2 := Nat.mod_lt _ (by decide)
  rw [recoveryByte_eq_ofNat h, recoveryByte_eq_ofNat h'] at heq
  have hlow := congrArg UInt8.toNat (Except.ok.inj heq)
  rw [UInt8.toNat_ofNat', UInt8.toNat_ofNat'] at hlow
  exact Scheme.lowByte_inj _ hscheme _ hscheme' _ hparity _ hparity' hlow

/-- The recovery byte of an accepted transaction is the low byte of an exact number, which its bytes
tell and the parity is added to.  From the byte alone one sees the parity, whether the form is
marked, whether the oldest form names a network, and which. -/
theorem recoveryByte_of_accepted {raw : Bytes} {r : Review}
    (h : (Review.parse raw).outcome = .ok r) :
    (∃ scheme : Scheme, scheme.ToldBy raw) ∧
      (∀ scheme : Scheme, scheme.ToldBy raw → ∀ info : UInt32,
        recoveryByte r.tx (isOdd info) =
          .ok (UInt8.ofNat (scheme.offset + info.toNat % 2))) ∧
      (∀ c ∈ r.tx.chainId, c.id ≤ maxWord ∧ c.id * 2 ≤ maxWord ∧
        ∀ odd : Bool, protectedBase + odd.toNat + c.id * 2 ≤ maxWord) ∧
      ∀ (raw' : Bytes) (r' : Review), (Review.parse raw').outcome = .ok r' →
        ∀ info info' : UInt32,
          recoveryByte r.tx (isOdd info) = recoveryByte r'.tx (isOdd info') →
            info.toNat % 2 = info'.toNat % 2 ∧
              ∀ scheme : Scheme, scheme.ToldBy raw ↔ scheme.ToldBy raw' := by
  obtain ⟨-, hwritten, -⟩ := Review.parse_eq_ok_iff.1 h
  have htold := Scheme.toldBy_of_writtenAs hwritten
  refine ⟨⟨_, htold⟩, ?_, ?_, ?_⟩
  · intro scheme hscheme info
    rw [hscheme.unique htold]
    exact recoveryByte_eq_ofNat hwritten info
  · intro c hc
    have hsmall := Scheme.le_maxWord_of_supported (Scheme.supported_of_writtenAs hwritten c hc)
    refine ⟨by omega, by omega, ?_⟩
    intro odd
    have hodd : odd.toNat ≤ 1 := by cases odd <;> decide
    omega
  · intro raw' r' h' info info' heq
    obtain ⟨-, hwritten', -⟩ := Review.parse_eq_ok_iff.1 h'
    have htold' := Scheme.toldBy_of_writtenAs hwritten'
    obtain ⟨hsame, hparity⟩ := scheme_and_parity_of_recoveryByte_eq hwritten hwritten' heq
    rw [← hsame] at htold'
    refine ⟨hparity, fun scheme => ⟨?_, ?_⟩⟩
    · intro hscheme
      rw [hscheme.unique htold]
      exact htold'
    · intro hscheme
      rw [hscheme.unique htold']
      exact htold

/-- A transaction of the oldest form in which every field is empty. -/
def freeFields : Bytes := [0xC6, 0x80, 0x80, 0x80, 0x80, 0x80, 0x80]

/-- The same, bound to the main network by an identifier with a zero in front. -/
def boundFields : Bytes :=
  [0xCC, 0x80, 0x80, 0x80, 0x80, 0x80, 0x80, 0x83, 0x00, 0x0D, 0x0A, 0x80, 0x80]

/-- The byte is that of 35 and twice 3338, and whatever its parity the unbound one has another. -/
theorem boundFields_recoveryByte :
    ∃ r r', (Review.parse boundFields).outcome = .ok r ∧
      (Review.parse freeFields).outcome = .ok r' ∧
      recoveryByte r.tx (isOdd 0xFE) = .ok (UInt8.ofNat (35 + 2 * 3338)) ∧
      ∀ info, recoveryByte r.tx (isOdd 0xFE) ≠ recoveryByte r'.tx (isOdd info) := by
  have hbound : ∃ r, (Review.parse boundFields).outcome = .ok r := ⟨_, rfl⟩
  have hfree : ∃ r, (Review.parse freeFields).outcome = .ok r := ⟨_, rfl⟩
  obtain ⟨r, hr⟩ := hbound
  obtain ⟨r', hr'⟩ := hfree
  obtain ⟨-, hbyte, -, hsame⟩ := recoveryByte_of_accepted hr
  have htold : (Scheme.bound 3338).ToldBy boundFields := by
    refine ⟨boundFields.drop 1, List.replicate 6 ⟨.string, []⟩ ++
      [⟨.string, [0x00, 0x0D, 0x0A]⟩, ⟨.string, []⟩, ⟨.string, []⟩], ?_, ?_, ?_⟩
    · exact Rlp.readItem_shortList (by decide) (by decide) (by decide)
    · decide +kernel
    · exact ⟨by decide, _, rfl, by decide⟩
  have htold' : Scheme.unprotected.ToldBy freeFields := by
    refine ⟨freeFields.drop 1, List.replicate 6 ⟨.string, []⟩, ?_, ?_, rfl⟩
    · exact Rlp.readItem_shortList (by decide) (by decide) (by decide)
    · decide +kernel
  refine ⟨r, r', hr, hr', hbyte _ htold 0xFE, ?_⟩
  intro info heq
  obtain ⟨-, hschemes⟩ := hsame _ _ hr' _ _ heq
  cases ((hschemes _).2 htold').unique htold

end Signature

end ClearSign
