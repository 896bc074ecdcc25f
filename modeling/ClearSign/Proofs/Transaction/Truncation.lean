import ClearSign.Proofs.Transaction.Spelling
/-!
# Where the list of a transaction can be cut

A decoder that reads items off the front finds the end of what it reads by itself: bytes behind that
have no part in it, and before it there is nothing to be read.  `ReadsFrom` says this of the bytes
that a decoder takes, and it goes over from the steps of a decoder to the whole.  A decoder that asks
for the end of its bytes as well reads them or nothing (`ReadsAll`).

The two forms with an access list are read in the second way, so the checks on their fields never
hide that bytes are missing or left over.  The oldest form asks for the end twice, and so there is
one place where its list can be cut: `LegacyTx.reads_cut`.
-/

namespace ClearSign

namespace Decoder

variable {α β : Type}

/-! ## Cuts -/

/-- Bytes after `bs` are left over. -/
def RefusesLonger (d : Decoder α) (bs : Bytes) : Prop :=
  ∀ more, more ≠ [] → Fails d (bs ++ more) (.status .unexpectedCharacters)

/-- Wherever `bs` stops short, it ends too early. -/
def RefusesShorter (d : Decoder α) (bs : Bytes) : Prop :=
  ∀ front, front <+: bs → front ≠ bs → Fails d front (.status .unexpectedEnd)

/-- The decoder reads `a` from these bytes: whatever follows them is left, and they are all
needed. -/
structure ReadsFrom (d : Decoder α) (used : Bytes) (a : α) : Prop where
  reads : ∀ more, Reads d (used ++ more) a more
  shorter : d.RefusesShorter used

/-- The decoder reads `a` from these bytes, which have to be all there is. -/
structure ReadsAll (d : Decoder α) (bs : Bytes) (a : α) : Prop where
  reads : Reads d bs a []
  longer : d.RefusesLonger bs
  shorter : d.RefusesShorter bs

/-- A cut through two parts goes through the first, or through the second after the whole of the
first. -/
theorem cut_append_cases {front xs ys : Bytes} (h : front <+: xs ++ ys) (hne : front ≠ xs ++ ys) :
    (front <+: xs ∧ front ≠ xs) ∨ ∃ back, front = xs ++ back ∧ back <+: ys ∧ back ≠ ys := by
  rcases List.prefix_or_prefix_of_prefix h (List.prefix_append xs ys) with hshort | ⟨back, rfl⟩
  · by_cases heq : front = xs
    · refine .inr ⟨[], by rw [heq, List.append_nil], List.nil_prefix, ?_⟩
      rintro rfl
      exact hne (by rw [heq, List.append_nil])
    · exact .inl ⟨hshort, heq⟩
  · refine .inr ⟨back, rfl, (List.prefix_append_right_inj xs).1 h, ?_⟩
    rintro rfl
    exact hne rfl

theorem refusesShorter_nil (d : Decoder α) : d.RefusesShorter [] := by
  intro front hfront hne
  exact absurd (List.prefix_nil.1 hfront) hne

namespace ReadsFrom

variable {d : Decoder α} {f : α → Decoder β} {xs ys : Bytes} {a : α} {b : β}

/-- A step that takes no bytes. -/
theorem of_reads (h : ∀ bs, Reads d bs a bs) : d.ReadsFrom [] a :=
  ⟨h, refusesShorter_nil d⟩

theorem refusesShorter_bind (hd : d.ReadsFrom xs a) (hf : (f a).RefusesShorter ys) :
    (d >>= f).RefusesShorter (xs ++ ys) := by
  intro front hfront hne
  rcases cut_append_cases hfront hne with ⟨hfront, hne⟩ | ⟨back, rfl, hback, hne⟩
  · exact fails_bind.2 (.inl (hd.shorter front hfront hne))
  · exact (hd.reads back).fails_bind (hf back hback hne)

theorem bind (hd : d.ReadsFrom xs a) (hf : (f a).ReadsFrom ys b) :
    (d >>= f).ReadsFrom (xs ++ ys) b := by
  refine ⟨?_, hd.refusesShorter_bind hf.shorter⟩
  intro more
  rw [List.append_assoc]
  exact reads_bind.2 ⟨a, ys ++ more, hd.reads _, hf.reads more⟩

theorem bind_all (hd : d.ReadsFrom xs a) (hf : (f a).ReadsAll ys b) :
    (d >>= f).ReadsAll (xs ++ ys) b := by
  refine ⟨reads_bind.2 ⟨a, ys, hd.reads ys, hf.reads⟩, ?_, hd.refusesShorter_bind hf.shorter⟩
  intro more hmore
  rw [List.append_assoc]
  exact (hd.reads _).fails_bind (hf.longer more hmore)

end ReadsFrom

/-! ## Decoders that find their own end -/

/-- Whatever the decoder reads, it reads from the bytes it takes. -/
def Delimits (d : Decoder α) : Prop :=
  ∀ bs a rest, Reads d bs a rest → ∃ used, bs = used ++ rest ∧ d.ReadsFrom used a

/-- Whatever the decoder reads, it reads from all the bytes there are. -/
def Closes (d : Decoder α) : Prop := ∀ bs a rest, Reads d bs a rest → d.ReadsAll bs a

section

variable {d : Decoder α} {f : α → Decoder β}

theorem Delimits.bind (hd : d.Delimits) (hf : ∀ a, (f a).Delimits) : (d >>= f).Delimits := by
  intro bs b rest h
  obtain ⟨a, next, ha, hb⟩ := reads_bind.1 h
  obtain ⟨xs, rfl, hxs⟩ := hd bs a next ha
  obtain ⟨ys, rfl, hys⟩ := hf a next b rest hb
  exact ⟨xs ++ ys, (List.append_assoc xs ys rest).symm, hxs.bind hys⟩

theorem Delimits.bind_closes (hd : d.Delimits) (hf : ∀ a, (f a).Closes) : (d >>= f).Closes := by
  intro bs b rest h
  obtain ⟨a, next, ha, hb⟩ := reads_bind.1 h
  obtain ⟨xs, rfl, hxs⟩ := hd bs a next ha
  exact hxs.bind_all (hf a next b rest hb)

/-- A step that leaves the bytes as they are. -/
theorem delimits_of_reads (h : ∀ bs a rest, Reads d bs a rest → rest = bs ∧ ∀ bs', Reads d bs' a bs') :
    d.Delimits := by
  intro bs a rest hread
  obtain ⟨rfl, hall⟩ := h bs a rest hread
  exact ⟨[], rfl, .of_reads hall⟩

end

theorem delimits_pure (a : α) : Delimits (pure a : Decoder α) := by
  apply delimits_of_reads
  intro bs b rest h
  obtain ⟨rfl, rfl⟩ := reads_pure.1 h
  exact ⟨rfl, fun _ => reads_pure.2 ⟨rfl, rfl⟩⟩

theorem delimits_lift (x : Logged Stop α) : Delimits (StateT.lift x : Decoder α) := by
  apply delimits_of_reads
  intro bs a rest h
  obtain ⟨hx, rfl⟩ := reads_lift.1 h
  exact ⟨rfl, fun _ => reads_lift.2 ⟨hx, rfl⟩⟩

theorem delimits_enter (site : Site) : Delimits (enter site) := delimits_lift _

theorem delimits_fail (s : Status) : Delimits (fail s : Decoder α) := delimits_lift _

theorem delimits_ensure (condition : Bool) (s : Status) : Delimits (ensure condition s) := by
  cases condition with
  | true => exact delimits_pure ()
  | false => exact delimits_fail s

/-- An item ends where its marker says, and no part of it is an item. -/
theorem delimits_item : Delimits Decoder.item := by
  intro bs item rest h
  obtain ⟨header, hheader, rfl⟩ := Rlp.exists_front_of_readItem (reads_item.1 h)
  have hreads : ∀ more, Reads Decoder.item (header ++ item.payload ++ more) item more :=
    fun more => Rlp.readItem_eq_ok_iff.2 ⟨header, hheader, rfl⟩
  refine ⟨header ++ item.payload, rfl, hreads, ?_⟩
  rintro front ⟨tail, htail⟩ hne
  have htail_ne : tail ≠ [] := by
    rintro rfl
    exact hne (by rw [← htail, List.append_nil])
  have hwhole := reads_item.1 (hreads [])
  rw [List.append_nil, ← htail] at hwhole
  exact Rlp.readItem_of_append hwhole (List.length_pos_iff.2 htail_ne)

theorem delimits_payload : Delimits Decoder.payload :=
  delimits_item.bind fun item => delimits_pure item.payload

theorem delimits_list : Delimits Decoder.list :=
  delimits_item.bind fun item => (delimits_ensure item.isList _).bind fun _ => delimits_pure item

theorem closes_finish (a : α) : Closes (do finish; return a : Decoder α) := by
  intro bs b rest h
  obtain ⟨_, _, hfinish, h⟩ := reads_bind.1 h
  obtain ⟨rfl, rfl⟩ := reads_finish.1 hfinish
  obtain ⟨rfl, rfl⟩ := reads_pure.1 h
  refine ⟨reads_bind.2 ⟨(), [], reads_finish.2 ⟨rfl, rfl⟩, reads_pure.2 ⟨rfl, rfl⟩⟩, ?_,
    refusesShorter_nil _⟩
  intro more hmore
  exact fails_bind.2 (.inl (fails_finish.2 ⟨hmore, rfl⟩))

theorem closes_reject (site : Site) (s : Status) : Closes (reject site s : Decoder α) := by
  intro bs a rest h
  exact absurd h not_reads_reject

end Decoder

open Decoder

/-! ## Fields -/

theorem ChainId.delimits_field : Delimits field :=
  delimits_item.bind fun item => delimits_lift (ofItem item)

theorem Address.delimits_field : Delimits field := by
  refine delimits_payload.bind fun payload => ?_
  split
  · exact delimits_pure _
  · exact delimits_fail _

theorem BaseFields.delimits_decode : Delimits decode :=
  (delimits_enter _).bind fun _ => delimits_payload.bind fun _ => delimits_payload.bind fun _ =>
    delimits_payload.bind fun _ => Address.delimits_field.bind fun _ => delimits_payload.bind fun _ =>
    delimits_payload.bind fun _ => delimits_pure _

theorem AccessListTx.closes_decode : Closes decode :=
  (delimits_enter _).bind_closes fun _ => ChainId.delimits_field.bind_closes fun _ =>
    BaseFields.delimits_decode.bind_closes fun _ => delimits_list.bind_closes fun _ =>
    closes_finish _

theorem FeeMarketTx.closes_decode : Closes decode :=
  (delimits_enter _).bind_closes fun _ => ChainId.delimits_field.bind_closes fun _ =>
    delimits_payload.bind_closes fun _ => delimits_payload.bind_closes fun _ =>
    delimits_payload.bind_closes fun _ => delimits_payload.bind_closes fun _ =>
    Address.delimits_field.bind_closes fun _ => delimits_payload.bind_closes fun _ =>
    delimits_payload.bind_closes fun _ => delimits_list.bind_closes fun _ => closes_finish _

/-! ## The form that may name no network -/

namespace LegacyTx

/-- What follows the common fields where a network is named. -/
def decodeNetwork (base : BaseFields) : Decoder LegacyTx := do
  let chainId ← ChainId.field
  decodeSignature base chainId

theorem closes_decodeSignature (base : BaseFields) (chainId : ChainId) :
    Closes (decodeSignature base chainId) := by
  refine delimits_item.bind_closes fun r => delimits_item.bind_closes fun s => ?_
  split
  · exact closes_finish _
  · exact closes_reject _ _

theorem closes_decodeNetwork (base : BaseFields) : Closes (decodeNetwork base) :=
  ChainId.delimits_field.bind_closes fun c => closes_decodeSignature base c

variable {bs body next rest : Bytes} {base : BaseFields} {tx : LegacyTx} {c : ChainId}

theorem outcome_decode_of_base (h : Reads BaseFields.decode bs base next) :
    (decode.run bs).outcome =
      if next = [] then .ok ({ base, chainId := none }, [])
      else ((decodeNetwork base).run next).outcome := by
  have hstart : (decode.run bs).outcome =
      ((if next.isEmpty then pure { base, chainId := none } else decodeNetwork base :
        Decoder LegacyTx).run next).outcome := by
    rw [decode, Reads.outcome_bind ((reads_enter (u := ())).2 rfl), Reads.outcome_bind h]
    rfl
  rw [hstart]
  cases next with
  | nil => rfl
  | cons b next => rfl

theorem fails_decode_of_base {stop : Stop} (h : Fails BaseFields.decode bs stop) :
    Fails decode bs stop := by
  rw [decode, fails_enter_bind]
  exact fails_bind.2 (.inl h)

theorem eq_of_reads_decodeNetwork (h : Reads (decodeNetwork base) next tx rest) :
    ∃ c, tx = { base, chainId := some c } := by
  unfold decodeNetwork decodeSignature at h
  simp only [reads_bind] at h
  obtain ⟨c, _, -, r, _, -, s, _, -, h⟩ := h
  split at h
  · obtain ⟨_, _, -, h⟩ := reads_bind.1 h
    exact ⟨c, (reads_pure.1 h).1⟩
  · exact absurd h not_reads_reject

/-- Either the bytes end with the common fields, or a network is named in all that follows. -/
theorem reads_decode_cases (h : Reads decode body tx rest) :
    ∃ next, Reads BaseFields.decode body tx.base next ∧
      (tx.chainId = none ∧ next = [] ∨
        tx.chainId.isSome ∧ next ≠ [] ∧ (decodeNetwork tx.base).ReadsAll next tx) := by
  have hdecode := h
  unfold decode at hdecode
  obtain ⟨_, _, henter, hfields⟩ := reads_bind.1 hdecode
  obtain ⟨base, next, hbase, -⟩ := reads_bind.1 hfields
  obtain rfl := reads_enter.1 henter
  rw [Reads, outcome_decode_of_base hbase] at h
  split at h
  · cases h
    exact ⟨next, hbase, .inl ⟨rfl, ‹_›⟩⟩
  · obtain ⟨c, rfl⟩ := eq_of_reads_decodeNetwork h
    exact ⟨next, hbase, .inr ⟨rfl, ‹_›, closes_decodeNetwork base _ _ _ h⟩⟩

/-- Without the name of a network the common fields are all there is. -/
theorem refusesShorter_of_unnamed (h : Reads decode body { base, chainId := none } rest) :
    decode.RefusesShorter body := by
  obtain ⟨next, hbase, ⟨-, rfl⟩ | ⟨hnamed, -⟩⟩ := reads_decode_cases h
  · obtain ⟨used, rfl, hused⟩ := BaseFields.delimits_decode _ _ _ hbase
    rw [List.append_nil]
    intro front hfront hne
    exact fails_decode_of_base (hused.shorter front hfront hne)
  · cases hnamed

/-- A list that names a network can be cut after the common fields, which are then read as they
were, and at no other place. -/
theorem reads_cut (h : Reads decode body { base, chainId := some c } rest) :
    decode.RefusesLonger body ∧
      ∃ front tail, body = front ++ tail ∧ tail ≠ [] ∧ Reads BaseFields.decode body base tail ∧
        Reads decode front { base, chainId := none } [] ∧
        ∀ cut, cut <+: body → cut ≠ body → cut ≠ front →
          Fails decode cut (.status .unexpectedEnd) := by
  obtain ⟨tail, hbase, ⟨hnone, -⟩ | ⟨-, htail, hnetwork⟩⟩ := reads_decode_cases h
  · cases hnone
  obtain ⟨front, rfl, hfront⟩ := BaseFields.delimits_decode _ _ _ hbase
  have hends : Reads BaseFields.decode front base [] := by
    have hread := hfront.reads []
    rwa [List.append_nil] at hread
  refine ⟨?_, front, tail, rfl, htail, hbase, ?_, ?_⟩
  · intro more hmore
    have hread := hfront.reads (tail ++ more)
    have hne : tail ++ more ≠ [] := fun hnil => htail (List.append_eq_nil_iff.1 hnil).1
    rw [Fails, List.append_assoc, outcome_decode_of_base hread, if_neg hne]
    exact hnetwork.longer more hmore
  · rw [Reads, outcome_decode_of_base hends, if_pos rfl]
  · intro cut hcut hne hfields
    rcases cut_append_cases hcut hne with ⟨hcut, hne⟩ | ⟨back, rfl, hback, hne⟩
    · exact fails_decode_of_base (hfront.shorter cut hcut hne)
    · -- Something stands behind the common fields, so the end is not asked for there.
      have hsome : back ≠ [] := by
        rintro rfl
        exact hfields (List.append_nil front)
      rw [Fails, outcome_decode_of_base (hfront.reads back), if_neg hsome]
      exact hnetwork.shorter back hback hne

end LegacyTx

/-! ## All forms -/

namespace Transaction

/-- No list with an access list starts another, and neither does a list of the oldest form that
names its network.  What is cut short is refused for that, whatever the checks on its fields make of
it, with one exception: the list of the oldest form is accepted without the name of its network when
it is cut right after the sixth item. -/
theorem refusesCuts_of_reads :
    (∀ body tx rest, Reads AccessListTx.decode body tx rest →
        AccessListTx.decode.RefusesLonger body ∧ AccessListTx.decode.RefusesShorter body) ∧
      (∀ body tx rest, Reads FeeMarketTx.decode body tx rest →
        FeeMarketTx.decode.RefusesLonger body ∧ FeeMarketTx.decode.RefusesShorter body) ∧
      (∀ body base rest, Reads LegacyTx.decode body { base, chainId := none } rest →
        LegacyTx.decode.RefusesShorter body) ∧
      ∀ body base c rest, Reads LegacyTx.decode body { base, chainId := some c } rest →
        LegacyTx.decode.RefusesLonger body ∧
          ∃ front items tail, body = front ++ tail ∧ tail ≠ [] ∧ Rlp.Takes body items tail ∧
            items.length = 6 ∧ Reads LegacyTx.decode front { base, chainId := none } [] ∧
            ∀ cut, cut <+: body → cut ≠ body → cut ≠ front →
              Fails LegacyTx.decode cut (.status .unexpectedEnd) := by
  refine ⟨?_, ?_, ?_, ?_⟩
  · intro body tx rest h
    have hall := AccessListTx.closes_decode body tx rest h
    exact ⟨hall.longer, hall.shorter⟩
  · intro body tx rest h
    have hall := FeeMarketTx.closes_decode body tx rest h
    exact ⟨hall.longer, hall.shorter⟩
  · intro body base rest h
    exact LegacyTx.refusesShorter_of_unnamed h
  · intro body base c rest h
    obtain ⟨hlonger, front, tail, happend, htail, hbase, hfront, hcuts⟩ := LegacyTx.reads_cut h
    obtain ⟨items, htakes, hspelled⟩ := (BaseFields.readsItems_decode ..).1 hbase
    exact ⟨hlonger, front, items, tail, happend, htail, htakes, hspelled.length_eq, hfront, hcuts⟩

/-- The common fields are empty, and the main network is named with two blank values after it. -/
def namedBody : Bytes := List.replicate 6 0x80 ++ [0x82, 0x0D, 0x0A, 0x80, 0x80]

/-- Bound to the main network, with an empty access list. -/
def listedBody : Bytes := [0x82, 0x0D, 0x0A] ++ List.replicate 6 0x80 ++ [0xC0]

/-- Of the strict prefixes of `namedBody` only the common fields are accepted; cut inside the name of
the network it ends too early.  The access list cannot be cut off or followed by another. -/
theorem namedBody_refusesCuts :
    (∃ tx, tx.chainId.isSome ∧ Reads LegacyTx.decode namedBody tx []) ∧
      (∀ cut, cut <+: namedBody → cut ≠ namedBody →
        ((∃ tx, Reads LegacyTx.decode cut tx []) ↔ cut = List.replicate 6 0x80)) ∧
      Fails LegacyTx.decode (namedBody.take 8) (.status .unexpectedEnd) ∧
      Fails AccessListTx.decode (listedBody.take 9) (.status .unexpectedEnd) ∧
      Fails AccessListTx.decode (listedBody ++ [0xC0]) (.status .unexpectedCharacters) := by
  obtain ⟨hlists, -, -, hnames⟩ := refusesCuts_of_reads
  have hlisted : ∃ tx, Reads AccessListTx.decode listedBody tx [] := ⟨_, rfl⟩
  have hnamed : Reads LegacyTx.decode namedBody ⟨⟨[], [], [], none, [], []⟩,
      some ⟨[0x0D, 0x0A], 3338⟩⟩ [] := rfl
  have hunnamed : ∃ tx, Reads LegacyTx.decode (List.replicate 6 0x80) tx [] := ⟨_, rfl⟩
  obtain ⟨tx, hlisted⟩ := hlisted
  obtain ⟨hlonger, hshorter⟩ := hlists _ _ _ hlisted
  obtain ⟨-, front, _, _, -, -, -, -, hfront, hcuts⟩ := hnames _ _ _ _ hnamed
  have honly : ∀ cut, cut <+: namedBody → cut ≠ namedBody →
      (∃ tx, Reads LegacyTx.decode cut tx []) → cut = front := by
    rintro cut hcut hne ⟨tx, htx⟩
    refine Decidable.byContradiction fun hother => ?_
    exact htx.not_fails (hcuts cut hcut hne hother)
  obtain rfl := honly _ (List.prefix_append _ _) (by decide) hunnamed
  refine ⟨⟨_, rfl, hnamed⟩, ?_, ?_, ?_, ?_⟩
  · intro cut hcut hne
    refine ⟨honly cut hcut hne, ?_⟩
    rintro rfl
    exact hunnamed
  · exact hcuts _ (List.take_prefix 8 namedBody) (by decide) (by decide)
  · exact hshorter _ (List.take_prefix 9 listedBody) (by decide)
  · exact hlonger [0xC0] (by decide)

end Transaction

end ClearSign
