import ClearSign.ChainId
import ClearSign.Transaction.Decode
import ClearSign.Proofs.Log
import ClearSign.Proofs.Rlp.Items
/-!
# What decoders read, and how they end

`Reads d bs a rest` says that `d` takes `a` off the front of `bs` and leaves `rest`.  There is one
rule for each building block and one for composition.  `ReadsItems` and `ReadsAllItems` say it of
whole rows: which items `d` takes, without the bytes between them, so the rule of a composed decoder
is a condition on a list of items.  `Fails d bs stop` says how `d` ends otherwise: at its first step
that fails.  `EndsIn` goes along the same composition: whatever the bytes are, the decoder gives a
value or ends for one of the given reasons, and logs what it should.
-/

namespace ClearSign

namespace Decoder

variable {α β : Type}

/-! ## What is read -/

/-- The decoder takes `a` off the front of the bytes and leaves `rest`. -/
def Reads (d : Decoder α) (bs : Bytes) (a : α) (rest : Bytes) : Prop :=
  (d.run bs).outcome = .ok (a, rest)

theorem Reads.unique {d : Decoder α} {bs rest rest' : Bytes} {a a' : α}
    (h : Reads d bs a rest) (h' : Reads d bs a' rest') : a = a' ∧ rest = rest' := by
  have heq := h.symm.trans h'
  cases heq
  exact ⟨rfl, rfl⟩

theorem reads_pure {a b : α} {bs rest : Bytes} :
    Reads (pure a) bs b rest ↔ b = a ∧ rest = bs := by
  constructor
  · intro h
    cases h
    exact ⟨rfl, rfl⟩
  · rintro ⟨rfl, rfl⟩
    rfl

theorem reads_bind {d : Decoder α} {f : α → Decoder β} {bs rest : Bytes} {b : β} :
    Reads (d >>= f) bs b rest ↔ ∃ a next, Reads d bs a next ∧ Reads (f a) next b rest := by
  unfold Reads
  rw [StateT.run_bind, Logged.bind_outcome_eq_ok]
  constructor
  · rintro ⟨⟨a, next⟩, ha, hb⟩
    exact ⟨a, next, ha, hb⟩
  · rintro ⟨a, next, ha, hb⟩
    exact ⟨(a, next), ha, hb⟩

theorem reads_map {d : Decoder α} {f : α → β} {bs rest : Bytes} {b : β} :
    Reads (f <$> d) bs b rest ↔ ∃ a, Reads d bs a rest ∧ b = f a := by
  rw [map_eq_pure_bind, reads_bind]
  constructor
  · rintro ⟨a, next, ha, hb⟩
    obtain ⟨rfl, rfl⟩ := reads_pure.1 hb
    exact ⟨a, ha, rfl⟩
  · rintro ⟨a, ha, rfl⟩
    exact ⟨a, rest, ha, reads_pure.2 ⟨rfl, rfl⟩⟩

theorem reads_lift {x : Logged Stop α} {bs rest : Bytes} {a : α} :
    Reads (StateT.lift x) bs a rest ↔ x.outcome = .ok a ∧ rest = bs := by
  unfold Reads
  rw [StateT.run_lift, Logged.bind_outcome_eq_ok]
  constructor
  · rintro ⟨b, hb, h⟩
    cases h
    exact ⟨hb, rfl⟩
  · rintro ⟨ha, rfl⟩
    exact ⟨a, ha, rfl⟩

theorem reads_enter {site : Site} {u : Unit} {bs rest : Bytes} :
    Reads (enter site) bs u rest ↔ rest = bs := by
  rw [enter, reads_lift]
  exact and_iff_right rfl

theorem not_reads_fail {s : Status} {bs rest : Bytes} {a : α} : ¬Reads (fail s) bs a rest := by
  intro h
  cases h

theorem not_reads_reject {site : Site} {s : Status} {bs rest : Bytes} {a : α} :
    ¬Reads (reject site s) bs a rest := by
  intro h
  cases h

theorem reads_ensure {condition : Bool} {s : Status} {u : Unit} {bs rest : Bytes} :
    Reads (ensure condition s) bs u rest ↔ condition = true ∧ rest = bs := by
  cases condition with
  | true => simp [ensure, reads_pure]
  | false => simp [ensure, not_reads_fail]

theorem reads_item {item : Rlp.Item} {bs rest : Bytes} :
    Reads Decoder.item bs item rest ↔ Rlp.readItem bs = .ok (item, rest) := Iff.rfl

theorem reads_payload {payload bs rest : Bytes} :
    Reads Decoder.payload bs payload rest ↔
      ∃ item, Rlp.readItem bs = .ok (item, rest) ∧ payload = item.payload := by
  unfold Decoder.payload
  rw [reads_bind]
  constructor
  · rintro ⟨item, next, hitem, h⟩
    obtain ⟨rfl, rfl⟩ := reads_pure.1 h
    exact ⟨item, hitem, rfl⟩
  · rintro ⟨item, hitem, rfl⟩
    exact ⟨item, rest, hitem, reads_pure.2 ⟨rfl, rfl⟩⟩

theorem reads_atEnd {done : Bool} {bs rest : Bytes} :
    Reads atEnd bs done rest ↔ done = bs.isEmpty ∧ rest = bs := by
  constructor
  · intro h
    cases h
    exact ⟨rfl, rfl⟩
  · rintro ⟨rfl, rfl⟩
    rfl

theorem reads_finish {u : Unit} {bs rest : Bytes} :
    Reads finish bs u rest ↔ bs = [] ∧ rest = [] := by
  unfold Reads
  rw [run_finish]
  cases bs with
  | nil => simp [eq_comm]
  | cons b bs => simp

theorem reads_within {inner : Bytes} {d : Decoder α} {bs rest : Bytes} {a : α} :
    Reads (within inner d) bs a rest ↔ (∃ left, Reads d inner a left) ∧ rest = bs := by
  unfold Reads
  rw [run_within]
  cases h : (d.run inner).outcome with
  | error e => simp [Except.map]
  | ok r =>
      cases r
      simp [Except.map, eq_comm]

theorem reads_list {item : Rlp.Item} {bs rest : Bytes} :
    Reads Decoder.list bs item rest ↔
      Rlp.readItem bs = .ok (item, rest) ∧ item.kind = .list := by
  simp only [Decoder.list, reads_bind, reads_item, reads_ensure, reads_pure, Rlp.Item.isList,
    beq_iff_eq]
  constructor
  · rintro ⟨item', next, h, _, _, ⟨hl, rfl⟩, rfl, rfl⟩
    exact ⟨h, hl⟩
  · rintro ⟨h, hl⟩
    exact ⟨item, rest, h, (), rest, ⟨hl, rfl⟩, rfl, rfl⟩

/-! ## Which items are read -/

/-- The decoder takes one item off the front, and `R` says which values go with which items. -/
def ReadsItem (d : Decoder α) (R : α → Rlp.Item → Prop) : Prop :=
  ∀ bs a rest, Reads d bs a rest ↔ ∃ item, Rlp.readItem bs = .ok (item, rest) ∧ R a item

/-- The decoder takes a row of items off the front, and `P` says which values go with which rows. -/
def ReadsItems (d : Decoder α) (P : α → List Rlp.Item → Prop) : Prop :=
  ∀ bs a rest, Reads d bs a rest ↔ ∃ items, Rlp.Takes bs items rest ∧ P a items

/-- The decoder takes a row of items that is all there is. -/
def ReadsAllItems (d : Decoder α) (P : α → List Rlp.Item → Prop) : Prop :=
  ∀ bs a rest, Reads d bs a rest ↔ rest = [] ∧ ∃ items, Rlp.Splits bs items ∧ P a items

section

variable {d : Decoder α} {f : α → Decoder β} {R : α → Rlp.Item → Prop}
  {P P' : α → List Rlp.Item → Prop} {Q : α → β → List Rlp.Item → Prop}

theorem ReadsItems.congr (h : d.ReadsItems P) (hP : ∀ a items, P a items ↔ P' a items) :
    d.ReadsItems P' := by
  intro bs a rest
  simp only [h bs a rest, hP]

theorem ReadsAllItems.congr (h : d.ReadsAllItems P) (hP : ∀ a items, P a items ↔ P' a items) :
    d.ReadsAllItems P' := by
  intro bs a rest
  simp only [h bs a rest, hP]

/-! ### Single steps -/

theorem readsItem_item : Decoder.item.ReadsItem fun a item => item = a := by
  intro bs a rest
  rw [reads_item]
  constructor
  · intro h
    exact ⟨a, h, rfl⟩
  · rintro ⟨_, h, rfl⟩
    exact h

theorem readsItem_payload : Decoder.payload.ReadsItem fun bs item => bs = item.payload :=
  fun _ _ _ => reads_payload

theorem readsItem_list : Decoder.list.ReadsItem fun a item => item = a ∧ a.kind = .list := by
  intro bs a rest
  rw [reads_list]
  constructor
  · rintro ⟨h, hkind⟩
    exact ⟨a, h, rfl, hkind⟩
  · rintro ⟨_, h, rfl, hkind⟩
    exact ⟨h, hkind⟩

theorem readsItems_pure (a : α) :
    (pure a : Decoder α).ReadsItems fun b items => items = [] ∧ b = a := by
  intro bs b rest
  rw [reads_pure]
  constructor
  · rintro ⟨rfl, rfl⟩
    exact ⟨[], rfl, rfl, rfl⟩
  · rintro ⟨_, htakes, rfl, rfl⟩
    exact ⟨rfl, htakes.symm⟩

theorem readsAllItems_finish (a : α) :
    (do finish; return a : Decoder α).ReadsAllItems fun b items => items = [] ∧ b = a := by
  intro bs b rest
  simp only [reads_bind, reads_finish, reads_pure]
  constructor
  · rintro ⟨_, _, ⟨rfl, rfl⟩, rfl, rfl⟩
    exact ⟨rfl, [], Rlp.splits_nil_iff.2 rfl, rfl, rfl⟩
  · rintro ⟨rfl, _, hsplits, rfl, rfl⟩
    exact ⟨(), [], ⟨Rlp.splits_nil_iff.1 hsplits, rfl⟩, rfl, rfl⟩

/-! ### Composition -/

theorem ReadsItems.after_enter (h : d.ReadsItems P) (site : Site) :
    (do enter site; d).ReadsItems P := by
  intro bs a rest
  rw [← h bs a rest]
  simp [reads_bind, reads_enter]

theorem ReadsAllItems.after_enter (h : d.ReadsAllItems P) (site : Site) :
    (do enter site; d).ReadsAllItems P := by
  intro bs a rest
  rw [← h bs a rest]
  simp [reads_bind, reads_enter]

theorem ReadsItem.bind (hd : d.ReadsItem R) (hf : ∀ a, (f a).ReadsItems (Q a)) :
    (d >>= f).ReadsItems fun b items =>
      ∃ item more, items = item :: more ∧ ∃ a, R a item ∧ Q a b more := by
  intro bs b rest
  rw [reads_bind]
  constructor
  · rintro ⟨a, next, ha, hb⟩
    obtain ⟨item, hitem, ha⟩ := (hd ..).1 ha
    obtain ⟨more, hmore, hb⟩ := (hf a ..).1 hb
    exact ⟨item :: more, ⟨next, hitem, hmore⟩, item, more, rfl, a, ha, hb⟩
  · rintro ⟨_, htakes, item, more, rfl, a, ha, hb⟩
    obtain ⟨next, hitem, hmore⟩ := htakes
    exact ⟨a, next, (hd ..).2 ⟨item, hitem, ha⟩, (hf a ..).2 ⟨more, hmore, hb⟩⟩

theorem ReadsItem.bind_all (hd : d.ReadsItem R) (hf : ∀ a, (f a).ReadsAllItems (Q a)) :
    (d >>= f).ReadsAllItems fun b items =>
      ∃ item more, items = item :: more ∧ ∃ a, R a item ∧ Q a b more := by
  intro bs b rest
  rw [reads_bind]
  constructor
  · rintro ⟨a, next, ha, hb⟩
    obtain ⟨item, hitem, ha⟩ := (hd ..).1 ha
    obtain ⟨rfl, more, hmore, hb⟩ := (hf a ..).1 hb
    have hsplits : Rlp.Splits bs (item :: more) := Rlp.splits_cons_iff.2 ⟨next, hitem, hmore⟩
    exact ⟨rfl, item :: more, hsplits, item, more, rfl, a, ha, hb⟩
  · rintro ⟨rfl, _, hsplits, item, more, rfl, a, ha, hb⟩
    obtain ⟨next, hitem, hmore⟩ := Rlp.splits_cons_iff.1 hsplits
    exact ⟨a, next, (hd ..).2 ⟨item, hitem, ha⟩, (hf a ..).2 ⟨rfl, more, hmore, hb⟩⟩

theorem ReadsItems.bind_all (hd : d.ReadsItems P) (hf : ∀ a, (f a).ReadsAllItems (Q a)) :
    (d >>= f).ReadsAllItems fun b items =>
      ∃ front back, items = front ++ back ∧ ∃ a, P a front ∧ Q a b back := by
  intro bs b rest
  rw [reads_bind]
  constructor
  · rintro ⟨a, next, ha, hb⟩
    obtain ⟨front, hfront, ha⟩ := (hd ..).1 ha
    obtain ⟨rfl, back, hback, hb⟩ := (hf a ..).1 hb
    have hsplits : Rlp.Splits bs (front ++ back) := by
      rw [Rlp.splits_iff_takes] at hback ⊢
      exact Rlp.takes_append.2 ⟨next, hfront, hback⟩
    exact ⟨rfl, front ++ back, hsplits, front, back, rfl, a, ha, hb⟩
  · rintro ⟨rfl, _, hsplits, front, back, rfl, a, ha, hb⟩
    rw [Rlp.splits_iff_takes] at hsplits
    obtain ⟨next, hfront, hback⟩ := Rlp.takes_append.1 hsplits
    rw [← Rlp.splits_iff_takes] at hback
    exact ⟨a, next, (hd ..).2 ⟨front, hfront, ha⟩, (hf a ..).2 ⟨rfl, back, hback, hb⟩⟩

theorem ReadsAllItems.map (h : d.ReadsAllItems P) (g : α → β) :
    (g <$> d).ReadsAllItems fun b items => ∃ a, b = g a ∧ P a items := by
  intro bs b rest
  rw [reads_map]
  constructor
  · rintro ⟨a, ha, rfl⟩
    obtain ⟨rfl, items, hsplits, ha⟩ := (h ..).1 ha
    exact ⟨rfl, items, hsplits, a, rfl, ha⟩
  · rintro ⟨rfl, items, hsplits, a, rfl, ha⟩
    exact ⟨a, (h ..).2 ⟨rfl, items, hsplits, ha⟩, rfl⟩

theorem ReadsAllItems.or_reject (h : d.ReadsAllItems P) (condition : Bool) (site : Site)
    (s : Status) :
    (if condition then d else reject site s).ReadsAllItems fun a items =>
      condition = true ∧ P a items := by
  intro bs a rest
  cases condition with
  | true => simp [h bs a rest]
  | false => simp [not_reads_reject]

/-- Nothing follows, or what does is read by a decoder that needs an item. -/
theorem ReadsAllItems.after_atEnd (h : d.ReadsAllItems P) (hP : ∀ a, ¬P a []) (a : α) :
    (do if ← atEnd then return a else d).ReadsAllItems fun b items =>
      items = [] ∧ b = a ∨ P b items := by
  intro bs b rest
  rw [reads_bind]
  cases bs with
  | nil =>
      constructor
      · rintro ⟨_, _, hend, hb⟩
        obtain ⟨rfl, rfl⟩ := reads_atEnd.1 hend
        obtain ⟨rfl, rfl⟩ := reads_pure.1 hb
        exact ⟨rfl, [], Rlp.splits_nil_iff.2 rfl, .inl ⟨rfl, rfl⟩⟩
      · rintro ⟨rfl, items, hsplits, hb⟩
        obtain rfl : items = [] := hsplits.unique (Rlp.splits_nil_iff.2 rfl)
        obtain ⟨-, rfl⟩ := hb.resolve_right (hP b)
        exact ⟨true, [], reads_atEnd.2 ⟨rfl, rfl⟩, reads_pure.2 ⟨rfl, rfl⟩⟩
  | cons byte bs =>
      constructor
      · rintro ⟨_, _, hend, hb⟩
        obtain ⟨rfl, rfl⟩ := reads_atEnd.1 hend
        obtain ⟨rfl, items, hsplits, hb⟩ := (h ..).1 hb
        exact ⟨rfl, items, hsplits, .inr hb⟩
      · rintro ⟨rfl, items, hsplits, ⟨rfl, -⟩ | hb⟩
        · cases Rlp.splits_nil_iff.1 hsplits
        · exact ⟨false, byte :: bs, reads_atEnd.2 ⟨rfl, rfl⟩, (h ..).2 ⟨rfl, items, hsplits, hb⟩⟩

end

/-! ## What is refused -/

/-- The decoder ends on these bytes without a value. -/
def Fails (d : Decoder α) (bs : Bytes) (stop : Stop) : Prop := (d.run bs).outcome = .error stop

theorem Reads.not_fails {d : Decoder α} {bs rest : Bytes} {a : α} {stop : Stop}
    (h : Reads d bs a rest) : ¬Fails d bs stop := by
  intro hfails
  cases h.symm.trans hfails

/-- Once the first step has read, the run is that of the second. -/
theorem Reads.outcome_bind {d : Decoder α} {f : α → Decoder β} {bs next : Bytes} {a : α}
    (h : Reads d bs a next) : ((d >>= f).run bs).outcome = ((f a).run next).outcome := by
  rw [StateT.run_bind, Logged.outcome_bind_ok h]

theorem fails_bind {d : Decoder α} {f : α → Decoder β} {bs : Bytes} {stop : Stop} :
    Fails (d >>= f) bs stop ↔
      Fails d bs stop ∨ ∃ a next, Reads d bs a next ∧ Fails (f a) next stop := by
  unfold Fails Reads
  rw [StateT.run_bind, Logged.outcome_bind]
  cases h : (d.run bs).outcome with
  | error e => simp [Except.bind]
  | ok r =>
      obtain ⟨a, next⟩ := r
      constructor
      · intro hf
        exact .inr ⟨a, next, rfl, hf⟩
      · rintro (hd | ⟨a', next', heq, hf⟩)
        · cases hd
        · cases heq
          exact hf

theorem Reads.fails_bind {d : Decoder α} {f : α → Decoder β} {bs next : Bytes} {a : α} {stop : Stop}
    (hd : Reads d bs a next) (hf : Fails (f a) next stop) : Fails (d >>= f) bs stop :=
  Decoder.fails_bind.2 (.inr ⟨a, next, hd, hf⟩)

theorem fails_map {d : Decoder α} {f : α → β} {bs : Bytes} {stop : Stop} :
    Fails (f <$> d) bs stop ↔ Fails d bs stop := by
  rw [map_eq_pure_bind, fails_bind]
  apply or_iff_left
  rintro ⟨a, next, -, h⟩
  cases h

theorem fails_lift {x : Logged Stop α} {bs : Bytes} {stop : Stop} :
    Fails (StateT.lift x) bs stop ↔ x.outcome = .error stop := by
  unfold Fails
  rw [StateT.run_lift, Logged.outcome_bind]
  cases x.outcome <;> simp [Except.bind]

theorem fails_within {inner : Bytes} {d : Decoder α} {bs : Bytes} {stop : Stop} :
    Fails (within inner d) bs stop ↔ Fails d inner stop := by
  unfold Fails
  rw [run_within]
  cases (d.run inner).outcome <;> simp [Except.map]

theorem fails_item {bs : Bytes} {stop : Stop} :
    Fails Decoder.item bs stop ↔ Rlp.readItem bs = .error stop := Iff.rfl

theorem fails_finish {bs : Bytes} {stop : Stop} :
    Fails finish bs stop ↔ bs ≠ [] ∧ stop = .status .unexpectedCharacters := by
  unfold Fails
  rw [run_finish]
  cases bs with
  | nil => simp
  | cons b bs => simp [eq_comm]

/-! ## How a decoder ends -/

/-- Whatever the bytes are, the decoder ends with a value or for one of the reasons, and its log
reports just that. -/
def EndsIn (reasons : List Status) (d : Decoder α) : Prop := ∀ bs, (d.run bs).EndsIn reasons

section

variable {reasons more : List Status} {d : Decoder α} {s : Status}

theorem EndsIn.mono (hd : d.EndsIn reasons) (h : reasons ⊆ more) : d.EndsIn more := fun bs =>
  (hd bs).mono h

theorem EndsIn.not_fails (hd : d.EndsIn reasons) (hs : s ∉ reasons) (bs : Bytes) :
    ¬Fails d bs (.status s) := by
  intro hfails
  obtain ⟨s', hs', heq, -⟩ := (hd bs).refused _ hfails
  cases heq
  exact hs hs'

/-- A reason that the first step does not have comes from what follows it. -/
theorem EndsIn.fails_bind {f : α → Decoder β} (hd : d.EndsIn reasons) (hs : s ∉ reasons)
    {bs : Bytes} :
    Fails (d >>= f) bs (.status s) ↔ ∃ a next, Reads d bs a next ∧ Fails (f a) next (.status s) := by
  rw [Decoder.fails_bind]
  exact or_iff_right (hd.not_fails hs bs)

/-- A reason that what follows does not have comes from the first step. -/
theorem fails_bind_of_endsIn {f : α → Decoder β} (hf : ∀ a, (f a).EndsIn reasons)
    (hs : s ∉ reasons) {bs : Bytes} :
    Fails (d >>= f) bs (.status s) ↔ Fails d bs (.status s) := by
  rw [Decoder.fails_bind]
  apply or_iff_left
  rintro ⟨a, next, -, h⟩
  exact (hf a).not_fails hs next h

theorem endsIn_pure (a : α) : EndsIn reasons (pure a : Decoder α) := fun bs =>
  Logged.endsIn_pure (a, bs)

theorem EndsIn.bind {f : α → Decoder β} (hd : d.EndsIn reasons)
    (hf : ∀ a, (f a).EndsIn reasons) : (d >>= f).EndsIn reasons := by
  intro bs
  rw [StateT.run_bind]
  exact (hd bs).bind fun r _ => hf r.1 r.2

theorem EndsIn.map (hd : d.EndsIn reasons) (f : α → β) : (f <$> d).EndsIn reasons := by
  rw [map_eq_pure_bind]
  exact hd.bind fun a => endsIn_pure (f a)

theorem endsIn_lift {x : Logged Stop α} (hx : x.EndsIn reasons) :
    EndsIn reasons (StateT.lift x) := by
  intro bs
  rw [StateT.run_lift]
  exact hx.bind fun a _ => Logged.endsIn_pure (a, bs)

theorem EndsIn.within (hd : d.EndsIn reasons) (inner : Bytes) :
    (Decoder.within inner d).EndsIn reasons := by
  unfold Decoder.within
  exact (endsIn_lift (hd inner)).bind fun r => endsIn_pure r.1

theorem endsIn_enter (site : Site) : EndsIn reasons (enter site) :=
  endsIn_lift (Logged.endsIn_enter site)

theorem fails_enter_bind {site : Site} {f : Unit → Decoder α} {bs : Bytes} {stop : Stop} :
    Fails (enter site >>= f) bs stop ↔ Fails (f ()) bs stop := by
  unfold Fails
  rw [StateT.run_bind, run_enter, Logged.outcome_bind_ok rfl]

theorem endsIn_fail (hs : s ∈ reasons) (hpolicy : s.isPolicyRejection = false) :
    EndsIn reasons (fail s : Decoder α) :=
  endsIn_lift (Logged.endsIn_stop hs hpolicy)

theorem endsIn_reject (site : Site) (hs : s ∈ reasons) (hpolicy : s.isPolicyRejection = true) :
    EndsIn reasons (reject site s : Decoder α) :=
  endsIn_lift (Logged.endsIn_reject site hs hpolicy)

theorem endsIn_ensure (condition : Bool) (hs : s ∈ reasons)
    (hpolicy : s.isPolicyRejection = false) : EndsIn reasons (ensure condition s) := by
  cases condition with
  | true => exact endsIn_pure ()
  | false => exact endsIn_fail hs hpolicy

theorem endsIn_item (h : .unexpectedEnd ∈ reasons) : EndsIn reasons Decoder.item := by
  intro bs
  rw [run_item]
  cases hitem : Rlp.readItem bs with
  | ok r => exact Logged.endsIn_of_ok rfl LogEntry.quiet_nil
  | error e =>
      rw [Rlp.readItem_eq_error hitem]
      exact Logged.endsIn_stop h rfl

theorem endsIn_payload (h : .unexpectedEnd ∈ reasons) : EndsIn reasons Decoder.payload :=
  (endsIn_item h).bind fun item => endsIn_pure item.payload

theorem endsIn_atEnd : EndsIn reasons atEnd := fun _ => Logged.endsIn_of_ok rfl LogEntry.quiet_nil

theorem endsIn_finish (h : .unexpectedCharacters ∈ reasons) : EndsIn reasons finish :=
  endsIn_atEnd.bind fun done => endsIn_ensure done h rfl

theorem endsIn_list (hend : .unexpectedEnd ∈ reasons) (htype : .unexpectedType ∈ reasons) :
    EndsIn reasons Decoder.list :=
  (endsIn_item hend).bind fun item =>
    (endsIn_ensure item.isList htype rfl).bind fun _ => endsIn_pure item

end

end Decoder

end ClearSign
