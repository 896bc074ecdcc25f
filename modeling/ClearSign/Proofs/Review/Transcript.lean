import ClearSign.Proofs.Review.Walk
import ClearSign.Proofs.Transfer
/-!
# What is shown determines what is signed

The transcript of a walk lists the label and the whole text of each field, without the hash.  It
holds exactly what the review says (`mem_transcript_iff`), a label tells which field it stands for,
and each kind of text determines its value.  So two reviews with the same transcript ask the user
for the same thing: `sameIntent_of_transcript_eq`.
-/

namespace ClearSign.Review

/-! ## Transcripts -/

/-- The label and the whole text of a field that has been shown. -/
def Seen.entry : Seen → Option (Bytes × Bytes)
  | .shown title pages => some (title, pages.flatten)
  | .refused _ _ => none

/-- Every field has been shown to its end. -/
def Walk.Complete (w : Walk) : Prop := ∀ seen ∈ w.items, ∃ title pages, seen = .shown title pages

/-- What has been shown, the hash left out. -/
def Walk.transcript (w : Walk) : List (Bytes × Bytes) :=
  (w.items.filterMap Seen.entry).filter fun entry => entry.1 ≠ Field.hash.label

/-- Some field of the review, other than the hash, has this label and this text. -/
def Says (r : Review) (label text : Bytes) : Prop :=
  ∃ f, r.Lists f ∧ f ≠ .hash ∧ f.label = label ∧ r.fullText f = .ok text

theorem seen_eq_shown {r : Review} {f : Field} {titleSize messageSize : Nat} {title : Bytes}
    {pages : List Bytes} (h : r.seen f titleSize messageSize = .shown title pages) :
    title = f.label ∧ r.fullText f = .ok pages.flatten := by
  unfold seen at h
  split at h
  · cases h
  · split at h
    · cases h
    · rename_i text htext
      split at h
      · cases h
      · rename_i first n hview
        cases h
        obtain ⟨hsize, rfl, -, -, -⟩ := Page.view_eq_ok hview
        have hpages := Page.flatMap_chunk_count text (show 0 < messageSize - 1 by omega)
        rw [← List.flatMap_def, hpages]
        exact ⟨rfl, htext⟩

section Walk

variable {r : Review} {expert : Bool} {screen : Screen} {w : Walk}

theorem items_of_walk (hwalk : (r.walk expert screen).outcome = .ok (.ok w)) :
    w.items = r.table.map fun f => r.seen f screen.title.length screen.message.length := by
  rw [outcome_walk, rows_eq] at hwalk
  split at hwalk
  · cases hwalk
    rfl
  · cases hwalk

theorem exists_shown (hwalk : (r.walk expert screen).outcome = .ok (.ok w)) (hw : w.Complete)
    {f : Field} (hf : r.Lists f) :
    ∃ pages, r.seen f screen.title.length screen.message.length = .shown f.label pages ∧
      r.fullText f = .ok pages.flatten := by
  have hmem : r.seen f screen.title.length screen.message.length ∈ w.items := by
    rw [items_of_walk hwalk]
    exact List.mem_map_of_mem (mem_table.2 hf)
  obtain ⟨title, pages, hshown⟩ := hw _ hmem
  obtain ⟨rfl, htext⟩ := seen_eq_shown hshown
  exact ⟨pages, hshown, htext⟩

theorem mem_transcript_iff (hwalk : (r.walk expert screen).outcome = .ok (.ok w))
    (hw : w.Complete) {label text : Bytes} :
    (label, text) ∈ w.transcript ↔ r.Says label text := by
  have hhash : ∀ f : Field, f.label = Field.hash.label ↔ f = .hash := by
    intro f
    rw [Field.label_eq_iff]
    simp
  rw [Walk.transcript, List.mem_filter, List.mem_filterMap, items_of_walk hwalk]
  simp only [decide_eq_true_eq]
  constructor
  · rintro ⟨⟨seen, hseen, hentry⟩, hne⟩
    obtain ⟨f, hf, rfl⟩ := List.mem_map.1 hseen
    obtain ⟨pages, hshown, htext⟩ := exists_shown hwalk hw (mem_table.1 hf)
    rw [hshown] at hentry
    cases hentry
    exact ⟨f, mem_table.1 hf, fun h => hne ((hhash f).2 h), rfl, htext⟩
  · rintro ⟨f, hf, hne, rfl, htext⟩
    obtain ⟨pages, hshown, htext'⟩ := exists_shown hwalk hw hf
    rw [htext] at htext'
    cases htext'
    exact ⟨⟨_, List.mem_map_of_mem (mem_table.2 hf), by rw [hshown]; rfl⟩,
      fun h => hne ((hhash f).1 h)⟩

end Walk

/-! ## Reviews that say the same -/

/-- Two reviews that say the same, all fields of which can be shown. -/
structure Agree (a b : Review) : Prop where
  says_iff : ∀ label text, a.Says label text ↔ b.Says label text
  left : ∀ f, a.Lists f → ∃ text, a.fullText f = .ok text
  right : ∀ f, b.Lists f → ∃ text, b.fullText f = .ok text

namespace Agree

variable {a b : Review}

theorem symm (h : Agree a b) : Agree b a := by
  refine ⟨fun label text => ?_, h.right, h.left⟩
  exact (h.says_iff label text).symm

/-- A field of the one has a counterpart under the same label in the other. -/
theorem exists_match (h : Agree a b) {f : Field} (hf : a.Lists f) (hne : f ≠ .hash) :
    ∃ g text, b.Lists g ∧ g.label = f.label ∧ a.fullText f = .ok text ∧
      b.fullText g = .ok text := by
  obtain ⟨text, htext⟩ := h.left f hf
  obtain ⟨g, hg, -, hlabel, hgtext⟩ := (h.says_iff f.label text).1 ⟨f, hf, hne, rfl, htext⟩
  exact ⟨g, text, hg, hlabel, htext, hgtext⟩

theorem lists (h : Agree a b) {f : Field} (hf : a.Lists f) (hv : f ≠ .value)
    (hc : f ≠ .coinValue) : b.Lists f := by
  by_cases hne : f = .hash
  · rw [hne]
    trivial
  · obtain ⟨g, _, hg, hlabel, -, -⟩ := h.exists_match hf hne
    rcases Field.label_eq_iff.1 hlabel with rfl | ⟨-, rfl⟩ | ⟨-, rfl⟩
    · exact hg
    · exact absurd rfl hc
    · exact absurd rfl hv

/-- A field that both list has one text. -/
theorem exists_text (h : Agree a b) {f : Field} (ha : a.Lists f) (hb : b.Lists f)
    (hne : f ≠ .hash) : ∃ text, a.fullText f = .ok text ∧ b.fullText f = .ok text := by
  obtain ⟨g, text, hg, hlabel, hatext, hbtext⟩ := h.exists_match ha hne
  obtain rfl : g = f := label_inj_of_lists hg hb hlabel
  exact ⟨text, hatext, hbtext⟩

theorem isTransfer_eq (h : Agree a b) : a.isTransfer = b.isTransfer := by
  have hto : ∀ {r s : Review}, Agree r s → r.isTransfer = true → s.isTransfer = true :=
    fun hrs hr => hrs.lists (f := .receiver) hr nofun nofun
  rw [Bool.eq_iff_iff]
  exact ⟨hto h, hto h.symm⟩

theorem feeMarket_iff (h : Agree a b) : a.envelope = .feeMarket ↔ b.envelope = .feeMarket := by
  have hto : ∀ {r s : Review}, Agree r s → r.envelope = .feeMarket → s.envelope = .feeMarket :=
    fun hrs hr => hrs.lists (f := .maxFee) hr nofun nofun
  exact ⟨hto h, hto h.symm⟩

end Agree

/-! ## What the texts determine -/

theorem part_address_inj {x y : Option Address} {text : Bytes}
    (hx : ((part x).bind fun a => .ok (addressDigits a)) = .ok text)
    (hy : ((part y).bind fun a => .ok (addressDigits a)) = .ok text) : x = y := by
  obtain ⟨a, rfl, ha⟩ := part_bind_eq_ok hx
  obtain ⟨b, rfl, hb⟩ := part_bind_eq_ok hy
  cases hb
  rw [addressDigits_inj (Except.ok.inj ha)]

theorem part_amount_inj {x y : Option Bytes} {text : Bytes} {places : Nat}
    (hx : ((part x).bind fun num => amountDigits num places) = .ok text)
    (hy : ((part y).bind fun num => amountDigits num places) = .ok text) :
    x.map Bytes.value = y.map Bytes.value := by
  obtain ⟨num, rfl, hnum⟩ := part_bind_eq_ok hx
  obtain ⟨num', rfl, hnum'⟩ := part_bind_eq_ok hy
  exact congrArg some (amountDigits_inj hnum hnum')

/-- The two ask the user for the same thing: amounts count as numbers, and call data as far as it is
shown. -/
structure SameIntent (a b : Review) : Prop where
  isTransfer : a.isTransfer = b.isTransfer
  feeMarket : a.envelope = .feeMarket ↔ b.envelope = .feeMarket
  transfer : a.transfer = b.transfer
  recipient : a.tx.recipient = b.tx.recipient
  nonce : Bytes.value a.tx.nonce = Bytes.value b.tx.nonce
  gasLimit : Bytes.value a.tx.gasLimit = Bytes.value b.tx.gasLimit
  value : Bytes.value a.tx.value = Bytes.value b.tx.value
  gasPrice : a.tx.gasPrice.map Bytes.value = b.tx.gasPrice.map Bytes.value
  priorityFee : a.tx.priorityFee.map Bytes.value = b.tx.priorityFee.map Bytes.value
  maxFee : a.tx.maxFee.map Bytes.value = b.tx.maxFee.map Bytes.value
  dataStart : a.tx.data.take dataShown = b.tx.data.take dataShown
  data : a.tx.data = b.tx.data ∧ a.tx.data.length ≤ dataShown ∨
    dataShown < a.tx.data.length ∧ dataShown < b.tx.data.length

namespace Agree

variable {a b : Review}

theorem transfer_eq (h : Agree a b) : a.transfer = b.transfer := by
  cases ha : a.transfer with
  | none =>
      have hb := h.isTransfer_eq
      rw [isTransfer, ha] at hb
      exact (Option.isNone_iff_eq_none.1 (by simpa [isTransfer] using hb.symm)).symm
  | some t =>
      have hat : a.isTransfer = true := by rw [isTransfer, ha]; rfl
      have hbt : b.isTransfer = true := h.isTransfer_eq.symm.trans hat
      obtain ⟨u, hb⟩ := Option.isSome_iff_exists.1 hbt
      obtain ⟨_, hr, hr'⟩ := h.exists_text (f := .receiver) hat hbt nofun
      obtain ⟨_, hc, hc'⟩ := h.exists_text (f := .contract) hat hbt nofun
      obtain ⟨_, hm, hm'⟩ := h.exists_text (f := .amount) hat hbt nofun
      simp only [fullText, ha, hb, part, Except.bind] at hr hr' hc hc' hm hm'
      have hreceiver : t.receiver = u.receiver :=
        addressDigits_inj (Except.ok.inj (hr.trans hr'.symm))
      have hcontract : t.contract = u.contract :=
        addressDigits_inj (Except.ok.inj (hc.trans hc'.symm))
      have hbytes : t.amount.bytes = u.amount.bytes :=
        Bytes.eq_of_value_eq (by rw [t.amount.length_bytes, u.amount.length_bytes])
          (amountDigits_inj hm hm')
      rw [hb]
      cases t with
      | mk _ _ amount =>
          cases u with
          | mk _ _ amount' =>
              cases amount
              cases amount'
              cases hreceiver
              cases hcontract
              cases hbytes
              rfl

theorem recipient_eq (h : Agree a b) (ht : a.isTransfer = false) :
    a.tx.recipient = b.tx.recipient := by
  have hbt : b.isTransfer = false := h.isTransfer_eq.symm.trans ht
  by_cases hs : a.tx.recipient.isSome = true
  · have hb := h.lists (f := .recipient) ⟨ht, hs⟩ nofun nofun
    obtain ⟨_, htext, htext'⟩ := h.exists_text (f := .recipient) ⟨ht, hs⟩ hb nofun
    exact part_address_inj htext htext'
  · have hn : ¬b.tx.recipient.isSome = true := fun hb =>
      hs (h.symm.lists (f := .recipient) ⟨hbt, hb⟩ nofun nofun).2
    rw [Option.not_isSome_iff_eq_none.1 hs, Option.not_isSome_iff_eq_none.1 hn]

theorem value_eq (h : Agree a b) : Bytes.value a.tx.value = Bytes.value b.tx.value := by
  cases ht : a.isTransfer with
  | true =>
      have hbt : b.isTransfer = true := h.isTransfer_eq.symm.trans ht
      obtain ⟨_, htext, htext'⟩ := h.exists_text (f := .value) ht hbt nofun
      exact amountDigits_inj htext htext'
  | false =>
      have hbt : b.isTransfer = false := h.isTransfer_eq.symm.trans ht
      obtain ⟨_, htext, htext'⟩ := h.exists_text (f := .coinValue) ht hbt nofun
      exact amountDigits_inj htext htext'

theorem data_eq (h : Agree a b) : a.tx.data.take dataShown = b.tx.data.take dataShown ∧
    (a.tx.data = b.tx.data ∧ a.tx.data.length ≤ dataShown ∨
      dataShown < a.tx.data.length ∧ dataShown < b.tx.data.length) := by
  by_cases ha : a.Lists .data
  · have hb := h.lists ha nofun nofun
    obtain ⟨_, htext, htext'⟩ := h.exists_text ha hb nofun
    exact preview_inj (Except.ok.inj (htext.trans htext'.symm))
  · have hb : ¬b.Lists .data := fun hb => ha (h.symm.lists hb nofun nofun)
    have hempty : ∀ {r : Review}, ¬r.Lists .data → r.tx.data = [] := by
      intro r hr
      by_cases he : r.tx.data.isEmpty = false
      · exact absurd (Or.inr he) hr
      · exact List.isEmpty_iff.1 (by simpa using he)
    rw [hempty ha, hempty hb]
    exact ⟨rfl, Or.inl ⟨rfl, Nat.zero_le _⟩⟩

theorem gasPrice_eq (h : Agree a b) :
    a.tx.gasPrice.map Bytes.value = b.tx.gasPrice.map Bytes.value := by
  by_cases he : a.envelope = .feeMarket
  · rw [Transaction.gasPrice_eq_none he, Transaction.gasPrice_eq_none (h.feeMarket_iff.1 he)]
  · have hb : b.Lists .gasPrice := fun hb => he (h.feeMarket_iff.2 hb)
    obtain ⟨_, htext, htext'⟩ := h.exists_text (f := .gasPrice) he hb nofun
    exact part_amount_inj htext htext'

theorem fees_eq (h : Agree a b) :
    a.tx.priorityFee.map Bytes.value = b.tx.priorityFee.map Bytes.value ∧
      a.tx.maxFee.map Bytes.value = b.tx.maxFee.map Bytes.value := by
  by_cases he : a.envelope = .feeMarket
  · have hb := h.feeMarket_iff.1 he
    obtain ⟨_, hp, hp'⟩ := h.exists_text (f := .maxPriorityFee) he hb nofun
    obtain ⟨_, hm, hm'⟩ := h.exists_text (f := .maxFee) he hb nofun
    exact ⟨part_amount_inj hp hp', part_amount_inj hm hm'⟩
  · obtain ⟨hp, hm⟩ := Transaction.fees_eq_none he
    obtain ⟨hp', hm'⟩ := Transaction.fees_eq_none fun hb => he (h.feeMarket_iff.2 hb)
    rw [hp, hp', hm, hm']
    exact ⟨rfl, rfl⟩

end Agree

/-- The contract of a recognised transfer is the recipient of the transaction. -/
theorem recipient_of_recognised {recipient : Option Address} {data : Bytes} {t : Transfer}
    (h : Transfer.recognised recipient data = some t) : recipient = some t.contract :=
  (Transfer.recipient_and_data_of_recognised h).1

theorem agree_of_transcript_eq {a b : Review} {expertA expertB : Bool} {screenA screenB : Screen}
    {walkA walkB : Walk} (hwa : (a.walk expertA screenA).outcome = .ok (.ok walkA))
    (hwb : (b.walk expertB screenB).outcome = .ok (.ok walkB)) (hca : walkA.Complete)
    (hcb : walkB.Complete) (h : walkA.transcript = walkB.transcript) : Agree a b := by
  refine ⟨fun label text => ?_, fun f hf => ?_, fun f hf => ?_⟩
  · rw [← mem_transcript_iff hwa hca, h, mem_transcript_iff hwb hcb]
  · obtain ⟨_, -, htext⟩ := exists_shown hwa hca hf
    exact ⟨_, htext⟩
  · obtain ⟨_, -, htext⟩ := exists_shown hwb hcb hf
    exact ⟨_, htext⟩

/-- What is shown determines what is signed.  Each of the two walks may use a screen and a setting
of its own. -/
theorem sameIntent_of_transcript_eq {rawA rawB : Bytes} {a b : Review} {expertA expertB : Bool}
    {screenA screenB : Screen} {walkA walkB : Walk} (ha : (parse rawA).outcome = .ok a)
    (hb : (parse rawB).outcome = .ok b)
    (hwa : (a.walk expertA screenA).outcome = .ok (.ok walkA))
    (hwb : (b.walk expertB screenB).outcome = .ok (.ok walkB)) (hca : walkA.Complete)
    (hcb : walkB.Complete) (h : walkA.transcript = walkB.transcript) : SameIntent a b := by
  have hab := agree_of_transcript_eq hwa hwb hca hcb h
  obtain ⟨-, -, hta⟩ := parse_eq_ok_iff.1 ha
  obtain ⟨-, -, htb⟩ := parse_eq_ok_iff.1 hb
  obtain ⟨hdata, hdata'⟩ := hab.data_eq
  obtain ⟨hpriority, hmax⟩ := hab.fees_eq
  have hrecipient : a.tx.recipient = b.tx.recipient := by
    cases ht : a.transfer with
    | none => exact hab.recipient_eq (by rw [isTransfer, ht]; rfl)
    | some t =>
        have ht' : b.transfer = some t := hab.transfer_eq.symm.trans ht
        rw [recipient_of_recognised (hta.symm.trans ht),
          recipient_of_recognised (htb.symm.trans ht')]
  obtain ⟨_, hnonce, hnonce'⟩ := hab.exists_text (f := .nonce) trivial trivial nofun
  obtain ⟨_, hgas, hgas'⟩ := hab.exists_text (f := .gasLimit) trivial trivial nofun
  exact {
    isTransfer := hab.isTransfer_eq
    feeMarket := hab.feeMarket_iff
    transfer := hab.transfer_eq
    recipient := hrecipient
    nonce := amountDigits_inj hnonce hnonce'
    gasLimit := amountDigits_inj hgas hgas'
    value := hab.value_eq
    gasPrice := hab.gasPrice_eq
    priorityFee := hpriority
    maxFee := hmax
    dataStart := hdata
    data := hdata' }

/-! ## Two transactions that look the same

The fields need not be spelled alike: an unprotected transaction and one with an access list show
the same texts when they differ in leading zeros and behind the tenth byte of the call data only.
-/

/-- Reviews with the same table and the same texts have the same transcript on any two screens. -/
theorem transcript_eq_of_fullText_eq {a b : Review} {expertA expertB : Bool}
    {screenA screenB : Screen} {walkA walkB : Walk}
    (hwa : (a.walk expertA screenA).outcome = .ok (.ok walkA))
    (hwb : (b.walk expertB screenB).outcome = .ok (.ok walkB)) (hca : walkA.Complete)
    (hcb : walkB.Complete) (htable : a.table = b.table)
    (htext : ∀ f, a.Lists f → f ≠ .hash → a.fullText f = b.fullText f) :
    walkA.transcript = walkB.transcript := by
  have hfields : ∀ fields : List Field, (∀ f ∈ fields, a.Lists f ∧ b.Lists f) →
      ((fields.map fun f => a.seen f screenA.title.length screenA.message.length).filterMap
          Seen.entry).filter (fun entry => entry.1 ≠ Field.hash.label) =
        ((fields.map fun f => b.seen f screenB.title.length screenB.message.length).filterMap
          Seen.entry).filter (fun entry => entry.1 ≠ Field.hash.label) := by
    intro fields hlists
    induction fields with
    | nil => rfl
    | cons f fields ih =>
        have hrest := ih fun g hg => hlists g (List.mem_cons_of_mem _ hg)
        obtain ⟨hfa, hfb⟩ := hlists f (by simp)
        obtain ⟨pagesA, hseenA, htextA⟩ := exists_shown hwa hca hfa
        obtain ⟨pagesB, hseenB, htextB⟩ := exists_shown hwb hcb hfb
        have hentryA : Seen.entry (.shown f.label pagesA) = some (f.label, pagesA.flatten) := rfl
        have hentryB : Seen.entry (.shown f.label pagesB) = some (f.label, pagesB.flatten) := rfl
        rw [List.map_cons, List.map_cons, hseenA, hseenB, List.filterMap_cons_some hentryA,
          List.filterMap_cons_some hentryB, List.filter_cons, List.filter_cons, hrest]
        by_cases hne : f = .hash
        · subst hne
          simp
        · rw [htext f hfa hne, htextB] at htextA
          rw [Except.ok.inj htextA]
  unfold Walk.transcript
  rw [items_of_walk hwa, items_of_walk hwb, ← htable]
  exact hfields a.table fun f hf => ⟨mem_table.1 hf, mem_table.1 (htable ▸ hf)⟩

/-- A walk on a screen that is not too small is complete when no amount is too long. -/
theorem exists_complete_walk {r : Review} {expert : Bool} {screen : Screen}
    (hrows : r.isTransfer = true ∨ expert = true) (htitle : 17 ≤ screen.title.length)
    (hmessage : 2 ≤ screen.message.length)
    (hnum : ∀ f num, r.number f = some num → num.length ≤ Decimal.maxNumberBytes) :
    ∃ w, (r.walk expert screen).outcome = .ok (.ok w) ∧ w.Complete := by
  rw [outcome_walk, rows_eq, if_pos (Bool.or_eq_true_iff.2 hrows)]
  refine ⟨_, rfl, ?_⟩
  intro seen hseen
  obtain ⟨f, hf, rfl⟩ := List.mem_map.1 hseen
  obtain ⟨text, htext⟩ := exists_fullText (mem_table.1 hf) (hnum f)
  obtain ⟨pages, hpages⟩ := exists_seen_eq htitle hmessage htext
  exact ⟨_, _, hpages⟩

def payee : Address := ⟨List.replicate 20 0x11, rfl⟩

/-- An unprotected call with eleven bytes of data. -/
def plainCall : Review where
  raw := [0xe5, 0x05, 0x07, 0x09, 0x94] ++ payee.bytes ++
    [0x01, 0x8b, 0, 1, 2, 3, 4, 5, 6, 7, 8, 9, 10]
  tx := .legacy {
    base := {
      nonce := [5], gasPrice := [7], gasLimit := [9], recipient := some payee, value := [1]
      data := [0, 1, 2, 3, 4, 5, 6, 7, 8, 9, 10] }
    chainId := none }
  transfer := none

/-- The same call with another nonce field, another end of its data and a network. -/
def listedCall : Review where
  raw := [0x01, 0xec, 0x82, 0x0d, 0x0a, 0x82, 0, 0x05, 0x07, 0x09, 0x94] ++ payee.bytes ++
    [0x01, 0x8c, 0, 1, 2, 3, 4, 5, 6, 7, 8, 9, 11, 12, 0xc0]
  tx := .accessList {
    chainId := ⟨[0x0d, 0x0a], 3338⟩
    base := {
      nonce := [0, 5], gasPrice := [7], gasLimit := [9], recipient := some payee, value := [1]
      data := [0, 1, 2, 3, 4, 5, 6, 7, 8, 9, 11, 12] }
    accessList := ⟨.list, []⟩ }
  transfer := none

theorem parse_plainCall : (parse plainCall.raw).outcome = .ok plainCall := by rfl

theorem parse_listedCall : (parse listedCall.raw).outcome = .ok listedCall := by rfl

theorem fullText_calls (f : Field) (hf : plainCall.Lists f) (hne : f ≠ .hash) :
    plainCall.fullText f = listedCall.fullText f := by
  have hnonce : Bytes.value [5] = Bytes.value [0, 5] := by decide
  have hdata : preview plainCall.tx.data = preview listedCall.tx.data := by decide
  cases f with
  | receiver => cases hf
  | contract => cases hf
  | amount => cases hf
  | recipient => rfl
  | nonce =>
      change amountDigits [5] 0 = amountDigits [0, 5] 0
      rw [amountDigits, amountDigits, if_pos (by decide), if_pos (by decide), hnonce]
  | maxPriorityFee => cases hf
  | maxFee => cases hf
  | gasLimit => rfl
  | gasPrice => rfl
  | value => cases hf
  | coinValue => rfl
  | data => exact congrArg Except.ok hdata
  | hash => exact absurd rfl hne

theorem length_number_calls {r : Review} (hr : r = plainCall ∨ r = listedCall) (f : Field)
    (num : Bytes) (h : r.number f = some num) : num.length ≤ Decimal.maxNumberBytes := by
  rcases hr with rfl | rfl
  · cases f <;> cases h <;> decide
  · cases f <;> cases h <;> decide

theorem sameIntent_calls :
    (parse plainCall.raw).outcome = .ok plainCall ∧
      (parse listedCall.raw).outcome = .ok listedCall ∧
      ∃ walkA walkB : Walk,
        (plainCall.walk true (blank 17 2)).outcome = .ok (.ok walkA) ∧
          (listedCall.walk true (blank 40 100)).outcome = .ok (.ok walkB) ∧
          walkA.Complete ∧ walkB.Complete ∧ walkA.transcript = walkB.transcript ∧
          SameIntent plainCall listedCall := by
  have hwalkA : ∃ w, (plainCall.walk true (blank 17 2)).outcome = .ok (.ok w) ∧ w.Complete :=
    exists_complete_walk (Or.inr rfl) (by decide) (by decide) (length_number_calls (Or.inl rfl))
  have hwalkB : ∃ w, (listedCall.walk true (blank 40 100)).outcome = .ok (.ok w) ∧ w.Complete :=
    exists_complete_walk (Or.inr rfl) (by decide) (by decide) (length_number_calls (Or.inr rfl))
  obtain ⟨walkA, hwa, hca⟩ := hwalkA
  obtain ⟨walkB, hwb, hcb⟩ := hwalkB
  have htranscript := transcript_eq_of_fullText_eq hwa hwb hca hcb rfl fullText_calls
  exact ⟨parse_plainCall, parse_listedCall, walkA, walkB, hwa, hwb, hca, hcb, htranscript,
    sameIntent_of_transcript_eq parse_plainCall parse_listedCall hwa hwb hca hcb htranscript⟩

end ClearSign.Review
