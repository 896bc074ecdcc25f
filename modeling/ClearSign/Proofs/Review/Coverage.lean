import ClearSign.Proofs.Review.Pages
/-!
# Which items can be shown

The table of a review lists only fields that the transaction has, so on a screen of a modest size
the length of an amount is the one thing that can keep an item from being shown.
`reports_of_accepted` counts the items and says what every index and every page comes to.
-/

namespace ClearSign

/-- The fields that hold an integer of any length. -/
def Field.IsInteger : Field → Prop
  | nonce | maxPriorityFee | maxFee | gasLimit | gasPrice | value | coinValue => True
  | _ => False

namespace Review

/-! ## The table -/

theorem length_table (r : Review) :
    r.table.length =
      (if r.isTransfer then 9
        else 5 + (if r.tx.recipient.isSome then 1 else 0) + if r.tx.data.isEmpty then 0 else 1) +
      if r.envelope = .feeMarket then 1 else 0 := by
  unfold table feeFields
  by_cases he : r.envelope = .feeMarket
  · simp only [if_pos he]
    cases r.isTransfer <;> cases r.tx.recipient.isSome <;> cases r.tx.data.isEmpty <;> rfl
  · simp only [if_neg he]
    cases r.isTransfer <;> cases r.tx.recipient.isSome <;> cases r.tx.data.isEmpty <;> rfl

theorem nodup_table (r : Review) : r.table.Nodup := by
  unfold table feeFields
  by_cases he : r.envelope = .feeMarket
  · simp only [if_pos he]
    cases r.isTransfer <;> cases r.tx.recipient.isSome <;> cases r.tx.data.isEmpty <;> decide
  · simp only [if_neg he]
    cases r.isTransfer <;> cases r.tx.recipient.isSome <;> cases r.tx.data.isEmpty <;> decide

theorem getLast?_table (r : Review) : r.table.getLast? = some .hash := by
  unfold table
  split
  · rw [List.getLast?_append]
    rfl
  · rw [List.getLast?_append]
    rfl

theorem length_table_le (r : Review) : r.table.length ≤ 10 := by
  rw [length_table]
  repeat' split
  all_goals omega

/-! ## Amounts that are too long -/

variable {r : Review} {f : Field}

theorem exists_number_of_not_fits (h : ¬r.Fits f) :
    ∃ num, r.number f = some num ∧ 32 < num.length := by
  by_contra hnone
  apply h
  intro num hnum
  by_contra hlen
  exact hnone ⟨num, hnum, by omega⟩

/-- The amount of a transfer fills a word, so it is never too long. -/
theorem isInteger_of_not_fits (h : ¬r.Fits f) : f.IsInteger := by
  obtain ⟨num, hnum, hlen⟩ := exists_number_of_not_fits h
  cases f with
  | amount =>
      obtain ⟨t, -, rfl⟩ := Option.map_eq_some_iff.1 hnum
      have hword : t.amount.bytes.length = 32 := t.amount.length_bytes
      omega
  | receiver => cases hnum
  | contract => cases hnum
  | recipient => cases hnum
  | data => cases hnum
  | hash => cases hnum
  | _ => trivial

theorem fullText_of_not_fits (h : ¬r.Fits f) : r.fullText f = .error .valueOutOfRange := by
  obtain ⟨num, hnum, hlen⟩ := exists_number_of_not_fits h
  obtain ⟨places, htext⟩ := fullText_of_number hnum
  rw [htext]
  exact if_neg (show ¬num.length ≤ 32 by omega)

/-! ## What an index comes to -/

/-- Rendering ends, and reports `outcome`. -/
def Reports (r : Review) (expert : Bool) (index page : Nat) (screen : Screen)
    (outcome : Except Status Nat) : Prop :=
  ∃ after, (r.renderItem expert index page screen).outcome = .ok { screen := after, outcome }

variable {raw : Bytes} {expert : Bool} {index page : Nat} {screen : Screen}

theorem reports_iff {outcome : Except Status Nat} :
    r.Reports expert index page screen outcome ↔
      (r.itemView expert index page screen.title.length screen.message.length).outcome =
        outcome := by
  unfold Reports
  rw [outcome_renderItem]
  constructor
  · rintro ⟨after, h⟩
    rw [Except.ok.inj h]
  · rintro rfl
    exact ⟨_, rfl⟩

theorem Reports.unique {outcome outcome' : Except Status Nat}
    (h : r.Reports expert index page screen outcome)
    (h' : r.Reports expert index page screen outcome') : outcome = outcome' :=
  (reports_iff.1 h).symm.trans (reports_iff.1 h')

theorem reports_of_length_le (hrows : r.rows expert = .ok r.table)
    (hindex : r.table.length ≤ index) :
    r.Reports expert index page screen (.error .pageOutOfRange) := by
  apply reports_iff.2
  simp only [itemView, hrows, List.getElem?_eq_none hindex]

theorem reports_of_fits (hparse : (parse raw).outcome = .ok r)
    (hrows : r.rows expert = .ok r.table) (htitle : 17 ≤ screen.title.length)
    (hmessage : 2 ≤ screen.message.length) (hf : r.table[index]? = some f) (hfits : r.Fits f) :
    ∃ pages, 0 < pages ∧ ∀ page, r.Reports expert index page screen
      (if page < pages then .ok pages else .error .pageOutOfRange) := by
  have hlists : r.Lists f := mem_table.1 (List.mem_of_getElem? hf)
  obtain ⟨text, htext⟩ := exists_fullText hlists hfits
  have hpos := length_fullText_pos hparse hlists htext
  have hlabel := f.length_label_lt
  refine ⟨text.length ⌈/⌉ (screen.message.length - 1), ?_, ?_⟩
  · rw [← count_eq_ceilDiv hpos (by omega)]
    exact Page.count_pos _ _
  · intro page
    apply reports_iff.2
    rw [itemView_eq hrows hf, fieldView_eq_pageView htext hpos (by omega) hmessage]
    unfold pageView
    dsimp only
    split
    · rfl
    · rfl

theorem reports_of_not_fits (hrows : r.rows expert = .ok r.table)
    (htitle : 17 ≤ screen.title.length) (hf : r.table[index]? = some f) (hfits : ¬r.Fits f) :
    r.Reports expert index page screen (.error .valueOutOfRange) := by
  have hlabel := f.length_label_lt
  apply reports_iff.2
  rw [itemView_eq hrows hf, fieldView_of_error (by omega)]
  rw [fullText_of_not_fits hfits]
  rfl

/-- The items of an accepted transaction that may be shown.  Only an integer of more than 32 bytes
cannot be shown, and only an item or a page that does not exist is out of range. -/
theorem reports_of_accepted (hparse : (parse raw).outcome = .ok r)
    (hvalid : (r.validate expert).outcome = .ok ()) (htitle : 17 ≤ screen.title.length)
    (hmessage : 2 ≤ screen.message.length) :
    ∃ rows, r.rows expert = .ok rows ∧ r.itemCount expert = .ok rows.length ∧
      rows.length =
        (if r.isTransfer then 9
          else 5 + (if r.tx.recipient.isSome then 1 else 0) + if r.tx.data.isEmpty then 0 else 1) +
        (if r.envelope = .feeMarket then 1 else 0) ∧
      rows.length ≤ 10 ∧ rows.Nodup ∧ rows.getLast? = some .hash ∧
      (∀ index f, rows[index]? = some f →
        (r.Fits f → ∃ pages, r.Reports expert index 0 screen (.ok pages)) ∧
          (¬r.Fits f →
            f.IsInteger ∧ r.Reports expert index 0 screen (.error .valueOutOfRange))) ∧
      (∀ index page, rows.length ≤ index →
        r.Reports expert index page screen (.error .pageOutOfRange)) ∧
      (∀ index page, ∃ outcome, r.Reports expert index page screen outcome ∧
        ∀ s, outcome = .error s → s = .valueOutOfRange ∨ s = .pageOutOfRange) ∧
      ((∀ index, index < rows.length → ∃ pages, 0 < pages ∧
          ∀ page, page < pages → r.Reports expert index page screen (.ok pages)) ↔
        ∀ f ∈ rows, r.Fits f) := by
  have hrows := validate_eq_ok_iff.1 hvalid
  refine ⟨r.table, hrows, itemCount_of_rows hrows, r.length_table, r.length_table_le,
    r.nodup_table, r.getLast?_table, ?_, ?_, ?_, ?_, ?_⟩
  · intro index f hf
    constructor
    · intro hfits
      obtain ⟨pages, hpos, hpages⟩ := reports_of_fits hparse hrows htitle hmessage hf hfits
      have hfirst := hpages 0
      rw [if_pos hpos] at hfirst
      exact ⟨pages, hfirst⟩
    · intro hfits
      exact ⟨isInteger_of_not_fits hfits, reports_of_not_fits hrows htitle hf hfits⟩
  · intro index page hindex
    exact reports_of_length_le hrows hindex
  · intro index page
    cases hf : r.table[index]? with
    | none =>
        have hindex := List.getElem?_eq_none_iff.1 hf
        refine ⟨_, reports_of_length_le hrows hindex, ?_⟩
        rintro s ⟨⟩
        exact .inr rfl
    | some f =>
        by_cases hfits : r.Fits f
        · obtain ⟨pages, -, hpages⟩ := reports_of_fits hparse hrows htitle hmessage hf hfits
          refine ⟨_, hpages page, ?_⟩
          intro s hs
          split at hs
          · cases hs
          · cases hs
            exact .inr rfl
        · refine ⟨_, reports_of_not_fits hrows htitle hf hfits, ?_⟩
          rintro s ⟨⟩
          exact .inl rfl
  · intro hall f hf
    obtain ⟨index, hindex, rfl⟩ := List.getElem_of_mem hf
    obtain ⟨pages, hpos, hpages⟩ := hall index hindex
    by_contra hfits
    have hwide : r.Reports expert index 0 screen (.error .valueOutOfRange) :=
      reports_of_not_fits hrows htitle (List.getElem?_eq_getElem hindex) hfits
    cases (hpages 0 hpos).unique hwide
  · intro hall index hindex
    have hf := List.getElem?_eq_getElem hindex
    obtain ⟨pages, hpos, hpages⟩ := reports_of_fits hparse hrows htitle hmessage hf
      (hall _ (List.getElem_mem hindex))
    refine ⟨pages, hpos, ?_⟩
    intro page hpage
    have hshown := hpages page
    rwa [if_pos hpage] at hshown

/-- A contract is created, and the nonce has a byte too many to be shown. -/
def wideNonce : Review where
  raw := [0xe7, 0xa1] ++ List.replicate 33 1 ++ [0x80, 0x80, 0x80, 0x80, 0x80]
  tx := .legacy {
    base := {
      nonce := List.replicate 33 1, gasPrice := [], gasLimit := [], recipient := none, value := []
      data := [] }
    chainId := none }
  transfer := none

/-- The fourth of its five items cannot be shown, and there is no sixth. -/
theorem wideNonce_reports :
    (parse wideNonce.raw).outcome = .ok wideNonce ∧
      (wideNonce.validate true).outcome = .ok () ∧ wideNonce.itemCount true = .ok 5 ∧
      (∃ pages, wideNonce.Reports true 0 0 (blank 17 2) (.ok pages)) ∧
      wideNonce.Reports true 3 0 (blank 17 2) (.error .valueOutOfRange) ∧
      wideNonce.Reports true 5 7 (blank 17 2) (.error .pageOutOfRange) := by
  have hparse : (parse wideNonce.raw).outcome = .ok wideNonce := by rfl
  have hvalid : (wideNonce.validate true).outcome = .ok () := by rfl
  have htitle : 17 ≤ (blank 17 2).title.length := by decide
  have hmessage : 2 ≤ (blank 17 2).message.length := by decide
  obtain ⟨rows, hrows, hcount, -, -, -, -, hitems, hbeyond, -⟩ :=
    reports_of_accepted hparse hvalid htitle hmessage
  have htable : wideNonce.rows true = .ok [.coinValue, .gasLimit, .gasPrice, .nonce, .hash] := by
    rfl
  rw [htable] at hrows
  cases hrows
  have hempty : wideNonce.Fits .coinValue := by
    intro num hnum
    cases hnum
    decide
  have hwide : ¬wideNonce.Fits .nonce := fun hfits => absurd (hfits _ rfl) (by decide)
  exact ⟨hparse, hvalid, hcount, (hitems 0 .coinValue rfl).1 hempty,
    ((hitems 3 .nonce rfl).2 hwide).2, hbeyond 5 7 (by decide)⟩

end Review

end ClearSign
