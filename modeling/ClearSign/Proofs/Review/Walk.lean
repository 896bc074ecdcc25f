import ClearSign.Proofs.Review.Display
/-!
# What a walk sees

A walk goes from page to page on one screen.  Since each rendering starts on a blank screen, what is
seen of a field depends on the field and on the sizes of the buffers only (`seen`), and the walk
sees this for each field of the table in turn: `outcome_walk`.
-/

namespace ClearSign.Review

/-- What is seen of a field on a screen with buffers of these sizes. -/
def seen (r : Review) (f : Field) (titleSize messageSize : Nat) : Seen :=
  if titleSize ≤ f.label.length then .refused .unexpectedEnd []
  else
    match r.fullText f with
    | .error s => .refused s f.label
    | .ok text =>
      match Page.view text messageSize 0 with
      | .error s => .refused s f.label
      | .ok (_, n) => .shown f.label ((List.range n).map (Page.chunk text (messageSize - 1)))

theorem untilZero_zeros (size : Nat) : Bytes.untilZero (List.replicate size 0) = [] := by
  cases size with
  | zero => rfl
  | succ size => rfl

theorem untilZero_label {f : Field} {titleSize : Nat} (h : ¬titleSize ≤ f.label.length) :
    Bytes.untilZero (Page.padded f.label titleSize) = f.label :=
  Page.untilZero_padded (by omega) f.zero_notMem_label

variable {r : Review} {expert : Bool} {rows : List Field} {index : Nat} {f : Field}

theorem itemView_eq (hrows : r.rows expert = .ok rows) (hf : rows[index]? = some f)
    (page titleSize messageSize : Nat) :
    r.itemView expert index page titleSize messageSize =
      r.fieldView f page titleSize messageSize := by
  simp only [itemView, hrows, hf]

section Shown

variable {text first : Bytes} {titleSize messageSize n : Nat}

/-- Once the first page can be shown, all pages can. -/
theorem fieldView_eq (htitle : ¬titleSize ≤ f.label.length) (htext : r.fullText f = .ok text)
    (hview : Page.view text messageSize 0 = .ok (first, n)) {page : Nat} (hpage : page < n) :
    r.fieldView f page titleSize messageSize =
      ⟨⟨Page.padded f.label titleSize,
        Page.padded (Page.chunk text (messageSize - 1) page) messageSize⟩, .ok n⟩ := by
  obtain ⟨hsize, hn, hmax, -, -⟩ := Page.view_eq_ok hview
  have hpages : Page.view text messageSize page =
      .ok (Page.chunk text (messageSize - 1) page, n) := by
    unfold Page.view
    rw [if_neg (by omega), ← hn, if_neg (by omega), if_neg (by omega)]
  unfold fieldView
  rw [if_neg htitle, htext]
  simp only [Except.bind, hpages]

theorem untilZero_chunk (htext : r.fullText f = .ok text)
    (hview : Page.view text messageSize 0 = .ok (first, n)) (page : Nat) :
    Bytes.untilZero (Page.padded (Page.chunk text (messageSize - 1) page) messageSize) =
      Page.chunk text (messageSize - 1) page := by
  obtain ⟨hsize, -, -, -, -⟩ := Page.view_eq_ok hview
  have hlen := Page.length_chunk_le text (messageSize - 1) page
  exact Page.untilZero_padded (by omega) fun hz =>
    zero_notMem_fullText htext (Page.mem_of_mem_chunk hz)

/-- The invariant along the pages of a field: the label stands in the title, and the pages seen so
far are kept. -/
theorem outcome_walkPages (hrows : r.rows expert = .ok rows) (hf : rows[index]? = some f)
    (htitle : ¬titleSize ≤ f.label.length) (htext : r.fullText f = .ok text)
    (hview : Page.view text messageSize 0 = .ok (first, n)) {pages : List Nat}
    (hpages : ∀ page ∈ pages, page < n) (before : List Bytes) {message : Bytes}
    (hmessage : message.length = messageSize) :
    ∃ message', message'.length = messageSize ∧
      (r.walkPages expert index pages before ⟨Page.padded f.label titleSize, message⟩).outcome =
        .ok (⟨Page.padded f.label titleSize, message'⟩,
          .shown f.label (before ++ pages.map (Page.chunk text (messageSize - 1)))) := by
  induction pages generalizing before message with
  | nil =>
      refine ⟨message, hmessage, ?_⟩
      rw [walkPages, Logged.outcome_pure, untilZero_label htitle, List.map_nil, List.append_nil]
  | cons page pages ih =>
      have hlen : (Page.padded f.label titleSize).length = titleSize :=
        Page.length_padded (by omega)
      have hitem := r.outcome_renderItem expert index page ⟨Page.padded f.label titleSize, message⟩
      rw [hlen, hmessage, itemView_eq hrows hf,
        fieldView_eq htitle htext hview (hpages page (by simp))] at hitem
      obtain ⟨hsize, -, -, -, -⟩ := Page.view_eq_ok hview
      have hchunk := Page.length_chunk_le text (messageSize - 1) page
      have hshown : (Page.padded (Page.chunk text (messageSize - 1) page) messageSize).length =
          messageSize := Page.length_padded (by omega)
      -- each page replaces the message, so only the length of the message is carried on
      obtain ⟨message', hlen', hnext⟩ := ih (fun p hp => hpages p (List.mem_cons_of_mem _ hp))
        (before ++ [Page.chunk text (messageSize - 1) page]) hshown
      refine ⟨message', hlen', ?_⟩
      rw [walkPages, Logged.outcome_bind_ok hitem]
      simp only [untilZero_chunk htext hview]
      rw [hnext, List.append_assoc, List.map_cons]
      rfl

end Shown

/-- A field that cannot be shown leaves its label behind. -/
theorem fieldView_of_error {s : Status} {page titleSize messageSize : Nat}
    (htitle : ¬titleSize ≤ f.label.length)
    (h : ((r.fullText f).bind fun text => Page.view text messageSize page) = .error s) :
    r.fieldView f page titleSize messageSize =
      ⟨⟨Page.padded f.label titleSize, List.replicate messageSize 0⟩, .error s⟩ := by
  unfold fieldView
  rw [if_neg htitle, h]

theorem seen_of_error {s : Status} {titleSize messageSize : Nat}
    (htitle : ¬titleSize ≤ f.label.length)
    (h : ((r.fullText f).bind fun text => Page.view text messageSize 0) = .error s) :
    r.seen f titleSize messageSize = .refused s f.label := by
  unfold seen
  rw [if_neg htitle]
  cases htext : r.fullText f with
  | error s' =>
      rw [htext] at h
      cases h
      rfl
  | ok text =>
      rw [htext] at h
      have hview : Page.view text messageSize 0 = .error s := h
      simp only [hview]

theorem seen_of_ok {text first : Bytes} {n titleSize messageSize : Nat}
    (htitle : ¬titleSize ≤ f.label.length) (htext : r.fullText f = .ok text)
    (hview : Page.view text messageSize 0 = .ok (first, n)) :
    r.seen f titleSize messageSize =
      .shown f.label ((List.range n).map (Page.chunk text (messageSize - 1))) := by
  simp only [seen, if_neg htitle, htext, hview]

/-- On a screen that is not too small, a field that has a text is shown. -/
theorem exists_seen_eq {text : Bytes} {titleSize messageSize : Nat} (htitle : 17 ≤ titleSize)
    (hmessage : 2 ≤ messageSize) (htext : r.fullText f = .ok text) :
    ∃ pages, r.seen f titleSize messageSize = .shown f.label pages := by
  have hlabel := f.length_label_lt
  have hlen : text.length ≤ Page.maxCount := Nat.le_trans (length_fullText_le htext) (by decide)
  have hview := Page.view_eq hmessage hlen 0
  rw [if_pos (Page.count_pos _ _)] at hview
  exact ⟨_, seen_of_ok (by omega) htext hview⟩

theorem outcome_walkItem (hrows : r.rows expert = .ok rows) (hf : rows[index]? = some f)
    (screen : Screen) :
    ∃ screen', screen'.title.length = screen.title.length ∧
      screen'.message.length = screen.message.length ∧
      (r.walkItem expert index screen).outcome =
        .ok (screen', r.seen f screen.title.length screen.message.length) := by
  have hitem := r.outcome_renderItem expert index 0 screen
  obtain ⟨htlen, hmlen⟩ :=
    r.length_itemView expert index 0 screen.title.length screen.message.length
  rw [itemView_eq hrows hf] at hitem htlen hmlen
  rw [walkItem, Logged.outcome_bind_ok hitem]
  by_cases htitle : screen.title.length ≤ f.label.length
  · have hview : r.fieldView f 0 screen.title.length screen.message.length =
        ⟨blank screen.title.length screen.message.length, .error .unexpectedEnd⟩ := if_pos htitle
    rw [hview] at htlen hmlen ⊢
    refine ⟨_, htlen, hmlen, ?_⟩
    simp only [seen, if_pos htitle, blank, untilZero_zeros, Logged.outcome_pure]
  · cases hfirst : (r.fullText f).bind fun text => Page.view text screen.message.length 0 with
    | error s =>
        rw [fieldView_of_error htitle hfirst] at htlen hmlen ⊢
        refine ⟨_, htlen, hmlen, ?_⟩
        simp only [seen_of_error htitle hfirst, untilZero_label htitle, Logged.outcome_pure]
    | ok view =>
        obtain ⟨first, n⟩ := view
        obtain ⟨text, htext, hview⟩ := Checked.bind_eq_ok.1 hfirst
        obtain ⟨-, -, -, hpos, -⟩ := Page.view_eq_ok hview
        obtain ⟨more, rfl⟩ := Nat.exists_eq_add_of_lt hpos
        have hpages : ∀ page ∈ List.range' 1 more, page < 0 + more + 1 := by
          intro page hpage
          rw [List.mem_range'_1] at hpage
          omega
        have hrange : List.range (0 + more + 1) = 0 :: List.range' 1 more := by
          rw [Nat.zero_add, List.range_eq_range', List.range'_succ]
        rw [fieldView_eq htitle htext hview hpos] at htlen hmlen ⊢
        obtain ⟨message, hmessage, hwalk⟩ := outcome_walkPages hrows hf htitle htext hview hpages
          [Page.chunk text (screen.message.length - 1) 0] hmlen
        refine ⟨⟨Page.padded f.label screen.title.length, message⟩, htlen, hmessage, ?_⟩
        simp only [untilZero_chunk htext hview, Nat.zero_add, Nat.add_sub_cancel]
        rw [hwalk, seen_of_ok htitle htext hview, hrange]
        rfl

theorem outcome_walkItems (hrows : r.rows expert = .ok rows) {fields : List Field}
    {indices : List Nat} (hfields : indices.map (rows[·]?) = fields.map some) (screen : Screen) :
    (r.walkItems expert indices screen).outcome =
      .ok (fields.map fun f => r.seen f screen.title.length screen.message.length) := by
  induction indices generalizing fields screen with
  | nil =>
      cases fields with
      | nil => rfl
      | cons f fields => cases hfields
  | cons index indices ih =>
      cases fields with
      | nil => cases hfields
      | cons f fields =>
          obtain ⟨hf, hrest⟩ := List.cons.inj hfields
          obtain ⟨screen', htlen, hmlen, hitem⟩ := outcome_walkItem hrows hf screen
          have hmore := ih hrest screen'
          rw [htlen, hmlen] at hmore
          rw [walkItems, Logged.outcome_bind_ok hitem, Logged.outcome_bind_ok hmore]
          rfl

/-- A walk sees each field of the table in turn. -/
theorem outcome_walk (r : Review) (expert : Bool) (screen : Screen) :
    (r.walk expert screen).outcome =
      .ok ((r.rows expert).map fun rows =>
        { rows, items := rows.map fun f =>
            r.seen f screen.title.length screen.message.length }) := by
  cases hrows : r.rows expert with
  | error s =>
      unfold walk
      rw [hrows]
      rfl
  | ok rows =>
      have hfields : (List.range rows.length).map (rows[·]?) = rows.map some := by
        apply List.ext_getElem?
        intro i
        by_cases hi : i < rows.length
        · simp [hi]
        · simp [hi]
      have hitems := outcome_walkItems hrows hfields screen
      unfold walk
      rw [hrows]
      exact Logged.outcome_bind_ok hitems _

end ClearSign.Review
