import ClearSign.Proofs.Review.Coverage
import ClearSign.Proofs.Session.Refinement
/-!
# What calls leave in the places for their outputs

A call writes its outputs in several steps and may fail between them, so a count, a page or a byte
that stands in its place could be taken for an answer.  After a failure nothing is left there that
could, whatever the places held before and however small they are.

* `fieldView_eq_error`, `itemView_eq_error`: what a rendering that fails leaves on the screen.
* `Reachable`, `Reachable.represents`: the states that calls lead to, and their invariant.
* `TreatsOutputs`, `Reachable.treatsOutputs`: how the calls treat their places in those states.
-/

namespace ClearSign

/-- The statuses with which an item is refused. -/
def Status.RefusesItem (s : Status) : Prop :=
  s ∈ [unsupportedTx, unexpectedEnd, valueOutOfRange, pageOutOfRange]

instance (s : Status) : Decidable s.RefusesItem := inferInstanceAs (Decidable (s ∈ _))

namespace Review

variable {r : Review} {f : Field} {expert : Bool} {index page titleSize messageSize n : Nat}
  {s : Status} {screen : Screen}

/-! ## What a rendering leaves -/

theorem refusesItem_of_view {text : Bytes} (h : Page.view text messageSize page = .error s) :
    s.RefusesItem := by
  rcases Page.view_eq_error h with rfl | rfl | rfl
  · decide
  · decide
  · decide

/-- A field that is refused leaves at most its label. -/
theorem fieldView_eq_error (hf : r.Lists f)
    (h : r.fieldView f page titleSize messageSize = ⟨screen, .error s⟩) :
    s.RefusesItem ∧ (screen = blank titleSize messageSize ∨
      f.label.length < titleSize ∧
        screen = ⟨Page.padded f.label titleSize, List.replicate messageSize 0⟩) := by
  unfold fieldView at h
  by_cases htitle : titleSize ≤ f.label.length
  · rw [if_pos htitle] at h
    cases h
    exact ⟨by decide, .inl rfl⟩
  · rw [if_neg htitle] at h
    by_cases hfits : r.Fits f
    · obtain ⟨text, htext⟩ := exists_fullText hf hfits
      cases hview : Page.view text messageSize page with
      | ok view =>
          simp only [htext, Except.bind, hview] at h
          cases h
      | error st =>
          simp only [htext, Except.bind, hview] at h
          cases h
          exact ⟨refusesItem_of_view hview, .inr ⟨by omega, rfl⟩⟩
    · rw [fullText_of_not_fits hfits] at h
      cases h
      exact ⟨by decide, .inr ⟨by omega, rfl⟩⟩

theorem fieldView_eq_ok (h : r.fieldView f page titleSize messageSize = ⟨screen, .ok n⟩) :
    0 < n := by
  unfold fieldView at h
  split at h
  · cases h
  · split at h
    · rename_i hview
      cases h
      obtain ⟨text, -, hview⟩ := Checked.bind_eq_ok.1 hview
      obtain ⟨-, -, -, hpage, -⟩ := Page.view_eq_ok hview
      omega
    · cases h

/-- An item that is refused leaves at most the label of its field. -/
theorem itemView_eq_error
    (h : r.itemView expert index page titleSize messageSize = ⟨screen, .error s⟩) :
    s.RefusesItem ∧ (screen = blank titleSize messageSize ∨
      ∃ rows f, r.rows expert = .ok rows ∧ rows[index]? = some f ∧ f.label.length < titleSize ∧
        screen = ⟨Page.padded f.label titleSize, List.replicate messageSize 0⟩) := by
  unfold itemView at h
  split at h
  · rename_i hrows
    cases h
    rw [rows_eq_error hrows]
    exact ⟨by decide, .inl rfl⟩
  · rename_i rows hrows
    split at h
    · cases h
      exact ⟨by decide, .inl rfl⟩
    · rename_i f hf
      have hlists : r.Lists f := by
        rw [← mem_table, ← rows_eq_ok hrows]
        exact List.mem_of_getElem? hf
      obtain ⟨hs, hblank | hlabel⟩ := fieldView_eq_error hlists h
      · exact ⟨hs, .inl hblank⟩
      · exact ⟨hs, .inr ⟨rows, f, hrows, hf, hlabel⟩⟩

theorem itemView_eq_ok
    (h : r.itemView expert index page titleSize messageSize = ⟨screen, .ok n⟩) : 0 < n := by
  unfold itemView at h
  split at h
  · cases h
  · split at h
    · cases h
    · exact fieldView_eq_ok h

end Review

namespace Session

/-! ## The states that calls lead to -/

inductive Reachable : Session → Prop where
  | initial : Reachable Session.initial
  | step {s s' : Session} {call : Call} {reply : Reply} (h : Reachable s)
      (hstep : (s.step call).outcome = .ok (s', reply)) : Reachable s'

variable {s : Session} {d : Desk}

/-- Every call keeps the invariant between a session and a desk. -/
theorem Reachable.represents (h : s.Reachable) : ∃ d, s.Represents d := by
  induction h with
  | initial => exact ⟨Desk.initial, represents_initial⟩
  | @step s s' call reply h hstep ih =>
      obtain ⟨d, hd⟩ := ih
      obtain ⟨s'', hanswer, hd', -⟩ := step_represents hd call
      rw [hstep] at hanswer
      cases hanswer
      exact ⟨_, hd'⟩

theorem Reachable.run {s' : Session} {calls : List Call} {replies : List Reply}
    (h : s.Reachable) (hrun : (s.run calls).outcome = .ok (s', replies)) : s'.Reachable := by
  induction calls generalizing s replies with
  | nil =>
      cases hrun
      exact h
  | cons call calls ih =>
      rw [Session.run, Logged.bind_outcome_eq_ok] at hrun
      obtain ⟨⟨s₁, reply⟩, hstep, hrun⟩ := hrun
      obtain ⟨⟨s₂, more⟩, hmore, hrun⟩ := Logged.bind_outcome_eq_ok.1 hrun
      cases hrun
      exact ih (h.step hstep) hmore

/-! ## What each call leaves -/

/-- A reading reports success exactly for a transaction, which is then under review. -/
def ReadsWell (s : Session) : Prop :=
  ∀ buffer, ∃ s' status, (s.step (.read buffer)).outcome = .ok (s', .read status) ∧
    (status = .ok ↔ ∃ raw r, buffer = some raw ∧ (Review.parse raw).outcome = .ok r ∧
      s'.current = .ok (some r))

def ValidatesWell (s : Session) : Prop :=
  ∃ status, (s.step .validate).outcome = .ok (s, .validated status) ∧
    (status = .ok ↔ ∃ r, s.current = .ok (some r) ∧ (r.validate s.expert).outcome = .ok ())

/-- Where there is no count, a zero is left. -/
def CountsWell (s : Session) : Prop :=
  (s.step (.countItems none)).outcome = .ok (s, .count .contextMismatch none) ∧
    ∀ old, ∃ status n,
      (s.step (.countItems (some old))).outcome = .ok (s, .count status (some n)) ∧
        (status ≠ .ok → n = 0) ∧
        (status = .ok ↔ ∃ r, s.current = .ok (some r) ∧ r.itemCount s.expert = .ok n)

/-- A rendering of a page leaves the same in all buffers of the same sizes.  If it fails, that is
the label of the item at most. -/
def RendersPage (s : Session) (r : Review) (index page titleSize messageSize : Nat) : Prop :=
  ∃ status title message n,
    (∀ screen : Screen, screen.title.length = titleSize → screen.message.length = messageSize →
      ∀ pages, (s.step (.renderItem index page (some screen.title) (some screen.message)
        (some pages))).outcome = .ok (s, .item status (some title) (some message) (some n))) ∧
    (status ≠ .ok → n = 0 ∧ message = List.replicate messageSize 0 ∧
      (title = List.replicate titleSize 0 ∨ ∃ rows f, r.rows s.expert = .ok rows ∧
        rows[index]? = some f ∧ f.label.length < titleSize ∧
          title = f.label ++ List.replicate (titleSize - f.label.length) 0)) ∧
    (status = .ok → 1 ≤ n) ∧
    (status = .ok ↔ ∀ screen : Screen, screen.title.length = titleSize →
      screen.message.length = messageSize →
        (r.renderItem s.expert index page screen).outcome = .ok ⟨⟨title, message⟩, .ok n⟩)

/-- A call for an item writes to no place if one of them is missing, and only to that for the number
of pages if nothing is under review. -/
structure RendersWell (s : Session) : Prop where
  missing : ∀ index page title message pages, title = none ∨ message = none ∨ pages = none →
    (s.step (.renderItem index page title message pages)).outcome =
      .ok (s, .item .contextMismatch title message pages)
  empty : s.current = .ok none → ∀ index page title message pages,
    (s.step (.renderItem index page (some title) (some message) (some pages))).outcome =
      .ok (s, .item .noData (some title) (some message) (some 0))
  full : ∀ r, s.current = .ok (some r) → ∀ index page titleSize messageSize,
    s.RendersPage r index page titleSize messageSize

/-- Where there is no recovery byte, nothing is written. -/
def RecoversWell (s : Session) : Prop :=
  ∀ info, (s.step (.recoveryByte info none)).outcome =
      .ok (s, .recoveryByte .contextMismatch none) ∧
    ∀ old, ∃ status v,
      (s.step (.recoveryByte info (some old))).outcome = .ok (s, .recoveryByte status (some v)) ∧
        (status ≠ .ok → v = old) ∧
        (status = .ok ↔ ∃ r, s.current = .ok (some r) ∧
          Signature.recoveryByte r.tx (Signature.isOdd info) = .ok v)

namespace Represents

theorem step_query (h : s.Represents d) (call : Call) (hcall : call.IsQuery) :
    (s.step call).outcome = .ok (s, Desk.answer d.review d.expert call) := by
  obtain ⟨s', hstep, -, hsame⟩ := step_represents h call
  rw [hsame hcall] at hstep
  exact hstep

theorem readsWell (h : s.Represents d) : s.ReadsWell := by
  intro buffer
  obtain ⟨s', hstep, hs', -⟩ := step_represents h (.read buffer)
  cases buffer with
  | none =>
      refine ⟨s', .contextMismatch, hstep, nofun, ?_⟩
      rintro ⟨raw, r, hraw, -⟩
      cases hraw
  | some raw =>
      refine ⟨s', Status.ofOutcome (Review.read raw), hstep, ?_, ?_⟩
      · intro hok
        obtain ⟨r, hr⟩ := Review.read_of_status_ok hok
        have hbuffer : (d.next (.read (some raw))).buffer = some raw := by
          simp only [Desk.next, Option.filter_some, Review.isAccepted_of_read hr, if_true]
        refine ⟨raw, r, rfl, Review.read_eq_ok_iff.1 hr, ?_⟩
        rw [hs'.current_eq, Desk.review, hbuffer, Option.bind_some, hr]
        rfl
      · rintro ⟨raw', r, hraw, hparse, -⟩
        cases hraw
        rw [Review.read_eq_ok_iff.2 hparse]
        rfl

theorem validatesWell (h : s.Represents d) : s.ValidatesWell := by
  have hstep := h.step_query .validate trivial
  unfold ValidatesWell
  rw [h.current_eq, h.expert]
  cases hd : d.review with
  | none =>
      rw [hd] at hstep
      exact ⟨.noData, hstep, nofun, nofun⟩
  | some r =>
      rw [hd] at hstep
      refine ⟨Status.ofOutcome (r.rows d.expert), hstep, ?_, ?_⟩
      · intro hok
        refine ⟨r, rfl, Review.validate_eq_ok_iff.2 ?_⟩
        cases hrows : r.rows d.expert with
        | ok rows => rw [Review.rows_eq_ok hrows]
        | error st =>
            rw [hrows, Review.rows_eq_error hrows] at hok
            cases hok
      · rintro ⟨r', hr, hvalid⟩
        cases hr
        rw [Review.validate_eq_ok_iff.1 hvalid]
        rfl

theorem countsWell (h : s.Represents d) : s.CountsWell := by
  refine ⟨h.step_query (.countItems none) trivial, ?_⟩
  intro old
  have hstep := h.step_query (.countItems (some old)) trivial
  rw [h.current_eq, h.expert]
  cases hd : d.review with
  | none =>
      rw [hd] at hstep
      exact ⟨.noData, 0, hstep, fun _ => rfl, nofun, nofun⟩
  | some r =>
      cases hrows : r.rows d.expert with
      | ok rows =>
          simp only [hd, Desk.answer, hrows] at hstep
          refine ⟨.ok, rows.length, hstep, fun hne => absurd rfl hne, ?_, fun _ => rfl⟩
          intro _
          exact ⟨r, rfl, Review.itemCount_of_rows hrows⟩
      | error st =>
          simp only [hd, Desk.answer, hrows, Review.rows_eq_error hrows] at hstep
          refine ⟨.unsupportedTx, 0, hstep, fun _ => rfl, nofun, ?_⟩
          rintro ⟨r', hr, hcount⟩
          cases hr
          rw [Review.itemCount, hrows] at hcount
          cases hcount

theorem rendersPage (h : s.Represents d) {r : Review} (hr : d.review = some r)
    (index page titleSize messageSize : Nat) :
    s.RendersPage r index page titleSize messageSize := by
  have hitem := r.outcome_renderItem d.expert index page
  have hstep : ∀ title message pages, (s.step (.renderItem index page (some title) (some message)
      (some pages))).outcome = .ok (s, Desk.answer (some r) d.expert
        (.renderItem index page (some title) (some message) (some pages))) := by
    intro title message pages
    rw [← hr]
    exact h.step_query _ trivial
  unfold RendersPage
  rw [h.expert]
  cases hview : r.itemView d.expert index page titleSize messageSize with
  | mk screen outcome =>
      have hleft : ∀ old : Screen, old.title.length = titleSize →
          old.message.length = messageSize →
            (r.renderItem d.expert index page old).outcome = .ok ⟨screen, outcome⟩ := by
        rintro old rfl rfl
        rw [hitem, hview]
      cases outcome with
      | ok n =>
          refine ⟨.ok, screen.title, screen.message, n, ?_, fun hne => absurd rfl hne, ?_, ?_⟩
          · rintro old rfl rfl pages
            simp only [hstep, Desk.answer, hview]
          · intro _
            exact Review.itemView_eq_ok hview
          · exact ⟨fun _ => hleft, fun _ => rfl⟩
      | error st =>
          obtain ⟨hrefuses, hscreen⟩ := Review.itemView_eq_error hview
          have hne : st ≠ .ok := by
            rintro rfl
            exact absurd hrefuses (by decide)
          refine ⟨st, screen.title, screen.message, 0, ?_, ?_, fun hok => absurd hok hne,
            fun hok => absurd hok hne, ?_⟩
          · rintro old rfl rfl pages
            simp only [hstep, Desk.answer, hview]
          · intro _
            rcases hscreen with rfl | ⟨rows, f, hrows, hf, hlabel, rfl⟩
            · exact ⟨rfl, rfl, .inl rfl⟩
            · exact ⟨rfl, rfl, .inr ⟨rows, f, hrows, hf, hlabel, rfl⟩⟩
          · intro hall
            have hblank := hall (Review.blank titleSize messageSize) List.length_replicate
              List.length_replicate
            rw [hleft _ List.length_replicate List.length_replicate] at hblank
            cases hblank

theorem rendersWell (h : s.Represents d) : s.RendersWell where
  missing := by
    intro index page title message pages hmissing
    have hstep := h.step_query (.renderItem index page title message pages) trivial
    rcases hmissing with rfl | rfl | rfl
    · exact hstep
    · cases title with
      | none => exact hstep
      | some title => exact hstep
    · cases title with
      | none => exact hstep
      | some title =>
          cases message with
          | none => exact hstep
          | some message => exact hstep
  empty := by
    intro hempty index page title message pages
    have hreview : d.review = none := Except.ok.inj (h.current_eq.symm.trans hempty)
    have hstep := h.step_query
      (.renderItem index page (some title) (some message) (some pages)) trivial
    rw [hreview] at hstep
    exact hstep
  full := by
    intro r hr
    exact h.rendersPage (Except.ok.inj (h.current_eq.symm.trans hr))

theorem recoversWell (h : s.Represents d) : s.RecoversWell := by
  intro info
  refine ⟨h.step_query (.recoveryByte info none) trivial, ?_⟩
  intro old
  have hstep := h.step_query (.recoveryByte info (some old)) trivial
  rw [h.current_eq]
  cases hd : d.review with
  | none =>
      rw [hd] at hstep
      exact ⟨.noData, old, hstep, fun _ => rfl, nofun, nofun⟩
  | some r =>
      rw [hd] at hstep
      refine ⟨.ok, Signature.recovered r.tx (Signature.isOdd info), hstep,
        fun hne => absurd rfl hne, ?_, fun _ => rfl⟩
      intro _
      exact ⟨r, rfl, Signature.recoveryByte_eq r.tx (Signature.isOdd info)⟩

end Represents

/-! ## All calls -/

/-- How the calls on a session treat their places. -/
structure TreatsOutputs (s : Session) : Prop where
  /-- Whatever of the record may be used has been filled in. -/
  current : ∃ review, s.current = .ok review
  read : s.ReadsWell
  validate : s.ValidatesWell
  count : s.CountsWell
  item : s.RendersWell
  recoveryByte : s.RecoversWell

/-- After any calls, a call that fails leaves nothing that could be taken for an answer, and a call
reports success exactly when it has had a result. -/
theorem Reachable.treatsOutputs (h : s.Reachable) : s.TreatsOutputs := by
  obtain ⟨d, hd⟩ := h.represents
  exact ⟨⟨d.review, hd.current_eq⟩, hd.readsWell, hd.validatesWell, hd.countsWell,
    hd.rendersWell, hd.recoversWell⟩

/-- An expert reviews a transaction in which every field is empty. -/
def blankReview : Session where
  record := .complete {
    raw := emptyFields
    tx := .legacy {
      base := {
        nonce := [], gasPrice := [], gasLimit := [], recipient := none, value := [], data := [] }
      chainId := none }
    transfer := none }
  ready := true
  expert := true

/-- A page that does not exist leaves the label of the item and none of the bytes before. -/
theorem blankReview_treatsOutputs :
    (initial.run [.read (some emptyFields), .setExpert true]).outcome =
        .ok (blankReview, [.read .ok, .expert true]) ∧
      blankReview.TreatsOutputs ∧
      (blankReview.step (.renderItem 0 9 (some (List.replicate 7 0xaa))
          (some (List.replicate 4 0xaa)) (some 5))).outcome =
        .ok (blankReview, .item .pageOutOfRange (some (Bytes.ofText "Value" ++ [0, 0]))
          (some [0, 0, 0, 0]) (some 0)) := by
  have hrun : (initial.run [.read (some emptyFields), .setExpert true]).outcome =
      .ok (blankReview, [.read .ok, .expert true]) := by rfl
  have hreach : blankReview.Reachable := Reachable.initial.run hrun
  refine ⟨hrun, hreach.treatsOutputs, ?_⟩
  rfl

end Session

end ClearSign
