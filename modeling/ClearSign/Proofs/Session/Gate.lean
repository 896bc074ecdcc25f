import ClearSign.Proofs.Session.Outputs
/-!
# The gates of a session

Whether a transaction may be shown is decided twice, when it is validated and when its fields are
listed, and each time by the flag as it stands at that call.  The two decisions agree, and the flag
has no part in them once the transaction is a transfer.

* `Desk.answer_congr`: all that a query learns of the flag is which fields are listed.
* `Desk.exchanges_replies`: the answers along a run in which the flag may be set at any time.
* `Gated`, `Represents.gated`: one decision for all calls, and what is shown if it is against the
  transaction.
* `Reachable.gates_agree`: what this says of every state that calls lead to.
-/

namespace ClearSign

namespace Review

variable {r : Review} {expert : Bool} {s : Status}

theorem rows_congr_of_isTransfer (h : r.isTransfer = true) (expert expert' : Bool) :
    r.rows expert = r.rows expert' := by
  rw [rows_eq, rows_eq, h]
  rfl

theorem itemView_of_rows_error (h : r.rows expert = .error s)
    (index page titleSize messageSize : Nat) :
    r.itemView expert index page titleSize messageSize =
      ⟨blank titleSize messageSize, .error s⟩ := by
  unfold itemView
  rw [h]

theorem itemView_congr {expert' : Bool} (h : r.rows expert = r.rows expert')
    (index page titleSize messageSize : Nat) :
    r.itemView expert index page titleSize messageSize =
      r.itemView expert' index page titleSize messageSize := by
  unfold itemView
  rw [h]

theorem status_rows_eq_ok_iff :
    Status.ofOutcome (r.rows expert) = .ok ↔ r.isTransfer = true ∨ expert = true := by
  rw [rows_eq]
  cases r.isTransfer with
  | true => exact ⟨fun _ => .inl rfl, fun _ => rfl⟩
  | false =>
      cases expert with
      | true => exact ⟨fun _ => .inr rfl, fun _ => rfl⟩
      | false => exact ⟨nofun, nofun⟩

theorem rows_of_status_ne_ok (h : Status.ofOutcome (r.rows expert) ≠ .ok) :
    r.rows expert = .error .unsupportedTx := by
  cases hrows : r.rows expert with
  | ok rows =>
      rw [hrows] at h
      exact absurd rfl h
  | error s => rw [rows_eq_error hrows]

end Review

/-! ## The flag along a run -/

instance : DecidablePred Call.IsQuery
  | .validate | .countItems _ | .renderItem _ _ _ _ _ | .recoveryByte _ _ => isTrue trivial
  | .setExpert _ | .read _ | .clear => isFalse not_false

/-- The queries among the calls of a run. -/
def Call.queries (calls : List Call) : List Call := calls.filter fun call => call.IsQuery

/-- The queries of a run, each with its reply. -/
def Call.exchanges (calls : List Call) (replies : List Reply) : List (Call × Reply) :=
  (calls.zip replies).filter fun exchange => exchange.1.IsQuery

namespace Desk

variable {d : Desk} {r : Review} {call : Call}

/-- A query reads the flag for nothing but the list of fields. -/
theorem answer_congr {expert expert' : Bool} (h : r.rows expert = r.rows expert')
    (hcall : call.IsQuery) : answer (some r) expert call = answer (some r) expert' call := by
  cases call with
  | validate => simp only [answer, h]
  | countItems count =>
      cases count with
      | none => rfl
      | some count => simp only [answer, h]
  | renderItem index page title message pages =>
      cases title with
      | none => rfl
      | some title =>
          cases message with
          | none => rfl
          | some message =>
              cases pages with
              | none => rfl
              | some pages => simp only [answer, Review.itemView_congr h]
  | recoveryByte info out =>
      cases out with
      | none => rfl
      | some v => rfl
  | setExpert on => cases hcall
  | read buffer => cases hcall
  | clear => cases hcall

theorem review_next (h : call.hands = none) : (d.next call).review = d.review := by
  cases call with
  | read buffer => cases h
  | clear => cases h
  | _ => rfl

/-- A run that hands in nothing gives one answer to each query about a transfer, wherever in the
run the flag is set. -/
theorem exchanges_replies (hr : d.review = some r) (ht : r.isTransfer = true) {calls : List Call}
    (hcalls : ∀ call ∈ calls, call.hands = none) :
    Call.exchanges calls (d.replies calls) =
      (Call.queries calls).map fun query => (query, answer (some r) false query) := by
  induction calls generalizing d with
  | nil => rfl
  | cons call calls ih =>
      have hnext : (d.next call).review = some r := by
        rw [review_next (hcalls call List.mem_cons_self), hr]
      have hmore := ih hnext fun c hc => hcalls c (List.mem_cons_of_mem _ hc)
      unfold Call.exchanges Call.queries at hmore ⊢
      rw [replies, List.zip_cons_cons, hr, List.filter_cons, List.filter_cons, hmore]
      by_cases hquery : call.IsQuery
      · have hrows := Review.rows_congr_of_isTransfer ht d.expert false
        simp only [hquery, decide_true, if_true, List.map_cons, answer_congr hrows hquery]
      · simp only [hquery, decide_false, Bool.false_eq_true, if_false]

end Desk

namespace Session

variable {s : Session} {d : Desk} {r : Review}

def withExpert (s : Session) (on : Bool) : Session := { s with expert := on }

theorem outcome_setExpert (s : Session) (on : Bool) :
    (s.step (.setExpert on)).outcome = .ok (s.withExpert on, .expert on) :=
  rfl

theorem Reachable.withExpert (h : s.Reachable) (on : Bool) : (s.withExpert on).Reachable :=
  h.step (outcome_setExpert s on)

/-! ## One decision -/

/-- All calls decide alike whether the review may be shown.  If not, they say so with one status,
and the screen stays blank. -/
structure Gated (s : Session) (r : Review) (status : Status) : Prop where
  validate : (s.step .validate).outcome = .ok (s, .validated status)
  count : ∃ n, ∀ old, (s.step (.countItems (some old))).outcome = .ok (s, .count status (some n))
  opens : status = .ok ↔ r.isTransfer = true ∨ s.expert = true
  refuses : status ≠ .ok → status = .unsupportedTx
  blank : status ≠ .ok → ∀ index page (title message : Bytes) pages,
    (s.step (.renderItem index page (some title) (some message) (some pages))).outcome =
      .ok (s, .item status (some (List.replicate title.length 0))
        (some (List.replicate message.length 0)) (some 0))

theorem Represents.gated (h : s.Represents d) (hr : d.review = some r) :
    s.Gated r (Status.ofOutcome (r.rows d.expert)) := by
  have hstep : ∀ call : Call, call.IsQuery →
      (s.step call).outcome = .ok (s, Desk.answer (some r) d.expert call) := by
    intro call hcall
    rw [← hr]
    exact h.step_query call hcall
  have hopens : Status.ofOutcome (r.rows d.expert) = .ok ↔
      r.isTransfer = true ∨ s.expert = true := by
    rw [h.expert]
    exact Review.status_rows_eq_ok_iff
  refine ⟨hstep .validate trivial, ?_, hopens, ?_, ?_⟩
  · cases hrows : r.rows d.expert with
    | ok rows =>
        refine ⟨rows.length, fun old => ?_⟩
        rw [hstep (.countItems (some old)) trivial, Desk.answer, hrows]
        rfl
    | error status =>
        refine ⟨0, fun old => ?_⟩
        rw [hstep (.countItems (some old)) trivial, Desk.answer, hrows]
        rfl
  · intro hne
    rw [Review.rows_of_status_ne_ok hne]
    rfl
  · intro hne index page title message pages
    have hrows := Review.rows_of_status_ne_ok hne
    rw [hstep (.renderItem index page (some title) (some message) (some pages)) trivial, hrows]
    simp only [Desk.answer, Review.itemView_of_rows_error hrows]
    rfl

/-! ## Every state -/

/-- Whatever calls have been made, the calls about a transaction decide alike at either setting of
the flag, and of one they refuse nothing is shown.  Each query about a transfer has one answer, at
both settings and in every run that hands in nothing else. -/
theorem Reachable.gates_agree (h : s.Reachable) (hr : s.current = .ok (some r)) :
    (∀ on, (s.step (.setExpert on)).outcome = .ok (s.withExpert on, .expert on) ∧
      ∃ status, (s.withExpert on).Gated r status) ∧
    (r.isTransfer = true → ∃ answer : Call → Reply,
      (∀ query : Call, query.IsQuery → ∀ on,
        ((s.withExpert on).step query).outcome = .ok (s.withExpert on, answer query)) ∧
      ∀ on calls, (∀ call ∈ calls, call.hands = none) →
        ∃ s' replies, ((s.withExpert on).run calls).outcome = .ok (s', replies) ∧
          Call.exchanges calls replies =
            (Call.queries calls).map fun query => (query, answer query)) := by
  have hdesk : ∀ on, ∃ d, (s.withExpert on).Represents d ∧ d.review = some r := by
    intro on
    obtain ⟨d, hd⟩ := (h.withExpert on).represents
    exact ⟨d, hd, Except.ok.inj (hd.current_eq.symm.trans hr)⟩
  refine ⟨?_, ?_⟩
  · intro on
    obtain ⟨d, hd, hreview⟩ := hdesk on
    exact ⟨outcome_setExpert s on, _, hd.gated hreview⟩
  · intro ht
    refine ⟨Desk.answer (some r) false, ?_, ?_⟩
    · intro query hquery on
      obtain ⟨d, hd, hreview⟩ := hdesk on
      have hrows := Review.rows_congr_of_isTransfer ht d.expert false
      rw [hd.step_query query hquery, hreview, Desk.answer_congr hrows hquery]
    · intro on calls hcalls
      obtain ⟨d, hd, hreview⟩ := hdesk on
      obtain ⟨s', hrun, -⟩ := run_represents hd calls
      exact ⟨s', _, hrun, Desk.exchanges_replies hreview ht hcalls⟩

/-- A transfer is under review. -/
def tokenReview : Session where
  record := .complete Review.tokenCall
  ready := true
  expert := false

/-- Only an expert is shown the fields of a transaction that are all empty.  A transfer has nine
items before and after the flag is set. -/
theorem emptyFields_refused_and_tokenCall_listed :
    ((blankReview.withExpert false).step (.renderItem 0 0 (some (List.replicate 7 0xaa))
        (some (List.replicate 4 0xaa)) (some 5))).outcome =
      .ok (blankReview.withExpert false, .item .unsupportedTx (some (List.replicate 7 0))
        (some (List.replicate 4 0)) (some 0)) ∧
    ∃ s replies, (tokenReview.run
        [.countItems (some 5), .setExpert true, .countItems (some 6)]).outcome =
          .ok (s, replies) ∧
      Call.exchanges [.countItems (some 5), .setExpert true, .countItems (some 6)] replies =
        [(.countItems (some 5), .count .ok (some 9)),
          (.countItems (some 6), .count .ok (some 9))] := by
  constructor
  · have hrun : (initial.run [.read (some emptyFields), .setExpert true]).outcome =
        .ok (blankReview, [.read .ok, .expert true]) := by rfl
    have hreach : blankReview.Reachable := Reachable.initial.run hrun
    obtain ⟨r, hr, hother⟩ : ∃ r, blankReview.current = .ok (some r) ∧ r.isTransfer = false :=
      ⟨_, rfl, rfl⟩
    obtain ⟨-, status, hgated⟩ := (hreach.gates_agree hr).1 false
    have hclosed : status ≠ .ok := by
      intro hok
      obtain htransfer | hexpert := hgated.opens.1 hok
      · cases hother.symm.trans htransfer
      · cases hexpert
    cases hgated.refuses hclosed
    exact hgated.blank hclosed 0 0 (List.replicate 7 0xaa) (List.replicate 4 0xaa) 5
  · have hparse : (Review.parse Review.tokenCall.raw).outcome = .ok Review.tokenCall := by rfl
    have hread := outcome_read_of_ok initial (Review.read_eq_ok_iff.2 hparse)
    have hstep : (initial.step (.read (some Review.tokenCall.raw))).outcome =
        .ok (tokenReview, .read .ok) := Logged.outcome_bind_ok hread _
    have hreach : tokenReview.Reachable := Reachable.initial.step hstep
    have hr : tokenReview.current = .ok (some Review.tokenCall) := by rfl
    have ht : Review.tokenCall.isTransfer = true := by rfl
    obtain ⟨answer, hanswer, hruns⟩ := (hreach.gates_agree hr).2 ht
    have hcount : ∀ old, answer (.countItems (some old)) = .count .ok (some 9) := by
      intro old
      have hstep := hanswer (.countItems (some old)) trivial false
      exact (congrArg Prod.snd (Except.ok.inj hstep)).symm
    obtain ⟨s, replies, hrun, hexchanges⟩ :=
      hruns false [.countItems (some 5), .setExpert true, .countItems (some 6)] (by decide)
    refine ⟨s, replies, hrun, ?_⟩
    rw [hexchanges]
    change [(_, answer _), (_, answer _)] = _
    rw [hcount, hcount]

end Session

end ClearSign
