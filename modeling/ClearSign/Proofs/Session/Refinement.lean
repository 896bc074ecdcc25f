import ClearSign.Proofs.Session.Desk
/-!
# Sessions as desks

A session whose record is half filled behaves as an empty desk, because the flag that guards the
record is cleared before a reading starts.

* `Represents`: the invariant between a session and a desk.
* `step_represents`, `run_represents`: each call, and so each run of calls, keeps it and is answered
  as the desk answers, without a trap.
* `run_initial_eq`: what this says of a whole session.
-/

namespace ClearSign

namespace Session

/-- The flag is the same, and the record may be used exactly when there is a buffer, which it then
is the review of. -/
structure Represents (s : Session) (d : Desk) : Prop where
  expert : s.expert = d.expert
  empty : d.buffer = none → s.ready = false
  full : ∀ raw, d.buffer = some raw →
    s.ready = true ∧ ∃ r, Review.read raw = .ok r ∧ s.record = .complete r

variable {s : Session} {d : Desk}

theorem represents_empty {expert : Bool} (he : s.expert = expert) (hs : s.ready = false) :
    s.Represents { buffer := none, expert } := by
  refine ⟨he, fun _ => hs, ?_⟩
  intro raw h
  cases h

theorem represents_review {raw : Bytes} {r : Review} {expert : Bool} (he : s.expert = expert)
    (hs : s.ready = true) (hread : Review.read raw = .ok r) (hrecord : s.record = .complete r) :
    s.Represents { buffer := some raw, expert } := by
  refine ⟨he, ?_, ?_⟩
  · intro h
    cases h
  · intro raw' h
    cases h
    exact ⟨hs, r, hread, hrecord⟩

theorem represents_initial : initial.Represents Desk.initial := represents_empty rfl rfl

/-- An incomplete record is never used. -/
theorem Represents.current_eq (h : s.Represents d) : s.current = .ok d.review := by
  unfold current Desk.review
  cases hb : d.buffer with
  | none =>
      rw [h.empty hb]
      rfl
  | some raw =>
      obtain ⟨hready, r, hread, hrecord⟩ := h.full raw hb
      rw [hready, hrecord]
      simp only [if_true, Option.bind_some, hread]
      rfl

/-- A query goes on with what is on the desk. -/
theorem Represents.outcome_bind_current (h : s.Represents d) {α : Type}
    (answer : Option Review → Logged Trap α) :
    (Logged.ofExcept s.current >>= answer).outcome = (answer d.review).outcome :=
  Logged.outcome_bind_ok h.current_eq answer

theorem outcome_read_of_ok (s : Session) {raw : Bytes} {r : Review}
    (h : Review.read raw = .ok r) :
    (s.read (some raw)).outcome =
      .ok ({ s.clear with record := .complete r, ready := true }, .ok) := by
  have hparse := Review.settle_parse raw
  rw [h] at hparse
  exact Logged.outcome_bind_ok hparse _

/-- A reading puts the buffer on the desk or clears it, whatever the record held before. -/
theorem read_represents (h : s.Represents d) (raw : Bytes) :
    ∃ s', (s.read (some raw)).outcome = .ok (s', Status.ofOutcome (Review.read raw)) ∧
      s'.Represents (d.next (.read (some raw))) := by
  cases hr : Review.read raw with
  | ok r =>
      have hnext : d.next (.read (some raw)) = { d with buffer := some raw } := by
        simp only [Desk.next, Option.filter_some, Review.isAccepted_of_read hr, if_true]
      refine ⟨_, outcome_read_of_ok s hr, ?_⟩
      rw [hnext]
      exact represents_review h.expert rfl hr rfl
  | error status =>
      -- the record is spoilt by now, but the flag was taken down before it was touched
      have hread : (s.read (some raw)).outcome =
          .ok ({ s.clear with record := .incomplete }, status) := by
        have hparse := Review.settle_parse raw
        rw [hr] at hparse
        exact Logged.outcome_bind_ok hparse _
      have hnext : d.next (.read (some raw)) = { d with buffer := none } := by
        simp only [Desk.next, Option.filter_some, if_neg (Review.not_isAccepted_of_read hr)]
      refine ⟨_, hread, ?_⟩
      rw [hnext]
      exact represents_empty h.expert rfl

theorem outcome_validate (h : s.Represents d) :
    s.validate.outcome = .ok (match d.review with
      | none => .noData
      | some r => Status.ofOutcome (r.rows d.expert)) := by
  unfold validate
  rw [h.outcome_bind_current]
  cases d.review with
  | none => rfl
  | some r =>
      dsimp only
      rw [h.expert, Review.rows_eq]
      unfold Review.validate
      split
      · rfl
      · rfl

theorem outcome_countItems (h : s.Represents d) (count : Nat) :
    (s.countItems (some count)).outcome = .ok (match d.review with
      | none => (.noData, some 0)
      | some r =>
        match r.rows d.expert with
        | .ok rows => (.ok, some rows.length)
        | .error status => (status, some 0)) := by
  unfold countItems
  dsimp only
  rw [h.outcome_bind_current]
  cases d.review with
  | none => rfl
  | some r =>
      dsimp only
      rw [h.expert]
      unfold Review.itemCount
      cases r.rows d.expert with
      | ok rows => rfl
      | error status => rfl

theorem outcome_renderItem (h : s.Represents d) (index page : Nat) (title message : Bytes)
    (pages : Nat) :
    (s.renderItem index page (some title) (some message) (some pages)).outcome =
      .ok (Desk.answer d.review d.expert
        (.renderItem index page (some title) (some message) (some pages))) := by
  unfold renderItem
  dsimp only
  rw [h.outcome_bind_current]
  cases d.review with
  | none => rfl
  | some r =>
      have hitem := r.outcome_renderItem s.expert index page ⟨title, message⟩
      rw [h.expert] at hitem ⊢
      dsimp only [Desk.answer]
      rw [Logged.outcome_bind_ok hitem]
      split
      · rename_i n hn
        simp only [hn]
        rfl
      · rename_i status hs
        simp only [hs]
        rfl

theorem outcome_recoveryByte (h : s.Represents d) (info : UInt32) (v : UInt8) :
    (s.recoveryByte info (some v)).outcome = .ok (match d.review with
      | none => (.noData, some v)
      | some r => (.ok, some (Signature.recovered r.tx (Signature.isOdd info)))) := by
  unfold recoveryByte
  dsimp only
  rw [h.outcome_bind_current]
  cases d.review with
  | none => rfl
  | some r =>
      dsimp only
      rw [Signature.recoveryByte_eq]
      rfl

/-! ## Calls and runs of calls -/

/-- A call is answered as the desk answers it, and afterwards the session stands for what is then on
the desk.  A query leaves the session as it was. -/
theorem step_represents (h : s.Represents d) (call : Call) :
    ∃ s', (s.step call).outcome = .ok (s', Desk.answer d.review d.expert call) ∧
      s'.Represents (d.next call) ∧ (call.IsQuery → s' = s) := by
  cases call with
  | setExpert on =>
      exact ⟨{ s with expert := on }, rfl, ⟨rfl, h.empty, h.full⟩, False.elim⟩
  | read buffer =>
      cases buffer with
      | none =>
          exact ⟨s.clear, rfl, represents_empty h.expert rfl, False.elim⟩
      | some raw =>
          obtain ⟨s', hread, hs'⟩ := read_represents h raw
          exact ⟨s', Logged.outcome_bind_ok hread _, hs', False.elim⟩
  | validate =>
      refine ⟨s, ?_, h, fun _ => rfl⟩
      unfold step
      dsimp only
      rw [Logged.outcome_bind_ok (outcome_validate h)]
      unfold Desk.answer
      cases d.review with
      | none => rfl
      | some r => rfl
  | countItems count =>
      refine ⟨s, ?_, h, fun _ => rfl⟩
      cases count with
      | none => rfl
      | some count =>
          unfold step
          dsimp only
          rw [Logged.outcome_bind_ok (outcome_countItems h count)]
          unfold Desk.answer
          cases d.review with
          | none => rfl
          | some r =>
              dsimp only
              cases r.rows d.expert with
              | ok rows => rfl
              | error status => rfl
  | renderItem index page title message pages =>
      refine ⟨s, ?_, h, fun _ => rfl⟩
      match title, message, pages with
      | some title, some message, some pages =>
          exact Logged.outcome_bind_ok (outcome_renderItem h index page title message pages) _
      | none, _, _ => rfl
      | some _, none, _ => rfl
      | some _, some _, none => rfl
  | recoveryByte info out =>
      refine ⟨s, ?_, h, fun _ => rfl⟩
      cases out with
      | none => rfl
      | some v =>
          unfold step
          dsimp only
          rw [Logged.outcome_bind_ok (outcome_recoveryByte h info v)]
          unfold Desk.answer
          cases d.review with
          | none => rfl
          | some r => rfl
  | clear =>
      exact ⟨s.clear, rfl, represents_empty h.expert rfl, False.elim⟩

theorem run_represents (h : s.Represents d) (calls : List Call) :
    ∃ s', (s.run calls).outcome = .ok (s', d.replies calls) ∧ s'.Represents (d.after calls) := by
  induction calls generalizing s d with
  | nil => exact ⟨s, rfl, h⟩
  | cons call calls ih =>
      obtain ⟨s₁, hstep, h₁, -⟩ := step_represents h call
      obtain ⟨s₂, hrun, h₂⟩ := ih h₁
      refine ⟨s₂, ?_, h₂⟩
      rw [run, Logged.outcome_bind_ok hstep, Logged.outcome_bind_ok hrun]
      rfl

/-! ## A whole session -/

/-- A session answers every run of calls as a desk does: it shows the last buffer handed in, if that
was accepted, and no query changes it.  Once a buffer has been dropped, nothing is told about any
transaction until the next one is accepted. -/
theorem run_initial_eq (calls : List Call) :
    ∃ s, (initial.run calls).outcome = .ok (s, Desk.initial.replies calls) ∧
      s.Represents (Desk.initial.after calls) ∧
      (∀ raw, (Desk.initial.after calls).buffer = some raw ↔
        (calls.filterMap Call.hands).getLast? = some (some raw) ∧ Review.Accepts raw) ∧
      (∀ query : Call, query.IsQuery →
        (s.step query).outcome =
          .ok (s, Desk.answer (Desk.initial.after calls).review
            (Desk.initial.after calls).expert query)) ∧
      ∀ (before between : List Call) (drop query : Call), calls = before ++ drop :: between →
        drop.Drops → (∀ call ∈ between, ¬call.Loads) → query.Asks →
          ∃ reply, (s.step query).outcome = .ok (s, reply) ∧ reply.status? = some .noData := by
  obtain ⟨s, hrun, hs⟩ := run_represents represents_initial calls
  have hquery : ∀ query : Call, query.IsQuery →
      (s.step query).outcome =
        .ok (s, Desk.answer (Desk.initial.after calls).review
          (Desk.initial.after calls).expert query) := by
    intro query hq
    obtain ⟨s', hstep, -, hsame⟩ := step_represents hs query
    rw [hsame hq] at hstep
    exact hstep
  refine ⟨s, hrun, hs, fun raw => ?_, hquery, ?_⟩
  · have hsound : Desk.initial.Sound := by
      intro raw h
      cases h
    rw [Desk.after_buffer_eq_iff hsound]
    cases (calls.filterMap Call.hands).getLast? with
    | none => simp [Desk.initial]
    | some buffer => simp
  · intro before between drop query hcalls hdrop hbetween hasks
    refine ⟨_, hquery query hasks.isQuery, ?_⟩
    have hempty : (Desk.initial.after calls).buffer = none := by
      rw [hcalls, Desk.after_append]
      have hdropped := Desk.next_buffer_of_drops (Desk.initial.after before) hdrop
      change (((Desk.initial.after before).next drop).after between).buffer = none
      exact Desk.after_buffer_of_not_loads hdropped hbetween
    have hreview : (Desk.initial.after calls).review = none := by
      rw [Desk.review, hempty]
      rfl
    rw [hreview]
    exact Desk.status_answer_none hasks _

/-- An unprotected transaction in which every field is empty. -/
def emptyFields : Bytes := [0xc6, 0x80, 0x80, 0x80, 0x80, 0x80, 0x80]

/-- The first three fields of one. -/
def threeFields : Bytes := [0xc3, 0x05, 0x07, 0x09]

/-- A reading that breaks off after it has begun to fill the record leaves nothing to be shown of
the transaction before. -/
theorem threeFields_forgets_emptyFields :
    ∃ s, (initial.run [.read (some emptyFields), .setExpert true, .validate,
          .read (some threeFields), .setExpert false]).outcome =
        .ok (s, [.read .ok, .expert true, .validated .ok, .read .unexpectedEnd, .expert false]) ∧
      (s.step (.countItems (some 7))).outcome = .ok (s, .count .noData (some 0)) ∧
      ∃ reply, (s.step .validate).outcome = .ok (s, reply) ∧ reply.status? = some .noData := by
  obtain ⟨s, hrun, -, -, hquery, hforgets⟩ := run_initial_eq [.read (some emptyFields),
    .setExpert true, .validate, .read (some threeFields), .setExpert false]
  have hdrop : (Call.read (some threeFields)).Drops := by
    refine ⟨rfl, ?_⟩
    rintro ⟨raw, heq, r, hr⟩
    cases heq
    cases hr
  have hbetween : ∀ call ∈ [Call.setExpert false], ¬call.Loads := by
    intro call hcall
    rw [List.mem_singleton.1 hcall]
    rintro ⟨raw, heq, -⟩
    cases heq
  refine ⟨s, hrun, hquery (.countItems (some 7)) trivial, ?_⟩
  exact hforgets [.read (some emptyFields), .setExpert true, .validate] _ _ .validate rfl hdrop
    hbetween trivial

end Session

end ClearSign
