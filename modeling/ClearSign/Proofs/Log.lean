import ClearSign.Log
/-!
# How runs end, and what their logs say of it

`EndsIn reasons x` says two things of a run at once: when it does not give a value it ends for one
of the given reasons and not with a trap, and its log is the report of just that.  A rejection for
policy is the last entry of the log; nothing else is reported as a rejection.  Both go over from the
parts of a run to the whole.
-/

namespace ClearSign

namespace LogEntry

/-- No entry of the log is a rejection. -/
def Quiet (log : List LogEntry) : Prop := ∀ entry ∈ log, entry.isRejection = false

theorem quiet_nil : Quiet [] := by
  intro entry hentry
  cases hentry

theorem quiet_append {front back : List LogEntry} :
    Quiet (front ++ back) ↔ Quiet front ∧ Quiet back := List.forall_mem_append

/-- The log of a run that has ended in `s`: a rejection for policy comes last, and there is no other
rejection. -/
def Reports (log : List LogEntry) (s : Status) : Prop :=
  if s.isPolicyRejection then ∃ front site, log = front ++ [rejected site s] ∧ Quiet front
  else Quiet log

theorem Reports.append {front log : List LogEntry} {s : Status} (h : Reports log s)
    (hfront : Quiet front) : Reports (front ++ log) s := by
  unfold Reports at h ⊢
  split
  · rename_i hs
    rw [if_pos hs] at h
    obtain ⟨front', site, rfl, hfront'⟩ := h
    refine ⟨front ++ front', site, ?_, quiet_append.2 ⟨hfront, hfront'⟩⟩
    rw [List.append_assoc]
  · rename_i hs
    rw [if_neg hs] at h
    exact quiet_append.2 ⟨hfront, h⟩

/-! ## Levels of lines -/

def isDebug (line : String) : Bool := "DEBUG ".toList.isPrefixOf line.toList

def isTrace (line : String) : Bool := "TRACE ".toList.isPrefixOf line.toList

/-- The level of a line tells what it reports. -/
theorem isDebug_line (entry : LogEntry) : isDebug entry.line = entry.isRejection := by
  cases entry <;> simp [isDebug, line, isRejection, List.isPrefixOf]

theorem isTrace_line (entry : LogEntry) : isTrace entry.line = !entry.isRejection := by
  cases entry <;> simp [isTrace, line, isRejection, List.isPrefixOf]

theorem countP_isDebug (log : List LogEntry) :
    (log.map line).countP isDebug = log.countP isRejection := by
  rw [List.countP_map]
  apply List.countP_congr
  intro entry _
  rw [Function.comp_apply, isDebug_line]

theorem Quiet.countP_eq_zero {log : List LogEntry} (h : Quiet log) :
    log.countP isRejection = 0 := by
  rw [List.countP_eq_zero]
  intro entry hentry
  rw [h entry hentry]
  exact Bool.false_ne_true

end LogEntry

namespace Logged

open LogEntry

variable {α β : Type} {reasons : List Status}

/-- The run ends with a value or a status. -/
def NeverTraps (x : Logged Stop α) : Prop := ∀ t, x.outcome ≠ .error (.trap t)

/-- The run ends with a value or for one of the reasons, and its log reports just that. -/
structure EndsIn (reasons : List Status) (x : Logged Stop α) : Prop where
  refused : ∀ stop, x.outcome = .error stop → ∃ s ∈ reasons, stop = .status s ∧ Reports x.log s
  accepted : ∀ a, x.outcome = .ok a → Quiet x.log

theorem EndsIn.neverTraps {x : Logged Stop α} (hx : x.EndsIn reasons) : x.NeverTraps := by
  intro t h
  obtain ⟨s, -, hs, -⟩ := hx.refused _ h
  cases hs

/-- Either the run is rejected for policy and the log ends with that, or neither is so. -/
theorem EndsIn.rejected_or_quiet {x : Logged Stop α} (hx : x.EndsIn reasons) :
    (∃ s front site, x.outcome = .error (.status s) ∧ s.isPolicyRejection = true ∧
        x.log = front ++ [.rejected site s] ∧ Quiet front) ∨
      (∀ s : Status, x.outcome = .error (.status s) → s.isPolicyRejection = false) ∧
        Quiet x.log := by
  cases h : x.outcome with
  | ok a => exact .inr ⟨nofun, hx.accepted a h⟩
  | error stop =>
      obtain ⟨s, -, rfl, hlog⟩ := hx.refused stop h
      rw [Reports] at hlog
      split at hlog
      · rename_i hs
        obtain ⟨front, site, hlog, hfront⟩ := hlog
        exact .inl ⟨s, front, site, rfl, hs, hlog, hfront⟩
      · rename_i hs
        refine .inr ⟨?_, hlog⟩
        intro s' hs'
        cases hs'
        exact eq_false_of_ne_true hs

theorem EndsIn.mono {x : Logged Stop α} {more : List Status} (hx : x.EndsIn reasons)
    (h : reasons ⊆ more) : x.EndsIn more := by
  refine ⟨?_, hx.accepted⟩
  intro stop hstop
  obtain ⟨s, hs, heq, hlog⟩ := hx.refused stop hstop
  exact ⟨s, h hs, heq, hlog⟩

theorem endsIn_of_ok {x : Logged Stop α} {a : α} (hx : x.outcome = .ok a) (hlog : Quiet x.log) :
    x.EndsIn reasons := by
  refine ⟨?_, fun _ _ => hlog⟩
  intro stop h
  rw [hx] at h
  cases h

theorem endsIn_of_error {x : Logged Stop α} {s : Status} (hx : x.outcome = .error (.status s))
    (hs : s ∈ reasons) (hlog : Reports x.log s) : x.EndsIn reasons := by
  constructor
  · intro stop h
    rw [hx] at h
    cases h
    exact ⟨s, hs, rfl, hlog⟩
  · intro a h
    rw [hx] at h
    cases h

theorem endsIn_pure (a : α) : EndsIn reasons (pure a) := endsIn_of_ok rfl quiet_nil

theorem endsIn_enter (site : Site) : EndsIn reasons (enter site) :=
  endsIn_of_ok rfl (by simp [Quiet, enter, isRejection])

/-- A run may end without a word for any reason that is not one of policy. -/
theorem endsIn_stop {s : Status} (hs : s ∈ reasons) (hpolicy : s.isPolicyRejection = false) :
    EndsIn reasons (stop (.status s) : Logged Stop α) := by
  refine endsIn_of_error rfl hs ?_
  rw [Reports, hpolicy]
  exact quiet_nil

/-- A rejection reports itself. -/
theorem endsIn_reject (site : Site) {s : Status} (hs : s ∈ reasons)
    (hpolicy : s.isPolicyRejection = true) : EndsIn reasons (reject site s : Logged Stop α) := by
  refine endsIn_of_error rfl hs ?_
  rw [Reports, if_pos hpolicy]
  exact ⟨[], site, rfl, quiet_nil⟩

/-- What comes before in the log of a run that goes on is quiet, so the report of its last part is
the report of the whole. -/
theorem EndsIn.bind {x : Logged Stop α} {f : α → Logged Stop β} (hx : x.EndsIn reasons)
    (hf : ∀ a, x.outcome = .ok a → (f a).EndsIn reasons) : (x >>= f).EndsIn reasons := by
  cases ho : x.outcome with
  | error e =>
      rw [bind_of_error ho]
      constructor
      · intro stop h
        cases h
        exact hx.refused _ ho
      · intro b h
        cases h
  | ok a =>
      have hquiet := hx.accepted a ho
      rw [bind_of_ok ho]
      constructor
      · intro stop h
        obtain ⟨s, hs, heq, hlog⟩ := (hf a ho).refused stop h
        exact ⟨s, hs, heq, hlog.append hquiet⟩
      · intro b h
        exact quiet_append.2 ⟨hquiet, (hf a ho).accepted b h⟩

theorem bind_outcome_eq_ok {ε : Type} {x : Logged ε α} {f : α → Logged ε β} {b : β} :
    (x >>= f).outcome = .ok b ↔ ∃ a, x.outcome = .ok a ∧ (f a).outcome = .ok b := by
  rw [outcome_bind]
  exact Checked.bind_eq_ok

end Logged

end ClearSign
