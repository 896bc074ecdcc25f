import ClearSign.Proofs.Transaction.Spelling
/-!
# What the log says of a refusal

A buffer is vetted by reading it and, where that gives a review, by validating the review.  The two
are one run with one log, and the log tells how the run ends: `log_of_vet`.
-/

namespace ClearSign.Review

open LogEntry

/-- Reads a buffer and validates what it has been read as. -/
def vet (raw : Bytes) (expert : Bool) : Logged Stop Unit := do
  let r ← parse raw
  r.validate expert

theorem endsIn_validate (r : Review) (expert : Bool) :
    (r.validate expert).EndsIn Transaction.refusals := by
  unfold validate
  split
  · exact Logged.endsIn_pure ()
  · exact Logged.endsIn_reject .validation (by decide) rfl

theorem endsIn_vet (raw : Bytes) (expert : Bool) :
    (vet raw expert).EndsIn Transaction.refusals :=
  (endsIn_parse raw).bind fun r _ => endsIn_validate r expert

/-- The lines that are written while a buffer is vetted. -/
def lines (raw : Bytes) (expert : Bool) : List String := (vet raw expert).log.map line

/-- The statuses of a rejection for policy. -/
def policies : List Status := [.invalidChainId, .invalidRsValues, .unsupportedTx]

theorem mem_policies_iff {s : Status} : s ∈ policies ↔ s.isPolicyRejection = true := by
  cases s <;> decide

/-- A rejection for policy is the last line and the only one at its level; any other end of the run
leaves no such line. -/
theorem log_of_vet (raw : Bytes) (expert : Bool) :
    (lines raw expert).countP isDebug ≤ 1 ∧
      ((∃ line ∈ lines raw expert, isDebug line = true) ↔
        ∃ s ∈ policies, (vet raw expert).outcome = .error (.status s)) ∧
      (∀ s ∈ policies, (vet raw expert).outcome = .error (.status s) →
        ∃ site : Site, (lines raw expert).getLast? =
          some ("DEBUG " ++ site.name ++ " rejected: " ++ Nat.repr s.code)) ∧
      ((∀ s ∈ policies, (vet raw expert).outcome ≠ .error (.status s)) →
        ∀ line ∈ lines raw expert, isTrace line = true) := by
  have hcount := countP_isDebug (vet raw expert).log
  rcases (endsIn_vet raw expert).rejected_or_quiet with
    ⟨s, front, site, hs, hpolicy, hlog, hfront⟩ | ⟨hother, hquiet⟩
  · have hlast : (lines raw expert).getLast? = some (rejected site s).line := by
      rw [lines, hlog, List.map_append]
      exact List.getLast?_concat
    refine ⟨?_, ?_, ?_, ?_⟩
    · rw [lines, hcount, hlog, List.countP_append, hfront.countP_eq_zero]
      exact Nat.le_refl 1
    · apply iff_of_true
      · exact ⟨_, List.mem_of_getLast? hlast, isDebug_line _⟩
      · exact ⟨s, mem_policies_iff.2 hpolicy, hs⟩
    · intro s' _ hs'
      rw [hs] at hs'
      cases hs'
      exact ⟨site, hlast⟩
    · intro hnone
      exact absurd hs (hnone s (mem_policies_iff.2 hpolicy))
  · have hnone : ∀ s ∈ policies, (vet raw expert).outcome ≠ .error (.status s) := by
      intro s hs heq
      have hpolicy := mem_policies_iff.1 hs
      rw [hother s heq] at hpolicy
      cases hpolicy
    refine ⟨?_, ?_, ?_, ?_⟩
    · rw [lines, hcount, hquiet.countP_eq_zero]
      exact Nat.zero_le 1
    · apply iff_of_false
      · rintro ⟨line, hline, hdebug⟩
        obtain ⟨entry, hentry, rfl⟩ := List.mem_map.1 hline
        rw [isDebug_line, hquiet entry hentry] at hdebug
        cases hdebug
      · rintro ⟨s, hs, heq⟩
        exact hnone s hs heq
    · intro s hs heq
      exact absurd heq (hnone s hs)
    · intro _ line hline
      obtain ⟨entry, hentry, rfl⟩ := List.mem_map.1 hline
      rw [isTrace_line, hquiet entry hentry]
      rfl

/-- Neither is read: the first byte of one is the mark of no form, and there is no byte in the
other.  Only the first is a matter of policy. -/
theorem log_of_unmarked :
    (vet [0x7F] false).outcome = .error (.status .unsupportedTx) ∧
      (∃ site : Site, (lines [0x7F] false).getLast? =
        some ("DEBUG " ++ site.name ++ " rejected: " ++ Nat.repr 14)) ∧
      (vet [] true).outcome = .error (.status .unexpected) ∧
      ∀ line ∈ lines [] true, isTrace line = true := by
  obtain ⟨-, -, hlast, -⟩ := log_of_vet [0x7F] false
  obtain ⟨-, -, -, hquiet⟩ := log_of_vet [] true
  refine ⟨rfl, hlast .unsupportedTx (by decide) rfl, rfl, hquiet ?_⟩
  intro s hs h
  cases h
  exact absurd hs (by decide)

end ClearSign.Review
