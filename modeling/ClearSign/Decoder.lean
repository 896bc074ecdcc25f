import ClearSign.Log
import ClearSign.Rlp.Item
/-!
# Decoders

A decoder takes what it understands off the front of its bytes and hands on the rest.  It logs on
the way, and ends with a status when the bytes are not what it expects.

Beside each building block stands what it does to given bytes, so that a decoder put together by
`do` is read as a chain of `Rlp.readItem` on what is left.
-/

namespace ClearSign

abbrev Decoder (α : Type) := StateT Bytes (Logged Stop) α

namespace Decoder

variable {α β : Type}

def enter (site : Site) : Decoder Unit := StateT.lift (Logged.enter site)

def fail (s : Status) : Decoder α := StateT.lift (Logged.stop (.status s))

/-- Ends the run with a status, and reports the refusal. -/
def reject (site : Site) (s : Status) : Decoder α := StateT.lift (Logged.reject site s)

/-- Ends the run with `s` unless the condition holds. -/
def ensure (condition : Bool) (s : Status) : Decoder Unit :=
  if condition then pure () else fail s

def item : Decoder Rlp.Item := fun bs => Logged.ofExcept (Rlp.readItem bs)

/-- Takes one item off the front and keeps its payload; the kind of the item does not matter. -/
def payload : Decoder Bytes := do
  let item ← item
  return item.payload

def atEnd : Decoder Bool := do
  let rest ← get
  return rest.isEmpty

/-- Ends the run unless nothing is left. -/
def finish : Decoder Unit := do
  ensure (← atEnd) .unexpectedCharacters

/-- Decodes the inside of an item; the bytes after the item are left as they are. -/
def within (inner : Bytes) (d : Decoder α) : Decoder α := do
  let (a, _) ← StateT.lift (d.run inner)
  return a

theorem run_enter (site : Site) (bs : Bytes) :
    (enter site).run bs = ⟨[.entered site], .ok ((), bs)⟩ := rfl

theorem run_fail (s : Status) (bs : Bytes) :
    (fail s : Decoder α).run bs = ⟨[], .error (.status s)⟩ := rfl

theorem run_reject (site : Site) (s : Status) (bs : Bytes) :
    (reject site s : Decoder α).run bs = ⟨[.rejected site s], .error (.status s)⟩ := rfl

theorem run_item (bs : Bytes) : item.run bs = ⟨[], Rlp.readItem bs⟩ := rfl

theorem run_ensure (condition : Bool) (s : Status) (bs : Bytes) :
    (ensure condition s).run bs =
      ⟨[], if condition then .ok ((), bs) else .error (.status s)⟩ := by
  cases condition <;> rfl

theorem run_payload (bs : Bytes) :
    payload.run bs =
      ⟨[], (Rlp.readItem bs).map fun (item, rest) => (item.payload, rest)⟩ := by
  unfold payload
  rw [StateT.run_bind, run_item]
  cases h : Rlp.readItem bs with
  | error e => rw [Logged.bind_of_error rfl]; rfl
  | ok r => rw [Logged.bind_of_ok rfl]; rfl

theorem run_finish (bs : Bytes) :
    finish.run bs =
      ⟨[], if bs.isEmpty then .ok ((), bs) else .error (.status .unexpectedCharacters)⟩ := by
  have h : finish.run bs = (ensure bs.isEmpty .unexpectedCharacters).run bs := by
    unfold finish atEnd
    simp only [bind_assoc, StateT.run_bind, StateT.run_get, pure_bind]
  rw [h, run_ensure]

theorem run_within (inner : Bytes) (d : Decoder α) (bs : Bytes) :
    (within inner d).run bs =
      ⟨(d.run inner).log, (d.run inner).outcome.map fun (a, _) => (a, bs)⟩ := by
  have h : (within inner d).run bs = (d.run inner) >>= fun r => pure (r.1, bs) := by
    unfold within
    simp only [StateT.run_bind, StateT.run_lift, bind_assoc, pure_bind]
    rfl
  rw [h]
  cases ho : (d.run inner).outcome with
  | error e => rw [Logged.bind_of_error ho]; rfl
  | ok r =>
    rw [Logged.bind_of_ok ho]
    simp [Logged.after, Except.map, pure]

end Decoder

end ClearSign
