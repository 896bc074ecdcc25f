import ClearSign.Status
/-!
# The log

A run reports the places it enters and what it refuses there.  `Logged ε α` is a run together with
its log: an outcome and the lines in the order in which they were written, also when the run fails.
What a composed run logs and yields is read off its parts by `log_bind_ok`, `outcome_bind_ok` and
their companions for a run that fails.
-/

namespace ClearSign

inductive Site where
  | readCall
  | review
  | transaction
  | envelope
  | legacy
  | baseFields
  | accessList
  | feeMarket
  | chainIdField
  | chainId
  | transferCall
  | validation
  | item
  deriving DecidableEq, Repr

def Site.name : Site → String
  | .readCall => "_readEth"
  | .review => "EthTxContext::parse_into"
  | .transaction => "EthTransaction::from_bytes_into"
  | .envelope => "EthTxType::from_bytes"
  | .legacy => "Legacy::from_bytes_into"
  | .baseFields => "BaseLegacy::from_bytes_into"
  | .accessList => "Eip2930::from_bytes_into"
  | .feeMarket => "Eip1559::from_bytes_into"
  | .chainIdField => "ChainId::from_bytes_into"
  | .chainId => "ChainId::from_rlp"
  | .transferCall => "Erc20Transfer::calldata_into"
  | .validation => "EthTxContext::validate"
  | .item => "EthTxUi::render_item"

inductive LogEntry where
  | entered (site : Site)
  | rejected (site : Site) (reason : Status)
  | note (text : String)
  deriving DecidableEq, Repr

/-- A text without the zero characters at its end. -/
def trimTerminators (s : String) : String :=
  String.ofList (s.toList.reverse.dropWhile (· == '\x00')).reverse

namespace LogEntry

/-- Refusals are written at the level `DEBUG`, all else at `TRACE`. -/
def isRejection : LogEntry → Bool
  | rejected _ _ => true
  | _ => false

def line : LogEntry → String
  | entered site => "TRACE " ++ site.name
  | rejected site reason => "DEBUG " ++ site.name ++ " rejected: " ++ Nat.repr reason.code
  | note text => "TRACE " ++ trimTerminators text

end LogEntry

@[ext]
structure Logged (ε α : Type) where
  log : List LogEntry
  outcome : Except ε α

namespace Logged

variable {ε α β : Type}

def after (earlier : List LogEntry) (x : Logged ε α) : Logged ε α :=
  ⟨earlier ++ x.log, x.outcome⟩

/-- Goes on with the value of `x`; a failure of `x` ends the run. -/
protected def bind (x : Logged ε α) (f : α → Logged ε β) : Logged ε β :=
  match x.outcome with
  | .ok a => (f a).after x.log
  | .error e => ⟨x.log, .error e⟩

instance : Monad (Logged ε) where
  pure a := ⟨[], .ok a⟩
  bind := Logged.bind

def stop (e : ε) : Logged ε α := ⟨[], .error e⟩

def enter (site : Site) : Logged ε Unit := ⟨[.entered site], .ok ()⟩

def note (text : String) : Logged ε Unit := ⟨[.note text], .ok ()⟩

/-- Refuses with `s`, and reports just that. -/
def reject (site : Site) (s : Status) : Logged Stop α := ⟨[.rejected site s], .error s⟩

/-- A run that logs nothing. -/
def ofExcept (x : Except ε α) : Logged ε α := ⟨[], x⟩

instance : MonadLift (Except ε) (Logged ε) := ⟨ofExcept⟩

/-- The outcome alone, in a run that goes on whether or not it is a status; a trap ends the run. -/
def settle (x : Logged Stop α) : Logged Trap (Except Status α) :=
  ⟨x.log, Stop.settle x.outcome⟩

@[simp] theorem log_pure (a : α) : (pure a : Logged ε α).log = [] := rfl

@[simp] theorem outcome_pure (a : α) : (pure a : Logged ε α).outcome = .ok a := rfl

@[simp] theorem log_after (l : List LogEntry) (x : Logged ε α) :
    (x.after l).log = l ++ x.log := rfl

@[simp] theorem outcome_after (l : List LogEntry) (x : Logged ε α) :
    (x.after l).outcome = x.outcome := rfl

theorem bind_of_ok {x : Logged ε α} {a : α} (h : x.outcome = .ok a) (f : α → Logged ε β) :
    x >>= f = (f a).after x.log := by
  simp only [Bind.bind, Logged.bind, h]

theorem bind_of_error {x : Logged ε α} {e : ε} (h : x.outcome = .error e)
    (f : α → Logged ε β) : x >>= f = ⟨x.log, .error e⟩ := by
  simp only [Bind.bind, Logged.bind, h]

instance : LawfulMonad (Logged ε) := LawfulMonad.mk' (Logged ε)
  (fun x => by
    cases x with
    | mk l o => cases o <;> simp [Functor.map, Logged.bind, after])
  (fun a f => by simp [Bind.bind, Pure.pure, Logged.bind, after])
  (fun x f g => by
    cases x with
    | mk l o =>
      cases o with
      | error e => rfl
      | ok a =>
        cases h : (f a).outcome <;>
          simp [Bind.bind, Logged.bind, after, h, List.append_assoc])

theorem log_bind_ok {x : Logged ε α} {a : α} (h : x.outcome = .ok a) (f : α → Logged ε β) :
    (x >>= f).log = x.log ++ (f a).log := by rw [bind_of_ok h, log_after]

theorem log_bind_error {x : Logged ε α} {e : ε} (h : x.outcome = .error e)
    (f : α → Logged ε β) : (x >>= f).log = x.log := by rw [bind_of_error h]

theorem outcome_bind_ok {x : Logged ε α} {a : α} (h : x.outcome = .ok a) (f : α → Logged ε β) :
    (x >>= f).outcome = (f a).outcome := by rw [bind_of_ok h, outcome_after]

theorem outcome_bind_error {x : Logged ε α} {e : ε} (h : x.outcome = .error e)
    (f : α → Logged ε β) : (x >>= f).outcome = .error e := by rw [bind_of_error h]

/-- The outcome of a composed run does not depend on what is logged. -/
theorem outcome_bind (x : Logged ε α) (f : α → Logged ε β) :
    (x >>= f).outcome = x.outcome.bind fun a => (f a).outcome := by
  cases h : x.outcome with
  | error e => rw [outcome_bind_error h]; rfl
  | ok a => rw [outcome_bind_ok h]; rfl

end Logged

end ClearSign
