import ClearSign.Checked
/-!
# Status codes

Every call answers with one of fifteen codes.  Most of them name a reason for refusing a
transaction: it is malformed, or it is well formed and refused by policy.  A run of the reader
ends with a `Stop`, which is such a status or a trap.
-/

namespace ClearSign

inductive Status where
  | ok
  /-- No transaction has been read, or the one that was read lacks the field. -/
  | noData
  | pageOutOfRange
  | unexpected
  /-- A place for an output is missing. -/
  | contextMismatch
  | unexpectedType
  | unexpectedValue
  | unexpectedEnd
  | unexpectedCharacters
  | unexpectedNumberItems
  | valueOutOfRange
  | invalidAddress
  | invalidChainId
  | invalidRsValues
  | unsupportedTx
  deriving DecidableEq, Repr

namespace Status

def code : Status → Nat
  | ok => 0
  | noData => 1
  | pageOutOfRange => 2
  | unexpected => 3
  | contextMismatch => 4
  | unexpectedType => 5
  | unexpectedValue => 6
  | unexpectedEnd => 7
  | unexpectedCharacters => 8
  | unexpectedNumberItems => 9
  | valueOutOfRange => 10
  | invalidAddress => 11
  | invalidChainId => 12
  | invalidRsValues => 13
  | unsupportedTx => 14

/-- The bytes do not form a transaction. -/
def isMalformedInput : Status → Bool
  | unexpectedType | unexpectedValue | unexpectedEnd | unexpectedCharacters
  | unexpectedNumberItems | valueOutOfRange | invalidAddress => true
  | _ => false

/-- The bytes form a transaction, which is refused for what it says. -/
def isPolicyRejection : Status → Bool
  | invalidChainId | invalidRsValues | unsupportedTx => true
  | _ => false

theorem code_injective {a b : Status} (h : a.code = b.code) : a = b := by
  cases a <;> cases b <;> simp_all [code]

def ofOutcome {α : Type} : Except Status α → Status
  | .ok _ => ok
  | .error s => s

end Status

/-! ## Failures of general readers -/

/-- What a general-purpose reader of bytes can report, as far as statuses tell it apart. -/
inductive ReaderFault where
  | endOfInput
  | permutation
  | tooLarge
  | other
  deriving DecidableEq, Repr

def Status.ofFault : ReaderFault → Status
  | .endOfInput => .unexpectedEnd
  | .permutation => .unexpectedType
  | .tooLarge => .valueOutOfRange
  | .other => .unexpected

/-- A fault reported on the way out of nested readers adds nothing: the status of the innermost
one stands. -/
def Status.append (_outer : ReaderFault) (inner : Status) : Status := inner

inductive Interruption where
  /-- Another reader may be tried. -/
  | recoverable (s : Status)
  | final (s : Status)
  /-- More input is needed. -/
  | incomplete
  deriving DecidableEq, Repr

/-- Input comes as a whole, so a reader that waits for more has met the end. -/
def Interruption.status : Interruption → Status
  | recoverable s => s
  | final s => s
  | incomplete => .unexpectedEnd

/-! ## Stops -/

/-- Why a run ends without a value. -/
inductive Stop where
  | status (s : Status)
  | trap (t : Trap)
  deriving DecidableEq, Repr

instance : Coe Status Stop := ⟨Stop.status⟩

/-- A checked step inside a run that may also end with a status. -/
instance : MonadLift (Except Trap) (Except Stop) := ⟨Except.mapError Stop.trap⟩

/-- A step that may end with a status inside a run that may also trap. -/
instance : MonadLift (Except Status) (Except Stop) := ⟨Except.mapError Stop.status⟩

namespace Stop

variable {α : Type}

@[simp] theorem liftM_checked_ok (a : α) :
    (liftM (.ok a : Except Trap α) : Except Stop α) = .ok a := rfl

@[simp] theorem liftM_checked_error (t : Trap) :
    (liftM (.error t : Except Trap α) : Except Stop α) = .error (.trap t) := rfl

@[simp] theorem liftM_status_ok (a : α) :
    (liftM (.ok a : Except Status α) : Except Stop α) = .ok a := rfl

@[simp] theorem liftM_status_error (s : Status) :
    (liftM (.error s : Except Status α) : Except Stop α) = .error (.status s) := rfl

/-- Takes a run apart: a trap stays, a status becomes part of the result. -/
def settle : Except Stop α → Checked (Except Status α)
  | .ok a => .ok (.ok a)
  | .error (.status s) => .ok (.error s)
  | .error (.trap t) => .error t

@[simp] theorem settle_ok (a : α) : settle (.ok a) = .ok (.ok a) := rfl

@[simp] theorem settle_status (s : Status) :
    settle (.error (.status s) : Except Stop α) = .ok (.error s) := rfl

@[simp] theorem settle_trap (t : Trap) :
    settle (.error (.trap t) : Except Stop α) = .error t := rfl

end Stop

end ClearSign
