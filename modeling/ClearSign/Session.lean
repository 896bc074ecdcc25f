import ClearSign.Review.Render
import ClearSign.Signature
/-!
# Sessions

A session holds the one transaction under review and answers the calls about it.  The record of the
transaction is filled in place while it is read, so a reading that fails leaves it incomplete; a
flag tells whether it may be used, and to use an incomplete record is a trap.

A call hands in the places where its outputs go.  A place that is missing is `none`, and the reply
says what each place holds afterwards.
-/

namespace ClearSign

inductive Record where
  | incomplete
  | complete (r : Review)
  deriving DecidableEq, Repr

structure Session where
  record : Record
  /-- The record may be used. -/
  ready : Bool
  /-- Transactions that are no transfers may be shown. -/
  expert : Bool
  deriving DecidableEq, Repr

inductive Call where
  | setExpert (on : Bool)
  | read (buffer : Option Bytes)
  | validate
  | countItems (count : Option Nat)
  | renderItem (index page : Nat) (title message : Option Bytes) (pages : Option Nat)
  | recoveryByte (info : UInt32) (out : Option UInt8)
  | clear
  deriving DecidableEq, Repr

/-- The answer to a call: its status and what the places for its outputs hold. -/
inductive Reply where
  | expert (on : Bool)
  | read (status : Status)
  | validated (status : Status)
  | count (status : Status) (count : Option Nat)
  | item (status : Status) (title message : Option Bytes) (pages : Option Nat)
  | recoveryByte (status : Status) (out : Option UInt8)
  | cleared
  deriving DecidableEq, Repr

namespace Session

/-- No transaction has been read, and only transfers may be shown. -/
def initial : Session := { record := .incomplete, ready := false, expert := false }

/-- The transaction under review. -/
def current (s : Session) : Checked (Option Review) :=
  if s.ready then
    match s.record with
    | .complete r => .ok (some r)
    | .incomplete => .error .incomplete
  else .ok none

def clear (s : Session) : Session := { s with ready := false }

/-- Reads a transaction in place of the one before, which is dropped in any case. -/
def read (s : Session) (buffer : Option Bytes) : Logged Trap (Session × Status) := do
  Logged.enter .readCall
  let s := s.clear
  match buffer with
  | none => return (s, .contextMismatch)
  | some raw =>
    match ← (Review.parse raw).settle with
    | .ok r => return ({ s with record := .complete r, ready := true }, .ok)
    | .error status => return ({ s with record := .incomplete }, status)

def validate (s : Session) : Logged Trap Status := do
  match ← Logged.ofExcept s.current with
  | none => return .noData
  | some r => return Status.ofOutcome (← (r.validate s.expert).settle)

def countItems (s : Session) (count : Option Nat) : Logged Trap (Status × Option Nat) :=
  match count with
  | none => return (.contextMismatch, none)
  | some _ => do
    match ← Logged.ofExcept s.current with
    | none => return (.noData, some 0)
    | some r =>
      match r.itemCount s.expert with
      | .ok n => return (.ok, some n)
      | .error status => return (status, some 0)

def renderItem (s : Session) (index page : Nat) (title message : Option Bytes)
    (pages : Option Nat) : Logged Trap Reply :=
  match title, message, pages with
  | some title, some message, some _ => do
    match ← Logged.ofExcept s.current with
    | none => return .item .noData (some title) (some message) (some 0)
    | some r =>
      let rendered ← r.renderItem s.expert index page ⟨title, message⟩
      let screen := rendered.screen
      match rendered.outcome with
      | .ok n => return .item .ok (some screen.title) (some screen.message) (some n)
      | .error status => return .item status (some screen.title) (some screen.message) (some 0)
  | title, message, pages => return .item .contextMismatch title message pages

def recoveryByte (s : Session) (info : UInt32) (out : Option UInt8) :
    Logged Trap (Status × Option UInt8) :=
  match out with
  | none => return (.contextMismatch, none)
  | some v => do
    match ← Logged.ofExcept s.current with
    | none => return (.noData, some v)
    | some r =>
      let v ← Logged.ofExcept (Signature.recoveryByte r.tx (Signature.isOdd info))
      return (.ok, some v)

def step (s : Session) : Call → Logged Trap (Session × Reply)
  | .setExpert on => return ({ s with expert := on }, .expert on)
  | .read buffer => do
    let (s, status) ← s.read buffer
    return (s, .read status)
  | .validate => do
    return (s, .validated (← s.validate))
  | .countItems count => do
    let (status, count) ← s.countItems count
    return (s, .count status count)
  | .renderItem index page title message pages => do
    return (s, ← s.renderItem index page title message pages)
  | .recoveryByte info out => do
    let (status, out) ← s.recoveryByte info out
    return (s, .recoveryByte status out)
  | .clear => return (s.clear, .cleared)

def run (s : Session) : List Call → Logged Trap (Session × List Reply)
  | [] => return (s, [])
  | call :: calls => do
    let (s, reply) ← s.step call
    let (s, replies) ← s.run calls
    return (s, reply :: replies)

end Session

end ClearSign
