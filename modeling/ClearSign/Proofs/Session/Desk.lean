import ClearSign.Session
import ClearSign.Proofs.Review.Display
import ClearSign.Proofs.Signature
/-!
# The desk

A desk is the least that a session has to remember: the buffer on it, if there is one, and whether
an expert sits there.  What it answers is a plain function of the review of that buffer and of the
flag, and what lies on it is the last buffer handed in, if that was accepted
(`after_buffer_eq_iff`).
-/

namespace ClearSign

/-! ## What a buffer is read as -/

/-- What a whole buffer is read as.  A reading never traps, so the last case does not arise. -/
def Review.read (raw : Bytes) : Except Status Review :=
  match (Review.parse raw).outcome with
  | .ok r => .ok r
  | .error (.status s) => .error s
  | .error (.trap _) => .error .unexpected

def Review.Accepts (raw : Bytes) : Prop := ∃ r, (Review.parse raw).outcome = .ok r

def Review.isAccepted (raw : Bytes) : Bool := (Review.parse raw).outcome.isOk

theorem Review.settle_parse (raw : Bytes) :
    (Review.parse raw).settle.outcome = .ok (Review.read raw) := by
  have hnever := Review.neverTraps_parse raw
  unfold Logged.settle Review.read
  cases h : (Review.parse raw).outcome with
  | ok r => rfl
  | error stop =>
      cases stop with
      | status s => rfl
      | trap t => exact absurd h (hnever t)

theorem Review.read_eq_ok_iff {raw : Bytes} {r : Review} :
    Review.read raw = .ok r ↔ (Review.parse raw).outcome = .ok r := by
  unfold Review.read
  cases (Review.parse raw).outcome with
  | ok r' => simp
  | error stop => cases stop <;> simp

/-- A reading that fails has a status that says so. -/
theorem Review.read_of_status_ok {raw : Bytes} (h : Status.ofOutcome (Review.read raw) = .ok) :
    ∃ r, Review.read raw = .ok r := by
  have hends := Review.endsIn_parse raw
  unfold Review.read at h ⊢
  cases ho : (Review.parse raw).outcome with
  | ok r => exact ⟨r, rfl⟩
  | error stop =>
      obtain ⟨s, hs, rfl, -⟩ := hends.refused stop ho
      simp only [ho] at h
      cases (show s = .ok from h)
      exact absurd hs (by decide)

theorem Review.isAccepted_iff {raw : Bytes} : isAccepted raw = true ↔ Accepts raw := by
  unfold isAccepted Accepts
  cases (parse raw).outcome with
  | ok r => simp [Except.isOk, Except.toBool]
  | error stop => simp [Except.isOk, Except.toBool]

theorem Review.isAccepted_of_read {raw : Bytes} {r : Review} (h : Review.read raw = .ok r) :
    isAccepted raw = true :=
  isAccepted_iff.2 ⟨r, read_eq_ok_iff.1 h⟩

theorem Review.not_isAccepted_of_read {raw : Bytes} {s : Status}
    (h : Review.read raw = .error s) : ¬isAccepted raw = true := by
  intro hacc
  obtain ⟨r, hr⟩ := isAccepted_iff.1 hacc
  cases h.symm.trans (read_eq_ok_iff.2 hr)

/-! ## Answers -/

/-- What is on the desk: a buffer that has been accepted, and the flag of the expert. -/
structure Desk where
  buffer : Option Bytes
  expert : Bool
  deriving DecidableEq, Repr

namespace Desk

def initial : Desk := { buffer := none, expert := false }

/-- The answer to a call, given what is under review and the flag. -/
def answer (review : Option Review) (expert : Bool) : Call → Reply
  | .setExpert on => .expert on
  | .read none => .read .contextMismatch
  | .read (some raw) => .read (Status.ofOutcome (Review.read raw))
  | .validate =>
    match review with
    | none => .validated .noData
    | some r => .validated (Status.ofOutcome (r.rows expert))
  | .countItems none => .count .contextMismatch none
  | .countItems (some _) =>
    match review with
    | none => .count .noData (some 0)
    | some r =>
      match r.rows expert with
      | .ok rows => .count .ok (some rows.length)
      | .error s => .count s (some 0)
  | .renderItem index page (some title) (some message) (some _) =>
    match review with
    | none => .item .noData (some title) (some message) (some 0)
    | some r =>
      let view := r.itemView expert index page title.length message.length
      match view.outcome with
      | .ok n => .item .ok (some view.screen.title) (some view.screen.message) (some n)
      | .error s => .item s (some view.screen.title) (some view.screen.message) (some 0)
  | .renderItem _ _ title message pages => .item .contextMismatch title message pages
  | .recoveryByte _ none => .recoveryByte .contextMismatch none
  | .recoveryByte info (some v) =>
    match review with
    | none => .recoveryByte .noData (some v)
    | some r => .recoveryByte .ok (some (Signature.recovered r.tx (Signature.isOdd info)))
  | .clear => .cleared

def review (d : Desk) : Option Review := d.buffer.bind fun raw => (Review.read raw).toOption

def next (d : Desk) : Call → Desk
  | .setExpert on => { d with expert := on }
  | .read buffer => { d with buffer := buffer.filter Review.isAccepted }
  | .clear => { d with buffer := none }
  | .validate | .countItems _ | .renderItem _ _ _ _ _ | .recoveryByte _ _ => d

def after (d : Desk) : List Call → Desk
  | [] => d
  | call :: calls => (d.next call).after calls

def replies (d : Desk) : List Call → List Reply
  | [] => []
  | call :: calls => answer d.review d.expert call :: (d.next call).replies calls

end Desk

/-! ## Kinds of calls -/

namespace Call

/-- The call asks about the transaction under review. -/
def IsQuery : Call → Prop
  | validate | countItems _ | renderItem _ _ _ _ _ | recoveryByte _ _ => True
  | setExpert _ | read _ | clear => False

/-- The call is a query, and no place for an output is missing. -/
def Asks : Call → Prop
  | validate => True
  | countItems count => count.isSome = true
  | renderItem _ _ title message pages =>
    title.isSome = true ∧ message.isSome = true ∧ pages.isSome = true
  | recoveryByte _ out => out.isSome = true
  | setExpert _ | read _ | clear => False

/-- The buffer that a call hands in, in place of whatever was under review; clearing hands in
none. -/
def hands : Call → Option (Option Bytes)
  | read buffer => some buffer
  | clear => some none
  | _ => none

/-- The call hands in a buffer that is accepted. -/
def Loads (call : Call) : Prop := ∃ raw, call = read (some raw) ∧ Review.Accepts raw

/-- The call hands in something else: a buffer that is not accepted, or none. -/
def Drops (call : Call) : Prop := call.hands.isSome = true ∧ ¬call.Loads

end Call

/-- The status in a reply, if it has one. -/
def Reply.status? : Reply → Option Status
  | .expert _ | .cleared => none
  | .read s | .validated s | .count s _ | .item s _ _ _ | .recoveryByte s _ => some s

/-! ## What is on the desk -/

namespace Desk

variable {d : Desk}

/-- What lies on the desk has been accepted. -/
def Sound (d : Desk) : Prop := ∀ raw, d.buffer = some raw → Review.Accepts raw

theorem next_buffer_eq_iff (hd : d.Sound) (call : Call) (raw : Bytes) :
    (d.next call).buffer = some raw ↔
      call.hands.getD d.buffer = some raw ∧ Review.Accepts raw := by
  cases call with
  | read buffer =>
      rw [← Review.isAccepted_iff]
      exact Option.filter_eq_some_iff
  | clear => simp [next, Call.hands]
  | setExpert on => exact ⟨fun h => ⟨h, hd raw h⟩, fun h => h.1⟩
  | validate => exact ⟨fun h => ⟨h, hd raw h⟩, fun h => h.1⟩
  | countItems count => exact ⟨fun h => ⟨h, hd raw h⟩, fun h => h.1⟩
  | renderItem index page title message pages => exact ⟨fun h => ⟨h, hd raw h⟩, fun h => h.1⟩
  | recoveryByte info out => exact ⟨fun h => ⟨h, hd raw h⟩, fun h => h.1⟩

theorem Sound.next (hd : d.Sound) (call : Call) : (d.next call).Sound := fun raw h =>
  ((next_buffer_eq_iff hd call raw).1 h).2

/-- The last buffer handed in is on the desk if it was accepted. -/
theorem after_buffer_eq_iff (hd : d.Sound) (calls : List Call) (raw : Bytes) :
    (d.after calls).buffer = some raw ↔
      (calls.filterMap Call.hands).getLast?.getD d.buffer = some raw ∧ Review.Accepts raw := by
  induction calls generalizing d with
  | nil => exact ⟨fun h => ⟨h, hd raw h⟩, fun h => h.1⟩
  | cons call calls ih =>
      rw [after, ih (hd.next call)]
      cases hlast : (calls.filterMap Call.hands).getLast? with
      | none =>
          have hnil : calls.filterMap Call.hands = [] := List.getLast?_eq_none_iff.1 hlast
          have hone : ((call :: calls).filterMap Call.hands).getLast? = call.hands := by
            cases hc : call.hands with
            | none => rw [List.filterMap_cons_none hc, hnil]; rfl
            | some buffer => rw [List.filterMap_cons_some hc, hnil]; rfl
          rw [hone, Option.getD_none, next_buffer_eq_iff hd]
          exact ⟨fun h => h.1, fun h => ⟨h, h.2⟩⟩
      | some buffer =>
          have hmore : ((call :: calls).filterMap Call.hands).getLast? = some buffer := by
            cases hc : call.hands with
            | none => rw [List.filterMap_cons_none hc, hlast]
            | some buffer' => rw [List.filterMap_cons_some hc, List.getLast?_cons, hlast]; rfl
          rw [hmore, Option.getD_some, Option.getD_some]

theorem after_append (d : Desk) (calls more : List Call) :
    d.after (calls ++ more) = (d.after calls).after more := by
  induction calls generalizing d with
  | nil => rfl
  | cons call calls ih => exact ih (d.next call)

theorem next_buffer_of_not_loads {call : Call} (hd : d.buffer = none) (h : ¬call.Loads) :
    (d.next call).buffer = none := by
  have hsound : d.Sound := fun raw hraw => by rw [hd] at hraw; cases hraw
  cases hb : (d.next call).buffer with
  | none => rfl
  | some raw =>
      obtain ⟨hhands, hacc⟩ := (next_buffer_eq_iff hsound call raw).1 hb
      rw [hd] at hhands
      cases call with
      | read buffer =>
          cases hhands
          exact absurd ⟨raw, rfl, hacc⟩ h
      | clear => cases hhands
      | setExpert on => cases hhands
      | validate => cases hhands
      | countItems count => cases hhands
      | renderItem index page title message pages => cases hhands
      | recoveryByte info out => cases hhands

theorem after_buffer_of_not_loads {calls : List Call} (hd : d.buffer = none)
    (h : ∀ call ∈ calls, ¬call.Loads) : (d.after calls).buffer = none := by
  induction calls generalizing d with
  | nil => exact hd
  | cons call calls ih =>
      have hnext := next_buffer_of_not_loads hd (h call (by simp))
      exact ih hnext fun c hc => h c (List.mem_cons_of_mem _ hc)

/-- A call that drops leaves an empty desk, whatever lay there. -/
theorem next_buffer_of_drops (d : Desk) {call : Call} (h : call.Drops) :
    (d.next call).buffer = none := by
  obtain ⟨hhands, hloads⟩ := h
  cases call with
  | read buffer =>
      cases buffer with
      | none => rfl
      | some raw =>
          have hrej : ¬Review.isAccepted raw = true := fun hacc =>
            hloads ⟨raw, rfl, Review.isAccepted_iff.1 hacc⟩
          simp only [next, Option.filter_some, if_neg hrej]
  | clear => rfl
  | setExpert on => cases hhands
  | validate => cases hhands
  | countItems count => cases hhands
  | renderItem index page title message pages => cases hhands
  | recoveryByte info out => cases hhands

/-- Nothing can be learnt from an empty desk. -/
theorem status_answer_none {call : Call} (h : call.Asks) (expert : Bool) :
    (answer none expert call).status? = some .noData := by
  cases call with
  | validate => rfl
  | countItems count =>
      cases count with
      | none => cases h
      | some count => rfl
  | renderItem index page title message pages =>
      match title, message, pages, h with
      | some title, some message, some pages, _ => rfl
      | none, _, _, h => cases h.1
      | some _, none, _, h => cases h.2.1
      | some _, some _, none, h => cases h.2.2
  | recoveryByte info out =>
      cases out with
      | none => cases h
      | some v => rfl
  | setExpert on => cases h
  | read buffer => cases h
  | clear => cases h

end Desk

theorem Call.Asks.isQuery {call : Call} (h : call.Asks) : call.IsQuery := by
  cases call with
  | validate => trivial
  | countItems count => trivial
  | renderItem index page title message pages => trivial
  | recoveryByte info out => trivial
  | setExpert on => cases h
  | read buffer => cases h
  | clear => cases h

end ClearSign
