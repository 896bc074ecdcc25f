import ClearSign.Bytes
/-!
# Checked arithmetic and indexing

The device works on machine words and on buffers of fixed length, and stops for good when a word
or an index leaves its range.  The operations here make that visible: each one either gives the
exact result or a `Trap`.  Next to each stands the condition under which it gives the result, so
that a routine built from them is shown never to trap by showing those conditions.
-/

namespace ClearSign

/-- Why a computation cannot go on. -/
inductive Trap where
  | outOfBounds
  | underflow
  | overflow
  /-- A record was used that had not been filled in. -/
  | incomplete
  deriving DecidableEq, Repr

/-- A result, unless a word or an index has left its range. -/
abbrev Checked (α : Type) := Except Trap α

namespace Checked

theorem ok_bind {ε α β : Type} (a : α) (f : α → Except ε β) : (Except.ok a >>= f) = f a := rfl

theorem error_bind {ε α β : Type} (e : ε) (f : α → Except ε β) :
    (Except.error e >>= f) = .error e := rfl

/-- A composed run that gives a value has given one at its first step. -/
theorem bind_eq_ok {ε α β : Type} {x : Except ε α} {f : α → Except ε β} {b : β} :
    (x >>= f) = .ok b ↔ ∃ a, x = .ok a ∧ f a = .ok b := by
  cases x with
  | error e => simp [error_bind]
  | ok a => simp [ok_bind]

/-! ## Words -/

open scoped Powers

/-- The width of a length or an index. -/
def addressBits : Nat := 64

def sub (a b : Nat) : Checked Nat :=
  if b ≤ a then .ok (a - b) else .error .underflow

def add (bits a b : Nat) : Checked Nat :=
  if a + b < 2 ^ bits then .ok (a + b) else .error .overflow

def mul (bits a b : Nat) : Checked Nat :=
  if a * b < 2 ^ bits then .ok (a * b) else .error .overflow

theorem sub_eq_ok {a b : Nat} (h : b ≤ a) : sub a b = .ok (a - b) := if_pos h

theorem add_eq_ok {bits a b : Nat} (h : a + b < 2 ^ bits) : add bits a b = .ok (a + b) := if_pos h

theorem mul_eq_ok {bits a b : Nat} (h : a * b < 2 ^ bits) : mul bits a b = .ok (a * b) := if_pos h

/-! ## Buffers -/

def get (bs : Bytes) (i : Nat) : Checked UInt8 :=
  if h : i < bs.length then .ok bs[i] else .error .outOfBounds

def set (bs : Bytes) (i : Nat) (b : UInt8) : Checked Bytes :=
  if i < bs.length then .ok (bs.set i b) else .error .outOfBounds

def drop (bs : Bytes) (n : Nat) : Checked Bytes :=
  if n ≤ bs.length then .ok (bs.drop n) else .error .outOfBounds

def take (bs : Bytes) (n : Nat) : Checked Bytes :=
  if n ≤ bs.length then .ok (bs.take n) else .error .outOfBounds

def slice (bs : Bytes) (start stop : Nat) : Checked Bytes :=
  if start ≤ stop ∧ stop ≤ bs.length then .ok ((bs.take stop).drop start) else .error .outOfBounds

/-- Replaces the cells from `start` up to but not including `stop` by exactly as many bytes. -/
def replace (bs : Bytes) (start stop : Nat) (new : Bytes) : Checked Bytes :=
  if start ≤ stop ∧ stop ≤ bs.length ∧ new.length = stop - start then
    .ok (bs.take start ++ new ++ bs.drop stop)
  else .error .outOfBounds

/-- Sets the cells from `start` up to but not including `stop` to `b`. -/
def fill (bs : Bytes) (start stop : Nat) (b : UInt8) : Checked Bytes :=
  replace bs start stop (List.replicate (stop - start) b)

/-- Copies the cells from `start` up to but not including `stop` to `target`; the two ranges may
overlap. -/
def move (bs : Bytes) (start stop target : Nat) : Checked Bytes := do
  let moved ← slice bs start stop
  replace bs target (target + moved.length) moved

theorem get_eq_ok {bs : Bytes} {i : Nat} (h : i < bs.length) : get bs i = .ok bs[i] := dif_pos h

theorem set_eq_ok {bs : Bytes} {i : Nat} (b : UInt8) (h : i < bs.length) :
    set bs i b = .ok (bs.set i b) := if_pos h

theorem drop_eq_ok {bs : Bytes} {n : Nat} (h : n ≤ bs.length) : drop bs n = .ok (bs.drop n) :=
  if_pos h

theorem take_eq_ok {bs : Bytes} {n : Nat} (h : n ≤ bs.length) : take bs n = .ok (bs.take n) :=
  if_pos h

theorem slice_eq_ok {bs : Bytes} {start stop : Nat} (h : start ≤ stop) (hs : stop ≤ bs.length) :
    slice bs start stop = .ok ((bs.take stop).drop start) := if_pos ⟨h, hs⟩

theorem replace_eq_ok {bs new : Bytes} {start stop : Nat} (h : start ≤ stop)
    (hs : stop ≤ bs.length) (hn : new.length = stop - start) :
    replace bs start stop new = .ok (bs.take start ++ new ++ bs.drop stop) := if_pos ⟨h, hs, hn⟩

theorem fill_eq_ok {bs : Bytes} {start stop : Nat} (b : UInt8) (h : start ≤ stop)
    (hs : stop ≤ bs.length) :
    fill bs start stop b =
      .ok (bs.take start ++ List.replicate (stop - start) b ++ bs.drop stop) :=
  replace_eq_ok h hs List.length_replicate

theorem move_eq_ok {bs : Bytes} {start stop target : Nat} (h : start ≤ stop)
    (hs : stop ≤ bs.length) (ht : target + (stop - start) ≤ bs.length) :
    move bs start stop target =
      .ok (bs.take target ++ (bs.take stop).drop start ++ bs.drop (target + (stop - start))) := by
  have hlen : ((bs.take stop).drop start).length = stop - start := by
    rw [List.length_drop, List.length_take, Nat.min_eq_left hs]
  have hbind : move bs start stop target =
      replace bs target (target + ((bs.take stop).drop start).length)
        ((bs.take stop).drop start) := by
    rw [move, slice_eq_ok h hs]
    rfl
  rw [hbind, hlen, replace_eq_ok (by omega) ht (by omega)]

end Checked

/-- What a routine that works in place leaves behind: its buffer as it then stands, and either its
result or the reason for which it gave up. -/
structure Written (ε α : Type) where
  buffer : Bytes
  outcome : Except ε α

namespace Written

variable {ε α : Type}

def done (buffer : Bytes) (a : α) : Written ε α := ⟨buffer, .ok a⟩

def failed (buffer : Bytes) (e : ε) : Written ε α := ⟨buffer, .error e⟩

end Written

end ClearSign
