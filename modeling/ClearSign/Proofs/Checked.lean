import Mathlib.Algebra.Group.Nat.Defs
import ClearSign.Checked
/-!
# Routines that keep within their buffers

`Gives x P` says that a checked computation comes to a result, and that the result has `P`.  There
is one rule for each operation, with what it needs so as not to trap and the size of the buffer it
leaves, and one rule for composition.  So a routine is gone through step by step with nothing but
sizes in view, whatever the bytes are that it works on.
-/

namespace ClearSign

namespace Checked

variable {α β : Type} {bs new : Bytes} {a b bits start stop : Nat}

/-- The computation does not trap, and its result has the property. -/
def Gives (x : Checked α) (P : α → Prop) : Prop := ∃ a, x = .ok a ∧ P a

namespace Gives

variable {x : Checked α} {f : α → Checked β} {P Q : α → Prop} {R : β → Prop}

theorem mono (h : x.Gives P) (hPQ : ∀ a, P a → Q a) : x.Gives Q := by
  obtain ⟨a, ha, hP⟩ := h
  exact ⟨a, ha, hPQ a hP⟩

theorem bind (h : x.Gives P) (hf : ∀ a, P a → (f a).Gives R) : (x >>= f).Gives R := by
  obtain ⟨a, ha, hP⟩ := h
  rw [ha, ok_bind]
  exact hf a hP

/-- Two branches that come to the same go on in the same way. -/
theorem ite_bind {c : Prop} [Decidable c] {y : Checked α} (hx : c → x.Gives P)
    (hy : ¬c → y.Gives P) (hf : ∀ a, P a → (f a).Gives R) :
    (if c then x >>= f else y >>= f).Gives R := by
  split
  · rename_i hc
    exact (hx hc).bind hf
  · rename_i hc
    exact (hy hc).bind hf

end Gives

theorem gives_ok {P : α → Prop} {a : α} (h : P a) : Gives (.ok a) P := ⟨a, rfl, h⟩

theorem gives_pure {P : α → Prop} {a : α} (h : P a) : Gives (pure a) P := ⟨a, rfl, h⟩

/-! ## Words -/

theorem gives_sub (h : b ≤ a) : (sub a b).Gives fun c => c = a - b :=
  ⟨a - b, sub_eq_ok h, rfl⟩

theorem gives_add (h : a + b < 2 ^ bits) : (add bits a b).Gives fun c => c = a + b :=
  ⟨a + b, add_eq_ok h, rfl⟩

theorem gives_add_address (h : a + b < 2 ^ 64) :
    (add addressBits a b).Gives fun c => c = a + b := gives_add h

/-! ## Buffers -/

theorem gives_take (h : a ≤ bs.length) : (take bs a).Gives fun front => front = bs.take a :=
  ⟨bs.take a, take_eq_ok h, rfl⟩

theorem gives_set (byte : UInt8) (h : a < bs.length) :
    (set bs a byte).Gives fun out => out.length = bs.length :=
  ⟨bs.set a byte, set_eq_ok byte h, List.length_set⟩

theorem gives_replace (h : start ≤ stop) (hs : stop ≤ bs.length) (hn : new.length = stop - start) :
    (replace bs start stop new).Gives fun out => out.length = bs.length := by
  refine ⟨_, replace_eq_ok h hs hn, ?_⟩
  simp only [List.length_append, List.length_take, List.length_drop]
  omega

theorem gives_fill (byte : UInt8) (h : start ≤ stop) (hs : stop ≤ bs.length) :
    (fill bs start stop byte).Gives fun out => out.length = bs.length :=
  gives_replace h hs List.length_replicate

/-- A move needs room for as many cells as it copies. -/
theorem gives_move (h : start ≤ stop) (hs : stop ≤ bs.length)
    (ht : a + (stop - start) ≤ bs.length) :
    (move bs start stop a).Gives fun out => out.length = bs.length := by
  refine ⟨_, move_eq_ok h hs ht, ?_⟩
  simp only [List.length_append, List.length_take, List.length_drop]
  omega

end Checked

/-! ## Routines that work in place -/

namespace Written

variable {ε α : Type}

/-- The buffer is as long as it was, and a result is one that may stand in it. -/
def Within (size : Nat) (P : Bytes → α → Prop) (w : Written ε α) : Prop :=
  w.buffer.length = size ∧ ∀ a, w.outcome = .ok a → P w.buffer a

theorem within_failed {size : Nat} {P : Bytes → α → Prop} {buffer : Bytes} (e : ε)
    (h : buffer.length = size) : (failed buffer e).Within size P := by
  refine ⟨h, ?_⟩
  intro a ha
  cases ha

theorem within_done {size : Nat} {P : Bytes → α → Prop} {buffer : Bytes} {a : α}
    (h : buffer.length = size) (ha : P buffer a) : (done buffer a : Written ε α).Within size P := by
  refine ⟨h, ?_⟩
  intro a' ha'
  cases ha'
  exact ha

end Written

end ClearSign
