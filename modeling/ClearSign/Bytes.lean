/-!
# Byte strings

Everything the device reads and everything it shows is a list of bytes.  This module reads such a
list as a big-endian number, writes a number as its shortest big-endian list, and takes a text as
its bytes.

* `Bytes.value` and `Bytes.ofNat`, with `value_ofNat`: the shortest form reads back.
* `Bytes.untilZero`, the part of a buffer that a reader of a terminated text sees.
-/

namespace ClearSign

namespace Powers

/-- The core library's powers of numbers.  A definition by powers opens this, so that it means the
same where an algebra library brings powers of its own; scoped, so that `^` is left alone wherever
it is not opened. -/
scoped instance (priority := high) natPow : Pow Nat Nat := instPowNat

end Powers

abbrev Bytes := List UInt8

namespace Bytes

/-! ## Big-endian numbers -/

open scoped Powers

/-- The number that the bytes spell in base 256, most significant byte first. -/
def value : Bytes → Nat
  | [] => 0
  | b :: bs => b.toNat * 256 ^ bs.length + value bs

@[simp] theorem value_nil : value [] = 0 := rfl

theorem value_cons (b : UInt8) (bs : Bytes) :
    value (b :: bs) = b.toNat * 256 ^ bs.length + value bs := rfl

@[simp] theorem value_singleton (b : UInt8) : value [b] = b.toNat := by
  simp [value]

theorem value_append (xs ys : Bytes) :
    value (xs ++ ys) = value xs * 256 ^ ys.length + value ys := by
  induction xs with
  | nil => simp
  | cons x xs ih =>
      simp only [List.cons_append, value_cons, ih, List.length_append, Nat.pow_add, Nat.add_mul,
        Nat.mul_assoc, Nat.add_assoc]

theorem value_lt (bs : Bytes) : value bs < 256 ^ bs.length := by
  induction bs with
  | nil => simp
  | cons b bs ih =>
      have hb : b.toNat + 1 ≤ 256 := b.toNat_lt
      have hmul := Nat.mul_le_mul_right (256 ^ bs.length) hb
      rw [Nat.add_mul] at hmul
      rw [value_cons, List.length_cons, Nat.pow_succ]
      omega

@[simp] theorem value_replicate_zero (n : Nat) : value (List.replicate n 0) = 0 := by
  induction n with
  | zero => rfl
  | succ n ih => simp [List.replicate_succ, value_cons, ih]

/-- Among lists of one length the number tells the bytes. -/
theorem eq_of_value_eq {xs ys : Bytes} (hlen : xs.length = ys.length) (h : value xs = value ys) :
    xs = ys := by
  induction xs generalizing ys with
  | nil => exact (List.length_eq_zero_iff.1 hlen.symm).symm
  | cons x xs ih =>
      cases ys with
      | nil => cases hlen
      | cons y ys =>
          have hlen : xs.length = ys.length := Nat.succ.inj hlen
          have hpos : 0 < 256 ^ ys.length := Nat.pow_pos (by decide)
          have hx := value_lt xs
          have hy := value_lt ys
          rw [hlen] at hx
          rw [value_cons, value_cons, hlen] at h
          have hhead : x.toNat = y.toNat := by
            have hdiv := congrArg (· / 256 ^ ys.length) h
            simpa only [Nat.mul_comm _ (256 ^ ys.length), Nat.mul_add_div hpos,
              Nat.div_eq_of_lt hx, Nat.div_eq_of_lt hy, Nat.add_zero] using hdiv
          rw [hhead] at h
          rw [UInt8.toNat_inj.1 hhead, ih hlen (Nat.add_left_cancel h)]

/-- The `w` bytes of `n` in base 256; what does not fit is dropped. -/
def ofNatWidth : Nat → Nat → Bytes
  | 0, _ => []
  | w + 1, n => ofNatWidth w (n / 256) ++ [UInt8.ofNat n]

@[simp] theorem length_ofNatWidth (w n : Nat) : (ofNatWidth w n).length = w := by
  induction w generalizing n with
  | zero => rfl
  | succ w ih => simp [ofNatWidth, ih]

theorem value_ofNatWidth {w n : Nat} (h : n < 256 ^ w) : value (ofNatWidth w n) = n := by
  induction w generalizing n with
  | zero => simp at h; simp [ofNatWidth, h]
  | succ w ih =>
      have hdiv : n / 256 < 256 ^ w := by
        rw [Nat.div_lt_iff_lt_mul (by decide)]
        rwa [Nat.pow_succ] at h
      rw [ofNatWidth, value_append, ih hdiv]
      simp
      omega

/-- How many bytes the shortest form of `n` has; zero has none. -/
def width (n : Nat) : Nat := if n = 0 then 0 else n.log2 / 8 + 1

theorem lt_pow_width (n : Nat) : n < 256 ^ width n := by
  unfold width
  split
  · simp [*]
  · have hlog : n < 2 ^ (n.log2 + 1) := Nat.lt_log2_self
    have hle : 2 ^ (n.log2 + 1) ≤ 2 ^ (8 * (n.log2 / 8 + 1)) :=
      Nat.pow_le_pow_right (by decide) (by omega)
    rw [show (256 : Nat) = 2 ^ (8 : Nat) from rfl, ← Nat.pow_mul]
    omega

theorem width_le_iff {n w : Nat} : width n ≤ w ↔ n < 256 ^ w := by
  constructor
  · intro h
    exact Nat.lt_of_lt_of_le (lt_pow_width n) (Nat.pow_le_pow_right (by decide) h)
  · intro h
    unfold width
    split
    · exact Nat.zero_le w
    · have hlog : n.log2 < 8 * w := by
        rw [Nat.log2_lt ‹_›, Nat.pow_mul]
        exact h
      omega

/-- The shortest big-endian form of `n`, with no leading zero byte. -/
def ofNat (n : Nat) : Bytes := ofNatWidth (width n) n

@[simp] theorem length_ofNat (n : Nat) : (ofNat n).length = width n := by
  simp [ofNat]

@[simp] theorem value_ofNat (n : Nat) : value (ofNat n) = n :=
  value_ofNatWidth (lt_pow_width n)

/-! ## Text -/

def ofText (s : String) : Bytes := s.toUTF8.data.toList

/-- What stands before the first zero byte, or everything when there is none. -/
def untilZero (bs : Bytes) : Bytes := bs.takeWhile (· != 0)

theorem untilZero_append_zero {bs : Bytes} (h : 0 ∉ bs) (rest : Bytes) :
    untilZero (bs ++ 0 :: rest) = bs := by
  induction bs with
  | nil => simp [untilZero]
  | cons b bs ih =>
      have hb : b ≠ 0 := fun hb => h (by simp [hb])
      have := ih (fun hm => h (List.mem_cons_of_mem _ hm))
      simp_all [untilZero]

end Bytes

end ClearSign
