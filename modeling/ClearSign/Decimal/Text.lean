import ClearSign.Bytes
/-!
# Decimal text

The text of a number in base ten, and of a number of which the last places stand behind a point.
Both are written here as mathematics; the routines that fill buffers are elsewhere and write these
texts.  `read` reads either form back, without regard to the point.
-/

namespace ClearSign.Decimal

open scoped Powers

/-- The digit for `n`, which is below ten. -/
def digit (n : Nat) : UInt8 := UInt8.ofNat (48 + n)

def point : UInt8 := 46

def isDigit (b : UInt8) : Bool := 48 ≤ b.toNat && b.toNat ≤ 57

/-- The digits of `n`, most significant first and without leading zeros; zero is one digit. -/
def text (n : Nat) : Bytes :=
  if n < 10 then [digit n] else text (n / 10) ++ [digit (n % 10)]

/-- The last `places` digits of `n`, with zeros in front where `n` has fewer. -/
def textWidth : Nat → Nat → Bytes
  | 0, _ => []
  | places + 1, n => textWidth places (n / 10) ++ [digit (n % 10)]

/-- The text of `n` divided by ten to the power `places`: the whole part, and when there are places
a point and exactly so many digits. -/
def fixed (n places : Nat) : Bytes :=
  if places = 0 then text n
  else text (n / 10 ^ places) ++ point :: textWidth places (n % 10 ^ places)

/-- The number that the digits of a text spell; a point is passed over. -/
def read (bs : Bytes) : Nat :=
  bs.foldl (fun n b => if b = point then n else 10 * n + (b.toNat - 48)) 0

theorem toNat_digit {n : Nat} (h : n < 10) : (digit n).toNat = 48 + n := by
  rw [digit, UInt8.toNat_ofNat', Nat.mod_eq_of_lt (by omega)]

theorem isDigit_digit {n : Nat} (h : n < 10) : isDigit (digit n) = true := by
  simp [isDigit, toNat_digit h]
  omega

theorem digit_ne_point {n : Nat} (h : n < 10) : digit n ≠ point := by
  intro heq
  have := congrArg UInt8.toNat heq
  rw [toNat_digit h] at this
  simp [point] at this
  omega

theorem text_of_lt {n : Nat} (h : n < 10) : text n = [digit n] := by
  rw [text, if_pos h]

theorem text_of_ge {n : Nat} (h : 10 ≤ n) : text n = text (n / 10) ++ [digit (n % 10)] := by
  rw [text, if_neg (by omega)]

@[simp] theorem length_textWidth (places n : Nat) : (textWidth places n).length = places := by
  induction places generalizing n with
  | zero => rfl
  | succ places ih => simp [textWidth, ih]

theorem read_append_digit (bs : Bytes) {n : Nat} (h : n < 10) :
    read (bs ++ [digit n]) = 10 * read bs + n := by
  simp [read, List.foldl_append, digit_ne_point h, toNat_digit h]

theorem read_text (n : Nat) : read (text n) = n := by
  induction n using Nat.strongRecOn with
  | ind n ih =>
    by_cases h : n < 10
    · rw [text_of_lt h]
      simpa [read] using read_append_digit [] h
    · rw [text_of_ge (by omega), read_append_digit _ (Nat.mod_lt _ (by decide)),
        ih (n / 10) (by omega)]
      omega

end ClearSign.Decimal
