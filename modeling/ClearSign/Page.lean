import ClearSign.Status
/-!
# Pages

A text that does not fit the screen is cut into pages.  The last cell of a buffer is kept for the
zero that ends a text, so a buffer of `m + 1` cells shows `m` bytes at a time; the cells after that
zero are left as they are.
-/

namespace ClearSign.Page

def maxCount : Nat := 255

def capacity (out : Bytes) : Nat := out.length - 1

/-- How many pages of `capacity` bytes a text of `length` bytes takes up; an empty text takes up
one. -/
def count (length capacity : Nat) : Nat := max 1 ((length + capacity - 1) / capacity)

def chunk (text : Bytes) (capacity page : Nat) : Bytes := (text.drop (page * capacity)).take capacity

/-- Writes a text and the zero that ends it to the front of a buffer. -/
def putTerminated (text out : Bytes) : Checked Bytes := do
  let out ← Checked.replace out 0 text.length text
  Checked.set out text.length 0

/-- Writes one page of `text` into `out` and answers how many pages there are. -/
def write (text out : Bytes) (page : Nat) : Checked (Written Status Nat) :=
  let room := capacity out
  if room = 0 then return .failed out .unexpectedEnd
  else
    let pages := count text.length room
    if maxCount < pages then return .failed out .valueOutOfRange
    else if pages ≤ page then return .failed out .pageOutOfRange
    else do
      let out ← putTerminated (chunk text room page) out
      return .done out pages

/-- Writes one page of a text that may turn out not to exist; in that case `out` stays as it is. -/
def writeText (text : Except Stop Bytes) (out : Bytes) (page : Nat) :
    Checked (Written Status Nat) := do
  match ← Stop.settle text with
  | .ok text => write text out page
  | .error s => return .failed out s

/-- Writes a label into `title`, which needs room for the zero at its end. -/
def writeTitle (label title : Bytes) : Checked (Written Status Unit) :=
  if title.length ≤ label.length then return .failed title .unexpectedEnd
  else do
    let title ← putTerminated label title
    return .done title ()

theorem length_chunk_le (text : Bytes) (capacity page : Nat) :
    (chunk text capacity page).length ≤ capacity := by
  rw [chunk, List.length_take]
  exact Nat.min_le_left _ _

theorem putTerminated_eq {text out : Bytes} (h : text.length < out.length) :
    putTerminated text out = .ok (text ++ 0 :: out.drop (text.length + 1)) := by
  rw [putTerminated, Checked.replace_eq_ok (by omega) (by omega) (by omega)]
  simp only [Checked.ok_bind]
  rw [Checked.set_eq_ok _ (by simp; omega)]
  have hdrop : out.drop text.length = out[text.length] :: out.drop (text.length + 1) :=
    List.drop_eq_getElem_cons h
  rw [hdrop, List.take_zero, List.nil_append, List.set_append_right _ _ (Nat.le_refl _),
    Nat.sub_self, List.set_cons_zero]

end ClearSign.Page
