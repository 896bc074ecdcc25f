import ClearSign.Review.Field
/-!
# Rendering

The screen has a line for the label of a field and a line for its text, of which it shows one page
at a time.  `renderItem` shows one page of one field; `walk` shows all of them in order.
-/

namespace ClearSign

structure Screen where
  title : Bytes
  message : Bytes
  deriving DecidableEq, Repr

/-- Zeros in place of what was shown before. -/
def Screen.cleared (s : Screen) : Screen :=
  ⟨List.replicate s.title.length 0, List.replicate s.message.length 0⟩

/-- What one rendering leaves on the screen, and how many pages the field has or why it could not
be shown. -/
structure Rendered where
  screen : Screen
  outcome : Except Status Nat

namespace Review

def renderField (r : Review) (field : Field) (screen : Screen) (page : Nat) :
    Checked Rendered := do
  let title ← Page.writeTitle field.label screen.title
  match title.outcome with
  | .error s => return ⟨{ screen with title := title.buffer }, .error s⟩
  | .ok () =>
    let message ← Page.writeText (r.fieldText field) screen.message page
    return ⟨⟨title.buffer, message.buffer⟩, message.outcome⟩

/-- Shows a page of the field at `index`.  Nothing of what was shown before stays. -/
def renderItem (r : Review) (expert : Bool) (index page : Nat) (screen : Screen) :
    Logged Trap Rendered := do
  Logged.enter .item
  match r.rows expert with
  | .error s => return ⟨screen.cleared, .error s⟩
  | .ok rows =>
    match rows[index]? with
    | none => return ⟨screen.cleared, .error .pageOutOfRange⟩
    | some field => Logged.ofExcept (r.renderField field screen.cleared page)

/-! ## Walking through a review -/

/-- What a reader of the screen has seen of a field. -/
inductive Seen where
  /-- Its label and its pages. -/
  | shown (title : Bytes) (pages : List Bytes)
  /-- Why it could not be shown, and the label that stood there. -/
  | refused (reason : Status) (title : Bytes)
  deriving DecidableEq, Repr

/-- Goes on with the given pages of a field after those in `seen`. -/
def walkPages (r : Review) (expert : Bool) (index : Nat) :
    List Nat → List Bytes → Screen → Logged Trap (Screen × Seen)
  | [], seen, screen => return (screen, .shown (Bytes.untilZero screen.title) seen)
  | page :: pages, seen, screen => do
    let rendered ← r.renderItem expert index page screen
    let screen := rendered.screen
    match rendered.outcome with
    | .error s => return (screen, .refused s (Bytes.untilZero screen.title))
    | .ok _ => r.walkPages expert index pages (seen ++ [Bytes.untilZero screen.message]) screen

/-- Goes through all pages of a field; the first one tells how many there are. -/
def walkItem (r : Review) (expert : Bool) (index : Nat) (screen : Screen) :
    Logged Trap (Screen × Seen) := do
  let rendered ← r.renderItem expert index 0 screen
  let screen := rendered.screen
  match rendered.outcome with
  | .error s => return (screen, .refused s (Bytes.untilZero screen.title))
  | .ok count =>
    r.walkPages expert index (List.range' 1 (count - 1)) [Bytes.untilZero screen.message] screen

def walkItems (r : Review) (expert : Bool) : List Nat → Screen → Logged Trap (List Seen)
  | [], _ => return []
  | index :: indices, screen => do
    let (screen, seen) ← r.walkItem expert index screen
    let more ← r.walkItems expert indices screen
    return seen :: more

/-- A walk through a whole review: the table and what has been seen of each field. -/
structure Walk where
  rows : List Field
  items : List Seen
  deriving DecidableEq, Repr

def walk (r : Review) (expert : Bool) (screen : Screen) : Logged Trap (Except Status Walk) := do
  match r.rows expert with
  | .error s => return .error s
  | .ok rows =>
    let items ← r.walkItems expert (List.range rows.length) screen
    return .ok { rows, items }

end Review

end ClearSign
