/-
EditJournal.Text.Location — a place in a text, as a line and a byte offset
in that line.

`Location.advance` walks a place over a string, character by character, so
that walking over a joined string is walking twice (`advance_append`). Only
the line feed ends a line: a carriage return and the Unicode line separators
are characters like any other.

Line and offset are words, and a walk stops where it would count past the last
one. `Location.advance?` says whether it does; `Location.advance` counts on.
-/
import EditJournal.Text.Basic
import EditJournal.Word

namespace EditJournal

/-- A place in a text: a line, counted from 0, and a byte offset in it. -/
structure Location where
  line : Nat
  offset : Nat
  deriving DecidableEq, Repr, Inhabited

namespace Location

/-- The start of every text. -/
def origin : Location := ⟨0, 0⟩

/-- The place after one character. -/
def step (l : Location) (c : Char) : Location :=
  if c = '\n' then ⟨l.line + 1, 0⟩ else ⟨l.line, l.offset + c.utf8Size⟩

/-- The place after a string that starts at `l`. -/
def advance (l : Location) (t : Text) : Location := t.foldl step l

@[simp] theorem advance_nil (l : Location) : l.advance [] = l := rfl

@[simp] theorem advance_cons (l : Location) (c : Char) (t : Text) :
    l.advance (c :: t) = (l.step c).advance t := rfl

/-- Walking over a joined string is walking over its parts. -/
theorem advance_append (l : Location) (s t : Text) :
    l.advance (s ++ t) = (l.advance s).advance t := by
  simp [advance]

/-- Line and offset are words. -/
def Fits (l : Location) : Prop := l.line < Word.size ∧ l.offset < Word.size

instance (l : Location) : Decidable l.Fits := inferInstanceAs (Decidable (_ ∧ _))

/-- The place after a string that starts at `l`, if its line and its offset are words. -/
def advance? (l : Location) (t : Text) : Option Location :=
  if (l.advance t).Fits then some (l.advance t) else none

theorem advance?_eq_some_iff {l m : Location} {t : Text} :
    l.advance? t = some m ↔ l.advance t = m ∧ m.Fits := by
  unfold advance?
  split
  · rename_i fits
    rw [Option.some.injEq]
    exact ⟨fun same => ⟨same, same ▸ fits⟩, And.left⟩
  · rename_i past
    refine iff_of_false (by simp) ?_
    rintro ⟨rfl, fits⟩
    exact past fits

/-- Does a string that starts at `l` end at `m`? -/
def reaches (l : Location) (t : Text) (m : Location) : Bool := l.advance t == m

/-- Document order: by line, then by offset. -/
protected def compare (l m : Location) : Ordering :=
  (compare l.line m.line).then (compare l.offset m.offset)

instance : Ord Location := ⟨Location.compare⟩

instance : LE Location :=
  ⟨fun l m => l.line < m.line ∨ (l.line = m.line ∧ l.offset ≤ m.offset)⟩

instance : LT Location :=
  ⟨fun l m => l.line < m.line ∨ (l.line = m.line ∧ l.offset < m.offset)⟩

/-- As people count lines: from 1, with the offset behind a colon. -/
def display (l : Location) : String := s!"{l.line + 1}:{l.offset}"

end Location

end EditJournal
