/-
EditJournal.UndoError — why a change could not be journaled, or a step in
the history could not be taken.
-/
import EditJournal.Edit
import EditJournal.Text.Splice
import EditJournal.Text.Quoted

namespace EditJournal

/-- Why a change was not journaled, or a step not taken. -/
inductive UndoError where
  /-- Changes of this kind are not journaled. -/
  | unsupportedKind (kind : EditKind)
  /-- The storage refused a change. -/
  | storage (place : Location) (cause : TextError)
  /-- The text at the place is not what the journal says it is. -/
  | stateDrift (place : Location) (expected actual : Text)
  deriving DecidableEq, Repr

/-- The wording of an error. -/
def UndoError.message : UndoError → String
  | unsupportedKind kind => s!"{kind.label} edits cannot be recorded"
  | storage place cause => s!"storage error at {place.display}: {cause.message}"
  | stateDrift place expected actual =>
    s!"state drift at {place.display}: expected {expected.quoted}, found {actual.quoted}"

end EditJournal
