/-
EditJournal.Edit — one change of a text: a payload that was put in or taken
out at a place.

* `Edit.cursorAfter` tells where the cursor goes when the change is made
  (redo) or unmade (undo): behind the payload when that put it in, to its
  place when that took it out.
* `Edit.size` is what a change counts in the journal's memory account.
-/
import EditJournal.Text.Location

namespace EditJournal

/-- What a change does. A replacement can be asked for, but a journal takes
insertions and deletions only. -/
inductive EditKind where
  | insert
  | delete
  | replace
  deriving DecidableEq, Repr

def EditKind.label : EditKind → String
  | insert => "insert"
  | delete => "delete"
  | replace => "replace"

/-- Which way a run of deletions moves: each one before the last, or each
one at the same place. -/
inductive RunDirection where
  | backward
  | forward
  deriving DecidableEq, Repr

def RunDirection.label : RunDirection → String
  | backward => "backward"
  | forward => "forward"

/-- A step in the history. -/
inductive HistoryStep where
  | undo
  | redo
  deriving DecidableEq, Repr

def HistoryStep.verb : HistoryStep → String
  | undo => "undo"
  | redo => "redo"

/-- The verb at the start of a sentence. -/
def HistoryStep.capitalized : HistoryStep → String
  | undo => "Undo"
  | redo => "Redo"

/-- The step that takes this one back. -/
def HistoryStep.opposite : HistoryStep → HistoryStep
  | undo => redo
  | redo => undo

/-- A change: its kind, its place, what was put in or taken out, and for a
deletion made of several the way they ran. -/
structure Edit where
  kind : EditKind
  place : Location
  payload : Text
  run : Option RunDirection := none
  deriving DecidableEq, Repr

namespace Edit

/-- The place behind the payload. -/
def finish (e : Edit) : Location := e.place.advance e.payload

/-- Where the cursor goes when the change is made or unmade. -/
def cursorAfter (e : Edit) : HistoryStep → Location
  | .redo => if e.kind = .insert then e.finish else e.place
  | .undo => if e.kind = .delete then e.finish else e.place

/-- What a change counts: 48 bytes and its payload. -/
def size (e : Edit) : Nat := 48 + e.payload.byteLength

end Edit

end EditJournal
