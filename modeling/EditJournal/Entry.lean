/-
EditJournal.Entry — one undo step: a change, and the changes that an undo
group added to it.

An entry always has a first change. Its version names the text that the
entry leads to.
-/
import EditJournal.Edit

namespace EditJournal

/-- One undo step. -/
structure Entry where
  first : Edit
  more : List Edit := []
  /-- Clock reading of the last change, in milliseconds. -/
  timestamp : Nat
  /-- The undo group that made the entry. -/
  group : Option Nat := none
  version : Nat
  /-- Is the text behind this entry the saved one? -/
  savePoint : Bool := false
  /-- May later changes join the entry? -/
  mergeable : Bool := true
  deriving DecidableEq, Repr

namespace Entry

/-- The changes of the step, in the order in which they were made. -/
def edits (e : Entry) : List Edit := e.first :: e.more

/-- The last change of the step. -/
def last (e : Entry) : Edit := e.more.getLastD e.first

/-- Adds a change to the step. -/
def push (e : Entry) (edit : Edit) : Entry := { e with more := e.more ++ [edit] }

@[simp] theorem edits_push (e : Entry) (edit : Edit) :
    (e.push edit).edits = e.edits ++ [edit] := rfl

/-- The bytes of all payloads. -/
def payloadBytes (e : Entry) : Nat := total (·.payload.byteLength) e.edits

/-- What a step counts: 64 bytes and its changes. -/
def size (e : Entry) : Nat := 64 + total Edit.size e.edits

/-- Where the cursor goes after the step: the change that was handled last
decides. -/
def cursorAfter (e : Entry) : HistoryStep → Location
  | .undo => e.first.cursorAfter .undo
  | .redo => e.last.cursorAfter .redo

end Entry

end EditJournal
