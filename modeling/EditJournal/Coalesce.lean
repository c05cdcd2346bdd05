/-
EditJournal.Coalesce — when a new change joins the entry before it, and what
the joined entry is.

Typing makes one change per key; a run of them is one step for the user. A
change joins when it goes on where the last one stopped: an insertion at the
end of the payload, a deletion at the same place (forward) or right before it
(backspace). `plan` decides, and names the first reason against; `Splice.join`
makes the joined change.
-/
import EditJournal.Entry
import EditJournal.Text.WordEdge

namespace EditJournal

/-- Limits on joining. -/
structure MergeRules where
  /-- Longest pause within a run, in milliseconds. -/
  windowMs : Nat := 400
  /-- Most bytes that changes may join up to. -/
  maxEntryBytes : Nat := 65536
  /-- May an insertion that starts a new word join? -/
  acrossWords : Bool := false
  deriving DecidableEq, Repr

/-- Why a change starts an entry of its own. -/
inductive Refusal where
  | sealed
  | notMergeable
  | grouped
  | multiEdit
  | kindMismatch
  | windowElapsed
  | sizeCap
  | notAdjacent
  | directionChange
  | wordBoundary
  deriving DecidableEq, Repr

def Refusal.reason : Refusal → String
  | sealed => "sealed"
  | notMergeable => "not_mergeable"
  | grouped => "grouped"
  | multiEdit => "multi_edit"
  | kindMismatch => "kind_mismatch"
  | windowElapsed => "window_elapsed"
  | sizeCap => "size_cap"
  | notAdjacent => "not_adjacent"
  | directionChange => "direction_change"
  | wordBoundary => "word_boundary"

/-- How a change joins the one before it. -/
inductive Splice where
  | append
  | backspace
  | forwardDelete
  deriving DecidableEq, Repr

/-- The joined change. A backspace puts its text in front and moves the
place; the other two put their text behind. -/
def Splice.join (splice : Splice) (edit : Edit) (place : Location) (text : Text) : Edit :=
  match splice with
  | append => { edit with payload := edit.payload ++ text }
  | forwardDelete => { edit with payload := edit.payload ++ text, run := some .forward }
  | backspace => { edit with payload := text ++ edit.payload, place, run := some .backward }

namespace Coalesce

/-- How an insertion joins: it must start where the payload ends, and not
start a new word. -/
def planInsert (rules : MergeRules) (last : Edit) (place : Location) (text : Text) :
    Except Refusal Splice :=
  if place ≠ last.finish then .error .notAdjacent
  else if !rules.acrossWords && text.startsBlank && !last.payload.endsBlank then
    .error .wordBoundary
  else .ok .append

/-- How a deletion joins: at the same place, or up to it, and in the way
that the run has gone so far. -/
def planDelete (last : Edit) (place : Location) (text : Text) : Except Refusal Splice :=
  let forward : Bool := place = last.place
  let backward : Bool := place.advance text = last.place
  if forward && last.run ≠ some .backward then .ok .forwardDelete
  else if backward && last.run ≠ some .forward then .ok .backspace
  else if !forward && !backward then .error .notAdjacent
  else .error .directionChange

/-- Does a change join an entry, and how? The first reason against it
counts. -/
def plan (rules : MergeRules) (tail : Entry) (kind : EditKind) (place : Location) (text : Text)
    (now : Nat) : Except Refusal Splice :=
  let last := tail.first
  if !tail.mergeable then .error .notMergeable
  else if tail.group.isSome then .error .grouped
  else if tail.more ≠ [] then .error .multiEdit
  else if last.kind ≠ kind then .error .kindMismatch
  else if rules.windowMs < now - tail.timestamp then .error .windowElapsed
  else if rules.maxEntryBytes < last.payload.byteLength + text.byteLength then .error .sizeCap
  else
    match kind with
    | .insert => planInsert rules last place text
    | .delete => planDelete last place text
    | .replace => .error .kindMismatch

/-- Would the change join the entry? -/
def shouldMerge (rules : MergeRules) (tail : Entry) (kind : EditKind) (place : Location)
    (text : Text) (now : Nat) : Bool :=
  (plan rules tail kind place text now).isOk

/-- The entry with a change joined to it. -/
def splice (how : Splice) (tail : Entry) (place : Location) (text : Text)
    (now : Nat) : Entry :=
  { tail with first := how.join tail.first place text, timestamp := now }

end Coalesce

end EditJournal
