/-
EditJournal.Journal.Restore — taking over a history from elsewhere.

What exceeds the ceiling is dropped: first from the redo end, then the
oldest. Version and group numbers go on behind both histories, and the typing
run is over.
-/
import EditJournal.Journal.Basic

namespace EditJournal.Journal

/-- Drops the oldest entries while there are more than `ceiling` and some
can be undone; gives entries, position and base version. -/
def dropOldest (ceiling : Nat) : List Entry → Nat → Nat → List Entry × Nat × Nat
  | oldest :: rest, position + 1, base =>
    if ceiling < rest.length + 1 then dropOldest ceiling rest position oldest.version
    else (oldest :: rest, position + 1, base)
  | entries, position, base => (entries, position, base)

/-- The greatest group number among entries, or 0. -/
def newestGroup (entries : List Entry) : Nat :=
  (entries.filterMap (·.group)).foldl max 0

/-- Replaces the history. -/
def restore (j : Journal) (entries : List Entry) (position base next : Nat) :
    Narrated Journal := do
  let ceiling := j.config.ceiling
  let loaded := entries.length
  let position := min position loaded
  let redoDropped := min (loaded - ceiling) (loaded - position)
  let front := entries.take (loaded - redoDropped)
  let (kept, position, base) := dropOldest ceiling front position base
  if kept.length < loaded then
    .tell (.restoreTrimmed loaded kept.length redoDropped ceiling)
  return { j with
    entries := kept
    position
    capacity := min (max j.capacity kept.length) ceiling
    totalBytes := total Entry.size kept
    baseVersion := base
    nextVersion := max next j.nextVersion
    grouping := (j.grouping.reserve (newestGroup kept)).endRun }

end EditJournal.Journal
