/-
EditJournal.Journal.Step — one step back or forward in the history.

A step replays the entry next to the position on the storage. If that fails
the journal stays as it is; if it succeeds the position moves and the typing
run is over.
-/
import EditJournal.Journal.Basic
import EditJournal.Replay

namespace EditJournal.Journal

/-- The entry that a step replays, and its index. -/
def target? (j : Journal) : HistoryStep → Option (Nat × Entry)
  | .undo =>
    match j.position with
    | 0 => none
    | index + 1 => j.entries[index]?.map (index, ·)
  | .redo => j.entries[j.position]?.map (j.position, ·)

/-- The position behind a step that replayed the entry at `index`. -/
def positionAfter (index : Nat) : HistoryStep → Nat
  | .undo => index
  | .redo => index + 1

variable {σ : Type} [Storage σ]

/-- Takes a step. Gives the cursor, or nothing at the end of the history. -/
def step (j : Journal) (direction : HistoryStep) (s : σ) :
    Narrated (Except UndoError (Option Location) × Journal × σ) :=
  match j.target? direction with
  | none => return (.ok none, j, s)
  | some (index, entry) =>
    Narrated.within ⟨direction, index, entry.version, entry.edits.length⟩ do
      let busy := { j with replaying := true }
      let (result, s) ← entry.replay direction s
      let rested := { busy with replaying := false }
      match result with
      | .error error =>
        .tell (.stepFailed direction error)
        return (.error error, rested, s)
      | .ok () =>
        let cursor := entry.cursorAfter direction
        let position := positionAfter index direction
        .tell (.stepApplied direction position cursor)
        return (.ok (some cursor), { rested with position }.endRun, s)

end EditJournal.Journal
