/-
EditJournal.Replay — making and unmaking an entry's changes on a storage.

A change is made by putting its payload in or taking it out; what is taken
out must be the payload, else it is put back and the text has drifted.

An entry is replayed change by change: forward to redo it, backward to undo
it. When a change fails, the finished ones are taken back, newest first, so
that the text is what it was.
-/
import EditJournal.Entry
import EditJournal.Storage

namespace EditJournal

variable {σ : Type} [Storage σ]

namespace Edit

/-- Puts the payload in. -/
def put (e : Edit) (s : σ) : Narrated (Except UndoError Unit × σ) := do
  let (result, s) ← Storage.insert s e.place e.payload
  match result with
  | .ok _ => return (.ok (), s)
  | .error cause => return (.error (.storage e.place cause), s)

/-- Takes the payload out. Anything else found in its place is put back. -/
def take (e : Edit) (s : σ) : Narrated (Except UndoError Unit × σ) := do
  let (result, s) ← Storage.delete s e.place e.payload.byteLength
  match result with
  | .error cause => return (.error (.storage e.place cause), s)
  | .ok found =>
    if found = e.payload then return (.ok (), s)
    else
      let (result, s) ← Storage.insert s e.place found
      match result with
      | .ok _ => return (.error (.stateDrift e.place e.payload found), s)
      | .error cause => return (.error (.storage e.place cause), s)

/-- Makes the change (redo) or unmakes it (undo). -/
def replay (e : Edit) (step : HistoryStep) (s : σ) : Narrated (Except UndoError Unit × σ) :=
  match e.kind, step with
  | .insert, .redo => e.put s
  | .insert, .undo => e.take s
  | .delete, .redo => e.take s
  | .delete, .undo => e.put s
  | .replace, _ => return (.error (.unsupportedKind e.kind), s)

end Edit

namespace Entry

/-- Takes finished changes back, in the order given. A failure is told and
does not stop the rest. -/
def rollback (step : HistoryStep) : List Edit → σ → Narrated σ
  | [], s => return s
  | e :: rest, s => do
    let (result, s) ← e.replay step.opposite s
    match result with
    | .ok () => rollback step rest s
    | .error error =>
      .tell (.rollbackFailed step error)
      rollback step rest s

/-- Replays changes in the order given; `finished` holds those before them,
newest first. -/
def replayEdits (step : HistoryStep) (finished : List Edit) :
    List Edit → σ → Narrated (Except UndoError Unit × σ)
  | [], s => return (.ok (), s)
  | e :: rest, s => do
    let (result, s) ← e.replay step s
    match result with
    | .ok () => replayEdits step (e :: finished) rest s
    | .error error =>
      let s ← rollback step finished s
      return (.error error, s)

/-- Makes the entry's changes first to last, or unmakes them last to first. -/
def replay (entry : Entry) (step : HistoryStep) (s : σ) :
    Narrated (Except UndoError Unit × σ) :=
  match step with
  | .redo => replayEdits .redo [] entry.edits s
  | .undo => replayEdits .undo [] entry.edits.reverse s

end Entry

end EditJournal
