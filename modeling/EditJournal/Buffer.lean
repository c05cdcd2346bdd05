/-
EditJournal.Buffer — a text under edit: its storage, its journal, the version
that is saved, and the depth of display brackets around the edits.

Every change made through a buffer is journaled with the clock reading it is
given. The text is modified when the version at the journal's position is not
the saved one.
-/
import EditJournal.Journal.Describe
import EditJournal.Journal.Record
import EditJournal.Journal.Step
import EditJournal.JournalFile.Storing
import EditJournal.Display.Brackets

namespace EditJournal

structure Buffer (σ : Type) where
  name : Text
  store : σ
  journal : Journal
  savedVersion : Nat
  depth : EditDepth := {}

namespace Buffer

variable {σ : Type}

/-- A buffer without history; its text counts as saved. -/
def create (name : Text) (store : σ) (config : Config := {}) (refusals : List Bool := []) :
    Narrated (Buffer σ) := do
  let journal ← Journal.create config refusals
  return { name, store, journal, savedVersion := journal.currentVersion }

/-- Gives the buffer a new journal with other limits, for which the allocator has
answers of its own. -/
def withConfig (b : Buffer σ) (config : Config) (refusals : List Bool := b.journal.refusals) :
    Narrated (Buffer σ) := do
  let journal ← Journal.create config refusals
  return { b with journal, savedVersion := journal.currentVersion }

def isModified (b : Buffer σ) : Bool := b.journal.currentVersion != b.savedVersion

/-! ## History without changes -/

/-- Journals a change that was made elsewhere. -/
def record (b : Buffer σ) (kind : EditKind) (place : Location) (text : Text) (now : Nat) :
    Narrated (Except UndoError RecordStatus × Buffer σ) := do
  match ← b.journal.record kind place text now with
  | .ok (status, journal) => return (.ok status, { b with journal })
  | .error error => return (.error error, b)

/-- Ends the typing run. -/
def endRun (b : Buffer σ) : Buffer σ := { b with journal := b.journal.endRun }

def groupBegin (b : Buffer σ) : Narrated (Nat × Buffer σ) := do
  let (depth, journal) ← b.journal.groupBegin
  return (depth, { b with journal })

def groupEnd (b : Buffer σ) : Narrated (Bool × Buffer σ) := do
  let (matched, journal) ← b.journal.groupEnd
  return (matched, { b with journal })

/-- The text as it is now counts as saved. -/
def markSaved (b : Buffer σ) : Narrated (Buffer σ) := do
  let (version, journal) ← b.journal.markSaved
  return { b with journal, savedVersion := version }

/-- Forgets the history. -/
def clearHistory (b : Buffer σ) : Narrated (Buffer σ) := do
  let journal ← b.journal.clear
  { b with journal }.markSaved

/-! ## Changes -/

variable [Storage σ]

def contents (b : Buffer σ) : Text := Storage.contents b.store

/-- The buffer as a diagnostic text. -/
def describe (b : Buffer σ) : String :=
  Diagnostic.record "Buffer"
    [("name", b.name.quoted), ("len_bytes", toString b.contents.byteLength),
      ("log", b.journal.describe), ("saved_version_id", toString b.savedVersion),
      ("transaction_depth", toString b.depth.level)]

/-- Puts a text in at a place; gives the place behind it. -/
def insert (b : Buffer σ) (place : Location) (text : Text) (now : Nat) :
    Narrated (Except UndoError Location × Buffer σ) := do
  let (result, store) ← Storage.insert b.store place text
  let b := { b with store }
  match result with
  | .error cause => return (.error (.storage place cause), b)
  | .ok stop =>
    let (result, b) ← b.record .insert place text now
    return (result.map fun _ => stop, b)

/-- Takes a range out; gives what it held. -/
def delete (b : Buffer σ) (place : Location) (length : Nat) (now : Nat) :
    Narrated (Except UndoError Text × Buffer σ) := do
  let (result, store) ← Storage.delete b.store place length
  let b := { b with store }
  match result with
  | .error cause => return (.error (.storage place cause), b)
  | .ok removed =>
    let (result, b) ← b.record .delete place removed now
    return (result.map fun _ => removed, b)

/-- Takes a step in the history; gives the cursor, or nothing at its end. -/
def step (b : Buffer σ) (direction : HistoryStep) :
    Narrated (Except UndoError (Option Location) × Buffer σ) := do
  let (result, journal, store) ← b.journal.step direction b.store
  return (result, { b with journal, store })

/-! ## Journal files -/

variable {δ : Type} [Disk δ]

/-- Writes the history to a file. -/
def saveHistory (b : Buffer σ) (savedAt : Nat) (path : Path) (d : δ) :
    Narrated (Except JournalFile.Error Unit × δ) :=
  b.journal.save b.contents b.savedVersion savedAt path d

/-- Takes the history and the saved version from a file; gives whether there
was one. -/
def loadHistory (b : Buffer σ) (path : Path) (d : Directory) :
    Narrated (Except JournalFile.Error Bool × Buffer σ) := do
  match ← b.journal.load b.contents path d with
  | .error error => return (.error error, b)
  | .ok none => return (.ok false, b)
  | .ok (some (savedVersion, journal)) => return (.ok true, { b with journal, savedVersion })

/-- As `saveHistory`, where a failure is only told. -/
def saveToFile (b : Buffer σ) (savedAt : Nat) (path : Path) (d : δ) :
    Narrated (Bool × δ) := do
  let (result, d) ← b.saveHistory savedAt path d
  match result with
  | .ok () => return (true, d)
  | .error error =>
    .tell (.journalNotSaved b.name error)
    return (false, d)

/-- As `loadHistory`, where a failure is only told. -/
def loadFromFile (b : Buffer σ) (path : Path) (d : Directory) :
    Narrated (Bool × Buffer σ) := do
  let (result, b) ← b.loadHistory path d
  match result with
  | .ok restored => return (restored, b)
  | .error error =>
    .tell (.journalNotLoaded b.name error)
    return (false, b)

end Buffer

end EditJournal
