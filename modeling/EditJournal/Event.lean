/-
EditJournal.Event — what operations tell on the way, at four levels.

An event is the thing that happened; its level, its topic, its message and
its named fields are read off it. A warning or an error means that something
was lost or refused; everything else is routine.
-/
import EditJournal.Coalesce
import EditJournal.Diagnostic
import EditJournal.UndoError
import EditJournal.JournalFile.Error

namespace EditJournal

inductive Level where
  | trace
  | debug
  | warn
  | error
  deriving DecidableEq, Repr

def Level.label : Level → String
  | trace => "TRACE"
  | debug => "DEBUG"
  | warn => "WARN"
  | error => "ERROR"

/-- The value of a field. -/
inductive FieldValue where
  | num (n : Nat)
  | flag (b : Bool)
  | text (s : String)
  deriving DecidableEq, Repr

/-- Why room for entries is not reserved. -/
inductive RoomRefusal where
  /-- They take more bytes than can be addressed. -/
  | unaddressable
  /-- The allocator does not grant them. -/
  | denied
  deriving DecidableEq, Repr

def RoomRefusal.reason : RoomRefusal → String
  | unaddressable =>
    "memory allocation failed because the computed capacity exceeded the collection's maximum"
  | denied => "memory allocation failed because the memory allocator returned an error"

/-- What happened. -/
inductive Event where
  /-- A text was put into a storage. -/
  | inserted (place : Location) (length : Nat)
  /-- A range was taken out of a storage. -/
  | deleted (place : Location) (length : Nat)
  /-- The journal could not reserve the entries asked for. -/
  | reservationRefused (requested fallback : Nat) (cause : RoomRefusal)
  | recordSuppressed (kind : EditKind)
  /-- A change too large to be joined. -/
  | oversized (bytes cap : Nat)
  /-- A change did not join the entry before it. -/
  | entryStarted (refusal : Refusal) (kind : EditKind)
  | grown (old new : Nat)
  /-- The allocator did not let the journal grow. -/
  | growthRefused (capacity : Nat)
  | evicted (version capacity : Nat)
  | redoDiscarded (dropped : Nat)
  | groupBegun (depth : Nat)
  | groupEndUnmatched (position : Nat)
  | groupEndNested (depth : Nat)
  | groupClosed (group : Nat)
  | savePointMarked (version position : Nat)
  | cleared (base : Nat)
  | restoreTrimmed (loaded kept redoDropped ceiling : Nat)
  | stepFailed (step : HistoryStep) (error : UndoError)
  | stepApplied (step : HistoryStep) (position : Nat) (cursor : Location)
  /-- A finished part of a failed step could not be taken back. -/
  | rollbackFailed (step : HistoryStep) (error : UndoError)
  | commandRun (step : HistoryStep) (requested applied : Nat) (exhausted failed : Bool)
      (cursor : Option Location)
  | journalSaved (path : Text) (entries : Nat)
  | journalForeign (path : Text)
  | journalLoaded (path : Text) (entries position : Nat)
  | journalNotSaved (buffer : Text) (error : JournalFile.Error)
  | journalNotLoaded (buffer : Text) (error : JournalFile.Error)
  | bracketBegun (depth : Nat)
  | commitUnmatched
  | commitNested (depth : Nat)
  | commitPublished (previous : Nat)
  | abortPublished (previous : Nat)
  | resizeHandlerInstalled
  | resizeDeferred (depth : Nat)
  | resizeApplied
  deriving DecidableEq, Repr

namespace Event

def level : Event → Level
  | inserted .. | deleted .. | recordSuppressed _ | entryStarted .. | groupBegun _
  | groupEndNested _ | groupClosed _ | bracketBegun _ | commitNested _ | resizeDeferred _
  | resizeApplied => .trace
  | grown .. | redoDiscarded _ | savePointMarked .. | cleared _ | stepApplied ..
  | commandRun ..
  | journalSaved .. | journalLoaded .. | commitPublished _ | abortPublished _
  | resizeHandlerInstalled => .debug
  | reservationRefused .. | oversized .. | growthRefused _ | evicted .. | groupEndUnmatched _
  | restoreTrimmed .. | stepFailed .. | journalForeign _ | journalNotSaved ..
  | journalNotLoaded .. | commitUnmatched => .warn
  | rollbackFailed .. => .error

/-- The part of the program an event belongs to. -/
def topic : Event → String
  | inserted .. | deleted .. => "quill.text"
  | bracketBegun _ | commitUnmatched | commitNested _ | commitPublished _ | abortPublished _ =>
    "quill.transaction"
  | resizeHandlerInstalled | resizeDeferred _ | resizeApplied => "quill.resize"
  | _ => "quill.undo"

def message : Event → String
  | inserted .. => "insert"
  | deleted .. => "delete"
  | reservationRefused .. => "undo log reservation refused; starting small"
  | recordSuppressed _ => "record suppressed during replay"
  | oversized .. => "edit exceeds per-entry cap; stored as a single entry"
  | entryStarted .. => "starting new entry"
  | grown .. => "undo log grown"
  | growthRefused _ => "undo log growth failed; evicting oldest entry"
  | evicted .. => "undo log full; oldest entry evicted"
  | redoDiscarded _ => "redo tail discarded"
  | groupBegun _ => "group begin"
  | groupEndUnmatched _ => "group_end without matching group_begin"
  | groupEndNested _ => "group end (nested)"
  | groupClosed _ => "group closed"
  | savePointMarked .. => "save point marked"
  | cleared _ => "undo log cleared"
  | restoreTrimmed .. => "restored history trimmed to fit"
  | stepFailed step _ => s!"{step.verb} failed; log unchanged"
  | stepApplied step _ _ => s!"{step.verb} applied"
  | rollbackFailed step _ => s!"rollback after failed {step.verb} step also failed"
  | commandRun .. => "history command"
  | journalSaved .. => "undo journal saved"
  | journalForeign _ => "undo journal does not match buffer contents; ignored"
  | journalLoaded .. => "undo journal loaded"
  | journalNotSaved .. => "undo journal not saved"
  | journalNotLoaded .. => "undo journal not loaded"
  | bracketBegun _ => "edit begin"
  | commitUnmatched => "edit_commit without matching edit_begin"
  | commitNested _ => "edit commit (nested)"
  | commitPublished _ => "edit commit; publishing"
  | abortPublished _ => "edit abort; publishing"
  | resizeHandlerInstalled => "resize handler installed"
  | resizeDeferred _ => "resize deferred"
  | resizeApplied => "resize applied"

/-- A cursor as a diagnostic text, none included. -/
def cursorText : Option Location → String
  | none => "None"
  | some l =>
    "Some(" ++
      Diagnostic.record "Location"
        [("line", toString l.line), ("offset", toString l.offset)] ++ ")"

/-- The named values of an event. -/
def fields : Event → List (String × FieldValue)
  | inserted place length => [("at", .text place.display), ("len", .num length)]
  | deleted place length => [("at", .text place.display), ("len", .num length)]
  | reservationRefused requested fallback cause =>
    [("requested", .num requested), ("fallback", .num fallback),
      ("error", .text cause.reason)]
  | recordSuppressed kind => [("kind", .text kind.label)]
  | oversized bytes cap => [("bytes", .num bytes), ("cap", .num cap)]
  | entryStarted refusal kind => [("reason", .text refusal.reason), ("kind", .text kind.label)]
  | grown old new => [("from", .num old), ("to", .num new)]
  | growthRefused capacity =>
    [("capacity", .num capacity), ("error", .text RoomRefusal.denied.reason)]
  | evicted version capacity => [("version", .num version), ("capacity", .num capacity)]
  | redoDiscarded dropped => [("dropped", .num dropped)]
  | groupBegun depth => [("depth", .num depth)]
  | groupEndUnmatched position => [("position", .num position)]
  | groupEndNested depth => [("depth", .num depth)]
  | groupClosed group => [("group", .num group)]
  | savePointMarked version position =>
    [("version", .num version), ("position", .num position)]
  | cleared base => [("base", .num base)]
  | restoreTrimmed loaded kept redoDropped ceiling =>
    [("loaded", .num loaded), ("kept", .num kept), ("redo_dropped", .num redoDropped),
      ("ceiling", .num ceiling)]
  | stepFailed _ error => [("error", .text error.message)]
  | stepApplied _ position cursor =>
    [("position", .num position), ("cursor", .text cursor.display)]
  | rollbackFailed _ error => [("error", .text error.message)]
  | commandRun step requested applied exhausted failed cursor =>
    [("command", .text step.verb), ("requested", .num requested), ("applied", .num applied),
      ("exhausted", .flag exhausted), ("failed", .flag failed),
      ("cursor", .text (cursorText cursor))]
  | journalSaved path entries =>
    [("path", .text (String.ofList path)), ("entries", .num entries)]
  | journalForeign path => [("path", .text (String.ofList path))]
  | journalLoaded path entries position =>
    [("path", .text (String.ofList path)), ("entries", .num entries),
      ("position", .num position)]
  | journalNotSaved buffer error =>
    [("buffer", .text (String.ofList buffer)), ("error", .text error.message)]
  | journalNotLoaded buffer error =>
    [("buffer", .text (String.ofList buffer)), ("error", .text error.message)]
  | bracketBegun depth => [("depth", .num depth)]
  | commitUnmatched => [("previous", .num 0)]
  | commitNested depth => [("depth", .num depth)]
  | commitPublished previous => [("previous", .num previous)]
  | abortPublished previous => [("previous", .num previous)]
  | resizeHandlerInstalled => [("signal", .text "SIGWINCH")]
  | resizeDeferred depth => [("depth", .num depth)]
  | resizeApplied => []

end Event

/-- The history step during which something happened. -/
structure Span where
  step : HistoryStep
  index : Nat
  version : Nat
  /-- How many changes the entry of the step holds. -/
  edits : Nat
  deriving DecidableEq, Repr

def Span.fields (s : Span) : List (String × FieldValue) :=
  [("index", .num s.index), ("version", .num s.version), ("edits", .num s.edits)]

/-- An event, and the history step around it if there is one. -/
structure Note where
  event : Event
  span : Option Span := none
  deriving DecidableEq, Repr

end EditJournal
