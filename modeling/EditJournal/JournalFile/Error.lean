/-
EditJournal.JournalFile.Error — why a journal file was not written or not
taken back.
-/
import EditJournal.Text.Basic

namespace EditJournal.JournalFile

/-- What is wrong with the entries of a well-formed file. -/
inductive Flaw where
  | positionPastEnd (position entries : Nat)
  | versionOutOfOrder (index version : Nat)
  | noEdits (index : Nat)
  deriving DecidableEq, Repr

def Flaw.message : Flaw → String
  | positionPastEnd position entries => s!"position {position} past {entries} entries"
  | versionOutOfOrder index version => s!"entry {index} has out-of-order version {version}"
  | noEdits index => s!"entry {index} has no edits"

/-- The one format version there is. -/
def formatVersion : Nat := 1

/-- Why a journal file was refused, in the order in which it is looked at. -/
inductive Error where
  /-- The file could not be read or written, or is not text. -/
  | io
  /-- The text is not JSON, or not of the journal's form. -/
  | json
  | unsupportedVersion (version : Nat)
  /-- The file belongs to another text. -/
  | digestMismatch (expected actual : Text)
  | corrupt (flaw : Flaw)
  deriving DecidableEq, Repr

/-- The wording of a refusal. -/
def Error.message : Error → String
  | io => "I/O error"
  | json => "JSON error"
  | unsupportedVersion version =>
    s!"unsupported undo journal version: {version} (expected {formatVersion})"
  | digestMismatch expected actual =>
    "undo journal belongs to different text (digest " ++ String.ofList expected ++
      ", buffer " ++ String.ofList actual ++ ")"
  | corrupt flaw => s!"corrupt undo journal: {flaw.message}"

end EditJournal.JournalFile
