import EditJournal.Buffer
import EditJournal.Clock
import EditJournal.Coalesce
import EditJournal.Command
import EditJournal.Diagnostic
import EditJournal.Display.Brackets
import EditJournal.Display.Resize
import EditJournal.Edit
import EditJournal.Entry
import EditJournal.Event
import EditJournal.Files.Directory
import EditJournal.Files.Path
import EditJournal.Grouping
import EditJournal.Journal.Basic
import EditJournal.Journal.Describe
import EditJournal.Journal.Record
import EditJournal.Journal.Restore
import EditJournal.Journal.Step
import EditJournal.JournalFile.Basic
import EditJournal.JournalFile.Error
import EditJournal.JournalFile.Storing
import EditJournal.Json.Basic
import EditJournal.Json.Literal
import EditJournal.Json.Printer
import EditJournal.Json.Reader
import EditJournal.Narrated
import EditJournal.Policy.Basic
import EditJournal.Policy.Reading
import EditJournal.Replay
import EditJournal.Session
import EditJournal.Storage
import EditJournal.Text.Basic
import EditJournal.Text.CharTables
import EditJournal.Text.Digest
import EditJournal.Text.Location
import EditJournal.Text.Quoted
import EditJournal.Text.Splice
import EditJournal.Text.WordEdge
import EditJournal.Toml.Basic
import EditJournal.Toml.Lexeme
import EditJournal.Toml.Reader
import EditJournal.Total
import EditJournal.UndoError
import EditJournal.Word
import EditJournal.Proofs.Places
import EditJournal.Proofs.Splices
import EditJournal.Proofs.Addresses
import EditJournal.Proofs.Walks
import EditJournal.Proofs.ByteSplices
import EditJournal.Proofs.Replaying
import EditJournal.Proofs.HistorySteps
import EditJournal.Proofs.Coalescing
import EditJournal.Proofs.DeletionSides
import EditJournal.Proofs.Ledger
import EditJournal.Proofs.Bookkeeping
import EditJournal.Proofs.Runs
import EditJournal.Proofs.Timeline
import EditJournal.Proofs.SavePoints
import EditJournal.Proofs.Literals
import EditJournal.Proofs.JsonText
import EditJournal.Proofs.FileFormat
import EditJournal.Proofs.SavedHistory
import EditJournal.Proofs.Acceptance
import EditJournal.Proofs.Soundness
import EditJournal.Proofs.Operations
import EditJournal.Proofs.Requests
import EditJournal.Proofs.Reachable
import EditJournal.Proofs.TrailingRuns
import EditJournal.Proofs.Continuity
import EditJournal.Proofs.Evictions
import EditJournal.Proofs.BoundedHistory
import EditJournal.Proofs.Changes
import EditJournal.Proofs.PastGroups
import EditJournal.Proofs.GroupBrackets
import EditJournal.Proofs.RisingVersions
import EditJournal.Proofs.RestoredEntries
import EditJournal.Proofs.LoadedSavePoint
import EditJournal.Proofs.FaultyReplay
import EditJournal.Proofs.RefusedCalls
import EditJournal.Proofs.Lifetimes
import EditJournal.Proofs.RefusedFiles
import EditJournal.Proofs.Publishing
import EditJournal.Proofs.ResizeRequests
import EditJournal.Proofs.TrimmedHistory
import EditJournal.Proofs.ByteBalance
import EditJournal.Proofs.TypingRuns
import EditJournal.Proofs.TypedWords
import EditJournal.Proofs.DeletionRuns
import EditJournal.Proofs.Commands
import EditJournal.Proofs.Cursors
import EditJournal.Proofs.SavePointMarks
import EditJournal.Proofs.IdleCalls
import EditJournal.Proofs.DigestWindows
import EditJournal.Proofs.Headroom
import EditJournal.Proofs.AtomicSaves
import EditJournal.Proofs.PolicySummary
import EditJournal.Proofs.Warnings
import EditJournal.Proofs.LineTable
import EditJournal.Proofs.OpenRun
import EditJournal.Proofs.EntryShapes
import EditJournal.Proofs.TomlText
import EditJournal.Proofs.PolicyFormats
