/-
EditJournal.JournalFile.Basic — the form in which a journal is kept in a
file, and its JSON.

`toJson` and `ofJson?` name the same members in the same order. A file that
reads well can still hold entries that no journal has; `check` finds the
first flaw, or gives the entries.
-/
import EditJournal.Json.Reader
import EditJournal.Json.Printer
import EditJournal.JournalFile.Error
import EditJournal.Journal.Basic
import EditJournal.Text.Digest

namespace EditJournal

/-- An entry as a file has it; it may lack changes. -/
structure EntryRecord where
  version : Nat
  timestamp : Nat
  group : Option Nat
  savePoint : Bool
  mergeable : Bool
  edits : List Edit
  deriving DecidableEq, Repr

/-- A journal file. -/
structure JournalFile where
  version : Nat := JournalFile.formatVersion
  /-- When it was written, in milliseconds. -/
  savedAt : Nat
  /-- Digest and length of the text that the journal belongs to. -/
  digest : Text
  length : Nat
  position : Nat
  baseVersion : Nat
  nextVersion : Nat
  savedVersion : Nat
  entries : List EntryRecord
  deriving DecidableEq, Repr

namespace JournalFile

/-- The file of a journal whose text is `contents`. -/
def ofJournal (j : Journal) (contents : Text) (savedVersion savedAt : Nat) : JournalFile :=
  { savedAt
    digest := contents.digest
    length := contents.byteLength
    position := j.position
    baseVersion := j.baseVersion
    nextVersion := j.nextVersion
    savedVersion
    entries := j.entries.map fun e =>
      { version := e.version
        timestamp := e.timestamp
        group := e.group
        savePoint := e.savePoint
        mergeable := e.mergeable
        edits := e.edits } }

/-! ## JSON -/

/-- A journal holds no replacements; one would be written as an insertion. -/
def kindWord : EditKind → String
  | .delete => "delete"
  | _ => "insert"

def kinds : List (String × EditKind) := [("insert", .insert), ("delete", .delete)]

def runs : List (String × RunDirection) := [("backward", .backward), ("forward", .forward)]

def ofWord (word : String) : Json := .ofText word.toList

def editJson (e : Edit) : Json :=
  .record
    [("kind", ofWord (kindWord e.kind)), ("line", .ofNat e.place.line),
      ("offset", .ofNat e.place.offset), ("payload", .ofText e.payload),
      ("direction", .ofOption (fun run => ofWord run.label) e.run)]

def entryJson (e : EntryRecord) : Json :=
  .record
    [("version_id", .ofNat e.version), ("timestamp_ms", .ofNat e.timestamp),
      ("group_id", .ofOption .ofNat e.group), ("is_save_point", .bool e.savePoint),
      ("mergeable", .bool e.mergeable), ("edits", .array (e.edits.map editJson))]

def toJson (f : JournalFile) : Json :=
  .record
    [("version", .ofNat f.version), ("saved_at_ms", .ofNat f.savedAt),
      ("content_digest", .ofText f.digest), ("content_len", .ofNat f.length),
      ("position", .ofNat f.position), ("base_version", .ofNat f.baseVersion),
      ("next_version", .ofNat f.nextVersion), ("saved_version", .ofNat f.savedVersion),
      ("entries", .array (f.entries.map entryJson))]

def editOfJson? (v : Json) : Option Edit := do
  match ← v.fullMembers? ["kind", "line", "offset", "payload", "direction"] with
  | [kind, line, offset, payload, run] =>
    let kind ← Json.required? (Json.word? kinds) kind
    let line ← Json.required? Json.nat? line
    let offset ← Json.required? Json.nat? offset
    let payload ← Json.required? Json.text? payload
    let run ← Json.optional? (Json.word? runs) run
    return { kind, place := ⟨line, offset⟩, payload, run }
  | _ => none

def entryOfJson? (v : Json) : Option EntryRecord := do
  match ← v.fullMembers?
    ["version_id", "timestamp_ms", "group_id", "is_save_point", "mergeable", "edits"] with
  | [version, timestamp, group, savePoint, mergeable, edits] =>
    let version ← Json.required? Json.nat? version
    let timestamp ← Json.required? Json.nat? timestamp
    let group ← Json.optional? Json.nat? group
    let savePoint ← Json.required? Json.bool? savePoint
    let mergeable ← Json.required? Json.bool? mergeable
    let edits ← Json.required? (Json.list? editOfJson?) edits
    return { version, timestamp, group, savePoint, mergeable, edits }
  | _ => none

def ofJson? (v : Json) : Option JournalFile := do
  match ← v.fullMembers?
    ["version", "saved_at_ms", "content_digest", "content_len", "position", "base_version",
      "next_version", "saved_version", "entries"] with
  | [version, savedAt, digest, length, position, baseVersion, nextVersion,
    savedVersion, entries] =>
    let version ← Json.required? Json.nat? version
    let savedAt ← Json.required? Json.nat? savedAt
    let digest ← Json.required? Json.text? digest
    let length ← Json.required? Json.nat? length
    let position ← Json.required? Json.nat? position
    let baseVersion ← Json.required? Json.nat? baseVersion
    let nextVersion ← Json.required? Json.nat? nextVersion
    let savedVersion ← Json.required? Json.nat? savedVersion
    let entries ← Json.required? (Json.list? entryOfJson?) entries
    return { version, savedAt, digest, length, position, baseVersion, nextVersion,
             savedVersion, entries }
  | _ => none

/-- The file as text. -/
def print (f : JournalFile) : Text := f.toJson.pretty 0

/-- The file that a text is. -/
def parse? (t : Text) : Option JournalFile := do ofJson? (← Json.parse? t)

/-! ## The entries -/

/-- The entry of a record. -/
def EntryRecord.toEntry (r : EntryRecord) (first : Edit) (more : List Edit) : Entry :=
  { first, more, timestamp := r.timestamp, group := r.group, version := r.version
    savePoint := r.savePoint, mergeable := r.mergeable }

/-- The entries of records from number `index` on. Versions rise from
`previous` and stay below `next`, and each entry has changes. -/
def entriesFrom (next index previous : Nat) : List EntryRecord → Except Flaw (List Entry)
  | [] => .ok []
  | r :: rest =>
    if r.version ≤ previous ∨ next ≤ r.version then .error (.versionOutOfOrder index r.version)
    else
      match r.edits with
      | [] => .error (.noEdits index)
      | first :: more => do
        let entries ← entriesFrom next (index + 1) r.version rest
        return EntryRecord.toEntry r first more :: entries

/-- The entries of a file, or its first flaw. -/
def check (f : JournalFile) : Except Flaw (List Entry) :=
  if f.entries.length < f.position then .error (.positionPastEnd f.position f.entries.length)
  else entriesFrom f.nextVersion 0 f.baseVersion f.entries

end JournalFile

end EditJournal
