/-
EditJournal.JournalFile.Storing — writing a journal to a file and taking it
back.

A journal is written to a temporary file first, which then takes the place of
the old one, so that a failure leaves the old one as it was. It is taken back
only for the text it was written for.
-/
import EditJournal.JournalFile.Basic
import EditJournal.Journal.Restore
import EditJournal.Files.Disk

namespace EditJournal

namespace JournalFile

/-- Extension of the file that is written before it takes its place. -/
def temporaryExtension : Text := "undo.tmp".toList

/-- The file at a path, if there is one. -/
def load (d : Directory) (path : Path) : Except Error (Option JournalFile) :=
  match d.node? path with
  | none => .ok none
  | some _ =>
    match d.readText? path with
    | none => .error .io
    | some text =>
      match parse? text with
      | none => .error .json
      | some file => .ok (some file)

end JournalFile

namespace Journal

open JournalFile

/-- Writes the journal of a text to a file. -/
def save {δ : Type} [Disk δ] (j : Journal) (contents : Text) (savedVersion savedAt : Nat)
    (path : Path) (d : δ) : Narrated (Except JournalFile.Error Unit × δ) :=
  let file := JournalFile.ofJournal j contents savedVersion savedAt
  let temporary := path.withExtension temporaryExtension
  match Disk.write d temporary file.print with
  | (false, d) => return (.error .io, d)
  | (true, d) =>
    match Disk.rename d temporary path with
    | (false, d) => return (.error .io, d)
    | (true, d) => do
      .tell (.journalSaved path.toText file.entries.length)
      return (.ok (), d)

section Saves

variable {δ : Type} [Disk δ] (j : Journal) (contents : Text) (savedVersion savedAt : Nat)
  (path : Path) (d : δ)

/-- What a save comes to: the file is not written; or it is, and not moved; or it is moved
as well, and that alone is a success. -/
theorem save_cases :
    let text := (JournalFile.ofJournal j contents savedVersion savedAt).print
    let temporary := path.withExtension temporaryExtension
    let saved := j.save contents savedVersion savedAt path d
    (∃ kept, Disk.write d temporary text = (false, kept) ∧ saved = ⟨(.error .io, kept), []⟩) ∨
    ∃ written, Disk.write d temporary text = (true, written) ∧
      ((∃ kept, Disk.rename written temporary path = (false, kept) ∧
          saved = ⟨(.error .io, kept), []⟩) ∨
        ∃ moved, Disk.rename written temporary path = (true, moved) ∧
          saved = ⟨(.ok (), moved), [⟨.journalSaved path.toText
            (JournalFile.ofJournal j contents savedVersion savedAt).entries.length,
              none⟩]⟩) := by
  intro text temporary saved
  rcases write : Disk.write d temporary text with ⟨_ | _, next⟩
  · exact Or.inl ⟨next, rfl, by simp only [saved, save, write, text, temporary]; rfl⟩
  refine Or.inr ⟨next, rfl, ?_⟩
  rcases move : Disk.rename next temporary path with ⟨_ | _, last⟩
  · exact Or.inl ⟨last, rfl, by simp only [saved, save, write, move, text, temporary]; rfl⟩
  · exact Or.inr ⟨last, rfl, by simp only [saved, save, write, move, text, temporary]; rfl⟩

end Saves

/-- Takes over the history of a file, if it is one of this text; gives its
saved version. -/
def takeOver (j : Journal) (contents : Text) (path : Path) (file : JournalFile) :
    Narrated (Except JournalFile.Error (Nat × Journal)) :=
  if file.version ≠ formatVersion then return .error (.unsupportedVersion file.version)
  else if file.digest ≠ contents.digest ∨ file.length ≠ contents.byteLength then do
    .tell (.journalForeign path.toText)
    return .error (.digestMismatch file.digest contents.digest)
  else
    match file.check with
    | .error flaw => return .error (.corrupt flaw)
    | .ok entries => do
      let j ← j.restore entries file.position file.baseVersion file.nextVersion
      .tell (.journalLoaded path.toText entries.length j.position)
      return .ok (file.savedVersion, j)

/-- Takes the history of a text back from a file; nothing if there is no
file. A file that is refused changes nothing. -/
def load (j : Journal) (contents : Text) (path : Path) (d : Directory) :
    Narrated (Except JournalFile.Error (Option (Nat × Journal))) :=
  match JournalFile.load d path with
  | .error error => return .error error
  | .ok none => return .ok none
  | .ok (some file) => do
    let taken ← j.takeOver contents path file
    return taken.map some

end Journal

end EditJournal
