/-
EditJournal.Proofs.RefusedFiles — from which files a buffer takes its history, and what
the others leave behind.

* `JournalFile.At f d path` — the bytes at a path are UTF-8, and their text is the file
  `f`.
* `JournalFile.Orderly f` — the position is among the entries, each entry has changes,
  and the versions rise between the base version and the next one.
* `JournalFile.Judged contents path d answer` — the checks in their order, as rules: each
  rule asks that all checks before its own are passed.
* `Buffer.LoadAnswers b path d answer behind` — what each answer of loading means, and
  that the buffer is as before unless the history was taken over.

`load_answers` is the main result: it says this of every buffer, path and directory.

## How the proof goes

`loadHistory_of_judged` computes the answer that a rule gives, and `exists_judged` finds
a rule for every directory. So loading answers what the rules say
(`loadHistory_eq_iff_judged`), and no two rules can meet in one place.
-/
import EditJournal.Proofs.RisingVersions

namespace EditJournal

/-! ## Texts in files -/

/-- A text is read where the bytes of a file are its UTF-8. -/
theorem Directory.readText?_eq_some_iff {d : Directory} {path : Path} {t : Text} :
    d.readText? path = some t ↔ d.node? path = some (.file t.utf8Encode) := by
  unfold readText? read?
  constructor
  · intro h
    obtain ⟨content, at_path, h⟩ := Option.bind_eq_some_iff.mp h
    obtain ⟨characters, decoded, h⟩ := Option.bind_eq_some_iff.mp h
    obtain rfl : characters.toList = t := Option.some.inj h
    have encoded : characters.toList.utf8Encode = content := by
      have back := ByteArray.utf8Encode_get_utf8Decode? (b := content) (h := by simp [decoded])
      simpa [decoded] using back
    split at at_path
    · rename_i bytes node
      obtain rfl := Option.some.inj at_path
      rw [node, encoded]
    · simp at at_path
  · intro node
    simp [node, List.utf8Decode?_utf8Encode]

namespace JournalFile

/-- The path leads to the file: its bytes are UTF-8, and the text is one of this form. -/
def At (f : JournalFile) (d : Directory) (path : Path) : Prop :=
  ∃ t : Text, d.node? path = some (.file t.utf8Encode) ∧ parse? t = some f

theorem load_eq_ok_some_iff_at {f : JournalFile} {d : Directory} {path : Path} :
    load d path = .ok (some f) ↔ f.At d path := by
  simp only [load_eq_ok_some_iff, Directory.readText?_eq_some_iff, At]

/-! ## Files in order -/

/-- The file was written for the text, by its digest and its length. -/
def IsOf (f : JournalFile) (contents : Text) : Prop :=
  f.digest = contents.digest ∧ f.length = contents.byteLength

/-- The position is among the entries, each entry has changes, and the versions rise
between the base version and the next one. -/
structure Orderly (f : JournalFile) : Prop where
  position_le : f.position ≤ f.entries.length
  edits : ∀ r ∈ f.entries, r.edits ≠ []
  rises : (f.entries.map (·.version)).Pairwise (· < ·)
  between : ∀ r ∈ f.entries, f.baseVersion < r.version ∧ r.version < f.nextVersion

/-- Records with changes are those of entries. -/
theorem exists_entries_of_records {records : List EntryRecord}
    (edits : ∀ r ∈ records, r.edits ≠ []) :
    ∃ entries : List Entry, records = entries.map Entry.toRecord := by
  induction records with
  | nil => exact ⟨[], rfl⟩
  | cons r rest ih =>
    rw [List.forall_mem_cons] at edits
    obtain ⟨entries, hrest⟩ := ih edits.2
    obtain ⟨first, more, hedits⟩ := List.exists_cons_of_ne_nil edits.1
    refine ⟨EntryRecord.toEntry r first more :: entries, ?_⟩
    rw [List.map_cons, toRecord_toEntry hedits, ← hrest]

/-- **Which records pass the checks**: those with changes, whose versions rise between
the two bounds. -/
theorem exists_entriesFrom_iff (next index previous : Nat) (records : List EntryRecord) :
    (∃ entries, entriesFrom next index previous records = .ok entries) ↔
      (∀ r ∈ records, r.edits ≠ []) ∧ (records.map (·.version)).Pairwise (· < ·) ∧
        ∀ r ∈ records, previous < r.version ∧ r.version < next := by
  have of_entries (entries : List Entry) :
      Ascending next previous entries ↔
        ((entries.map Entry.toRecord).map (·.version)).Pairwise (· < ·) ∧
          ∀ r ∈ entries.map Entry.toRecord, previous < r.version ∧ r.version < next := by
    rw [ascending_iff_pairwise, List.map_map, List.forall_mem_map]
    rfl
  constructor
  · intro h
    obtain ⟨entries, h⟩ := h
    obtain rfl := records_of_entriesFrom h
    refine ⟨?_, (of_entries entries).mp ((entriesFrom_toRecord _ _ _ _ _).mp h).2⟩
    rw [List.forall_mem_map]
    exact fun e _ => List.cons_ne_nil e.first e.more
  · intro h
    obtain ⟨edits, order⟩ := h
    obtain ⟨entries, rfl⟩ := exists_entries_of_records edits
    exact ⟨entries, (entriesFrom_toRecord _ _ _ _ _).mpr ⟨rfl, (of_entries entries).mpr order⟩⟩

/-- A file passes the checks exactly if it is in order. -/
theorem exists_check_iff (f : JournalFile) :
    (∃ entries, f.check = .ok entries) ↔ f.Orderly := by
  unfold check
  split
  · rename_i past
    constructor
    · simp
    · intro h
      exact absurd h.position_le (Nat.not_le.mpr past)
  · rename_i within
    rw [exists_entriesFrom_iff]
    exact ⟨fun h => ⟨Nat.le_of_not_lt within, h.1, h.2.1, h.2.2⟩,
      fun h => ⟨h.edits, h.rises, h.between⟩⟩

/-- Else they find a flaw. -/
theorem exists_flaw_iff (f : JournalFile) : (∃ flaw, f.check = .error flaw) ↔ ¬ f.Orderly := by
  rw [← exists_check_iff]
  cases f.check <;> simp

/-! ## The checks in their order -/

/-- What the checks of a file answer for a text: the first that is not passed decides. -/
inductive Judged (contents : Text) (path : Path) (d : Directory) : Except Error Bool → Prop
  | missing (nothing : d.node? path = none) : Judged contents path d (.ok false)
  | unread (node : d.node? path ≠ none)
      (unread : ∀ t : Text, d.node? path ≠ some (.file t.utf8Encode)) :
      Judged contents path d (.error .io)
  | unparsed (t : Text) (read : d.node? path = some (.file t.utf8Encode))
      (unparsed : parse? t = none) : Judged contents path d (.error .json)
  | unknown (f : JournalFile) (found : f.At d path) (unknown : f.version ≠ 1) :
      Judged contents path d (.error (.unsupportedVersion f.version))
  | foreign (f : JournalFile) (found : f.At d path) (known : f.version = 1)
      (foreign : ¬ f.IsOf contents) :
      Judged contents path d (.error (.digestMismatch f.digest contents.digest))
  | corrupt (f : JournalFile) (found : f.At d path) (known : f.version = 1)
      (own : f.IsOf contents) (flaw : Flaw) (flawed : f.check = .error flaw) :
      Judged contents path d (.error (.corrupt flaw))
  | taken (f : JournalFile) (found : f.At d path) (known : f.version = 1)
      (own : f.IsOf contents) (entries : List Entry) (checked : f.check = .ok entries) :
      Judged contents path d (.ok true)

/-- For every directory, one of the rules applies. -/
theorem exists_judged (contents : Text) (path : Path) (d : Directory) :
    ∃ answer, Judged contents path d answer := by
  by_cases node : d.node? path = none
  · exact ⟨_, .missing node⟩
  by_cases read : ∃ t : Text, d.node? path = some (.file t.utf8Encode)
  · obtain ⟨t, read⟩ := read
    cases parsed : parse? t with
    | none => exact ⟨_, .unparsed t read parsed⟩
    | some f =>
      have found : f.At d path := ⟨t, read, parsed⟩
      by_cases known : f.version = 1
      · by_cases own : f.IsOf contents
        · cases checked : f.check with
          | error flaw => exact ⟨_, .corrupt f found known own flaw checked⟩
          | ok entries => exact ⟨_, .taken f found known own entries checked⟩
        · exact ⟨_, .foreign f found known own⟩
      · exact ⟨_, .unknown f found known⟩
  · exact ⟨_, .unread node (not_exists.mp read)⟩

section Judged

variable {contents : Text} {path : Path} {d : Directory}

theorem judged_taken_iff :
    Judged contents path d (.ok true) ↔
      ∃ f : JournalFile, f.At d path ∧ f.version = 1 ∧ f.IsOf contents ∧ f.Orderly := by
  constructor
  · intro judged
    cases judged with
    | taken f found known own entries checked =>
      exact ⟨f, found, known, own, f.exists_check_iff.mp ⟨entries, checked⟩⟩
  · intro h
    obtain ⟨f, found, known, own, orderly⟩ := h
    obtain ⟨entries, checked⟩ := f.exists_check_iff.mpr orderly
    exact .taken f found known own entries checked

theorem judged_missing_iff : Judged contents path d (.ok false) ↔ d.node? path = none := by
  constructor
  · intro judged
    cases judged with
    | missing nothing => exact nothing
  · exact .missing

theorem judged_unread_iff :
    Judged contents path d (.error .io) ↔
      d.node? path ≠ none ∧ ∀ t : Text, d.node? path ≠ some (.file t.utf8Encode) := by
  constructor
  · intro judged
    cases judged with
    | unread node unread => exact ⟨node, unread⟩
  · intro h
    exact .unread h.1 h.2

theorem judged_unparsed_iff :
    Judged contents path d (.error .json) ↔
      ∃ t : Text, d.node? path = some (.file t.utf8Encode) ∧ parse? t = none := by
  constructor
  · intro judged
    cases judged with
    | unparsed t read unparsed => exact ⟨t, read, unparsed⟩
  · intro h
    obtain ⟨t, read, unparsed⟩ := h
    exact .unparsed t read unparsed

theorem judged_unknown_iff {version : Nat} :
    Judged contents path d (.error (.unsupportedVersion version)) ↔
      ∃ f : JournalFile, f.At d path ∧ f.version = version ∧ version ≠ 1 := by
  constructor
  · intro judged
    cases judged with
    | unknown f found unknown => exact ⟨f, found, rfl, unknown⟩
  · intro h
    obtain ⟨f, found, rfl, unknown⟩ := h
    exact .unknown f found unknown

theorem judged_foreign_iff {expected actual : Text} :
    Judged contents path d (.error (.digestMismatch expected actual)) ↔
      ∃ f : JournalFile, f.At d path ∧ f.version = 1 ∧ ¬ f.IsOf contents ∧
        expected = f.digest ∧ actual = contents.digest := by
  constructor
  · intro judged
    cases judged with
    | foreign f found known foreign => exact ⟨f, found, known, foreign, rfl, rfl⟩
  · intro h
    obtain ⟨f, found, known, foreign, hexpected, hactual⟩ := h
    rw [hexpected, hactual]
    exact .foreign f found known foreign

theorem judged_corrupt_iff :
    (∃ flaw, Judged contents path d (.error (.corrupt flaw))) ↔
      ∃ f : JournalFile, f.At d path ∧ f.version = 1 ∧ f.IsOf contents ∧ ¬ f.Orderly := by
  constructor
  · intro h
    obtain ⟨flaw, judged⟩ := h
    cases judged with
    | corrupt f found known own flaw flawed =>
      exact ⟨f, found, known, own, f.exists_flaw_iff.mp ⟨flaw, flawed⟩⟩
  · intro h
    obtain ⟨f, found, known, own, disorder⟩ := h
    obtain ⟨flaw, flawed⟩ := f.exists_flaw_iff.mpr disorder
    exact ⟨flaw, .corrupt f found known own flaw flawed⟩

end Judged

end JournalFile

open JournalFile (Judged)

/-! ## Answers -/

namespace Buffer

variable {σ : Type} [Storage σ] {b : Buffer σ} {path : Path} {d : Directory}
  {answer : Except JournalFile.Error Bool}

/-- Unless the history is taken over, nothing is changed. -/
theorem loadHistory_untouched (refused : (b.loadHistory path d).value.1 ≠ .ok true) :
    (b.loadHistory path d).value.2 = b := by
  simp only [loadHistory, Narrated.value_bind] at refused ⊢
  split
  · rfl
  · rfl
  · rename_i loaded
    simp [loaded] at refused

/-- Loading answers for a file that is there as taking it over does. -/
theorem loadHistory_of_at {f : JournalFile} (found : f.At d path) :
    (b.loadHistory path d).value.1 =
      (b.journal.takeOver b.contents path f).value.map fun _ => true := by
  have loaded := JournalFile.load_eq_ok_some_iff_at.mpr found
  simp only [loadHistory, Journal.load, loaded, Narrated.value_bind, Narrated.value_pure]
  cases (b.journal.takeOver b.contents path f).value <;> rfl

/-- **Loading answers what a rule gives.** -/
theorem loadHistory_of_judged (judged : Judged b.contents path d answer) :
    (b.loadHistory path d).value.1 = answer := by
  cases judged with
  | missing nothing => simp [loadHistory, Journal.load, JournalFile.load, nothing]
  | unread node unread =>
    obtain ⟨there, hnode⟩ := Option.ne_none_iff_exists'.mp node
    have no_text : d.readText? path = none := by
      rw [Option.eq_none_iff_forall_ne_some]
      exact fun t ht => unread t (Directory.readText?_eq_some_iff.mp ht)
    simp [loadHistory, Journal.load, JournalFile.load, hnode, no_text]
  | unparsed t read unparsed =>
    have text := Directory.readText?_eq_some_iff.mpr read
    simp [loadHistory, Journal.load, JournalFile.load, read, text, unparsed]
  | unknown f found unknown =>
    rw [loadHistory_of_at found]
    simp [Journal.takeOver, JournalFile.formatVersion, unknown, Except.map]
  | foreign f found known foreign =>
    have differs : f.digest ≠ b.contents.digest ∨ f.length ≠ b.contents.byteLength :=
      Decidable.not_and_iff_not_or_not.mp foreign
    rw [loadHistory_of_at found]
    simp [Journal.takeOver, JournalFile.formatVersion, known, differs, Except.map]
  | corrupt f found known own flaw flawed =>
    rw [loadHistory_of_at found]
    simp [Journal.takeOver, JournalFile.formatVersion, known, own.1, own.2, flawed, Except.map]
  | taken f found known own entries checked =>
    rw [loadHistory_of_at found]
    simp [Journal.takeOver, JournalFile.formatVersion, known, own.1, own.2,
      checked, Except.map]

/-- **What loading answers.** -/
theorem loadHistory_eq_iff_judged :
    (b.loadHistory path d).value.1 = answer ↔ Judged b.contents path d answer := by
  constructor
  · intro h
    obtain ⟨judgment, judged⟩ := JournalFile.exists_judged b.contents path d
    obtain rfl := (loadHistory_of_judged judged).symm.trans h
    exact judged
  · exact loadHistory_of_judged

/-- What each answer of loading means, and what the buffer is behind it. -/
structure LoadAnswers (b : Buffer σ) (path : Path) (d : Directory)
    (answer : Except JournalFile.Error Bool) (behind : Buffer σ) : Prop where
  taken : answer = .ok true ↔
    ∃ f : JournalFile, f.At d path ∧ f.version = 1 ∧ f.IsOf b.contents ∧ f.Orderly
  missing : answer = .ok false ↔ d.node? path = none
  io : answer = .error .io ↔
    d.node? path ≠ none ∧ ∀ t : Text, d.node? path ≠ some (.file t.utf8Encode)
  json : answer = .error .json ↔
    ∃ t : Text, d.node? path = some (.file t.utf8Encode) ∧ JournalFile.parse? t = none
  unknown (version : Nat) : answer = .error (.unsupportedVersion version) ↔
    ∃ f : JournalFile, f.At d path ∧ f.version = version ∧ version ≠ 1
  foreign (expected actual : Text) : answer = .error (.digestMismatch expected actual) ↔
    ∃ f : JournalFile, f.At d path ∧ f.version = 1 ∧ ¬ f.IsOf b.contents ∧
      expected = f.digest ∧ actual = b.contents.digest
  corrupt : (∃ flaw, answer = .error (.corrupt flaw)) ↔
    ∃ f : JournalFile, f.At d path ∧ f.version = 1 ∧ f.IsOf b.contents ∧ ¬ f.Orderly
  untouched : answer ≠ .ok true → behind = b
  unnoticed : answer ≠ .ok true → ∀ (screen : Screen) (actions : List Action),
    Session.run { buffer := behind, screen } actions =
      Session.run { buffer := b, screen } actions

end Buffer

/-- **From which files a buffer takes its history**, and what all others answer: for every
buffer, every path and every directory. A file that is refused leaves the buffer as it
was, whatever is done with it afterwards. -/
theorem load_answers {σ : Type} [Storage σ] (b : Buffer σ) (path : Path) (d : Directory) :
    b.LoadAnswers path d (b.loadHistory path d).value.1 (b.loadHistory path d).value.2 where
  taken := Buffer.loadHistory_eq_iff_judged.trans JournalFile.judged_taken_iff
  missing := Buffer.loadHistory_eq_iff_judged.trans JournalFile.judged_missing_iff
  io := Buffer.loadHistory_eq_iff_judged.trans JournalFile.judged_unread_iff
  json := Buffer.loadHistory_eq_iff_judged.trans JournalFile.judged_unparsed_iff
  unknown _ := Buffer.loadHistory_eq_iff_judged.trans JournalFile.judged_unknown_iff
  foreign _ _ := Buffer.loadHistory_eq_iff_judged.trans JournalFile.judged_foreign_iff
  corrupt := by
    simp only [Buffer.loadHistory_eq_iff_judged]
    exact JournalFile.judged_corrupt_iff
  untouched := Buffer.loadHistory_untouched
  unnoticed refused screen actions := by rw [Buffer.loadHistory_untouched refused]

/-- A directory is no file, and a brace is no journal. -/
example (b : Buffer Text) :
    let d : Directory :=
      { nodes := [([['h']], .directory), ([['j']], .file ['{'].utf8Encode)] }
    (b.loadHistory [['h']] d).value.1 = .error .io ∧
      (b.loadHistory [['j']] d).value.1 = .error .json :=
  ⟨rfl, rfl⟩

end EditJournal
