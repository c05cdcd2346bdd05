/-
EditJournal.Proofs.SavedHistory — a history that was saved is loaded as it was.

* `Directory.readText?_rename` — the text that was written to a temporary file is
  what is read where that file was moved.
* `JournalFile.check_ofJournal_eq_ok_iff` — the entries of a journal pass the
  checks of a file exactly if its versions rise and its position is among them.
* `Journal.value_restore_of_le` — entries that fit are taken over as they are.
* `Journal.load_save_eq_ok_iff` — when a saved history is loaded, and what the
  journal is then.

`saved_history_is_loaded` is the main result: for every journal whose versions
rise, every text and every saved version.
-/
import EditJournal.JournalFile.Storing
import EditJournal.Proofs.FileFormat

namespace EditJournal

/-! ## The directory -/

namespace Directory

theorem find?_remove_self {d : Directory} {a : Address} (h : a.isAbove = false) :
    (d.remove a).find? a = none := by
  simp [find?, remove, h, List.find?_filter]

/-- Taking away what is no directory changes no directory. -/
theorem isDirectory_remove {d : Directory} {a : Address} (h : d.isDirectory a = false)
    (b : Address) : (d.remove a).isDirectory b = d.isDirectory b := by
  by_cases hb : b = a
  · subst hb
    have below : b.isAbove = false := by
      cases hb : b.isAbove
      · rfl
      · simp [isDirectory, find?, hb] at h
    rw [h]
    simp [isDirectory, find?_remove_self below]
  · simp [isDirectory, find?_remove_of_ne hb]

theorem address?_remove {d : Directory} {a : Address} (h : d.isDirectory a = false)
    (p : Path) :
    (d.remove a).address? p = d.address? p := by
  have enter : (d.remove a).enter? = d.enter? := by
    funext b name
    simp [enter?, isDirectory_remove h]
  rw [address?, address?, enter]

theorem place?_eq_some_iff (d : Directory) (p : Path) (a : Address) :
    d.place? p = some a ↔ d.address? p = some a ∧ d.isDirectory a = false := by
  simp [place?, Option.filter_eq_some_iff]

theorem isAbove_of_isDirectory {d : Directory} {a : Address} (h : d.isDirectory a = false) :
    a.isAbove = false := by
  cases ha : a.isAbove
  · rfl
  · simp [isDirectory, find?, ha] at h

/-- Where a file was put, its bytes are read. -/
theorem node?_put {d : Directory} {p : Path} {a : Address} (content : ByteArray)
    (hp : d.address? p = some a) (ha : d.isDirectory a = false) :
    (d.put a (.file content)).node? p = some (.file content) := by
  rw [node?, address?_put_file ha, hp, Option.bind_some,
    find?_put_self (isAbove_of_isDirectory ha)]

/-- What writing a text does, where it can be done. -/
theorem writeText?_eq_some_iff {d d' : Directory} {p : Path} {t : Text} :
    d.writeText? p t = some d' ↔
      ∃ a, d.address? p = some a ∧ d.isDirectory a = false ∧
        d' = d.put a (.file (String.ofList t).toByteArray) := by
  simp only [writeText?, write?, Option.bind_eq_bind, Option.bind_eq_some_iff, Option.pure_def,
    Option.some.injEq, place?_eq_some_iff, and_assoc, eq_comm (b := d')]

theorem read?_eq_some_iff {d : Directory} {p : Path} {content : ByteArray} :
    d.read? p = some content ↔ d.node? p = some (.file content) := by
  unfold read?
  split <;> simp_all

/-- What moving a file does, where it can be done. -/
theorem rename?_eq_some_iff {d d' : Directory} {source target : Path} :
    d.rename? source target = some d' ↔
      ∃ content, d.node? source = some (.file content) ∧
        ∃ a, d.address? source = some a ∧ d.isDirectory a = false ∧
          ∃ b, d.address? target = some b ∧ d.isDirectory b = false ∧
            d' = (d.remove a).put b (.file content) := by
  simp only [rename?, Option.bind_eq_bind, Option.bind_eq_some_iff, Option.pure_def,
    Option.some.injEq, place?_eq_some_iff, read?_eq_some_iff, and_assoc, eq_comm (b := d')]

/-- **A text that was written to a file and moved with it is read from its new
place.** -/
theorem readText?_rename {d written renamed : Directory} {temporary path : Path} {t : Text}
    (hwrite : d.writeText? temporary t = some written)
    (hrename : written.rename? temporary path = some renamed) :
    ∃ content, renamed.node? path = some (.file content) ∧
      renamed.readText? path = some t := by
  obtain ⟨a, haddress, ha, rfl⟩ := writeText?_eq_some_iff.mp hwrite
  obtain ⟨content, hnode, source, -, hsource, target, hpath, htarget, rfl⟩ :=
    rename?_eq_some_iff.mp hrename
  obtain rfl : (String.ofList t).toByteArray = content := by
    simpa [node?_put _ haddress ha] using hnode
  -- the temporary file is gone, but no directory is
  have moved := node?_put (String.ofList t).toByteArray
    ((address?_remove hsource path).trans hpath)
      ((isDirectory_remove hsource target).trans htarget)
  refine ⟨_, moved, ?_⟩
  rw [readText?, read?_eq_some_iff.mpr moved]
  simp [String.toByteArray_ofList, List.utf8Decode?_utf8Encode]

end Directory

/-! ## The checks of a file -/

/-- The record of an entry. -/
def Entry.toRecord (e : Entry) : EntryRecord :=
  { version := e.version
    timestamp := e.timestamp
    group := e.group
    savePoint := e.savePoint
    mergeable := e.mergeable
    edits := e.edits }

/-- The versions of entries rise from `previous` and stay below `next`. -/
def Ascending (next : Nat) : Nat → List Entry → Prop
  | _, [] => True
  | previous, e :: rest =>
    previous < e.version ∧ e.version < next ∧ Ascending next e.version rest

instance decidableAscending (next previous : Nat) :
    (entries : List Entry) → Decidable (Ascending next previous entries)
  | [] => isTrue trivial
  | e :: rest =>
    have : Decidable (Ascending next e.version rest) := decidableAscending next e.version rest
    inferInstanceAs (Decidable (_ ∧ _ ∧ _))

namespace JournalFile

theorem ofJournal_entries (j : Journal) (contents : Text) (savedVersion savedAt : Nat) :
    (ofJournal j contents savedVersion savedAt).entries = j.entries.map Entry.toRecord := rfl

theorem entriesFrom_toRecord (next index previous : Nat) (entries found : List Entry) :
    entriesFrom next index previous (entries.map Entry.toRecord) = .ok found ↔
      found = entries ∧ Ascending next previous entries := by
  induction entries generalizing index previous found with
  | nil => simp [entriesFrom, Ascending, eq_comm]
  | cons e rest ih =>
    have version : e.toRecord.version = e.version := rfl
    have edits : e.toRecord.edits = e.first :: e.more := rfl
    have back : EntryRecord.toEntry e.toRecord e.first e.more = e := rfl
    rw [List.map_cons, entriesFrom, version]
    split
    · rename_i flaw
      simp only [reduceCtorEq, Ascending, false_iff]
      omega
    · rename_i sound
      obtain ⟨above, below⟩ : previous < e.version ∧ e.version < next := by omega
      simp only [edits, back, Ascending, above, below, true_and]
      cases hrest : entriesFrom next (index + 1) e.version (rest.map Entry.toRecord) with
      | error flaw =>
        have := (ih (index + 1) e.version rest).mpr
        simp only [hrest, reduceCtorEq, imp_false, true_and] at this
        simp [bind, Except.bind, this]
      | ok es =>
        obtain ⟨rfl, ascending⟩ := (ih (index + 1) e.version es).mp hrest
        simp [bind, Except.bind, pure, Except.pure, ascending, eq_comm]

/-- The file of a journal passes the checks exactly if the journal is in order. -/
theorem check_ofJournal_eq_ok_iff (j : Journal) (contents : Text) (savedVersion savedAt : Nat)
    (found : List Entry) :
    (ofJournal j contents savedVersion savedAt).check = .ok found ↔
      found = j.entries ∧ j.position ≤ j.entries.length ∧
        Ascending j.nextVersion j.baseVersion j.entries := by
  have length : (ofJournal j contents savedVersion savedAt).entries.length =
      j.entries.length := by
    rw [ofJournal_entries, List.length_map]
  have position : (ofJournal j contents savedVersion savedAt).position = j.position := rfl
  rw [check, length, position]
  split
  · rename_i past
    simp only [reduceCtorEq, false_iff]
    omega
  · rename_i sound
    have within : j.position ≤ j.entries.length := by omega
    simp only [within, true_and]
    exact entriesFrom_toRecord _ _ _ _ _

end JournalFile

/-! ## Taking a history over -/

namespace Journal

theorem dropOldest_of_le {ceiling : Nat} {entries : List Entry} (h : entries.length ≤ ceiling)
    (position base : Nat) :
    dropOldest ceiling entries position base = (entries, position, base) := by
  unfold dropOldest
  split
  · rename_i oldest rest position
    have few : ¬ ceiling < rest.length + 1 := Nat.not_lt.mpr h
    rw [if_neg few]
  · rfl

/-- The journal with a history in place of its own. -/
def withHistory (j : Journal) (entries : List Entry) (position base next : Nat) : Journal :=
  { j with
    entries
    position
    capacity := min (max j.capacity entries.length) j.config.ceiling
    totalBytes := total Entry.size entries
    baseVersion := base
    nextVersion := max next j.nextVersion
    grouping := (j.grouping.reserve (newestGroup entries)).endRun }

/-- What is kept of a history: entries, position and base version. -/
def kept (j : Journal) (entries : List Entry) (position base : Nat) : List Entry × Nat × Nat :=
  let position := min position entries.length
  let redoDropped := min (entries.length - j.config.ceiling) (entries.length - position)
  dropOldest j.config.ceiling (entries.take (entries.length - redoDropped)) position base

theorem value_restore (j : Journal) (entries : List Entry) (position base next : Nat) :
    (j.restore entries position base next).value =
      j.withHistory (j.kept entries position base).1 (j.kept entries position base).2.1
        (j.kept entries position base).2.2 next := by
  unfold restore
  simp only [kept]
  split <;> rfl

/-- **A history that fits is taken over as it is.** -/
theorem value_restore_of_le {j : Journal} {entries : List Entry} {position : Nat}
    (fits : entries.length ≤ j.config.ceiling) (within : position ≤ entries.length)
    (base next : Nat) :
    (j.restore entries position base next).value =
      j.withHistory entries position base next := by
  have none_dropped : min (entries.length - j.config.ceiling)
      (entries.length - position) = 0 := by
    omega
  have kept : j.kept entries position base = (entries, position, base) := by
    simp [Journal.kept, Nat.min_eq_left within, none_dropped, dropOldest_of_le fits]
  rw [value_restore, kept]

/-! ## Saving and loading -/

/-- The changes of a journal are insertions and deletions. -/
def Plain (j : Journal) : Prop := ∀ entry ∈ j.entries, ∀ e ∈ entry.edits, e.kind ≠ .replace

instance (j : Journal) : Decidable j.Plain :=
  inferInstanceAs (Decidable (∀ entry ∈ j.entries, ∀ e ∈ entry.edits, e.kind ≠ .replace))

theorem Plain.ofJournal {j : Journal} (plain : j.Plain) (contents : Text)
    (savedVersion savedAt : Nat) :
    (JournalFile.ofJournal j contents savedVersion savedAt).Plain := by
  intro r hr
  rw [JournalFile.ofJournal_entries] at hr
  obtain ⟨entry, hentry, rfl⟩ := List.mem_map.mp hr
  exact plain entry hentry

/-- Where a journal was saved, the text of its file is read. -/
theorem readText?_of_save {j : Journal} {contents : Text} {savedVersion savedAt : Nat}
    {path : Path} {d d' : Directory}
    (saved : (j.save contents savedVersion savedAt path d).value = (.ok (), d')) :
    ∃ content, d'.node? path = some (.file content) ∧
      d'.readText? path =
        some (JournalFile.ofJournal j contents savedVersion savedAt).print := by
  rcases j.save_cases contents savedVersion savedAt path d with
    ⟨kept, -, came⟩ | ⟨written, write, ⟨kept, -, came⟩ | ⟨moved, move, came⟩⟩
  · simp [came] at saved
  · simp [came] at saved
  · obtain rfl : moved = d' := by simpa [came] using saved
    exact Directory.readText?_rename (Directory.orKept_eq_true_iff.mp write)
      (Directory.orKept_eq_true_iff.mp move)

/-- What is read where a journal was saved: its file, if the numbers fit in
words. -/
theorem load_eq_ok_iff_of_save {j : Journal} (plain : j.Plain) {contents : Text}
    {savedVersion savedAt : Nat} {path : Path} {d d' : Directory}
    (saved : (j.save contents savedVersion savedAt path d).value = (.ok (), d'))
    (found : Option JournalFile) :
    JournalFile.load d' path = .ok found ↔
      found = some (JournalFile.ofJournal j contents savedVersion savedAt) ∧
        (JournalFile.ofJournal j contents savedVersion savedAt).Fits := by
  obtain ⟨content, hnode, htext⟩ := readText?_of_save saved
  have parsed := JournalFile.parse?_print_eq_some_iff
    (plain.ofJournal contents savedVersion savedAt)
  simp only [JournalFile.load, hnode, htext]
  cases hparse : JournalFile.parse?
      (JournalFile.ofJournal j contents savedVersion savedAt).print with
  | none =>
    have unfit :
        ¬ (JournalFile.ofJournal j contents savedVersion savedAt).Fits := fun fits => by
      simpa [hparse] using (parsed _).mpr ⟨rfl, fits⟩
    simp [unfit]
  | some file =>
    obtain ⟨rfl, fits⟩ := (parsed file).mp hparse
    simp [fits, eq_comm]

/-- A journal's own file is taken over if the journal is in order. -/
theorem takeOver_ofJournal_eq_ok_iff (j k l : Journal) (contents : Text)
    (savedVersion savedAt version : Nat) (path : Path) :
    (k.takeOver contents path (JournalFile.ofJournal j contents savedVersion savedAt)).value =
        .ok (version, l) ↔
      (j.position ≤ j.entries.length ∧ Ascending j.nextVersion j.baseVersion j.entries) ∧
        version = savedVersion ∧
        l = (k.restore j.entries j.position j.baseVersion j.nextVersion).value := by
  have checked := JournalFile.check_ofJournal_eq_ok_iff j contents savedVersion savedAt
  have same : (JournalFile.ofJournal j contents savedVersion savedAt).digest =
      contents.digest ∧
      (JournalFile.ofJournal j contents savedVersion savedAt).length = contents.byteLength :=
    ⟨rfl, rfl⟩
  have known : (JournalFile.ofJournal j contents savedVersion savedAt).version =
      JournalFile.formatVersion := rfl
  simp only [takeOver, known, same.1, same.2, ne_eq, not_true_eq_false, or_self, if_false]
  cases hcheck : (JournalFile.ofJournal j contents savedVersion savedAt).check with
  | error flaw =>
    have disorder := (checked j.entries).mpr
    simp only [hcheck, reduceCtorEq, imp_false, true_and] at disorder
    simp [disorder]
  | ok found =>
    obtain ⟨rfl, order⟩ := (checked found).mp hcheck
    have members :
        (JournalFile.ofJournal j contents savedVersion savedAt).position = j.position ∧
        (JournalFile.ofJournal j contents savedVersion savedAt).baseVersion = j.baseVersion ∧
        (JournalFile.ofJournal j contents savedVersion savedAt).nextVersion = j.nextVersion ∧
        (JournalFile.ofJournal j contents savedVersion savedAt).savedVersion = savedVersion :=
      ⟨rfl, rfl, rfl, rfl⟩
    simp [members, order, eq_comm]

/-- **When a saved history is loaded, and what the journal is then**: its
numbers fit in words, its versions rise, and its position is among its
entries. -/
theorem load_save_eq_ok_iff {j : Journal} (plain : j.Plain) (k l : Journal) {contents : Text}
    {savedVersion savedAt : Nat} {path : Path} {d d' : Directory}
    (saved : (j.save contents savedVersion savedAt path d).value = (.ok (), d'))
    (version : Nat) :
    (k.load contents path d').value = .ok (some (version, l)) ↔
      (JournalFile.ofJournal j contents savedVersion savedAt).Fits ∧
        (j.position ≤ j.entries.length ∧ Ascending j.nextVersion j.baseVersion j.entries) ∧
        version = savedVersion ∧
        l = (k.restore j.entries j.position j.baseVersion j.nextVersion).value := by
  have read := load_eq_ok_iff_of_save plain saved
  rw [load]
  cases hload : JournalFile.load d' path with
  | error error =>
    have unfit := (read (some (JournalFile.ofJournal j contents savedVersion savedAt))).mpr
    simp only [hload, reduceCtorEq, imp_false, true_and] at unfit
    simp [unfit]
  | ok found =>
    obtain ⟨rfl, fits⟩ := (read found).mp hload
    have taken := takeOver_ofJournal_eq_ok_iff j k l contents savedVersion savedAt version path
    simp only [Narrated.value_bind, Narrated.value_pure, fits, true_and, ← taken]
    cases (k.takeOver contents path
      (JournalFile.ofJournal j contents savedVersion savedAt)).value <;> simp [Except.map]

end Journal

/-- **A history that was saved is loaded as it was**: for every journal whose
versions rise, of insertions and deletions, with every text and every saved
version, where all numbers are words and the ceiling of the journal that takes
it over is high enough. -/
theorem saved_history_is_loaded (j k : Journal) (contents : Text) (savedVersion savedAt : Nat)
    (path : Path) (d d' : Directory) (within : j.position ≤ j.entries.length)
    (ascending : Ascending j.nextVersion j.baseVersion j.entries) (plain : j.Plain)
    (fits : (JournalFile.ofJournal j contents savedVersion savedAt).Fits)
    (room : j.entries.length ≤ k.config.ceiling)
    (saved : (j.save contents savedVersion savedAt path d).value = (.ok (), d')) :
    ∃ l, (k.load contents path d').value = .ok (some (savedVersion, l)) ∧
      l.entries = j.entries ∧ l.position = j.position ∧ l.baseVersion = j.baseVersion ∧
      l.nextVersion = max j.nextVersion k.nextVersion := by
  refine ⟨_, (Journal.load_save_eq_ok_iff plain k _ saved savedVersion).mpr
    ⟨fits, ⟨within, ascending⟩, rfl, rfl⟩, ?_⟩
  rw [Journal.value_restore_of_le room within]
  exact ⟨rfl, rfl, rfl, rfl⟩

/-- Two entries with numbers at the end of a word, the second one undone. What
was typed needs escapes, and a character has to be written in four bytes. -/
def oddHistory : Journal :=
  { entries :=
      [{ first := ⟨.insert, ⟨0, Word.size - 1⟩, ['"', '\\', '\x01', '😀'], none⟩
         timestamp := Word.size - 1, group := some (Word.size - 1), version := 3
         mergeable := false },
        { first := ⟨.delete, ⟨Word.size - 1, 0⟩, ['\n'], some .backward⟩
          timestamp := 0, version := Word.size - 2, savePoint := true }]
    position := 1, capacity := 2, config := {}, nextVersion := Word.size - 1 }

/-- It is loaded into a journal with room for two. -/
theorem oddHistory_is_loaded :
    let k : Journal := { capacity := 1, config := { maxEntries := 2 }, nextVersion := 9 }
    let saved := (oddHistory.save ['a'] 3 0 [['j']] {}).value
    saved.1 = .ok () ∧
    ∃ l, (k.load ['a'] [['j']] saved.2).value = .ok (some (3, l)) ∧
      l.entries = oddHistory.entries ∧ l.position = 1 ∧ l.baseVersion = 0 ∧
      l.nextVersion = Word.size - 1 := by
  intro k saved
  have done : saved = (.ok (), saved.2) := by rfl
  have ascending :
      Ascending oddHistory.nextVersion oddHistory.baseVersion oddHistory.entries := by
    decide
  have plain : oddHistory.Plain := by decide
  have fits : (JournalFile.ofJournal oddHistory ['a'] 3 0).Fits := by decide
  exact ⟨congrArg Prod.fst done,
    saved_history_is_loaded oddHistory k ['a'] 3 0 [['j']] {} saved.2
    (by decide) ascending plain fits (by decide) done⟩

end EditJournal
