/-
EditJournal.Proofs.Acceptance — which files a journal takes over, and what they
say of its entries.

* `JournalFile.Suits f contents entries` — the file is one of this format and of
  this text, and passes the checks with these entries.
* `Journal.load_eq_ok_some_iff`, `Buffer.loadHistory_eq_ok_true_iff` — a history is
  taken over exactly from a file that suits, and with the entries that it has.
* `JournalFile.Suits.ascending`, `JournalFile.sound_of_load` — whoever wrote the
  file: the versions of the entries rise, none of them holds a replacement, and all
  numbers are words.
* `JournalFile.load_of_written` — a file that was written is found.
-/
import EditJournal.Buffer
import EditJournal.Proofs.SavedHistory

namespace EditJournal

/-! ## What a file can say -/

/-- A number that is read is a word. -/
theorem Json.lt_size_of_nat? {v : Json} {n : Nat} (h : v.nat? = some n) : n < Word.size := by
  unfold Json.nat? at h
  split at h
  · dsimp only at h
    split at h
    · split at h
      · rename_i fits
        obtain rfl := Option.some.inj h
        exact fits
      · simp at h
    · simp at h
  · simp at h

/-- So is one that must be there. -/
theorem Json.lt_size_of_required? {o : Option Json} {n : Nat} (h : required? nat? o = some n) :
    n < Word.size := by
  cases o with
  | none => simp [required?] at h
  | some v => exact lt_size_of_nat? h

/-- So is one that may be left out. -/
theorem Json.lt_size_of_optional? {o : Option Json} {found : Option Nat}
    (h : optional? nat? o = some found) : ∀ n ∈ found, n < Word.size := by
  unfold optional? at h
  split at h
  · cases h
    simp
  · cases h
    simp
  · obtain ⟨n, hn, rfl⟩ := Option.map_eq_some_iff.mp h
    simpa using lt_size_of_nat? hn

namespace JournalFile

/-- What a list is read as was read from its items. -/
theorem exists_of_mem_mapM {α β : Type} {f : α → Option β} {l : List α} {m : List β}
    (h : l.mapM f = some m) {b : β} (hb : b ∈ m) : ∃ a ∈ l, f a = some b := by
  induction l generalizing m with
  | nil =>
    obtain rfl : m = [] := by simpa [eq_comm] using h
    simp at hb
  | cons a l ih =>
    simp only [List.mapM_cons, Option.bind_eq_bind, Option.bind_eq_some_iff, Option.pure_def,
      Option.some.injEq] at h
    obtain ⟨b', ha, m', hl, rfl⟩ := h
    rcases List.mem_cons.mp hb with rfl | hb
    · exact ⟨a, by simp, ha⟩
    · obtain ⟨a', ha', hf⟩ := ih hl hb
      exact ⟨a', by simp [ha'], hf⟩

/-- So was what a list is read as that must be there. -/
theorem exists_of_mem_required? {β : Type} {f : Json → Option β} {o : Option Json} {m : List β}
    (h : Json.required? (Json.list? f) o = some m) {b : β} (hb : b ∈ m) :
    ∃ v, f v = some b := by
  cases o with
  | none => simp [Json.required?] at h
  | some v =>
    cases v with
    | array elements =>
      obtain ⟨a, -, ha⟩ := exists_of_mem_mapM h hb
      exact ⟨a, ha⟩
    | _ => simp [Json.required?, Json.list?] at h

theorem word?_kinds_ne_replace {v : Json} {k : EditKind} (h : Json.word? kinds v = some k) :
    k ≠ .replace := by
  have known (name : Text) : (kinds.find? (·.1.toList == name)).map (·.2) ≠ some .replace := by
    intro hfound
    obtain ⟨p, hp, hk⟩ := Option.map_eq_some_iff.mp hfound
    have member := List.mem_of_find?_eq_some hp
    simp only [kinds, List.mem_cons, List.not_mem_nil, or_false] at member
    rcases member with rfl | rfl <;> simp at hk
  rintro rfl
  unfold Json.word? at h
  dsimp only at h
  split at h
  · obtain ⟨name, -, hfound⟩ := Option.bind_eq_some_iff.mp h
    exact known name hfound
  · obtain ⟨name, -, hfound⟩ := Option.bind_eq_some_iff.mp h
    exact known name hfound
  · simp at h

theorem editOfJson?_sound {v : Json} {e : Edit} (h : editOfJson? v = some e) :
    e.kind ≠ .replace ∧ e.Fits := by
  simp only [editOfJson?, Option.bind_eq_bind, Option.bind_eq_some_iff] at h
  obtain ⟨members, -, h⟩ := h
  split at h
  · rename_i kind line offset payload run
    simp only [Option.bind_eq_some_iff, Option.pure_def, Option.some.injEq] at h
    obtain ⟨k, hkind, _, hline, _, hoffset, _, -, _, -, rfl⟩ := h
    refine ⟨?_, Json.lt_size_of_required? hline, Json.lt_size_of_required? hoffset⟩
    cases kind with
    | none => simp [Json.required?] at hkind
    | some v => exact word?_kinds_ne_replace hkind
  · simp at h

theorem entryOfJson?_sound {v : Json} {r : EntryRecord} (h : entryOfJson? v = some r) :
    (∀ e ∈ r.edits, e.kind ≠ .replace) ∧ r.Fits := by
  simp only [entryOfJson?, Option.bind_eq_bind, Option.bind_eq_some_iff] at h
  obtain ⟨members, -, h⟩ := h
  split at h
  · rename_i version timestamp group savePoint mergeable edits
    simp only [Option.bind_eq_some_iff, Option.pure_def, Option.some.injEq] at h
    obtain ⟨_, hversion, _, htime, _, hgroup, _, -, _, -, es, hedits, rfl⟩ := h
    have sound : ∀ e ∈ es, e.kind ≠ .replace ∧ e.Fits := by
      intro e he
      obtain ⟨a, ha⟩ := exists_of_mem_required? hedits he
      exact editOfJson?_sound ha
    exact ⟨fun e he => (sound e he).1, Json.lt_size_of_required? hversion,
      Json.lt_size_of_required? htime, Json.lt_size_of_optional? hgroup,
      fun e he => (sound e he).2⟩
  · simp at h

/-- **No file says that an entry holds a replacement, and its numbers are words.** -/
theorem sound_of_parse? {t : Text} {f : JournalFile} (h : parse? t = some f) :
    f.Plain ∧ f.Fits := by
  simp only [parse?, ofJson?, Option.bind_eq_bind, Option.bind_eq_some_iff] at h
  obtain ⟨v, -, members, -, h⟩ := h
  split at h
  · rename_i version savedAt digest length position base next saved entries
    simp only [Option.bind_eq_some_iff, Option.pure_def, Option.some.injEq] at h
    obtain ⟨_, hversion, _, htime, _, -, _, hlength, _, hposition, _, hbase, _, hnext, _,
        hsaved, rs, hentries, rfl⟩ := h
    have sound : ∀ r ∈ rs, (∀ e ∈ r.edits, e.kind ≠ .replace) ∧ r.Fits := by
      intro r hr
      obtain ⟨a, ha⟩ := exists_of_mem_required? hentries hr
      exact entryOfJson?_sound ha
    exact ⟨fun r hr => (sound r hr).1, Json.lt_size_of_required? hversion,
      Json.lt_size_of_required? htime, Json.lt_size_of_required? hlength,
      Json.lt_size_of_required? hposition, Json.lt_size_of_required? hbase,
      Json.lt_size_of_required? hnext, Json.lt_size_of_required? hsaved,
      fun r hr => (sound r hr).2⟩
  · simp at h

/-- A file is found where a text is read that is one. -/
theorem load_eq_ok_some_iff {d : Directory} {path : Path} {f : JournalFile} :
    load d path = .ok (some f) ↔ ∃ t, d.readText? path = some t ∧ parse? t = some f := by
  unfold load
  cases hnode : d.node? path with
  | none => simp [Directory.readText?, Directory.read?, hnode]
  | some node =>
    cases htext : d.readText? path with
    | none => simp
    | some t => cases hparse : parse? t <;> simp [hparse]

/-- What is found at a path was read there. -/
theorem sound_of_load {d : Directory} {path : Path} {f : JournalFile}
    (h : load d path = .ok (some f)) : f.Plain ∧ f.Fits := by
  obtain ⟨t, -, hparse⟩ := load_eq_ok_some_iff.mp h
  exact sound_of_parse? hparse

instance (f : JournalFile) : Decidable f.Plain :=
  inferInstanceAs (Decidable (∀ r ∈ f.entries, ∀ e ∈ r.edits, e.kind ≠ .replace))

/-- A file that was written is found at its path. -/
theorem load_of_written {f : JournalFile} (plain : f.Plain) (fits : f.Fits) {path : Path}
    {d d' : Directory} (written : d.writeText? path f.print = some d') :
    load d' path = .ok (some f) := by
  simp only [Directory.writeText?, Directory.write?, Option.bind_eq_bind,
    Option.bind_eq_some_iff, Option.pure_def, Option.some.injEq,
    Directory.place?_eq_some_iff] at written
  obtain ⟨a, ⟨address, free⟩, rfl⟩ := written
  have node := Directory.node?_put (String.ofList f.print).toByteArray address free
  have text : (d.put a (.file (String.ofList f.print).toByteArray)).readText? path =
      some f.print := by
    rw [Directory.readText?, Directory.read?, node]
    simp [String.toByteArray_ofList, List.utf8Decode?_utf8Encode]
  have parsed := (parse?_print_eq_some_iff plain f).mpr ⟨rfl, fits⟩
  simp only [load, node, text, parsed]

/-- A directory with one journal file, named `j`. -/
def onDisk (f : JournalFile) : Directory :=
  { nodes := [([['j']], .file (String.ofList f.print).toByteArray)] }

theorem load_onDisk {f : JournalFile} (plain : f.Plain) (fits : f.Fits) :
    load f.onDisk [['j']] = .ok (some f) := by
  have written : ({} : Directory).writeText? [['j']] f.print = some f.onDisk := rfl
  exact load_of_written plain fits written

/-! ## The entries of a file -/

/-- A record with changes is that of its entry. -/
theorem toRecord_toEntry {r : EntryRecord} {first : Edit} {more : List Edit}
    (h : r.edits = first :: more) : (EntryRecord.toEntry r first more).toRecord = r := by
  simp only [EntryRecord.toEntry, Entry.toRecord, Entry.edits, ← h]

/-- The entries that pass the checks are those of the records. -/
theorem records_of_entriesFrom {next index previous : Nat} {records : List EntryRecord}
    {entries : List Entry} (h : entriesFrom next index previous records = .ok entries) :
    records = entries.map Entry.toRecord := by
  induction records generalizing index previous entries with
  | nil =>
    obtain rfl : entries = [] := by simpa [entriesFrom, eq_comm] using h
    rfl
  | cons r rest ih =>
    rw [entriesFrom] at h
    split at h
    · simp at h
    cases hedits : r.edits with
    | nil => simp [hedits] at h
    | cons first more =>
      simp only [hedits] at h
      cases hrest : entriesFrom next (index + 1) r.version rest with
      | error flaw => simp [hrest, bind, Except.bind] at h
      | ok found =>
        obtain rfl : EntryRecord.toEntry r first more :: found = entries := by
          simpa [hrest, bind, Except.bind, pure, Except.pure] using h
        rw [List.map_cons, toRecord_toEntry hedits, ← ih hrest]

theorem entriesFrom_of_check {f : JournalFile} {entries : List Entry}
    (h : f.check = .ok entries) :
    f.position ≤ f.entries.length ∧
      entriesFrom f.nextVersion 0 f.baseVersion f.entries = .ok entries := by
  rw [check] at h
  split at h
  · simp at h
  · exact ⟨Nat.le_of_not_lt ‹_›, h⟩

/-- The file is taken over for a text, with these entries. -/
structure Suits (f : JournalFile) (contents : Text) (entries : List Entry) : Prop where
  known : f.version = formatVersion
  digest : f.digest = contents.digest
  length : f.length = contents.byteLength
  checked : f.check = .ok entries

namespace Suits

variable {f : JournalFile} {contents : Text} {entries : List Entry}

theorem records (h : f.Suits contents entries) : f.entries = entries.map Entry.toRecord :=
  records_of_entriesFrom (entriesFrom_of_check h.checked).2

theorem position_le (h : f.Suits contents entries) : f.position ≤ entries.length := by
  have within := (entriesFrom_of_check h.checked).1
  rwa [h.records, List.length_map] at within

/-- **The versions of the entries rise from the base version, and stay below the
next one.** -/
theorem ascending (h : f.Suits contents entries) :
    Ascending f.nextVersion f.baseVersion entries := by
  have checked := (entriesFrom_of_check h.checked).2
  rw [h.records] at checked
  exact ((entriesFrom_toRecord _ _ _ _ _).mp checked).2

theorem plain (h : f.Suits contents entries) (plain : f.Plain) :
    ∀ entry ∈ entries, ∀ e ∈ entry.edits, e.kind ≠ .replace := by
  intro entry hentry
  have member : entry.toRecord ∈ f.entries := by
    rw [h.records]
    exact List.mem_map_of_mem hentry
  exact plain entry.toRecord member

end Suits

end JournalFile

/-! ## Taking a file over -/

namespace Journal

variable {j l : Journal} {contents : Text} {path : Path} {version : Nat}

theorem takeOver_eq_ok_iff (file : JournalFile) :
    (j.takeOver contents path file).value = .ok (version, l) ↔
      ∃ entries, file.Suits contents entries ∧ version = file.savedVersion ∧
        l = (j.restore entries file.position file.baseVersion file.nextVersion).value := by
  constructor
  · intro h
    unfold takeOver at h
    split at h
    · simp at h
    rename_i known
    split at h
    · simp at h
    rename_i same
    obtain ⟨digest, length⟩ : file.digest = contents.digest ∧
        file.length = contents.byteLength := by
      simpa using same
    cases hcheck : file.check with
    | error flaw => simp [hcheck] at h
    | ok entries =>
      obtain ⟨rfl, rfl⟩ : file.savedVersion = version ∧ _ = l := by simpa [hcheck] using h
      exact ⟨entries, ⟨by simpa using known, digest, length, hcheck⟩, rfl, rfl⟩
  · rintro ⟨entries, suits, rfl, rfl⟩
    simp [takeOver, suits.known, suits.digest, suits.length, suits.checked]

/-- A journal's own file is refused for its first flaw. -/
theorem takeOver_of_flaw (j k : Journal) {savedVersion savedAt : Nat} (path : Path)
    {flaw : JournalFile.Flaw}
    (flawed : (JournalFile.ofJournal k contents savedVersion savedAt).check = .error flaw) :
    (j.takeOver contents path (JournalFile.ofJournal k contents savedVersion savedAt)).value =
      .error (.corrupt flaw) := by
  have known : (JournalFile.ofJournal k contents savedVersion savedAt).version =
      JournalFile.formatVersion := rfl
  have same : (JournalFile.ofJournal k contents savedVersion savedAt).digest =
      contents.digest ∧
      (JournalFile.ofJournal k contents savedVersion savedAt).length = contents.byteLength :=
    ⟨rfl, rfl⟩
  simp [takeOver, known, same.1, same.2, flawed]

/-- **When a history is taken over, and what the journal is then.** -/
theorem load_eq_ok_some_iff {d : Directory} :
    (j.load contents path d).value = .ok (some (version, l)) ↔
      ∃ file entries, JournalFile.load d path = .ok (some file) ∧ file.Suits contents entries ∧
        version = file.savedVersion ∧
        l = (j.restore entries file.position file.baseVersion file.nextVersion).value := by
  rw [load]
  cases hload : JournalFile.load d path with
  | error error => simp
  | ok found =>
    cases found with
    | none => simp
    | some file =>
      have taken : (j.takeOver contents path file).value = .ok (version, l) ↔ _ :=
        takeOver_eq_ok_iff file
      simp only [Except.ok.injEq, Option.some.injEq, exists_and_left, exists_eq_left', ← taken,
        Narrated.value_bind, Narrated.value_pure]
      cases (j.takeOver contents path file).value <;> simp [Except.map]

/-- A history is taken over from a file that suits. -/
theorem load_of_suits (j : Journal) {d : Directory} {file : JournalFile} {entries : List Entry}
    (found : JournalFile.load d path = .ok (some file)) (suits : file.Suits contents entries) :
    (j.load contents path d).value = .ok (some (file.savedVersion,
      (j.restore entries file.position file.baseVersion file.nextVersion).value)) :=
  load_eq_ok_some_iff.mpr ⟨file, entries, found, suits, rfl, rfl⟩

end Journal

namespace Buffer

variable {σ : Type} [Storage σ] {b c : Buffer σ} {path : Path} {d : Directory}

theorem loadHistory_eq_ok_true_iff :
    (b.loadHistory path d).value = (.ok true, c) ↔
      ∃ version l, (b.journal.load b.contents path d).value = .ok (some (version, l)) ∧
        c = { b with journal := l, savedVersion := version } := by
  simp only [Buffer.loadHistory, Narrated.value_bind]
  split
  · rename_i error hload
    simp [hload]
  · rename_i hload
    simp [hload]
  · rename_i version l hload
    constructor
    · intro h
      exact ⟨version, l, hload, by simpa [eq_comm] using h⟩
    · rintro ⟨version', l', hload', rfl⟩
      obtain ⟨rfl, rfl⟩ : version = version' ∧ l = l' := by simpa [hload] using hload'
      rfl

/-- When a buffer takes a history over, and what it is then. -/
theorem loadHistory_eq_ok_true_iff_suits :
    (b.loadHistory path d).value = (.ok true, c) ↔
      ∃ file entries, JournalFile.load d path = .ok (some file) ∧
        file.Suits b.contents entries ∧
        c = { b with
          journal := (b.journal.restore entries file.position file.baseVersion
            file.nextVersion).value
          savedVersion := file.savedVersion } := by
  rw [loadHistory_eq_ok_true_iff]
  constructor
  · rintro ⟨version, l, hload, rfl⟩
    obtain ⟨file, entries, found, suits, rfl, rfl⟩ := Journal.load_eq_ok_some_iff.mp hload
    exact ⟨file, entries, found, suits, rfl⟩
  · rintro ⟨file, entries, found, suits, rfl⟩
    exact ⟨_, _, b.journal.load_of_suits found suits, rfl⟩

theorem loadHistory_of_suits (b : Buffer σ) {file : JournalFile} {entries : List Entry}
    (found : JournalFile.load d path = .ok (some file))
    (suits : file.Suits b.contents entries) :
    (b.loadHistory path d).value = (.ok true, { b with
      journal :=
        (b.journal.restore entries file.position file.baseVersion file.nextVersion).value
      savedVersion := file.savedVersion }) :=
  loadHistory_eq_ok_true_iff_suits.mpr ⟨file, entries, found, suits, rfl⟩

end Buffer

end EditJournal
