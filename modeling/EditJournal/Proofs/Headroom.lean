/-
EditJournal.Proofs.Headroom — how far a journal counts on, before its counters are
words no longer.

* `Journal.counters_serve` — a request takes at most one version and at most one
  group number, and gives none back.
* `Journal.countersFit_serveAll` — so a journal serves as many requests as there are
  words left behind its counters; and where they fit behind a run, they did at every
  point of it (`Session.countersFit_take`).

`loaded_counters_fit_iff` is the main result: which files leave room for one change
and one group behind them. The checks of a file do not ask for it
(`lastNumbers_are_passed`).

## How the proof goes

The next version behind a file is the greater one of the file and the journal, and the
newest group is the greatest of the entries that are kept and the journal. What a file
says are words, so both are; a change behind it adds one to the first and leaves the
second as it is, and an outermost bracket does the reverse.
-/
import EditJournal.Proofs.RisingVersions

namespace EditJournal

theorem Grouping.newest_begin (g : Grouping) :
    g.begin.newest = if g.depth = 0 then g.newest + 1 else g.newest := by
  unfold Grouping.begin
  split <;> rfl

namespace Journal

variable {σ : Type} [Storage σ] {j k l : Journal}

/-! ## Requests -/

theorem Serves.nextVersion_le_succ (h : j.Serves k) : k.nextVersion ≤ j.nextVersion + 1 := by
  cases h with
  | takes edit now status plain nonempty takes =>
    obtain ⟨p, d, last, leaves⟩ := takes.leaves_of_nonempty nonempty
    exact Nat.le_of_eq leaves.next
  | rests entries base next kept idle => exact Nat.le_succ_of_le (Nat.le_of_eq next)
  | clears entries position base next idle => exact Nat.le_of_eq next

/-- Only an outermost bracket takes a group number. -/
theorem newest_serve (j : Journal) (request : Request σ) :
    (j.serve request).grouping.newest = j.grouping.newest ∨
      (j.serve request).grouping.newest = j.grouping.newest + 1 := by
  cases request with
  | record kind place text now =>
    rcases j.serve_record_cases σ kind place text now with
      ⟨same, -⟩ | ⟨status, -, -, -, takes⟩
    · exact Or.inl (by rw [same])
    · obtain ⟨last, grouping⟩ := takes.grouping_eq
      exact Or.inl (by rw [grouping])
  | step direction storage =>
    rcases j.serve_step_cases direction storage with same | idle | ⟨index, entry, -, moved⟩
    · exact Or.inl (by rw [same])
    · exact Or.inl (by rw [idle])
    · rw [moved]
      exact Or.inl rfl
  | groupBegin =>
    show j.grouping.begin.newest = _ ∨ j.grouping.begin.newest = _
    rw [Grouping.newest_begin]
    split
    · exact Or.inr rfl
    · exact Or.inl rfl
  | groupEnd =>
    rw [serve_groupEnd]
    exact Or.inl j.grouping.newest_close
  | endRun => exact Or.inl rfl
  | markSaved => exact Or.inl rfl
  | clear => exact Or.inl rfl

/-- Each request takes at most one version and one group number, and gives none back. -/
theorem counters_serve (j : Journal) (request : Request σ) :
    (j.nextVersion ≤ (j.serve request).nextVersion ∧
      (j.serve request).nextVersion ≤ j.nextVersion + 1) ∧
    j.grouping.newest ≤ (j.serve request).grouping.newest ∧
      (j.serve request).grouping.newest ≤ j.grouping.newest + 1 := by
  have serves := j.serves_serve request
  refine ⟨⟨serves.nextVersion_le, serves.nextVersion_le_succ⟩, ?_⟩
  rcases j.newest_serve request with same | next <;> omega

/-- **A journal serves as many requests as its counters have words left.** -/
theorem countersFit_serveAll (requests : List (Request σ))
    (versions : j.nextVersion + requests.length < Word.size)
    (groups : j.grouping.newest + requests.length < Word.size) :
    (j.serveAll requests).CountersFit := by
  induction requests generalizing j with
  | nil => exact ⟨versions, groups⟩
  | cons request rest ih =>
    obtain ⟨⟨-, version⟩, -, group⟩ := j.counters_serve request
    rw [List.length_cons] at versions groups
    exact ih (by omega) (by omega)

/-- Counters that fit behind some requests did before each of them. -/
theorem CountersFit.of_serveAll {requests : List (Request σ)}
    (fit : (j.serveAll requests).CountersFit) : j.CountersFit := by
  induction requests generalizing j with
  | nil => exact fit
  | cons request rest ih =>
    obtain ⟨⟨version, -⟩, group, -⟩ := j.counters_serve request
    obtain ⟨versions, groups⟩ := ih fit
    exact ⟨Nat.lt_of_le_of_lt version versions, Nat.lt_of_le_of_lt group groups⟩

/-! ## A change and a group -/

/-- A change takes one version and no group number. -/
theorem Takes.countersFit_iff {edit : Edit} {now : Nat} {status : RecordStatus}
    (takes : j.Takes edit now status k) (nonempty : edit.payload ≠ []) :
    k.CountersFit ↔ j.nextVersion + 1 < Word.size ∧ j.grouping.newest < Word.size := by
  obtain ⟨p, d, last, leaves⟩ := takes.leaves_of_nonempty nonempty
  obtain ⟨lastEdit, grouping⟩ := takes.grouping_eq
  rw [CountersFit, leaves.next, grouping]

/-- An outermost bracket takes one group number and no version. -/
theorem countersFit_groupBegin_iff (closed : j.grouping.depth = 0) :
    j.groupBegin.value.2.CountersFit ↔
      j.nextVersion < Word.size ∧ j.grouping.newest + 1 < Word.size := by
  have newest : j.groupBegin.value.2.grouping.newest = j.grouping.newest + 1 := by
    show j.grouping.begin.newest = _
    rw [Grouping.newest_begin, if_pos closed]
  rw [CountersFit, newest]
  rfl

/-- An insertion takes the next version, and the group that is opened behind it the next
group number. -/
theorem insert_and_group (idle : j.replaying = false) (closed : j.grouping.depth = 0)
    (fit : j.CountersFit) (place : Location) {text : Text} (nonempty : text ≠ []) (now : Nat) :
    ∃ status k, (j.record .insert place text now).value = .ok (status, k) ∧
      (k.CountersFit ↔ j.nextVersion + 1 < Word.size) ∧
      (k.groupBegin.value.2.CountersFit ↔
        k.CountersFit ∧ j.grouping.newest + 1 < Word.size) := by
  have inserts : EditKind.insert ≠ .replace := by decide
  obtain ⟨status, k, recorded⟩ := exists_record_eq_ok idle inserts place text now
  have takes := (record_eq_ok_iff idle inserts).mp recorded
  have counted := takes.countersFit_iff nonempty
  obtain ⟨last, grouping⟩ := takes.grouping_eq
  have newest : k.grouping.newest = j.grouping.newest := by rw [grouping]
  have outside : k.grouping.depth = 0 := by rw [grouping, closed]
  refine ⟨status, k, recorded, ?_, ?_⟩
  · rw [counted, and_iff_left fit.2]
  · rw [countersFit_groupBegin_iff outside, CountersFit, newest, and_iff_left fit.2]

end Journal

/-- Where the counters fit behind a run, they do at every point of it. -/
theorem Session.countersFit_take {σ : Type} [Storage σ] {s : Session σ} {actions : List Action}
    (fit : (s.after actions).buffer.journal.CountersFit) (n : Nat) :
    (s.after (actions.take n)).buffer.journal.CountersFit := by
  rw [← List.take_append_drop n actions, Session.after_append, Session.journal_after] at fit
  exact fit.of_serveAll

namespace Journal

variable {j : Journal}

/-! ## Behind a file -/

section Restored

variable (j) (entries : List Entry) (position base next : Nat)

theorem nextVersion_restore :
    (j.restore entries position base next).value.nextVersion = max next j.nextVersion := by
  rw [value_restore]
  rfl

theorem newest_restore :
    (j.restore entries position base next).value.grouping.newest =
      max j.grouping.newest
        (newestGroup (j.restore entries position base next).value.entries) := by
  rw [value_restore]
  rfl

theorem depth_restore :
    (j.restore entries position base next).value.grouping.depth = j.grouping.depth := by
  rw [value_restore]
  rfl

theorem replaying_restore :
    (j.restore entries position base next).value.replaying = j.replaying := by
  rw [value_restore]
  rfl

end Restored

theorem newestGroup_lt_iff {entries : List Entry} {n : Nat} (positive : 0 < n) :
    newestGroup entries < n ↔ ∀ e ∈ entries, ∀ id ∈ e.group, id < n := by
  obtain ⟨m, rfl⟩ := Nat.exists_eq_add_of_lt positive
  simp only [Nat.zero_add, Nat.lt_succ_iff, newestGroup_le_iff, Option.mem_def]

/-- Behind a file of words, the counters are words if they were. -/
theorem countersFit_restore (fit : j.CountersFit) {entries : List Entry} {next : Nat}
    (words : next < Word.size)
    (groups : ∀ e ∈ entries, ∀ id ∈ e.group, id < Word.size) (position base : Nat) :
    (j.restore entries position base next).value.CountersFit := by
  have kept : newestGroup (j.restore entries position base next).value.entries <
      Word.size := by
    rw [newestGroup_lt_iff (by decide)]
    exact fun e he => groups e (mem_of_mem_restore he)
  rw [CountersFit, nextVersion_restore, newest_restore]
  exact ⟨Nat.max_lt.mpr ⟨words, fit.1⟩, Nat.max_lt.mpr ⟨fit.2, kept⟩⟩

end Journal

/-- **How far a journal counts on behind a file that it takes over.** Its counters are
words then, whatever the file says, as they were before. An insertion takes one version
more, and the group that is opened behind it one number more: these are words exactly if
the file and the journal left one, and the file is not asked for it. -/
theorem loaded_counters_fit_iff (j l : Journal) (contents : Text) (path : Path) (d : Directory)
    (version : Nat) (place : Location) (text : Text) (now : Nat)
    (accepted : (j.load contents path d).value = .ok (some (version, l)))
    (idle : j.replaying = false) (closed : j.grouping.depth = 0) (fit : j.CountersFit)
    (nonempty : text ≠ []) :
    ∃ file status k, JournalFile.load d path = .ok (some file) ∧ l.CountersFit ∧
      (l.record .insert place text now).value = .ok (status, k) ∧
      (k.CountersFit ↔ file.nextVersion + 1 < Word.size ∧ j.nextVersion + 1 < Word.size) ∧
      (k.groupBegin.value.2.CountersFit ↔ k.CountersFit ∧ j.grouping.newest + 1 < Word.size ∧
        ∀ entry ∈ l.entries, ∀ group ∈ entry.group, group + 1 < Word.size) := by
  obtain ⟨file, entries, found, suits, -, rfl⟩ := Journal.load_eq_ok_some_iff.mp accepted
  obtain ⟨-, fits⟩ := JournalFile.sound_of_load found
  have groups : ∀ e ∈ entries, ∀ id ∈ e.group, id < Word.size := by
    intro e he
    have member : e.toRecord ∈ file.entries := suits.records ▸ List.mem_map_of_mem he
    exact (fits.entries _ member).group
  have taken :=
    j.countersFit_restore fit fits.nextVersion groups file.position file.baseVersion
  have next := j.nextVersion_restore entries file.position file.baseVersion file.nextVersion
  have newest := j.newest_restore entries file.position file.baseVersion file.nextVersion
  have resting := (j.replaying_restore entries file.position file.baseVersion
    file.nextVersion).trans idle
  have outside := (j.depth_restore entries file.position file.baseVersion
    file.nextVersion).trans closed
  generalize (j.restore entries file.position file.baseVersion file.nextVersion).value = l
    at taken next newest resting outside ⊢
  obtain ⟨status, k, recorded, version, group⟩ :=
    l.insert_and_group resting outside taken place nonempty now
  refine ⟨file, status, k, found, taken, recorded, ?_, ?_⟩
  · rw [version, next]
    omega
  · have groups_left : Journal.newestGroup l.entries + 1 < Word.size ↔
        ∀ entry ∈ l.entries, ∀ id ∈ entry.group, id + 1 < Word.size := by
      simp only [← Nat.lt_sub_iff_add_lt]
      exact Journal.newestGroup_lt_iff (by decide)
    rw [group, newest, ← groups_left]
    exact and_congr_right fun _ => by omega

/-- The file with gaps leaves room for the change and the group. -/
theorem gappedFile_counters_fit :
    let j : Journal := { capacity := 128, config := {} }
    ∃ l status k, (j.load ['b'] [['j']] gappedFile.onDisk).value = .ok (some (9, l)) ∧
      l.CountersFit ∧ (l.record .insert ⟨0, 1⟩ ['c'] 8).value = .ok (status, k) ∧
      k.CountersFit ∧ k.groupBegin.value.2.CountersFit := by
  intro j
  have found := JournalFile.load_onDisk (f := gappedFile) (by decide) (by decide)
  have suits : gappedFile.Suits ['b'] _ := ⟨rfl, rfl, rfl, rfl⟩
  have accepted := j.load_of_suits found suits
  obtain ⟨file, status, k, found', taken, recorded, versions, groups⟩ :=
    loaded_counters_fit_iff j _ ['b'] [['j']] gappedFile.onDisk 9 ⟨0, 1⟩ ['c'] 8 accepted
      rfl rfl (by decide) (by decide)
  obtain rfl : gappedFile = file := by simpa [found] using found'
  have fit := versions.mpr (by decide)
  exact ⟨_, status, k, accepted, taken, recorded, fit, groups.mpr ⟨fit, by decide, by decide⟩⟩

/-- A file whose next version and whose only group are the last word. -/
def lastNumbers : JournalFile :=
  { savedAt := 0, digest := Text.digest ['a'], length := 1, position := 1, baseVersion := 0
    nextVersion := Word.size - 1, savedVersion := 1
    entries :=
      [{ version := 1, timestamp := 0, group := some (Word.size - 1), savePoint := true
         mergeable := true, edits := [⟨.insert, ⟨0, 0⟩, ['a'], none⟩] }] }

/-- It is taken over. The change behind it takes the last word, and nothing can be counted
then; nor can a group be opened, even without the change. -/
theorem lastNumbers_are_passed :
    let j : Journal := { capacity := 128, config := {} }
    ∃ l, (j.load ['a'] [['j']] lastNumbers.onDisk).value = .ok (some (1, l)) ∧ l.CountersFit ∧
      let k := l.serve (.record .insert ⟨0, 1⟩ ['b'] 0 : Request Text)
      k.nextVersion = Word.size ∧ ¬ k.CountersFit ∧
        k.groupBegin.value.2.grouping.newest = Word.size ∧
        ¬ l.groupBegin.value.2.CountersFit := by
  intro j
  have found := JournalFile.load_onDisk (f := lastNumbers) (by decide) (by decide)
  have suits : lastNumbers.Suits ['a'] _ := ⟨rfl, rfl, rfl, rfl⟩
  refine ⟨_, j.load_of_suits found suits, by decide, ?_⟩
  intro k
  exact ⟨by decide, by decide, by decide, by decide⟩

end EditJournal
