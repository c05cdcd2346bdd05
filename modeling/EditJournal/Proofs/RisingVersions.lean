/-
EditJournal.Proofs.RisingVersions — the versions of a journal rise, whatever it
took over and whatever it is asked to do.

`Journal.Rising j` says that the versions of the entries rise from the base version
and stay below the next one. The checks of a file say it of its entries, but not of
its base version where it has none (`Journal.rising_restore_iff`).

`loaded_versions_rise` is the main result: the versions of a journal that took a
file over rise exactly if the base version is below the next one, as it is where the
file has entries. Then they rise behind every list of requests, and whatever is
saved of the journal can be taken over again.

## How the proof goes

A change leaves a part of the old entries and one behind them that has the next
version (`Journal.Leaves`); steps and saves touch no version, and clearing goes on
from the next one.
-/
import EditJournal.Proofs.Acceptance
import EditJournal.Proofs.Requests

namespace EditJournal

/-! ## Ascending entries -/

section Ascending

variable {next base : Nat} {entries front back : List Entry}

@[simp] theorem ascending_nil : Ascending next base [] := trivial

@[simp] theorem ascending_cons {entry : Entry} {rest : List Entry} :
    Ascending next base (entry :: rest) ↔
      base < entry.version ∧ entry.version < next ∧ Ascending next entry.version rest :=
  Iff.rfl

theorem ascending_append :
    Ascending next base (front ++ back) ↔
      Ascending next base front ∧ Ascending next (versionBehind base front) back := by
  induction front generalizing base with
  | nil => simp
  | cons entry rest ih => simp [ih, and_assoc]

theorem Ascending.take (h : Ascending next base entries) (n : Nat) :
    Ascending next base (entries.take n) := by
  rw [← List.take_append_drop n entries] at h
  exact (ascending_append.mp h).1

theorem Ascending.mono {later : Nat} (h : Ascending next base entries) (hle : next ≤ later) :
    Ascending later base entries := by
  induction entries generalizing base with
  | nil => trivial
  | cons entry rest ih => exact ⟨h.1, Nat.lt_of_lt_of_le h.2.1 hle, ih h.2.2⟩

/-- All versions are above the base version and below the next one. -/
theorem Ascending.between (h : Ascending next base entries) :
    ∀ entry ∈ entries, base < entry.version ∧ entry.version < next := by
  induction entries generalizing base with
  | nil => simp
  | cons entry rest ih =>
    rw [List.forall_mem_cons]
    refine ⟨⟨h.1, h.2.1⟩, fun e he => ?_⟩
    obtain ⟨above, below⟩ := ih h.2.2 e he
    exact ⟨Nat.lt_trans h.1 above, below⟩

/-- The versions rise from one entry to each later one, between the base version and the
next one. -/
theorem ascending_iff_pairwise :
    Ascending next base entries ↔
      (entries.map (·.version)).Pairwise (· < ·) ∧
        ∀ entry ∈ entries, base < entry.version ∧ entry.version < next := by
  constructor
  · intro h
    refine ⟨?_, h.between⟩
    induction entries generalizing base with
    | nil => exact List.Pairwise.nil
    | cons entry rest ih =>
      rw [List.map_cons, List.pairwise_cons, List.forall_mem_map]
      exact ⟨fun later hlater => (h.2.2.between later hlater).1, ih h.2.2⟩
  · rintro ⟨rises, between⟩
    induction entries generalizing base with
    | nil => trivial
    | cons entry rest ih =>
      rw [List.map_cons, List.pairwise_cons, List.forall_mem_map] at rises
      rw [List.forall_mem_cons] at between
      refine ⟨between.1.1, between.1.2, ih rises.2 fun later hlater => ?_⟩
      exact ⟨rises.1 later hlater, (between.2 later hlater).2⟩

/-- Of the entries, only the versions count. -/
theorem ascending_congr {entries' : List Entry}
    (h : entries'.map (·.version) = entries.map (·.version)) :
    Ascending next base entries' ↔ Ascending next base entries := by
  induction entries generalizing base entries' with
  | nil =>
    obtain rfl : entries' = [] := by simpa using h
    rfl
  | cons entry rest ih =>
    cases entries' with
    | nil => simp at h
    | cons entry' rest' =>
      obtain ⟨version, versions⟩ := List.cons.inj h
      have version : entry'.version = entry.version := version
      simp only [ascending_cons, version, ih versions]

end Ascending

namespace Journal

/-- The versions of the entries rise from the base version, and stay below the next
one. -/
structure Rising (j : Journal) : Prop where
  base_lt : j.baseVersion < j.nextVersion
  ascending : Ascending j.nextVersion j.baseVersion j.entries

instance (j : Journal) : Decidable j.Rising :=
  decidable_of_iff (j.baseVersion < j.nextVersion ∧
    Ascending j.nextVersion j.baseVersion j.entries)
    ⟨fun h => ⟨h.1, h.2⟩, fun h => ⟨h.base_lt, h.ascending⟩⟩

variable {j k : Journal} {edit : Edit} {now : Nat} {status : RecordStatus}

/-- In one list: the base version, those of the entries, and the next one. -/
theorem rising_iff_pairwise :
    j.Rising ↔
      (j.baseVersion :: (j.entries.map (·.version) ++ [j.nextVersion])).Pairwise (· < ·) := by
  rw [List.pairwise_cons, List.forall_mem_append, List.forall_mem_map,
    List.forall_mem_singleton, List.pairwise_append]
  simp only [List.forall_mem_map, List.forall_mem_singleton]
  constructor
  · intro h
    obtain ⟨rises, between⟩ := ascending_iff_pairwise.mp h.ascending
    exact ⟨⟨fun entry he => (between entry he).1, h.base_lt⟩, rises,
      List.pairwise_singleton _ _, fun entry he => (between entry he).2⟩
  · intro h
    obtain ⟨⟨above, base_lt⟩, rises, -, below⟩ := h
    exact ⟨base_lt, ascending_iff_pairwise.mpr
      ⟨rises, fun entry he => ⟨above entry he, below entry he⟩⟩⟩

/-! ## Changes -/

/-- The rising versions of a part of the entries, from the version before it. -/
theorem Rising.window (h : j.Rising) (p d : Nat) :
    versionBehind j.baseVersion ((j.entries.take p).take d) < j.nextVersion ∧
      Ascending j.nextVersion (versionBehind j.baseVersion ((j.entries.take p).take d))
        ((j.entries.take p).drop d) := by
  have front := h.ascending.take p
  rw [← List.take_append_drop d (j.entries.take p), ascending_append] at front
  exact ⟨versionBehind_lt h.base_lt fun entry he => (front.1.between entry he).2, front.2⟩

namespace Rising

theorem version_lt (h : j.Rising) : ∀ entry ∈ j.entries, entry.version < j.nextVersion :=
  fun entry he => (h.ascending.between entry he).2

theorem leaves {p d : Nat} {last : Entry} (h : j.Rising) (leaves : j.Leaves k p d last) :
    k.Rising := by
  obtain ⟨base, old⟩ := h.window p d
  have behind := versionBehind_lt base fun entry he => (old.between entry he).2
  refine ⟨?_, ?_⟩
  · rw [leaves.base, leaves.next]
    exact Nat.lt_succ_of_lt base
  · rw [leaves.entries, leaves.base, leaves.next, ascending_append, ascending_cons,
      leaves.version]
    exact ⟨old.mono (Nat.le_succ _), behind, Nat.lt_succ_self _, ascending_nil⟩

theorem takes (h : j.Rising) (takes : j.Takes edit now status k) : k.Rising := by
  rcases takes.leaves with ⟨-, rfl⟩ | ⟨p, d, last, leaves⟩
  · exact h
  · exact h.leaves leaves

/-- **No request breaks the order of the versions.** -/
theorem serves (h : j.Rising) (serves : j.Serves k) : k.Rising := by
  cases serves with
  | takes edit now status plain nonempty takes => exact h.takes takes
  | rests entries base next kept idle =>
    refine ⟨by rw [base, next]; exact h.base_lt, ?_⟩
    rw [base, next]
    exact (ascending_congr (versions_eq_of_unmarked_eq entries)).mpr h.ascending
  | clears entries position base next idle =>
    refine ⟨by omega, ?_⟩
    rw [entries]
    exact ascending_nil

end Rising

/-! ## What else a save relies on -/

section Storable

/-- The entries behind a change hold insertions and deletions, as those before it. -/
theorem Plain.takes (plain : j.Plain) (hkind : edit.kind ≠ .replace)
    (takes : j.Takes edit now status k) : k.Plain := by
  have front : ∀ entry ∈ j.truncated.entries, ∀ e ∈ entry.edits, e.kind ≠ .replace :=
    fun entry he => plain entry (List.mem_of_mem_take he)
  cases takes with
  | nothing empty => exact plain
  | joined tail changed nonempty last joins =>
    -- how an entry is joined does not depend on the group numbers given out
    have old : tail.Sound (tail.group.getD 0) :=
      ⟨fun id hid => by simp [hid], front tail (List.mem_of_getLast? last)⟩
    intro entry he
    rw [noting_entries, replaceTail_entries, List.mem_append, List.mem_singleton] at he
    rcases he with he | rfl
    · exact front entry ((List.dropLast_sublist _).subset he)
    · exact (joins.sound hkind old).plain
  | started group mergeable nonempty starts =>
    intro entry he
    rw [noting_entries, started_entries, List.mem_append, List.mem_singleton] at he
    rcases he with he | rfl
    · exact front entry (j.truncated.roomMade.entries entry he)
    · intro e he
      obtain rfl : e = edit := by simpa [newEntry, Entry.edits] using he
      exact hkind

theorem Plain.serves (plain : j.Plain) (serves : j.Serves k) : k.Plain := by
  cases serves with
  | takes edit now status hkind nonempty takes => exact plain.takes hkind takes
  | rests entries base next kept idle =>
    intro entry he
    have member : entry.unmarked ∈ j.unmarked := entries ▸ List.mem_map_of_mem he
    obtain ⟨old, hold, same⟩ := List.mem_map.mp member
    have edits : old.edits = entry.edits := by simpa using congrArg Entry.edits same
    rw [← edits]
    exact plain old hold
  | clears entries position base next idle => simp [Plain, entries]

/-- What a save relies on to be taken over again. -/
structure Storable (j : Journal) : Prop where
  rising : j.Rising
  plain : j.Plain
  position_le : j.position ≤ j.entries.length

theorem Storable.serves (h : j.Storable) (serves : j.Serves k) : k.Storable where
  rising := h.rising.serves serves
  plain := h.plain.serves serves
  position_le := serves.position_le h.position_le

theorem Storable.serveAll {σ : Type} [Storage σ] (h : j.Storable)
    (requests : List (Request σ)) :
    (j.serveAll requests).Storable :=
  serveAll_invariant (P := Storable) (fun j request h => h.serves (j.serves_serve request)) h
    requests

end Storable

/-! ## Taking a history over -/

section Restored

variable {ceiling next base n : Nat} {entries : List Entry}

theorem dropOldest_ascending (h : Ascending next base entries) (position : Nat) :
    Ascending next (dropOldest ceiling entries position base).2.2
      (dropOldest ceiling entries position base).1 := by
  fun_induction dropOldest ceiling entries position base with
  | case1 base oldest rest position above ih => exact ih h.2.2
  | case2 base oldest rest position below => exact h
  | case3 entries position base stop => exact h

/-- The version of a dropped entry is below the next one, as the base version was. -/
theorem dropOldest_base_lt_iff (h : Ascending next base entries) (hle : next ≤ n)
    (position : Nat) : (dropOldest ceiling entries position base).2.2 < n ↔ base < n := by
  fun_induction dropOldest ceiling entries position base with
  | case1 base oldest rest position above ih =>
    obtain ⟨rises, below, ascending⟩ := ascending_cons.mp h
    have dropped := ih ascending
    omega
  | case2 base oldest rest position below => rfl
  | case3 entries position base stop => rfl

theorem position_restore_le (j : Journal) (entries : List Entry) (position base next : Nat) :
    (j.restore entries position base next).value.position ≤
      (j.restore entries position base next).value.entries.length := by
  rw [value_restore]
  exact (j.kept_fits entries position base).2.1

theorem mem_of_mem_restore {position : Nat} {e : Entry}
    (h : e ∈ (j.restore entries position base next).value.entries) : e ∈ entries := by
  rw [value_restore] at h
  exact (j.kept_fits entries position base).2.2 e h

/-- **When the versions of a journal that took a history over rise.** -/
theorem rising_restore_iff (j : Journal) (h : Ascending next base entries) (position : Nat) :
    (j.restore entries position base next).value.Rising ↔ base < max next j.nextVersion := by
  have front := h.take (entries.length -
    min (entries.length - j.config.ceiling) (entries.length - min position entries.length))
  have hle : next ≤ max next j.nextVersion := Nat.le_max_left _ _
  have base_lt_iff : (j.kept entries position base).2.2 < max next j.nextVersion ↔
      base < max next j.nextVersion := dropOldest_base_lt_iff front hle _
  have ascending : Ascending (max next j.nextVersion) (j.kept entries position base).2.2
      (j.kept entries position base).1 := (dropOldest_ascending front _).mono hle
  rw [value_restore]
  exact ⟨fun rising => base_lt_iff.mp rising.base_lt,
    fun below => ⟨base_lt_iff.mpr below, ascending⟩⟩

/-- What is saved of a storable journal is taken over, and its versions rise then. -/
theorem Storable.load (h : j.Storable) (m : Journal) {text : Text} {savedVersion savedAt : Nat}
    {path : Path} {d d' : Directory}
    (saved : (j.save text savedVersion savedAt path d).value = (.ok (), d'))
    (fits : (JournalFile.ofJournal j text savedVersion savedAt).Fits) :
    ∃ again,
      (m.load text path d').value = .ok (some (savedVersion, again)) ∧ again.Rising := by
  refine ⟨_, (Journal.load_save_eq_ok_iff h.plain m _ saved savedVersion).mpr
    ⟨fits, ⟨h.position_le, h.rising.ascending⟩, rfl, rfl⟩, ?_⟩
  have below : j.baseVersion < max j.nextVersion m.nextVersion :=
    Nat.lt_of_lt_of_le h.rising.base_lt (Nat.le_max_left _ _)
  exact (rising_restore_iff m h.rising.ascending j.position).mpr below

/-- Entries show that the base version is below the next one. -/
theorem base_lt_of_ascending (h : Ascending next base entries) (some_entry : entries ≠ []) :
    base < next := by
  cases entries with
  | nil => exact absurd rfl some_entry
  | cons entry rest => exact Nat.lt_trans h.1 h.2.1

end Restored

end Journal

/-- **The versions of a journal rise behind every file that it takes over**, if the
base version is below the next one; where the file has entries, it is. Then they
rise behind every list of requests, whatever storage there is, and whatever is saved
of the journal is taken over again, if its numbers are words. -/
theorem loaded_versions_rise {σ : Type} [Storage σ] (j l : Journal) (contents : Text)
    (path : Path) (d : Directory) (version : Nat)
    (accepted : (j.load contents path d).value = .ok (some (version, l))) :
    ∃ file, JournalFile.load d path = .ok (some file) ∧
      (l.Rising ↔ file.baseVersion < max file.nextVersion j.nextVersion) ∧
      (file.entries ≠ [] → l.Rising) ∧
      (l.Rising → ∀ requests : List (Request σ),
        let k := l.serveAll requests
        k.Rising ∧
        ∀ (m : Journal) (text : Text) (savedVersion savedAt : Nat) (place : Path)
          (disk disk' : Directory),
          (k.save text savedVersion savedAt place disk).value = (.ok (), disk') →
          (JournalFile.ofJournal k text savedVersion savedAt).Fits →
          ∃ again, (m.load text place disk').value = .ok (some (savedVersion, again)) ∧
            again.Rising) := by
  obtain ⟨file, entries, found, suits, -, rfl⟩ := Journal.load_eq_ok_some_iff.mp accepted
  have rising_iff := Journal.rising_restore_iff j suits.ascending file.position
  refine ⟨file, found, rising_iff, ?_, ?_⟩
  · intro some_record
    have some_entry : entries ≠ [] := by
      rintro rfl
      exact some_record suits.records
    have below := Journal.base_lt_of_ascending suits.ascending some_entry
    exact rising_iff.mpr (Nat.lt_of_lt_of_le below (Nat.le_max_left _ _))
  · intro rising requests k
    have storable : k.Storable := by
      refine Journal.Storable.serveAll ⟨rising, ?_, j.position_restore_le _ _ _ _⟩ requests
      intro entry he
      exact suits.plain (JournalFile.sound_of_load found).1 entry
        (Journal.mem_of_mem_restore he)
    exact ⟨storable.rising, fun m text savedVersion savedAt place disk disk' saved fits =>
      storable.load m saved fits⟩

/-- A file with gaps between its versions, on the text `b`: the second of its two
entries is undone. -/
def gappedFile : JournalFile :=
  { savedAt := 0, digest := Text.digest ['b'], length := 1, position := 1, baseVersion := 3
    nextVersion := 20, savedVersion := 9
    entries :=
      [{ version := 5, timestamp := 0, group := none, savePoint := false, mergeable := true
         edits := [⟨.insert, ⟨0, 0⟩, ['b'], none⟩] },
        { version := 9, timestamp := 4, group := some 7, savePoint := true, mergeable := true
          edits := [⟨.delete, ⟨0, 0⟩, ['b'], none⟩] }] }

/-- Under a ceiling of one entry, the redo tail of the file goes first; a change then
evicts what is left of it. Stepping back, saving and clearing leave a journal that
can be saved and taken over again. -/
theorem gappedFile_versions_rise :
    let j : Journal := { capacity := 1, config := { maxEntries := 1 } }
    let requests : List (Request Text) :=
      [.groupBegin, .record .insert ⟨0, 1⟩ ['c'] 8, .step .undo ['b', 'c'], .markSaved, .clear,
        .record .insert ⟨0, 1⟩ ['d'] 9]
    ∃ l, (j.load ['b'] [['j']] gappedFile.onDisk).value = .ok (some (9, l)) ∧ l.Rising ∧
      let k := l.serveAll requests
      let stored := (k.save ['b', 'd'] 9 0 [['k']] {}).value
      k.Rising ∧ stored.1 = .ok () ∧
        ∃ again, (j.load ['b', 'd'] [['k']] stored.2).value = .ok (some (9, again)) ∧
          again.Rising := by
  intro j requests
  have found := JournalFile.load_onDisk (f := gappedFile) (by decide) (by decide)
  have suits : gappedFile.Suits ['b'] _ := ⟨rfl, rfl, rfl, rfl⟩
  have accepted := j.load_of_suits found suits
  refine ⟨_, accepted, ?_⟩
  obtain ⟨file, found', -, rises, served⟩ :=
    loaded_versions_rise (σ := Text) j _ ['b'] [['j']] gappedFile.onDisk 9 accepted
  obtain rfl : gappedFile = file := by simpa [found] using found'
  have rising := rises (by decide)
  obtain ⟨behind, storable⟩ := served rising requests
  exact ⟨rising, behind, rfl, storable j ['b', 'd'] 9 0 [['k']] {} _ rfl (by decide)⟩

/-- A file without entries, whose base version is above the next one. -/
def baseAhead : JournalFile :=
  { savedAt := 0, digest := Text.digest [], length := 0, position := 0, baseVersion := 9
    nextVersion := 1, savedVersion := 9, entries := [] }

/-- It is taken over. The versions do not rise then, and what is saved behind the
next change is refused. -/
theorem baseAhead_versions_do_not_rise :
    let j : Journal := { capacity := 128, config := {} }
    ∃ l, (j.load [] [['j']] baseAhead.onDisk).value = .ok (some (9, l)) ∧ ¬ l.Rising ∧
      let k := l.serve (.record .insert ⟨0, 0⟩ ['a'] 0 : Request Text)
      let stored := (k.save ['a'] 9 0 [['k']] {}).value
      stored.1 = .ok () ∧
        (j.load ['a'] [['k']] stored.2).value =
          .error (.corrupt (.versionOutOfOrder 0 1)) := by
  intro j
  have found := JournalFile.load_onDisk (f := baseAhead) (by decide) (by decide)
  have suits : baseAhead.Suits [] [] := ⟨rfl, rfl, rfl, rfl⟩
  refine ⟨_, j.load_of_suits found suits, by decide, ?_⟩
  intro k stored
  have behind : k =
      { entries := [{ first := ⟨.insert, ⟨0, 0⟩, ['a'], none⟩, timestamp := 0, version := 1 }]
        position := 1, capacity := 128, config := {}, totalBytes := 113, baseVersion := 9
        nextVersion := 2, grouping := { last := some ⟨0, .insert, ⟨0, 1⟩⟩ } } := by decide
  have flaw : (JournalFile.ofJournal k ['a'] 9 0).check = .error (.versionOutOfOrder 0 1) := by
    rw [behind]
    rfl
  clear_value k
  have saved : stored = (.ok (), stored.2) := rfl
  have read := (Journal.load_eq_ok_iff_of_save (by rw [behind]; decide) saved _).mpr
    ⟨rfl, by rw [behind]; decide⟩
  refine ⟨rfl, ?_⟩
  rw [Journal.load, read]
  exact congrArg (Except.map some) (Journal.takeOver_of_flaw j k [['k']] flaw)

end EditJournal
