/-
EditJournal.Proofs.RestoredEntries — no later change extends an entry that was
taken over from a file.

* `Journal.placeBehind` — where an entry stands behind a change: the redo tail is
  gone, and where an entry was evicted, the oldest one is gone and the others move up.
* `Journal.standsAfter` — where it stands behind a list of requests, if it does.
* `Journal.Keeps j k e` — the entry `e` stands at the index `k`, and no change will
  join it: its group is over, and unless the typing run is sealed an entry stands
  behind it.
* `Journal.Fares` — what becomes of it: it stands so at its place, or is gone for good.

`loaded_entries_are_kept` is the main result: while `standsAfter` says that an entry
stands, it has the changes and the version that it was taken over with; where it says
that the entry is gone, its version does not come back. It is asked only that the
entry is not of the undo group that is open when the file is taken over; such an
entry is joined by the next change (`openGroup_is_joined`).

## How the proof goes

A change joins the last entry for two reasons only (`Journal.Joins`). An entry of a
group that is over is joined for neither. One without a group could be joined by
typing, but only as the last entry while the run is not sealed; taking a history over
seals it, and the first change behind that puts an entry of its own at the end.
-/
import EditJournal.Proofs.RisingVersions

namespace EditJournal

/-! ## Versions -/

section Ascending

variable {next base : Nat} {entries : List Entry} {a b : Entry}

/-- Along the entries, the versions rise. -/
theorem Ascending.version_lt (h : Ascending next base entries) {i k : Nat}
    (at_i : entries[i]? = some a) (at_k : entries[k]? = some b) (before : i < k) :
    a.version < b.version := by
  induction entries generalizing base i k with
  | nil => simp at at_i
  | cons entry rest ih =>
    obtain ⟨k, rfl⟩ := Nat.exists_eq_succ_of_ne_zero (Nat.ne_zero_of_lt before)
    rw [List.getElem?_cons_succ] at at_k
    cases i with
    | zero =>
      obtain rfl : entry = a := by simpa using at_i
      exact (h.2.2.between b (List.mem_of_getElem? at_k)).1
    | succ i =>
      rw [List.getElem?_cons_succ] at at_i
      exact ih h.2.2 at_i at_k (Nat.lt_of_succ_lt_succ before)

/-- So the version of an entry outside a part of the list is not found in it. -/
theorem Ascending.version_ne (h : Ascending next base entries) {d p k : Nat} {e : Entry}
    (at_k : entries[k]? = some e) (outside : ¬ (d ≤ k ∧ k < p)) :
    ∀ other ∈ (entries.take p).drop d, other.version ≠ e.version := by
  intro other hmem
  obtain ⟨n, at_n⟩ := List.mem_iff_getElem?.mp hmem
  rw [List.getElem?_drop] at at_n
  have inside : d + n < p := by
    have bound := (List.getElem?_eq_some_iff.mp at_n).1
    rw [List.length_take] at bound
    omega
  rw [List.getElem?_take_of_lt inside] at at_n
  rcases Nat.lt_trichotomy (d + n) k with before | here | behind
  · exact Nat.ne_of_lt (h.version_lt at_n at_k before)
  · omega
  · exact Nat.ne_of_gt (h.version_lt at_k at_n behind)

end Ascending

/-! ## Sealed typing runs -/

namespace Grouping

variable {g : Grouping}

/-- Brackets open no typing run. -/
theorem isSealed_of_begin (h : g.begin.isSealed = false) : g.isSealed = false := by
  unfold Grouping.begin at h
  split at h
  · simp [isSealed] at h
  · exact h

theorem isSealed_of_close (h : g.close.2.isSealed = false) : g.isSealed = false := by
  unfold Grouping.close at h
  split at h
  · exact h
  · split at h <;> simp [isSealed] at h
  · exact h

end Grouping

namespace Journal

/-! ## Where an entry stands -/

section Standing

variable {σ : Type} [Storage σ]

/-- Where the entry at index `i` stands behind a change, by what became of that. -/
def placeBehind (j : Journal) (status : RecordStatus) (i : Nat) : Option Nat :=
  match status with
  | .suppressed | .empty => some i
  | .evicted => if 0 < i ∧ i < j.position then some (i - 1) else none
  | _ => if i < j.position then some i else none

/-- Where the entry at index `i` stands behind a request. -/
def standsBehind (j : Journal) (i : Nat) : Request σ → Option Nat
  | .record kind place text now =>
    match (j.record kind place text now).value with
    | .ok (status, _) => j.placeBehind status i
    | .error _ => some i
  | .clear => none
  | _ => some i

/-- Where the entry at index `i` stands behind a list of requests. -/
def standsAfter (j : Journal) (i : Nat) : List (Request σ) → Option Nat
  | [] => some i
  | request :: rest => (j.standsBehind i request).bind ((j.serve request).standsAfter · rest)

end Standing

variable {j l : Journal} {edit : Edit} {now i k : Nat} {status : RecordStatus} {e : Entry}

theorem placeBehind_startStatus (evicted mergeable : Bool) (i : Nat) :
    j.placeBehind (startStatus evicted mergeable) i =
      if evicted.toNat ≤ i ∧ i < j.position then some (i - evicted.toNat) else none := by
  cases evicted <;> cases mergeable <;> simp [placeBehind, startStatus, Nat.one_le_iff_ne_zero,
    Nat.pos_iff_ne_zero]

/-! ## Entries that are gone -/

/-- The version was given out, and no entry has it. -/
structure Lacks (j : Journal) (version : Nat) : Prop where
  given : version < j.nextVersion
  gone : ∀ entry ∈ j.entries, entry.version ≠ version

namespace Lacks

variable {version : Nat}

/-- What is left has other versions, and the entry behind it has the next one. -/
theorem leaves {p d : Nat} {last : Entry} (leaves : j.Leaves l p d last)
    (given : version < j.nextVersion)
    (gone : ∀ entry ∈ (j.entries.take p).drop d, entry.version ≠ version) :
    l.Lacks version := by
  have next := leaves.next
  have fresh := leaves.version
  refine ⟨by omega, ?_⟩
  rw [leaves.entries, List.forall_mem_append, List.forall_mem_singleton]
  exact ⟨gone, by omega⟩

theorem takes (h : j.Lacks version) (takes : j.Takes edit now status l) : l.Lacks version := by
  rcases takes.leaves with ⟨-, rfl⟩ | ⟨p, d, last, leaves⟩
  · exact h
  · exact Lacks.leaves leaves h.given fun entry he => h.gone entry (leaves.mem_old he)

theorem serves (h : j.Lacks version) (serves : j.Serves l) : l.Lacks version := by
  cases serves with
  | takes edit now status plain nonempty takes => exact h.takes takes
  | rests entries base next kept idle =>
    refine ⟨by rw [next]; exact h.given, fun entry he => ?_⟩
    have member : entry.version ∈ j.entries.map (·.version) :=
      versions_eq_of_unmarked_eq entries ▸ List.mem_map_of_mem he
    obtain ⟨old, hold, same⟩ := List.mem_map.mp member
    rw [← same]
    exact h.gone old hold
  | clears entries position base next idle =>
    have given := h.given
    exact ⟨by omega, by simp [entries]⟩

end Lacks

/-! ## Entries that stand -/

/-- The entry stands at an index, but for its mark, and no change will join it. -/
structure Keeps (j : Journal) (k : Nat) (e : Entry) : Prop where
  stands : ∃ kept, j.entries[k]? = some kept ∧ kept.unmarked = e.unmarked
  past : ∀ id, e.group = some id → j.grouping.Past id
  inFront : j.grouping.isSealed = false →
    k + 1 < j.entries.length ∧ j.position = j.entries.length

/-- The entry stands at its place, or has none and its version is gone. -/
def Fares (l : Journal) (e : Entry) : Option Nat → Prop
  | some k => l.Keeps k e
  | none => l.Lacks e.version

theorem fares_ite {p : Prop} [Decidable p] (stays : p → l.Keeps k e)
    (goes : ¬ p → l.Lacks e.version) : l.Fares e (if p then some k else none) := by
  split
  · exact stays ‹p›
  · exact goes ‹¬ p›

namespace Keeps

theorem getElem?_unmarked (h : j.Keeps k e) : j.unmarked[k]? = some e.unmarked := by
  obtain ⟨kept, at_k, same⟩ := h.stands
  simp [unmarked, at_k, same]

/-- What a change joins is another entry. -/
theorem lt_of_joins (h : j.Keeps k e) (done : k < j.position) {tail changed : Entry}
    (last : j.truncated.entries.getLast? = some tail)
    (joins : j.truncated.Joins edit now tail changed) :
    k + 1 < j.truncated.entries.length := by
  obtain ⟨kept, at_k, same⟩ := h.stands
  have at_k' : j.truncated.entries[k]? = some kept := by
    rw [truncated_entries, List.getElem?_take_of_lt done, at_k]
  have inside := (List.getElem?_eq_some_iff.mp at_k').1
  refine Nat.lt_of_le_of_ne inside fun lastIndex => ?_
  -- otherwise it is the last entry
  rw [List.getLast?_eq_getElem?, ← lastIndex, Nat.succ_sub_one, at_k'] at last
  obtain rfl : kept = tail := Option.some.inj last
  have group : kept.group = e.group := by simpa using congrArg Entry.group same
  cases joins with
  | group id isOpen member => exact (h.past id (group ▸ member)).notOpen isOpen
  | run how loose small unsealed plan =>
    obtain ⟨before, atEnd⟩ := h.inFront unsealed
    rw [truncated_entries, atEnd, List.take_length] at lastIndex
    omega

/-- It stands in what a change leaves, or its version is gone. -/
theorem leaves {p d : Nat} {last : Entry} (h : j.Keeps i e) (rising : j.Rising)
    (within : j.position ≤ j.entries.length) (leaves : j.Leaves l p d last)
    (grouping : ∃ last, l.grouping = { j.grouping with last }) :
    (d ≤ i ∧ i < p → l.Keeps (i - d) e) ∧ (¬ (d ≤ i ∧ i < p) → l.Lacks e.version) := by
  obtain ⟨kept, at_i, same⟩ := h.stands
  constructor
  · rintro ⟨above, below⟩
    have there : ((j.entries.take p).drop d)[i - d]? = some kept := by
      rw [List.getElem?_drop, Nat.add_sub_cancel' above, List.getElem?_take_of_lt below, at_i]
    have inside := (List.getElem?_eq_some_iff.mp there).1
    obtain ⟨note, hgrouping⟩ := grouping
    refine ⟨⟨kept, ?_, same⟩, fun id hid => ?_, fun _ => ⟨?_, leaves.position within⟩⟩
    · rw [leaves.entries, List.getElem?_append_left inside, there]
    · rw [hgrouping]
      exact ⟨(h.past id hid).given, (h.past id hid).notOpen⟩
    · rw [leaves.entries, List.length_append]
      exact Nat.add_lt_add_right inside 1
  · intro outside
    have version : kept.version = e.version := by simpa using congrArg Entry.version same
    rw [← version]
    exact Lacks.leaves leaves (rising.version_lt kept (List.mem_of_getElem? at_i))
      (rising.ascending.version_ne at_i outside)

/-- **A change leaves an entry as it is, or drops it.** -/
theorem takes (h : j.Keeps i e) (rising : j.Rising) (within : j.position ≤ j.entries.length)
    (nonempty : edit.payload ≠ []) (takes : j.Takes edit now status l) :
    l.Fares e (j.placeBehind status i) := by
  have grouping := takes.grouping_eq
  cases takes with
  | nothing empty => exact absurd empty nonempty
  | joined tail changed _ last joins =>
    obtain ⟨stays, goes⟩ := h.leaves rising within (leaves_replaceTail last changed) grouping
    refine fares_ite (fun done => ?_) fun undone => goes ?_
    · -- the entry that the change joins stands behind it
      have before := h.lt_of_joins done last joins
      exact stays ⟨Nat.zero_le _, by omega⟩
    · rw [truncated_entries, List.length_take]
      omega
  | started group mergeable _ starts =>
    obtain ⟨stays, goes⟩ :=
      h.leaves rising within (j.leaves_started edit now group mergeable) grouping
    rw [placeBehind_startStatus]
    exact fares_ite stays goes

/-- Other grouping and position, under which no typing run was opened. -/
theorem regrouped (h : j.Keeps i e) (entries : l.entries = j.entries)
    (past : ∀ id, j.grouping.Past id → l.grouping.Past id)
    (open_run : l.grouping.isSealed = false →
      j.grouping.isSealed = false ∧ l.position = j.position) : l.Keeps i e where
  stands := by
    rw [entries]
    exact h.stands
  past id hid := past id (h.past id hid)
  inFront unsealed := by
    obtain ⟨unsealed, position⟩ := open_run unsealed
    rw [entries, position]
    exact h.inFront unsealed

theorem markSaved (h : j.Keeps i e) : j.markSaved.value.2.Keeps i e where
  stands := by
    obtain ⟨kept, at_i, same⟩ := h.stands
    refine ⟨{ kept with savePoint := i + 1 == j.position }, ?_, same⟩
    simp [Journal.markSaved, at_i]
  past := h.past
  inFront unsealed := by simpa [Journal.markSaved] using h.inFront unsealed

variable {σ : Type} [Storage σ]

theorem record (h : j.Keeps i e) (rising : j.Rising) (within : j.position ≤ j.entries.length)
    (kind : EditKind) (place : Location) (text : Text) (now : Nat) :
    (j.serve (.record kind place text now : Request σ)).Fares e
      (j.standsBehind i (.record kind place text now : Request σ)) := by
  rcases j.serve_record_cases σ kind place text now with
    ⟨same, idle⟩ | ⟨status, hv, -, nonempty, takes⟩
  · have stays : j.standsBehind i (.record kind place text now : Request σ) = some i := by
      cases hv : (j.record kind place text now).value with
      | error error => simp [standsBehind, hv]
      | ok recorded =>
        obtain ⟨status, k⟩ := recorded
        rcases idle status k hv with rfl | rfl <;> simp [standsBehind, hv, placeBehind]
    rw [same, stays]
    exact h
  · have moves : j.standsBehind i (.record kind place text now : Request σ) =
        j.placeBehind status i := by simp [standsBehind, hv]
    rw [moves]
    exact h.takes rising within nonempty takes

/-- A step leaves all entries; one that moves seals the typing run. -/
theorem step (h : j.Keeps i e) (direction : HistoryStep) (storage : σ) :
    (j.serve (.step direction storage)).Keeps i e := by
  rcases j.serve_step_cases direction storage with same | idle | ⟨index, entry, -, moved⟩
  · rw [same]
    exact h
  · rw [idle]
    exact h.regrouped rfl (fun _ past => past) fun unsealed => ⟨unsealed, rfl⟩
  · rw [moved]
    exact h.regrouped rfl (fun _ past => ⟨past.given, past.notOpen⟩) fun unsealed => by
      simp [stepped, endRun, Grouping.endRun, Grouping.isSealed] at unsealed

/-- Clearing forgets it. -/
theorem lacks_clear (h : j.Keeps i e) (rising : j.Rising) : j.clear.value.Lacks e.version := by
  obtain ⟨kept, at_i, same⟩ := h.stands
  have version : kept.version = e.version := by simpa using congrArg Entry.version same
  have given := rising.version_lt kept (List.mem_of_getElem? at_i)
  exact ⟨version ▸ Nat.lt_succ_of_lt given, by simp [clear, endRun]⟩

/-- **A request leaves an entry as it is, or drops it.** -/
theorem serve (h : j.Keeps i e) (rising : j.Rising) (within : j.position ≤ j.entries.length)
    (request : Request σ) : (j.serve request).Fares e (j.standsBehind i request) := by
  cases request with
  | record kind place text now => exact h.record rising within kind place text now
  | step direction storage => exact h.step direction storage
  | endRun =>
    exact h.regrouped rfl (fun _ past => ⟨past.given, past.notOpen⟩) fun unsealed => by
      simp [Journal.serve, endRun, Grouping.endRun, Grouping.isSealed] at unsealed
  | groupBegin =>
    exact h.regrouped rfl (fun _ past => past.begin) fun unsealed =>
      ⟨Grouping.isSealed_of_begin unsealed, rfl⟩
  | groupEnd =>
    rw [serve_groupEnd]
    exact h.regrouped rfl (fun _ past => past.close) fun unsealed =>
      ⟨Grouping.isSealed_of_close unsealed, rfl⟩
  | markSaved => exact h.markSaved
  | clear => exact h.lacks_clear rising

/-- **So does a list of requests.** -/
theorem serveAll (h : j.Keeps i e) (rising : j.Rising) (within : j.position ≤ j.entries.length)
    (requests : List (Request σ)) :
    (j.serveAll requests).Fares e (j.standsAfter i requests) := by
  induction requests generalizing j i with
  | nil => exact h
  | cons request rest ih =>
    have first := h.serve rising within request
    rw [standsAfter]
    cases place : j.standsBehind i request with
    | some k =>
      rw [place] at first
      have serves := j.serves_serve request
      exact ih first (rising.serves serves) (serves.position_le within)
    | none =>
      rw [place] at first
      exact serveAll_invariant (P := (Lacks · e.version))
        (fun j request lacks => lacks.serves (j.serves_serve request)) first rest

end Keeps

/-- What was taken over is joined by no change, but for the entry of an open group. -/
theorem keeps_restored (j : Journal) {entries : List Entry} {position base next : Nat}
    (stands : (j.restore entries position base next).value.entries[i]? = some e)
    (apart : ∀ id, e.group = some id → j.grouping.current ≠ some id) :
    (j.restore entries position base next).value.Keeps i e := by
  rw [value_restore] at stands ⊢
  refine ⟨⟨e, stands, rfl⟩, fun id hid => ⟨?_, apart id hid⟩, fun unsealed => ?_⟩
  · have given := le_newestGroup (List.mem_of_getElem? stands) hid
    exact Nat.le_trans given (Nat.le_max_right _ _)
  · simp [withHistory, Grouping.endRun, Grouping.isSealed] at unsealed

end Journal

/-- Where the entry at index `i` stands behind a run, by the requests of the run. -/
def Session.standsAfter {σ : Type} [Storage σ] (s : Session σ) (i : Nat)
    (actions : List Action) :
    Option Nat :=
  s.buffer.journal.standsAfter i (s.requestsOf actions)

/-- **Entries that were taken over from a file are not extended.** Behind every run, on
every storage, an entry that is not of the undo group open at that time is gone with
the redo tail, by eviction or by clearing, and its version does not come back; or it
stands as it was taken over, but for the mark of a save. -/
theorem loaded_entries_are_kept {σ : Type} [Storage σ] (b loaded : Buffer σ) (path : Path)
    (d : Directory) (screen : Screen)
    (accepted : (b.loadHistory path d).value = (.ok true, loaded))
    (i : Nat) (e : Entry) (stands : loaded.journal.entries[i]? = some e)
    (apart : ∀ id, e.group = some id → b.journal.grouping.current ≠ some id)
    (actions : List Action) :
    let s : Session σ := { buffer := loaded, screen }
    (∀ k, s.standsAfter i actions = some k →
      (s.after actions).buffer.journal.unmarked[k]? = some e.unmarked) ∧
    (s.standsAfter i actions = none →
      ∀ other ∈ (s.after actions).buffer.journal.entries, other.version ≠ e.version) := by
  intro s
  obtain ⟨file, entries, found, suits, rfl⟩ :=
    Buffer.loadHistory_eq_ok_true_iff_suits.mp accepted
  have keeps := b.journal.keeps_restored stands apart
  have rising : s.buffer.journal.Rising := by
    refine (Journal.rising_restore_iff b.journal suits.ascending file.position).mpr ?_
    have member : e ∈ entries := Journal.mem_of_mem_restore (List.mem_of_getElem? stands)
    have below := Journal.base_lt_of_ascending suits.ascending (List.ne_nil_of_mem member)
    exact Nat.lt_of_lt_of_le below (Nat.le_max_left _ _)
  have position : s.buffer.journal.position ≤ s.buffer.journal.entries.length :=
    b.journal.position_restore_le _ _ _ _
  rw [Session.standsAfter, Session.journal_after]
  have fares := keeps.serveAll rising position (s.requestsOf actions)
  refine ⟨fun k place => ?_, fun gone => ?_⟩
  · replace place : Journal.standsAfter _ i (s.requestsOf actions) = some k := place
    rw [place] at fares
    exact fares.getElem?_unmarked
  · replace gone : Journal.standsAfter _ i (s.requestsOf actions) = none := gone
    rw [gone] at fares
    exact fares.gone

/-- A file on the text `xy`: an entry of group 4, one of no group, and one that is
undone. -/
def threeEntries : JournalFile :=
  { savedAt := 0, digest := Text.digest ['x', 'y'], length := 2, position := 2,
    baseVersion := 0
    nextVersion := 4, savedVersion := 2
    entries :=
      [{ version := 1, timestamp := 0, group := some 4, savePoint := false, mergeable := true
         edits := [⟨.insert, ⟨0, 0⟩, ['x'], none⟩] },
        { version := 2, timestamp := 0, group := none, savePoint := true, mergeable := true
          edits := [⟨.insert, ⟨0, 1⟩, ['y'], none⟩] },
        { version := 3, timestamp := 0, group := none, savePoint := false, mergeable := true
          edits := [⟨.insert, ⟨0, 2⟩, ['z'], none⟩] }] }

/-- Typing goes on behind `y` in an open group and then outside it. The first change
drops the undone entry, the last one evicts the oldest; the one between them
stands. -/
theorem threeEntries_are_kept :
    let b : Buffer Text :=
      ((Session.opened [] ['x', 'y'] { maxEntries := 3 }).after [.groupBegin]).buffer
    let typing : List Action :=
      [.insert ⟨0, 2⟩ ['c'] 1, .insert ⟨0, 3⟩ ['d'] 2, .groupEnd,
        .insert ⟨0, 4⟩ ['e'] 3, .markSaved]
    ∃ loaded, (b.loadHistory [['j']] threeEntries.onDisk).value = (.ok true, loaded) ∧
      let s : Session Text := { buffer := loaded }
      (∀ other ∈ (s.after typing).buffer.journal.entries, other.version ≠ 1) ∧
      (s.after typing).buffer.journal.unmarked[0]? =
        some { first := ⟨.insert, ⟨0, 1⟩, ['y'], none⟩, timestamp := 0, version := 2 } ∧
      ∀ other ∈ (s.after typing).buffer.journal.entries, other.version ≠ 3 := by
  intro b typing
  have found := JournalFile.load_onDisk (f := threeEntries) (by decide) (by decide)
  have suits : threeEntries.Suits b.contents _ := ⟨rfl, rfl, rfl, rfl⟩
  have accepted := b.loadHistory_of_suits found suits
  obtain ⟨-, oldest⟩ := loaded_entries_are_kept b _ _ _ {} accepted 0
    { first := ⟨.insert, ⟨0, 0⟩, ['x'], none⟩, timestamp := 0, group := some 4, version := 1 }
    (by decide +kernel) (by decide) typing
  obtain ⟨middle, -⟩ := loaded_entries_are_kept b _ _ _ {} accepted 1
    { first := ⟨.insert, ⟨0, 1⟩, ['y'], none⟩, timestamp := 0, version := 2,
      savePoint := true }
    (by decide +kernel) (by decide) typing
  obtain ⟨-, undone⟩ := loaded_entries_are_kept b _ _ _ {} accepted 2
    { first := ⟨.insert, ⟨0, 2⟩, ['z'], none⟩, timestamp := 0, version := 3 }
    (by decide +kernel) (by decide) typing
  exact ⟨_, accepted, oldest (by decide +kernel), middle 0 (by decide +kernel),
    undone (by decide +kernel)⟩

/-- A file with one entry, of group 1. -/
def groupedFile : JournalFile :=
  { savedAt := 0, digest := Text.digest ['a', 'b'], length := 2, position := 1,
    baseVersion := 0
    nextVersion := 2, savedVersion := 0
    entries :=
      [{ version := 1, timestamp := 0, group := some 1, savePoint := false, mergeable := true
         edits := [⟨.insert, ⟨0, 1⟩, ['b'], none⟩] }] }

/-- It is taken over while group 1 of a new session is open. The next change then joins
its entry, which nothing has dropped. -/
theorem openGroup_is_joined :
    let b : Buffer Text := ((Session.opened [] ['a', 'b'] {}).after [.groupBegin]).buffer
    ∃ loaded, (b.loadHistory [['j']] groupedFile.onDisk).value = (.ok true, loaded) ∧
      let s : Session Text := { buffer := loaded }
      loaded.journal.entries.map (fun e => (e.edits, e.version)) =
        [([⟨.insert, ⟨0, 1⟩, ['b'], none⟩], 1)] ∧
      s.standsAfter 0 [.insert ⟨0, 2⟩ ['c'] 0] = some 0 ∧
      (s.after [.insert ⟨0, 2⟩ ['c'] 0]).buffer.journal.entries.map
        (fun e => (e.edits, e.version)) =
        [([⟨.insert, ⟨0, 1⟩, ['b'], none⟩, ⟨.insert, ⟨0, 2⟩, ['c'], none⟩], 2)] := by
  intro b
  have found := JournalFile.load_onDisk (f := groupedFile) (by decide) (by decide)
  have suits : groupedFile.Suits b.contents _ := ⟨rfl, rfl, rfl, rfl⟩
  refine ⟨_, b.loadHistory_of_suits found suits, ?_⟩
  intro s
  exact ⟨by decide +kernel, by decide +kernel, by decide +kernel⟩

end EditJournal
