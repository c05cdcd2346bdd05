/-
EditJournal.Proofs.Soundness — what no operation of a journal breaks.

* `Grouping.Sound` — an open group has a number that was given out, and there
  is one exactly inside brackets.
* `Journal.Sound` — the entries fit in the capacity, and that under the ceiling;
  the bytes are those of the entries; every group number was given out; no entry
  holds a replacement; and nothing is being replayed.

Each operation keeps `Sound`, and so does each part of recording: dropping the
redo tail, making room, starting an entry, joining one. Where a history is taken
over, `kept_fits` says that no more than the ceiling is kept of it.
-/
import EditJournal.Proofs.Coalescing
import EditJournal.Proofs.HistorySteps
import EditJournal.Proofs.Recording
import EditJournal.Proofs.SavedHistory

namespace EditJournal

/-! ## Groups -/

namespace Grouping

/-- Group numbers in use were given out, and a group is open inside brackets. -/
structure Sound (g : Grouping) : Prop where
  current_le : ∀ id, g.current = some id → id ≤ g.newest
  closed_iff : g.depth = 0 ↔ g.current = none

variable {g : Grouping}

theorem Sound.begin (h : g.Sound) : g.begin.Sound where
  current_le id hid := by
    by_cases hd : g.depth = 0
    · simp only [Grouping.begin, hd, if_true, Option.some.injEq] at hid ⊢
      omega
    · simp only [Grouping.begin, hd, if_false] at hid ⊢
      exact h.current_le id hid
  closed_iff := by
    have some_depth (n : Nat) : min (n + 1) depthLimit ≠ 0 := by
      simp [depthLimit]
    by_cases hd : g.depth = 0
    · simp [Grouping.begin, hd, some_depth]
    · simp [Grouping.begin, hd, some_depth, ← h.closed_iff]

theorem Sound.close (h : g.Sound) : g.close.2.Sound := by
  unfold Grouping.close
  split
  · exact h
  · split <;> exact ⟨by simp, by simp⟩
  · rename_i depth hd
    refine ⟨h.current_le, ?_⟩
    have inside : g.current ≠ none := fun closed => by simpa [hd] using h.closed_iff.mpr closed
    simpa using inside

theorem newest_le_begin (g : Grouping) : g.newest ≤ g.begin.newest := by
  unfold Grouping.begin
  split
  · exact Nat.le_succ _
  · exact Nat.le_refl _

theorem newest_close (g : Grouping) : g.close.2.newest = g.newest := by
  unfold Grouping.close
  split
  · rfl
  · split <;> rfl
  · rfl

theorem Sound.endRun (h : g.Sound) : g.endRun.Sound := ⟨h.current_le, h.closed_iff⟩

theorem Sound.note (h : g.Sound) (last : LastEdit) : (g.note last).Sound :=
  ⟨h.current_le, h.closed_iff⟩

theorem Sound.reserve (h : g.Sound) (group : Nat) : (g.reserve group).Sound :=
  ⟨fun id hid => Nat.le_trans (h.current_le id hid) (Nat.le_max_left _ _), h.closed_iff⟩

end Grouping

/-! ## Journals -/

/-- The entry's group was given out, and it holds insertions and deletions. -/
structure Entry.Sound (e : Entry) (newest : Nat) : Prop where
  group_le : ∀ id, e.group = some id → id ≤ newest
  plain : ∀ edit ∈ e.edits, edit.kind ≠ .replace

theorem Entry.Sound.mono {e : Entry} {m n : Nat} (h : e.Sound m) (hle : m ≤ n) : e.Sound n :=
  ⟨fun id hid => Nat.le_trans (h.group_le id hid) hle, h.plain⟩

namespace Journal

structure Sound (j : Journal) : Prop where
  idle : j.replaying = false
  position_le : j.position ≤ j.entries.length
  bytes : j.totalBytes = total Entry.size j.entries
  fits : j.entries.length ≤ j.capacity
  capacity_pos : 0 < j.capacity
  capacity_le : j.capacity ≤ j.config.ceiling
  next_pos : 0 < j.nextVersion
  entries : ∀ e ∈ j.entries, e.Sound j.grouping.newest
  grouping : j.grouping.Sound

variable {j k : Journal}

namespace Sound

theorem plain (h : j.Sound) : j.Plain := fun e he => (h.entries e he).plain

theorem length_le_ceiling (h : j.Sound) : j.entries.length ≤ j.config.ceiling :=
  Nat.le_trans h.fits h.capacity_le

/-- Other grouping under which the same numbers are given out. -/
theorem regroup (h : j.Sound) {grouping : Grouping} (sound : grouping.Sound)
    (hle : j.grouping.newest ≤ grouping.newest) : Sound { j with grouping } :=
  { h with
    entries := fun e he => (h.entries e he).mono hle
    grouping := sound }

/-! ### Dropping entries -/

theorem truncated (h : j.Sound) : j.truncated.Sound where
  idle := h.idle
  position_le := by simp [h.position_le]
  bytes := by
    have parts : total Entry.size (j.entries.take j.position ++ j.entries.drop j.position) =
        j.totalBytes := by
      rw [List.take_append_drop, h.bytes]
    rw [total_append] at parts
    simp only [Journal.truncated]
    omega
  fits := by
    have := h.fits
    simp only [List.length_take, Journal.truncated]
    omega
  capacity_pos := h.capacity_pos
  capacity_le := h.capacity_le
  next_pos := h.next_pos
  entries e he := h.entries e (List.mem_of_mem_take he)
  grouping := h.grouping

theorem withoutOldest (h : j.Sound) : j.withoutOldest.Sound := by
  have bytes := h.bytes
  have fits := h.fits
  have within := h.position_le
  unfold Journal.withoutOldest
  split
  · exact h
  · rename_i oldest rest he
    rw [he] at bytes fits within
    simp only [total_cons, List.length_cons] at bytes fits within
    refine ⟨h.idle, ?_, ?_, ?_, h.capacity_pos, h.capacity_le, h.next_pos, ?_, h.grouping⟩
    · show j.position - 1 ≤ rest.length
      omega
    · show j.totalBytes - oldest.size = total Entry.size rest
      omega
    · show rest.length ≤ j.capacity
      omega
    · intro e hm
      exact h.entries e (by simp [he, hm])

/-! ### Making room -/

/-- The allocator has no part in it. -/
theorem asked (h : j.Sound) : j.asked.Sound :=
  ⟨h.idle, h.position_le, h.bytes, h.fits, h.capacity_pos, h.capacity_le, h.next_pos,
    h.entries, h.grouping⟩

theorem lt_doubledCapacity (h : j.capacity < j.config.ceiling) :
    j.capacity < j.doubledCapacity ∧ j.doubledCapacity ≤ j.config.ceiling := by
  simp only [doubledCapacity]
  omega

theorem grown (h : j.Sound) (more : j.capacity < j.config.ceiling) : j.grown.Sound := by
  obtain ⟨above, below⟩ := lt_doubledCapacity more
  have fits := h.fits
  refine ⟨h.idle, h.position_le, h.bytes, ?_, ?_, below, h.next_pos, h.entries, h.grouping⟩
  · show j.entries.length ≤ j.doubledCapacity
    omega
  · show 0 < j.doubledCapacity
    omega

/-- A full journal has an oldest entry; without it there is room. -/
theorem withoutOldest_length (h : j.Sound) (full : j.capacity ≤ j.length) :
    j.withoutOldest.entries.length < j.withoutOldest.capacity := by
  have fits := h.fits
  have capacity := h.capacity_pos
  rw [length] at full
  cases he : j.entries with
  | nil =>
    rw [he, List.length_nil] at full
    omega
  | cons oldest rest =>
    rw [he, List.length_cons] at fits
    simp only [Journal.withoutOldest, he]
    omega

/-- Making room makes room. -/
theorem makeRoom (h : j.Sound) :
    j.makeRoom.value.2.Sound ∧
      j.makeRoom.value.2.entries.length < j.makeRoom.value.2.capacity := by
  rcases j.makeRoom_cases with
    ⟨room, hv⟩ | ⟨-, more, -, hv⟩ | ⟨full, -, hv, -⟩ | ⟨full, -, -, hv, -⟩
  · rw [hv]
    exact ⟨h, room⟩
  · rw [hv]
    have above := (lt_doubledCapacity more).1
    have fits := h.fits
    refine ⟨h.grown more, ?_⟩
    show j.entries.length < j.doubledCapacity
    omega
  · rw [hv]
    exact ⟨h.withoutOldest, h.withoutOldest_length full⟩
  · rw [hv]
    exact ⟨h.asked.withoutOldest, h.asked.withoutOldest_length full⟩

/-! ### Changes -/

theorem withEntry (h : j.Sound) (room : j.entries.length < j.capacity) {entry : Entry}
    (sound : entry.Sound j.grouping.newest) : (j.withEntry entry).Sound where
  idle := h.idle
  position_le := by simp [Journal.withEntry]
  bytes := by simp [Journal.withEntry, h.bytes]
  fits := by
    simp only [Journal.withEntry, List.length_append, List.length_singleton]
    omega
  capacity_pos := h.capacity_pos
  capacity_le := h.capacity_le
  next_pos := Nat.succ_pos _
  entries e he := by
    rcases List.mem_append.mp he with he | he
    · exact h.entries e he
    · obtain rfl : e = entry := by simpa using he
      exact sound
  grouping := h.grouping

theorem replaceTail (h : j.Sound) {tail changed : Entry}
    (last : j.entries.getLast? = some tail)
    (sound : changed.Sound j.grouping.newest) : (j.replaceTail tail changed).Sound := by
  obtain ⟨front, hfront⟩ := List.getLast?_eq_some_iff.mp last
  have bytes := h.bytes
  have fits := h.fits
  have within := h.position_le
  have entries : (j.replaceTail tail changed).entries = front ++ [j.restamped changed] := by
    rw [replaceTail_entries, hfront, List.dropLast_concat]
  have size : (j.restamped changed).size = changed.size := rfl
  rw [hfront] at bytes fits within
  simp only [total_append, total_cons, total_nil, List.length_append, List.length_singleton]
    at bytes fits within
  refine ⟨h.idle, ?_, ?_, ?_, h.capacity_pos, h.capacity_le, Nat.succ_pos _, ?_, h.grouping⟩
  · rw [entries, replaceTail_position, List.length_append, List.length_singleton]
    exact within
  · rw [entries, total_append, total_cons, total_nil, size]
    show j.totalBytes - tail.size + changed.size = _
    omega
  · rw [entries, List.length_append, List.length_singleton]
    exact fits
  · rw [entries]
    intro e he
    rcases List.mem_append.mp he with he | he
    · exact h.entries e (by simp [hfront, he])
    · obtain rfl : e = j.restamped changed := by simpa using he
      exact ⟨sound.group_le, sound.plain⟩

end Sound

/-- A change that joins an entry leaves it sound. -/
theorem Joins.sound {edit : Edit} {now n : Nat} {tail changed : Entry}
    (joins : j.Joins edit now tail changed) (hkind : edit.kind ≠ .replace) (h : tail.Sound n) :
    changed.Sound n := by
  cases joins with
  | group id isOpen member =>
    refine ⟨h.group_le, ?_⟩
    show ∀ e ∈ tail.edits ++ [edit], e.kind ≠ .replace
    rw [List.forall_mem_append, List.forall_mem_singleton]
    exact ⟨h.plain, hkind⟩
  | run how loose small unsealed plan =>
    obtain ⟨single, same, -, -⟩ := Coalesce.plan_eq_ok plan
    have kind : (how.join tail.first edit.place edit.payload).kind = tail.first.kind := by
      cases how <;> rfl
    refine ⟨h.group_le, ?_⟩
    have edits : (Coalesce.splice how tail edit.place edit.payload now).edits =
        [how.join tail.first edit.place edit.payload] := by
      simp [Coalesce.splice, Entry.edits, single]
    rw [edits, List.forall_mem_singleton, kind]
    exact h.plain tail.first (by simp [Entry.edits])

/-- What making room keeps of a journal. -/
structure RoomMade (j k : Journal) : Prop where
  grouping : k.grouping = j.grouping
  config : k.config = j.config
  next : k.nextVersion = j.nextVersion
  refusals : ∀ refused ∈ k.refusals, refused ∈ j.refusals
  entries : ∀ e ∈ k.entries, e ∈ j.entries

theorem roomMade_withoutOldest (j : Journal) : j.RoomMade j.withoutOldest := by
  unfold Journal.withoutOldest
  split
  · exact ⟨rfl, rfl, rfl, fun _ h => h, fun _ h => h⟩
  · rename_i oldest rest he
    refine ⟨rfl, rfl, rfl, fun _ h => h, fun e hm => ?_⟩
    rw [he]
    exact List.mem_cons_of_mem oldest hm

theorem roomMade (j : Journal) : j.RoomMade j.makeRoom.value.2 := by
  have asked : ∀ refused ∈ j.asked.refusals, refused ∈ j.refusals := fun _ h =>
    List.mem_of_mem_tail h
  rcases j.makeRoom_cases with ⟨-, hv⟩ | ⟨-, -, -, hv⟩ | ⟨-, -, hv, -⟩ | ⟨-, -, -, hv, -⟩
  · rw [hv]
    exact ⟨rfl, rfl, rfl, fun _ h => h, fun _ h => h⟩
  · rw [hv]
    exact ⟨rfl, rfl, rfl, asked, fun _ h => h⟩
  · rw [hv]
    exact j.roomMade_withoutOldest
  · rw [hv]
    have dropped := j.asked.roomMade_withoutOldest
    exact ⟨dropped.grouping, dropped.config, dropped.next,
      fun r h => asked r (dropped.refusals r h), dropped.entries⟩

theorem Sound.noting (h : j.Sound) (edit : Edit) (now : Nat) : (j.noting edit now).Sound :=
  h.regroup (h.grouping.note _) (Nat.le_refl _)

theorem Sound.started (h : j.Sound) {edit : Edit} {now : Nat} {group : Option Nat}
    {mergeable : Bool} (starts : j.Starts edit now group mergeable)
    (hkind : edit.kind ≠ .replace) : (j.started edit now group mergeable).Sound := by
  obtain ⟨sound, room⟩ := h.makeRoom
  refine sound.withEntry room ⟨?_, ?_⟩
  · intro id hid
    rw [j.roomMade.grouping]
    exact h.grouping.current_le id (starts.group_eq ▸ hid)
  · intro e he
    obtain rfl : e = edit := by simpa [newEntry, Entry.edits] using he
    exact hkind

theorem Takes.sound {edit : Edit} {now : Nat} {status : RecordStatus}
    (takes : j.Takes edit now status k) (h : j.Sound) (hkind : edit.kind ≠ .replace) :
    k.Sound := by
  cases takes with
  | nothing empty => exact h
  | joined tail changed nonempty last joins =>
    have old : tail.Sound j.grouping.newest :=
      h.truncated.entries tail (List.mem_of_getLast? last)
    exact (h.truncated.replaceTail last (joins.sound hkind old)).noting edit now
  | started group mergeable nonempty starts =>
    exact (h.truncated.started starts hkind).noting edit now

theorem Sound.record (h : j.Sound) {kind : EditKind} {place : Location} {text : Text}
    {now : Nat}
    {status : RecordStatus} (hv : (j.record kind place text now).value = .ok (status, k)) :
    k.Sound := by
  by_cases hkind : kind = .replace
  · simp [hkind, record_replace h.idle] at hv
  · exact ((record_eq_ok_iff h.idle hkind).mp hv).sound h hkind

/-! ### Steps in the history -/

theorem Sound.stepped (h : j.Sound) {step : HistoryStep} {index : Nat} {entry : Entry}
    (ht : j.target? step = some (index, entry)) : (j.stepped step index).Sound where
  idle := rfl
  position_le := by
    obtain ⟨he, -⟩ := (target?_eq_some_iff j step index entry).mp ht
    have hlt : index < j.entries.length := (List.getElem?_eq_some_iff.mp he).1
    cases step with
    | undo => exact Nat.le_of_lt hlt
    | redo => exact hlt
  bytes := h.bytes
  fits := h.fits
  capacity_pos := h.capacity_pos
  capacity_le := h.capacity_le
  next_pos := h.next_pos
  entries := h.entries
  grouping := h.grouping.endRun

theorem Sound.step (h : j.Sound) (step : HistoryStep) (s : Text) :
    (j.step step s).value.2.1.Sound := by
  rcases step_cases j step s with ⟨-, hv⟩ | ⟨index, entry, ht, ⟨t, -, hv⟩ | ⟨error, -, hv⟩⟩
  · rw [hv]
    exact h
  · rw [hv]
    exact h.stepped ht
  · rw [hv]
    exact { h with idle := rfl }

/-! ### Save points and clearing -/

theorem total_mapIdx {α : Type} {measure : α → Nat} {f : Nat → α → α}
    (same : ∀ i a, measure (f i a) = measure a) (items : List α) :
    total measure (items.mapIdx f) = total measure items := by
  -- behind the first item the indices are one higher, so `f` is not fixed
  induction items generalizing f with
  | nil => rfl
  | cons item items ih =>
    rw [List.mapIdx_cons, total_cons, total_cons, same, ih fun i => same (i + 1)]

theorem Sound.markSaved (h : j.Sound) : j.markSaved.value.2.Sound where
  idle := h.idle
  position_le := by simpa [Journal.markSaved] using h.position_le
  bytes := by
    have same (i : Nat) (e : Entry) :
        ({ e with savePoint := i + 1 == j.position } : Entry).size = e.size := rfl
    exact h.bytes.trans (total_mapIdx same j.entries).symm
  fits := by simpa [Journal.markSaved] using h.fits
  capacity_pos := h.capacity_pos
  capacity_le := h.capacity_le
  next_pos := h.next_pos
  entries e he := by
    simp only [Journal.markSaved, Narrated.value_bind, Narrated.value_pure,
      List.mem_mapIdx] at he
    obtain ⟨i, hi, rfl⟩ := he
    have old := h.entries j.entries[i] (List.getElem_mem hi)
    exact ⟨old.group_le, old.plain⟩
  grouping := h.grouping

theorem Sound.clear (h : j.Sound) : j.clear.value.Sound where
  idle := h.idle
  position_le := Nat.zero_le _
  bytes := rfl
  fits := Nat.zero_le _
  capacity_pos := h.capacity_pos
  capacity_le := h.capacity_le
  next_pos := Nat.succ_pos _
  entries e he := by simp [Journal.clear, Journal.endRun] at he
  grouping := h.grouping.endRun

theorem sound_create (config : Config) (refusals : List Bool) :
    (Journal.create config refusals).value.Sound := by
  have first := config.firstCapacity_pos
  have first_le := config.firstCapacity_le
  have empty (capacity : Nat) (rest : List Bool) (pos : 0 < capacity)
      (le : capacity ≤ config.ceiling) :
      Journal.Sound { capacity, config, refusals := rest } :=
    ⟨rfl, Nat.le_refl _, rfl, Nat.zero_le _, pos, le, Nat.zero_lt_one, by simp,
      ⟨by simp, by simp⟩⟩
  rcases create_eq config refusals with ⟨rest, -, new⟩ | ⟨cause, rest, -, new⟩
  · rw [new]
    exact empty _ rest first first_le
  · rw [new]
    refine empty _ rest ?_ ?_ <;> simp only [fallbackCapacity] <;> omega

/-! ### Taking a history over -/

/-- What is kept under a ceiling: a part of the entries, no more than the
ceiling, with the position among them. -/
theorem dropOldest_fits (ceiling : Nat) (entries : List Entry) (position base : Nat)
    (within : position ≤ entries.length) (fits : entries.length ≤ max ceiling position) :
    (dropOldest ceiling entries position base).1.length ≤ ceiling ∧
      (dropOldest ceiling entries position base).2.1 ≤
        (dropOldest ceiling entries position base).1.length ∧
      ∀ e ∈ (dropOldest ceiling entries position base).1, e ∈ entries := by
  fun_induction dropOldest ceiling entries position base with
  | case1 base oldest rest position above ih =>
    simp only [List.length_cons] at within fits
    obtain ⟨length, position, kept⟩ := ih (by omega) (by omega)
    exact ⟨length, position, fun e he => List.mem_cons_of_mem _ (kept e he)⟩
  | case2 base oldest rest position below =>
    exact ⟨Nat.not_lt.mp below, within, fun e he => he⟩
  | case3 entries position base stop =>
    refine ⟨?_, within, fun e he => he⟩
    cases entries with
    | nil => exact Nat.zero_le _
    | cons oldest rest =>
      cases position with
      | zero => simpa using fits
      | succ position => exact (stop oldest rest position rfl rfl).elim

theorem kept_fits (j : Journal) (entries : List Entry) (position base : Nat) :
    (j.kept entries position base).1.length ≤ j.config.ceiling ∧
      (j.kept entries position base).2.1 ≤ (j.kept entries position base).1.length ∧
      ∀ e ∈ (j.kept entries position base).1, e ∈ entries := by
  simp only [kept]
  generalize hfront : entries.take (entries.length -
    min (entries.length - j.config.ceiling)
      (entries.length - min position entries.length)) = front
  have length := congrArg List.length hfront
  rw [List.length_take] at length
  obtain ⟨fits, within, members⟩ := dropOldest_fits j.config.ceiling front
    (min position entries.length) base (by omega) (by omega)
  exact ⟨fits, within, fun e he => List.mem_of_mem_take (hfront ▸ members e he)⟩

theorem newestGroup_le_iff {entries : List Entry} {n : Nat} :
    newestGroup entries ≤ n ↔ ∀ e ∈ entries, ∀ id, e.group = some id → id ≤ n := by
  have foldl_le_iff (ids : List Nat) (start : Nat) :
      ids.foldl max start ≤ n ↔ start ≤ n ∧ ∀ id ∈ ids, id ≤ n := by
    induction ids generalizing start with
    | nil => simp
    | cons first rest ih =>
      rw [List.foldl_cons, ih, Nat.max_le, List.forall_mem_cons, and_assoc]
  rw [newestGroup, foldl_le_iff]
  constructor
  · rintro ⟨-, below⟩ e he id hid
    exact below id (List.mem_filterMap.mpr ⟨e, he, hid⟩)
  · intro below
    refine ⟨Nat.zero_le n, fun id hid => ?_⟩
    obtain ⟨e, he, hgroup⟩ := List.mem_filterMap.mp hid
    exact below e he id hgroup

/-- No number of a group is above the newest one. -/
theorem le_newestGroup {entries : List Entry} {e : Entry} (he : e ∈ entries) {id : Nat}
    (hid : e.group = some id) : id ≤ newestGroup entries :=
  newestGroup_le_iff.mp (Nat.le_refl _) e he id hid

theorem Sound.restore (h : j.Sound) {entries : List Entry}
    (plain : ∀ e ∈ entries, ∀ edit ∈ e.edits, edit.kind ≠ .replace)
    (position base next : Nat) :
    (j.restore entries position base next).value.Sound := by
  obtain ⟨fits, within, members⟩ := j.kept_fits entries position base
  have capacity := h.capacity_pos
  have ceiling := h.capacity_le
  have next_pos := h.next_pos
  rw [value_restore]
  refine ⟨h.idle, within, rfl, ?_, ?_, Nat.min_le_right _ _, ?_, ?_,
    (h.grouping.reserve _).endRun⟩
  · show (j.kept entries position base).1.length ≤
      min (max j.capacity (j.kept entries position base).1.length) j.config.ceiling
    omega
  · show 0 < min (max j.capacity (j.kept entries position base).1.length) j.config.ceiling
    omega
  · show 0 < max next j.nextVersion
    omega
  · intro e he
    refine ⟨fun id hid => ?_, plain e (members e he)⟩
    exact Nat.le_trans (le_newestGroup he hid) (Nat.le_max_right _ _)

end Journal

end EditJournal
