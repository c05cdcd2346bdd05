/-
EditJournal.Proofs.Recording — all that taking a change into a journal can do.

A change drops the redo tail (`truncated`), and then it either joins the last
entry or starts one of its own:

* `Joins` — the two ways to join: into the entry of the open group, or by
  coalescing into the typing run;
* `Starts` — the three reasons to start an entry: the first change of a group,
  a change above the size cap, a change that the typing run refuses;
* `makeRoom_cases` — what making room for a new entry does: nothing, growth,
  or the loss of the oldest entry;
* `record_cases` — a change that is not suppressed, refused or empty does one
  of the two, and nothing else.
* `record_eq_ok_iff` — since no change does both, recording is the relation
  `Takes` between the journal before and the one behind;
* `evictionTold_record` — that an entry was dropped is told exactly if it is
  what became of the change.

Whatever is proved of every recorded change is proved by these cases; no proof
behind this module unfolds `record`.
-/
import EditJournal.Journal.Record

namespace EditJournal

/-- Does the note tell that an entry was dropped to make room? -/
def Note.isEviction (n : Note) : Bool :=
  match n.event with
  | .evicted .. => true
  | _ => false

/-- Do the notes tell that an entry was dropped to make room? -/
def evictionTold (notes : List Note) : Bool := notes.any Note.isEviction

theorem evictionTold_of_subset {notes more : List Note} (h : evictionTold notes)
    (hsub : ∀ note ∈ notes, note ∈ more) : evictionTold more := by
  obtain ⟨note, hmem, hev⟩ := List.any_eq_true.mp h
  exact List.any_eq_true.mpr ⟨note, hsub note hmem, hev⟩

@[simp] theorem evictionTold_nil : evictionTold [] = false := rfl

@[simp] theorem evictionTold_append (first second : List Note) :
    evictionTold (first ++ second) = (evictionTold first || evictionTold second) :=
  List.any_append

@[simp] theorem evictionTold_cons (note : Note) (notes : List Note) :
    evictionTold (note :: notes) = (note.isEviction || evictionTold notes) := rfl

namespace Journal

/-! ## The redo tail -/

/-- The journal without its redo tail. -/
def truncated (j : Journal) : Journal :=
  { j with
    entries := j.entries.take j.position
    totalBytes := j.totalBytes - total Entry.size (j.entries.drop j.position) }

theorem value_truncateRedo (j : Journal) : j.truncateRedo.value = j.truncated := by
  unfold truncateRedo
  split
  · rfl
  · rename_i h
    have hle : j.entries.length ≤ j.position := Nat.not_lt.mp h
    simp [truncated, List.take_of_length_le hle, List.drop_of_length_le hle]

@[simp] theorem truncated_entries (j : Journal) :
    j.truncated.entries = j.entries.take j.position := rfl

@[simp] theorem truncated_position (j : Journal) : j.truncated.position = j.position := rfl

@[simp] theorem truncated_baseVersion (j : Journal) :
    j.truncated.baseVersion = j.baseVersion := rfl

/-! ## Making room -/

/-- The journal without its oldest entry. -/
def withoutOldest (j : Journal) : Journal :=
  match j.entries with
  | [] => j
  | oldest :: rest =>
    { j with
      entries := rest
      position := j.position - 1
      totalBytes := j.totalBytes - oldest.size
      baseVersion := oldest.version }

theorem value_evictOldest (j : Journal) : j.evictOldest.value = j.withoutOldest := by
  cases h : j.entries with
  | nil => simp [evictOldest, withoutOldest, h]
  | cons oldest rest => simp [evictOldest, withoutOldest, h]

@[simp] theorem withoutOldest_nextVersion (j : Journal) :
    j.withoutOldest.nextVersion = j.nextVersion := by
  unfold withoutOldest
  split <;> rfl

/-- A dropped entry is told. -/
theorem evictOldest_told {j : Journal} (h : j.entries ≠ []) :
    evictionTold j.evictOldest.notes := by
  unfold evictOldest
  split
  · rename_i hnil
    exact absurd hnil h
  · simp [evictionTold, Note.isEviction]

/-- Twice the capacity, at most the ceiling. -/
def doubledCapacity (j : Journal) : Nat :=
  min (max (2 * j.capacity) (j.capacity + 1)) j.config.ceiling

/-- The journal behind a request to the allocator. -/
def asked (j : Journal) : Journal := { j with refusals := j.refusals.tail }

/-- The journal behind a request that the allocator grants. -/
def grown (j : Journal) : Journal := { j.asked with capacity := j.doubledCapacity }

theorem grow_of_ceiling {j : Journal} (h : j.config.ceiling ≤ j.capacity) :
    j.grow = pure (false, j) := by
  unfold grow
  rw [if_pos h]

theorem grow_of_granted {j : Journal} (h : j.capacity < j.config.ceiling)
    (hr : j.refusals.headD false = false) : j.grow.value = (true, j.grown) := by
  unfold grow
  rw [if_neg (Nat.not_le.mpr h), hr]
  rfl

theorem grow_of_refused {j : Journal} (h : j.capacity < j.config.ceiling)
    (hr : j.refusals.headD false = true) : j.grow.value = (false, j.asked) := by
  unfold grow
  rw [if_neg (Nat.not_le.mpr h), hr]
  rfl

/-- All that making room can do: there is room, or the journal grows; or the
oldest entry goes, at the ceiling or because the allocator refuses. -/
theorem makeRoom_cases (j : Journal) :
    (j.length < j.capacity ∧ j.makeRoom.value = (false, j)) ∨
    (j.capacity ≤ j.length ∧ j.capacity < j.config.ceiling ∧ j.refusals.headD false = false ∧
      j.makeRoom.value = (false, j.grown)) ∨
    (j.capacity ≤ j.length ∧ j.config.ceiling ≤ j.capacity ∧
      j.makeRoom.value = (true, j.withoutOldest) ∧
      ∀ note ∈ j.evictOldest.notes, note ∈ j.makeRoom.notes) ∨
    (j.capacity ≤ j.length ∧ j.capacity < j.config.ceiling ∧ j.refusals.headD false = true ∧
      j.makeRoom.value = (true, j.asked.withoutOldest) ∧
      ∀ note ∈ j.asked.evictOldest.notes, note ∈ j.makeRoom.notes) := by
  unfold makeRoom
  by_cases hroom : j.length < j.capacity
  · exact Or.inl ⟨hroom, by rw [if_pos hroom]; rfl⟩
  have hlen := Nat.not_lt.mp hroom
  rw [if_neg hroom]
  by_cases hceil : j.config.ceiling ≤ j.capacity
  · refine Or.inr (Or.inr (Or.inl ⟨hlen, hceil, ?_, ?_⟩))
    · simp [grow_of_ceiling hceil, value_evictOldest]
    · simp [grow_of_ceiling hceil]
  have hceil' := Nat.not_le.mp hceil
  cases hr : j.refusals.headD false with
  | false =>
    refine Or.inr (Or.inl ⟨hlen, hceil', rfl, ?_⟩)
    simp [grow_of_granted hceil' hr]
  | true =>
    refine Or.inr (Or.inr (Or.inr ⟨hlen, hceil', rfl, ?_, ?_⟩))
    · simp [grow_of_refused hceil' hr, value_evictOldest]
    · intro note hn
      simp [grow_of_refused hceil' hr, hn]

/-! ## Starting an entry -/

/-- The entry that a change starts in a journal. -/
def newEntry (j : Journal) (edit : Edit) (now : Nat) (group : Option Nat) (mergeable : Bool) :
    Entry :=
  { first := edit, timestamp := now, group, version := j.nextVersion, mergeable }

/-- The journal with an entry put behind its last one. -/
def withEntry (j : Journal) (entry : Entry) : Journal :=
  { j with
    entries := j.entries ++ [entry]
    position := j.entries.length + 1
    totalBytes := j.totalBytes + entry.size
    nextVersion := j.nextVersion + 1 }

theorem value_append (j : Journal) (edit : Edit) (now : Nat) (group : Option Nat)
    (mergeable : Bool) :
    (j.append edit now group mergeable).value =
      (if j.makeRoom.value.1 then .evicted else .appended,
        j.makeRoom.value.2.withEntry
          (j.makeRoom.value.2.newEntry edit now group mergeable)) := by
  simp [append, stamp, withEntry, newEntry]

/-- Why a change starts an entry, and with which group and flag. -/
inductive Starts (j : Journal) (edit : Edit) (now : Nat) : Option Nat → Bool → Prop
  | group (id : Nat) (isOpen : j.grouping.current = some id)
      (first : ∀ tail, j.entries.getLast? = some tail → tail.group ≠ some id) :
      Starts j edit now (some id) true
  | oversized (loose : j.grouping.current = none)
      (large : j.config.rules.maxEntryBytes < edit.payload.byteLength) :
      Starts j edit now none false
  | refused (refusal : Refusal) (loose : j.grouping.current = none)
      (small : edit.payload.byteLength ≤ j.config.rules.maxEntryBytes)
      (plan : j.planJoin edit now = .error refusal) :
      Starts j edit now none true

/-! ## Joining the last entry -/

/-- How a change joins the last entry, and what that becomes. -/
inductive Joins (j : Journal) (edit : Edit) (now : Nat) (tail : Entry) : Entry → Prop
  | group (id : Nat) (isOpen : j.grouping.current = some id) (member : tail.group = some id) :
      Joins j edit now tail { tail.push edit with timestamp := now }
  | run (how : Splice) (loose : j.grouping.current = none)
      (small : edit.payload.byteLength ≤ j.config.rules.maxEntryBytes)
      (unsealed : j.grouping.isSealed = false)
      (plan :
        Coalesce.plan j.config.rules tail edit.kind edit.place edit.payload now = .ok how) :
      Joins j edit now tail (Coalesce.splice how tail edit.place edit.payload now)

/-- The last entry, changed, as it stands in the journal. -/
def restamped (j : Journal) (changed : Entry) : Entry :=
  { changed with version := j.nextVersion, savePoint := false }

@[simp] theorem replaceTail_entries (j : Journal) (tail changed : Entry) :
    (j.replaceTail tail changed).entries = j.entries.dropLast ++ [j.restamped changed] := rfl

@[simp] theorem replaceTail_position (j : Journal) (tail changed : Entry) :
    (j.replaceTail tail changed).position = j.position := rfl

theorem planJoin_eq_ok {j : Journal} {edit : Edit} {now : Nat} {how : Splice} {tail : Entry}
    (h : j.planJoin edit now = .ok (how, tail)) :
    j.grouping.isSealed = false ∧ j.entries.getLast? = some tail ∧
      Coalesce.plan j.config.rules tail edit.kind edit.place edit.payload now = .ok how := by
  unfold planJoin at h
  split at h
  · simp at h
  · rename_i hsealed
    cases hlast : j.entries.getLast? with
    | none => simp [hlast] at h
    | some last =>
      simp only [hlast] at h
      cases hplan :
          Coalesce.plan j.config.rules last edit.kind edit.place edit.payload now with
      | error refusal => simp [hplan, bind, Except.bind] at h
      | ok how' =>
        obtain ⟨rfl, rfl⟩ : how' = how ∧ last = tail := by
          simpa [hplan, bind, Except.bind, pure, Except.pure] using h
        exact ⟨by simpa using hsealed, rfl, hplan⟩

/-! ## Recording -/

/-- What came of a change that started an entry. -/
def startStatus (evicted mergeable : Bool) : RecordStatus :=
  if evicted then .evicted else if mergeable then .appended else .oversized

/-- All that a change can do to a journal without a redo tail. -/
inductive Recorded (j : Journal) (edit : Edit) (now : Nat)
    (x : Narrated (RecordStatus × Journal)) :
    Prop
  | join (tail changed : Entry) (last : j.entries.getLast? = some tail)
      (joins : j.Joins edit now tail changed)
      (value : x.value = (.merged, j.replaceTail tail changed))
  | start (group : Option Nat) (mergeable : Bool) (starts : j.Starts edit now group mergeable)
      (value : x.value =
        (startStatus j.makeRoom.value.1 mergeable,
          (j.append edit now group mergeable).value.2))
      (told : ∀ note ∈ j.makeRoom.notes, note ∈ x.notes)

/-- Starting an entry tells at least what making room told. -/
theorem mem_append_notes {j : Journal} {edit : Edit} {now : Nat} {group : Option Nat}
    {mergeable : Bool} {note : Note} (h : note ∈ j.makeRoom.notes) :
    note ∈ (j.append edit now group mergeable).notes := by
  simp [append, h]

theorem recordGrouped_recorded {j : Journal} {edit : Edit} {id now : Nat}
    (h : j.grouping.current = some id) :
    j.Recorded edit now (j.recordGrouped edit id now) := by
  have starts (first : ∀ tail, j.entries.getLast? = some tail → tail.group ≠ some id) :
      j.Recorded edit now (j.append edit now (some id) true) := by
    refine .start (some id) true (.group id h first) ?_ fun note hn => mem_append_notes hn
    simp [value_append, startStatus]
  unfold recordGrouped
  cases hlast : j.entries.getLast? with
  | none => exact starts (by simp [hlast])
  | some tail =>
    by_cases hg : tail.group = some id
    · simp only [if_pos hg]
      exact .join tail _ hlast (.group id h hg) rfl
    · simp only [if_neg hg]
      apply starts
      intro last hl
      obtain rfl : tail = last := by simpa [hlast] using hl
      exact hg

theorem recordLoose_recorded {j : Journal} {edit : Edit} {now : Nat}
    (h : j.grouping.current = none) :
    j.Recorded edit now (j.recordLoose edit now) := by
  unfold recordLoose
  dsimp only
  split
  · rename_i hlarge
    refine .start none false (.oversized h hlarge) ?_ ?_
    · simp only [Narrated.value_bind, value_append, Narrated.value_pure, startStatus]
      cases j.makeRoom.value.1 <;> rfl
    · intro note hn
      simp [mem_append_notes hn]
  · rename_i hsmall
    have hsmall := Nat.not_lt.mp hsmall
    cases hplan : j.planJoin edit now with
    | ok joined =>
      obtain ⟨how, tail⟩ := joined
      obtain ⟨hsealed, hlast, hok⟩ := planJoin_eq_ok hplan
      exact .join tail _ hlast (.run how h hsmall hsealed hok) rfl
    | error refusal =>
      refine .start none true (.refused refusal h hsmall hplan) ?_ ?_
      · simp [value_append, startStatus]
      · intro note hn
        simp [mem_append_notes hn]

/-- **All that recording a change can do.** -/
theorem record_cases {j : Journal} {kind : EditKind} {text : Text} (place : Location)
    (now : Nat) (idle : j.replaying = false) (hkind : kind ≠ .replace) (hne : text ≠ []) :
    ∃ x, j.truncated.Recorded { kind, place, payload := text } now x ∧
      (j.record kind place text now).value = .ok (x.value.1,
        { x.value.2 with
          grouping := x.value.2.grouping.note
            ⟨now, kind, Edit.cursorAfter { kind, place, payload := text } .redo⟩ }) ∧
      ∀ note ∈ x.notes, note ∈ (j.record kind place text now).notes := by
  cases hg : j.truncated.grouping.current with
  | some id =>
    refine ⟨_, recordGrouped_recorded hg, ?_, ?_⟩
    · simp [record, idle, hkind, hne, value_truncateRedo, hg]
    · intro note hn
      simp [record, idle, hkind, hne, value_truncateRedo, hg, hn]
  | none =>
    refine ⟨_, recordLoose_recorded hg, ?_, ?_⟩
    · simp [record, idle, hkind, hne, value_truncateRedo, hg]
    · intro note hn
      simp [record, idle, hkind, hne, value_truncateRedo, hg, hn]

/-! ## What a change does, as a relation -/

/-- The journal with a change as its last one. -/
def noting (j : Journal) (edit : Edit) (now : Nat) : Journal :=
  { j with grouping := j.grouping.note ⟨now, edit.kind, edit.cursorAfter .redo⟩ }

/-- The journal with an entry that a change starts, behind making room. -/
def started (j : Journal) (edit : Edit) (now : Nat) (group : Option Nat) (mergeable : Bool) :
    Journal :=
  j.makeRoom.value.2.withEntry (j.makeRoom.value.2.newEntry edit now group mergeable)

@[simp] theorem noting_entries (j : Journal) (edit : Edit) (now : Nat) :
    (j.noting edit now).entries = j.entries := rfl

@[simp] theorem noting_current (j : Journal) (edit : Edit) (now : Nat) :
    (j.noting edit now).grouping.current = j.grouping.current := rfl

@[simp] theorem started_entries (j : Journal) (edit : Edit) (now : Nat) (group : Option Nat)
    (mergeable : Bool) :
    (j.started edit now group mergeable).entries = j.makeRoom.value.2.entries ++
      [j.makeRoom.value.2.newEntry edit now group mergeable] := rfl

@[simp] theorem started_grouping (j : Journal) (edit : Edit) (now : Nat) (group : Option Nat)
    (mergeable : Bool) :
    (j.started edit now group mergeable).grouping = j.makeRoom.value.2.grouping := rfl

/-- A change leads from the journal `j` to another one. -/
inductive Takes (j : Journal) (edit : Edit) (now : Nat) : RecordStatus → Journal → Prop
  | nothing (empty : edit.payload = []) : Takes j edit now .empty j
  | joined (tail changed : Entry) (nonempty : edit.payload ≠ [])
      (last : j.truncated.entries.getLast? = some tail)
      (joins : j.truncated.Joins edit now tail changed) :
      Takes j edit now .merged ((j.truncated.replaceTail tail changed).noting edit now)
  | started (group : Option Nat) (mergeable : Bool) (nonempty : edit.payload ≠ [])
      (starts : j.truncated.Starts edit now group mergeable) :
      Takes j edit now (startStatus j.truncated.makeRoom.value.1 mergeable)
        ((j.truncated.started edit now group mergeable).noting edit now)

section Unique

variable {j : Journal} {edit : Edit} {now : Nat}

theorem planJoin_eq_ok_iff {how : Splice} {tail : Entry} :
    j.planJoin edit now = .ok (how, tail) ↔
      j.grouping.isSealed = false ∧ j.entries.getLast? = some tail ∧
        Coalesce.plan j.config.rules tail edit.kind edit.place edit.payload now = .ok how := by
  refine ⟨planJoin_eq_ok, ?_⟩
  rintro ⟨unsealed, last, plan⟩
  simp [planJoin, unsealed, last, plan, bind, Except.bind, pure, Except.pure]

/-- The group of an entry that a change starts is the open one, or none. -/
theorem Starts.group_eq {group : Option Nat} {mergeable : Bool}
    (starts : j.Starts edit now group mergeable) : group = j.grouping.current := by
  cases starts with
  | group id isOpen first => exact isOpen.symm
  | oversized loose large => exact loose.symm
  | refused refusal loose small plan => exact loose.symm

theorem Starts.unique {group group' : Option Nat} {mergeable mergeable' : Bool}
    (starts : j.Starts edit now group mergeable)
    (starts' : j.Starts edit now group' mergeable') :
    group = group' ∧ mergeable = mergeable' := by
  refine ⟨starts.group_eq.trans starts'.group_eq.symm, ?_⟩
  cases starts with
  | group id isOpen first =>
    cases starts' with
    | group id' isOpen' first' => rfl
    | oversized loose large => simp [isOpen] at loose
    | refused refusal loose small plan => rfl
  | oversized loose large =>
    cases starts' with
    | group id isOpen first => simp [loose] at isOpen
    | oversized loose' large' => rfl
    | refused refusal loose' small plan => omega
  | refused refusal loose small plan =>
    cases starts' with
    | group id isOpen first => rfl
    | oversized loose' large => omega
    | refused refusal' loose' small' plan' => rfl

theorem Joins.unique {tail changed changed' : Entry} (joins : j.Joins edit now tail changed)
    (joins' : j.Joins edit now tail changed') : changed = changed' := by
  cases joins with
  | group id isOpen member =>
    cases joins' with
    | group id' isOpen' member' => rfl
    | run how loose small unsealed plan => simp [isOpen] at loose
  | run how loose small unsealed plan =>
    cases joins' with
    | group id isOpen member => simp [isOpen] at loose
    | run how' loose' small' unsealed' plan' =>
      obtain rfl : how = how' := by simpa [plan] using plan'
      rfl

/-- A change that joins the last entry does not start one. -/
theorem Joins.not_starts {tail changed : Entry} {group : Option Nat} {mergeable : Bool}
    (joins : j.Joins edit now tail changed) (last : j.entries.getLast? = some tail) :
    ¬ j.Starts edit now group mergeable := by
  intro starts
  cases joins with
  | group id isOpen member =>
    cases starts with
    | group id' isOpen' first =>
      obtain rfl : id = id' := by simpa [isOpen] using isOpen'
      exact first tail last member
    | oversized loose large => simp [isOpen] at loose
    | refused refusal loose small plan => simp [isOpen] at loose
  | run how loose small unsealed plan =>
    cases starts with
    | group id isOpen first => simp [isOpen] at loose
    | oversized loose' large => omega
    | refused refusal loose' small' refused =>
      rw [planJoin_eq_ok_iff.mpr ⟨unsealed, last, plan⟩] at refused
      simp at refused

end Unique

/-- **What recording does is what the change does.** -/
theorem record_eq_ok_iff {j k : Journal} {kind : EditKind} {place : Location} {text : Text}
    {now : Nat} {status : RecordStatus} (idle : j.replaying = false)
    (hkind : kind ≠ .replace) :
    (j.record kind place text now).value = .ok (status, k) ↔
      j.Takes { kind, place, payload := text } now status k := by
  by_cases hne : text = []
  · have hv : (j.record kind place text now).value = .ok (.empty, j) := by
      simp [record, idle, hkind, hne]
    rw [hv]
    constructor
    · intro h
      obtain ⟨rfl, rfl⟩ : RecordStatus.empty = status ∧ j = k := by simpa using h
      exact .nothing hne
    · intro h
      cases h with
      | nothing empty => rfl
      | joined tail changed nonempty last joins => exact absurd hne nonempty
      | started group mergeable nonempty starts => exact absurd hne nonempty
  obtain ⟨x, hx, hv, -⟩ := record_cases place now idle hkind hne
  have value : (j.record kind place text now).value =
      .ok (x.value.1, x.value.2.noting { kind, place, payload := text } now) := hv
  rw [value]
  cases hx with
  | join tail changed last joins hx =>
    rw [hx]
    constructor
    · intro h
      obtain ⟨rfl, rfl⟩ : RecordStatus.merged = status ∧ _ = k := by simpa using h
      exact .joined tail changed hne last joins
    · intro h
      cases h with
      | nothing empty => exact absurd empty hne
      | joined tail' changed' nonempty last' joins' =>
        obtain rfl : tail = tail' := Option.some.inj (last.symm.trans last')
        obtain rfl := joins.unique joins'
        rfl
      | started group mergeable nonempty starts => exact absurd starts (joins.not_starts last)
  | start group mergeable starts hx told =>
    rw [hx, value_append]
    constructor
    · intro h
      obtain ⟨rfl, rfl⟩ : startStatus j.truncated.makeRoom.value.1 mergeable =
          status ∧ _ = k := by
        simpa using h
      exact .started group mergeable hne starts
    · intro h
      cases h with
      | nothing empty => exact absurd empty hne
      | joined tail changed nonempty last joins => exact absurd starts (joins.not_starts last)
      | started group' mergeable' nonempty starts' =>
        obtain ⟨rfl, rfl⟩ := starts.unique starts'
        rfl

/-- A replacement is refused. -/
theorem record_replace {j : Journal} (idle : j.replaying = false) (place : Location)
    (text : Text) (now : Nat) :
    (j.record .replace place text now).value = .error (.unsupportedKind .replace) := by
  simp [record, idle]

/-- Anything else is taken in. -/
theorem exists_record_eq_ok {j : Journal} {kind : EditKind} (idle : j.replaying = false)
    (hkind : kind ≠ .replace) (place : Location) (text : Text) (now : Nat) :
    ∃ status k, (j.record kind place text now).value = .ok (status, k) := by
  by_cases hne : text = []
  · exact ⟨.empty, j, by simp [record, idle, hkind, hne]⟩
  · obtain ⟨x, -, hv, -⟩ := record_cases place now idle hkind hne
    exact ⟨_, _, hv⟩

/-! ## What recording tells -/

section Told

variable {j : Journal}

theorem evictionTold_truncateRedo (j : Journal) :
    evictionTold j.truncateRedo.notes = false := by
  unfold truncateRedo
  split <;> simp [Note.isEviction]

theorem evictionTold_grow (j : Journal) : evictionTold j.grow.notes = false := by
  unfold grow
  dsimp only
  split
  · rfl
  · split <;> simp [Note.isEviction]

/-- An eviction is told exactly if the oldest entry had to go. -/
theorem evictionTold_makeRoom (pos : 0 < j.capacity) :
    evictionTold j.makeRoom.notes = j.makeRoom.value.1 := by
  rcases j.makeRoom_cases with
    ⟨room, hv⟩ | ⟨full, more, granted, hv⟩ | ⟨full, -, hv, told⟩ | ⟨full, -, -, hv, told⟩
  · simp [makeRoom, room]
  · simp [makeRoom, Nat.not_lt.mpr full, grow_of_granted more granted, evictionTold_grow]
  · have some_entry : j.entries ≠ [] := by
      rintro hnil
      simp [length, hnil] at full
      omega
    rw [hv]
    exact evictionTold_of_subset (evictOldest_told some_entry) told
  · have some_entry : j.asked.entries ≠ [] := by
      intro hnil
      have hnil : j.entries = [] := hnil
      simp [length, hnil] at full
      omega
    rw [hv]
    exact evictionTold_of_subset (evictOldest_told some_entry) told

theorem evictionTold_append_entry (pos : 0 < j.capacity) (edit : Edit) (now : Nat)
    (group : Option Nat) (mergeable : Bool) :
    evictionTold (j.append edit now group mergeable).notes = true ↔
      (j.append edit now group mergeable).value.1 = .evicted := by
  have notes : (j.append edit now group mergeable).notes = j.makeRoom.notes := by simp [append]
  rw [notes, evictionTold_makeRoom pos, value_append]
  cases j.makeRoom.value.1 <;> simp

theorem evictionTold_recordGrouped (pos : 0 < j.capacity) (edit : Edit) (group now : Nat) :
    evictionTold (j.recordGrouped edit group now).notes = true ↔
      (j.recordGrouped edit group now).value.1 = .evicted := by
  unfold recordGrouped
  split
  · split
    · simp
    · exact evictionTold_append_entry pos edit now _ _
  · exact evictionTold_append_entry pos edit now _ _

theorem evictionTold_recordLoose (pos : 0 < j.capacity) (edit : Edit) (now : Nat) :
    evictionTold (j.recordLoose edit now).notes = true ↔
      (j.recordLoose edit now).value.1 = .evicted := by
  unfold recordLoose
  dsimp only
  split
  · have told := evictionTold_append_entry pos edit now none false
    by_cases evicted : (j.append edit now none false).value.1 = .evicted <;>
      simp [Note.isEviction, told, evicted]
  · split
    · simp
    · have told := evictionTold_append_entry pos edit now none true
      simp [Note.isEviction, told]

/-- **An eviction is told exactly if it is what became of the change.** -/
theorem evictionTold_record (pos : 0 < j.capacity) (kind : EditKind) (place : Location)
    (text : Text) (now : Nat) :
    evictionTold (j.record kind place text now).notes = true ↔
      ∃ k, (j.record kind place text now).value = .ok (.evicted, k) := by
  unfold record
  split
  · simp [Note.isEviction]
  split
  · simp
  split
  · simp
  have room : 0 < j.truncateRedo.value.capacity := by rw [value_truncateRedo]; exact pos
  simp only [Narrated.notes_bind, evictionTold_append, evictionTold_truncateRedo,
    Bool.false_or]
  cases hg : j.truncateRedo.value.grouping.current with
  | some group => simp [hg, evictionTold_recordGrouped room]
  | none => simp [hg, evictionTold_recordLoose room]

end Told

end Journal

end EditJournal
