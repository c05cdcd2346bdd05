/-
EditJournal.Proofs.Trailing — two journals, one of which lacks the oldest entries
of the other.

`Trails f dropped u b` says that `b` is `u` without its oldest entries `dropped`,
and that the numbers of `b`'s groups lead to those of `u`'s by `f`. Position, base
version and versions fit together accordingly, and nothing that was dropped
belongs to the open group.

Each operation keeps this, on both sides at once:

* `Trails.takes` — a change joins the last entry of both or starts one in both;
  what is dropped to make room is dropped on one side only or on both;
* `Trails.step` — a step replays the same changes;
* `Trails.begin`, `Trails.close`, `Trails.markSaved`, `Trails.clear`.

## How the proof goes

Whether a change joins is decided by the last entry, the open group and the
typing run. The last entries are the same wherever `b` has one. Where it has
none, the last entry of `u` is one that was dropped: it is not of the open group,
and the typing run is over, so the change starts an entry in `u` as well
(`Starts.regroup`).
-/
import EditJournal.Proofs.Ledger
import EditJournal.Proofs.OpenGroup

namespace EditJournal

open Function (Injective)

variable {f : Nat → Nat}

/-! ## Renumbering -/

/-- The entry under another group number. -/
def Entry.regroup (f : Nat → Nat) (e : Entry) : Entry := { e with group := e.group.map f }

namespace Entry

@[simp] theorem regroup_version (f : Nat → Nat) (e : Entry) :
    (e.regroup f).version = e.version :=
  rfl

@[simp] theorem regroup_size (f : Nat → Nat) (e : Entry) : (e.regroup f).size = e.size := rfl

@[simp] theorem regroup_id (e : Entry) : e.regroup id = e := by
  simp [regroup]

theorem group_regroup_eq_some_iff (hf : Injective f) (e : Entry) (id : Nat) :
    (e.regroup f).group = some (f id) ↔ e.group = some id := by
  simp [regroup, Option.map_eq_some_iff, hf.eq_iff]

end Entry

/-- Whether a change joins an entry does not depend on the number of its group. -/
theorem Coalesce.plan_regroup (f : Nat → Nat) (rules : MergeRules) (tail : Entry)
    (kind : EditKind) (place : Location) (text : Text) (now : Nat) :
    plan rules (tail.regroup f) kind place text now = plan rules tail kind place text now := by
  have grouped : (tail.regroup f).group.isSome = tail.group.isSome := by simp [Entry.regroup]
  unfold plan
  rw [grouped]
  rfl

/-- The grouping `g` is `h` under other numbers. -/
structure Grouping.Matches (f : Nat → Nat) (g h : Grouping) : Prop where
  depth : g.depth = h.depth
  current : g.current = h.current.map f
  last : g.last = h.last
  fresh : ∀ n, f (h.newest + 1 + n) = g.newest + 1 + n

namespace Grouping.Matches

variable {g h : Grouping}

theorem isSealed (m : Matches f g h) : g.isSealed = h.isSealed := by
  rw [Grouping.isSealed, Grouping.isSealed, m.last]

theorem endRun (m : Matches f g h) : Matches f g.endRun h.endRun :=
  ⟨m.depth, m.current, rfl, m.fresh⟩

theorem note (m : Matches f g h) (last : LastEdit) : Matches f (g.note last) (h.note last) :=
  ⟨m.depth, m.current, rfl, m.fresh⟩

/-- An opening bracket takes the next number on both sides. -/
theorem begin (m : Matches f g h) : Matches f g.begin h.begin := by
  by_cases hd : h.depth = 0
  · have first : f (h.newest + 1) = g.newest + 1 := m.fresh 0
    refine ⟨by simp [Grouping.begin, m.depth, hd], ?_, ?_, ?_⟩
    · simp [Grouping.begin, m.depth, hd, first]
    · simp [Grouping.begin, m.depth, hd]
    · intro n
      have shift (newest : Nat) : newest + 1 + 1 + n = newest + 1 + (1 + n) :=
        Nat.add_assoc (newest + 1) 1 n
      simp only [Grouping.begin, m.depth, hd, if_true, shift]
      exact m.fresh (1 + n)
  · refine ⟨by simp [Grouping.begin, m.depth, hd], ?_, ?_, ?_⟩
    · simpa [Grouping.begin, m.depth, hd] using m.current
    · simpa [Grouping.begin, m.depth, hd] using m.last
    · simpa [Grouping.begin, m.depth, hd] using m.fresh

theorem close (m : Matches f g h) : Matches f g.close.2 h.close.2 := by
  unfold Grouping.close
  rw [m.depth, m.current]
  split
  · exact m
  · cases h.current <;> exact ⟨rfl, rfl, rfl, m.fresh⟩
  · exact ⟨rfl, rfl, m.last, m.fresh⟩

/-- A closing bracket is matched on both sides or on neither. -/
theorem close_unmatched (m : Matches f g h) :
    g.close.1 = .unmatched ↔ h.close.1 = .unmatched := by
  unfold Grouping.close
  rw [m.depth, m.current]
  split
  · simp
  · cases h.current <;> simp
  · simp

end Grouping.Matches

namespace Journal

/-- The journal `b` is `u` without its oldest entries, under other group
numbers. -/
structure Trails (f : Nat → Nat) (dropped : List Entry) (u b : Journal) : Prop where
  entries : u.entries = dropped ++ b.entries.map (·.regroup f)
  position : u.position = dropped.length + b.position
  base : b.baseVersion = versionBehind u.baseVersion dropped
  next : u.nextVersion = b.nextVersion
  rules : u.config.rules = b.config.rules
  grouping : u.grouping.Matches f b.grouping
  closed : ∀ e ∈ dropped, ∀ id, u.grouping.current = some id → e.group ≠ some id

variable {u b u' b' : Journal} {dropped : List Entry} {edit : Edit} {now : Nat}

namespace Trails

theorem length (t : u.Trails f dropped b) :
    u.entries.length = dropped.length + b.entries.length := by
  simp [t.entries]

theorem last (t : u.Trails f dropped b) {tail : Entry} (h : b.entries.getLast? = some tail) :
    u.entries.getLast? = some (tail.regroup f) := by
  obtain ⟨front, hfront⟩ := List.getLast?_eq_some_iff.mp h
  simp [t.entries, hfront, ← List.append_assoc]

/-- At each position of the shorter journal, both have the same version. -/
theorem versionAt (t : u.Trails f dropped b) (position : Nat) :
    u.versionAt (dropped.length + position) = b.versionAt position := by
  have versions (base : Nat) (entries : List Entry) :
      versionBehind base (entries.map (·.regroup f)) = versionBehind base entries := by
    simp [versionBehind, List.foldl_map]
  simp only [Journal.versionAt, t.entries, t.base, List.take_length_add_append,
    ← List.map_take, versionBehind_append, versions]

theorem currentVersion (t : u.Trails f dropped b) (within : b.position ≤ b.entries.length) :
    u.currentVersion = b.currentVersion := by
  have within' : u.position ≤ u.entries.length := by
    have := t.position
    have := t.length
    omega
  rw [currentVersion_eq within, currentVersion_eq within', t.position, t.versionAt]

/-! ## Dropping entries -/

theorem truncated (t : u.Trails f dropped b) : u.truncated.Trails f dropped b.truncated where
  entries := by
    simp only [truncated_entries, t.entries, t.position, List.take_length_add_append,
      List.map_take]
  position := t.position
  base := t.base
  next := t.next
  rules := t.rules
  grouping := t.grouping
  closed := t.closed

theorem withoutOldest_eq {j : Journal} {oldest : Entry} {rest : List Entry}
    (h : j.entries = oldest :: rest) :
    j.withoutOldest =
      { j with
        entries := rest
        position := j.position - 1
        totalBytes := j.totalBytes - oldest.size
        baseVersion := oldest.version } := by
  simp [withoutOldest, h]

/-- The shorter journal drops its oldest entry, which is not of the open group. -/
theorem dropShort (hf : Injective f) (t : u.Trails f dropped b) {oldest : Entry}
    {rest : List Entry} (h : b.entries = oldest :: rest) (before : 0 < b.position)
    (closed : ∀ id, b.grouping.current = some id → oldest.group ≠ some id) :
    u.Trails f (dropped ++ [oldest.regroup f]) b.withoutOldest := by
  rw [withoutOldest_eq h]
  refine ⟨by simp [t.entries, h], ?_, by simp, t.next, t.rules, t.grouping, ?_⟩
  · have := t.position
    simp only [List.length_append, List.length_singleton]
    omega
  · intro e he id hid
    rcases List.mem_append.mp he with he | he
    · exact t.closed e he id hid
    · obtain rfl : e = oldest.regroup f := by simpa using he
      rw [t.grouping.current, Option.map_eq_some_iff] at hid
      obtain ⟨id, hid, rfl⟩ := hid
      rw [ne_eq, Entry.group_regroup_eq_some_iff hf]
      exact closed id hid

/-- The longer journal drops an entry that the shorter one dropped before. -/
theorem dropLong {oldest : Entry} (t : u.Trails f (oldest :: dropped) b) :
    u.withoutOldest.Trails f dropped b := by
  have entries : u.entries = oldest :: (dropped ++ b.entries.map (·.regroup f)) := t.entries
  rw [withoutOldest_eq entries]
  refine ⟨rfl, ?_, t.base, t.next, t.rules, t.grouping, ?_⟩
  · have position := t.position
    rw [List.length_cons] at position
    show u.position - 1 = dropped.length + b.position
    omega
  · exact fun e he => t.closed e (List.mem_cons_of_mem oldest he)

end Trails

/-! ## Making room -/

/-- The allocator refuses none of the next requests. -/
def Granted (j : Journal) : Prop := ∀ refused ∈ j.refusals, refused = false

instance (j : Journal) : Decidable j.Granted :=
  inferInstanceAs (Decidable (∀ refused ∈ j.refusals, refused = false))

/-- Where the allocator refuses nothing, the oldest entry goes exactly at the
ceiling. -/
theorem makeRoom_of_granted {j : Journal} (h : j.Sound) (granted : j.Granted) :
    (j.entries.length < j.config.ceiling ∧ ∃ capacity refusals,
      j.makeRoom.value = (false, { j with capacity, refusals })) ∨
    (j.config.ceiling ≤ j.entries.length ∧ j.makeRoom.value = (true, j.withoutOldest)) := by
  have fits := h.fits
  have capacity_le := h.capacity_le
  rcases j.makeRoom_cases with
    ⟨room, hv⟩ | ⟨full, more, -, hv⟩ | ⟨full, most, hv, -⟩ | ⟨full, more, refused, -⟩
  · rw [Journal.length] at room
    exact Or.inl ⟨by omega, _, _, hv⟩
  · exact Or.inl ⟨by omega, _, _, hv⟩
  · rw [Journal.length] at full
    exact Or.inr ⟨by omega, hv⟩
  · have head : j.refusals.headD false = false := by
      cases hr : j.refusals with
      | nil => rfl
      | cons first rest => exact granted first (by simp [hr])
    rw [head] at refused
    simp at refused

/-- A journal at its ceiling has an oldest entry. -/
theorem exists_oldest {j : Journal} (full : j.config.ceiling ≤ j.entries.length) :
    ∃ oldest rest, j.entries = oldest :: rest := by
  have ceiling : 1 ≤ j.config.ceiling := Nat.le_max_right _ _
  cases h : j.entries with
  | nil => simp [h] at full; omega
  | cons oldest rest => exact ⟨oldest, rest, rfl⟩

/-- Where the ceilings are the same, nothing was dropped on one side only. -/
def Trails.Whole (dropped : List Entry) (u b : Journal) : Prop :=
  b.config.ceiling ≤ u.config.ceiling ∧ (u.config.ceiling ≤ b.config.ceiling → dropped = [])

/-- **Room is made on both sides.** -/
theorem Trails.makeRoom (hf : Injective f) (t : u.Trails f dropped b)
    (whole : Trails.Whole dropped u b) (long : u.Sound) (short : b.Sound) (hu : u.Granted)
    (hb : b.Granted) (atEnd : b.position = b.entries.length)
    (closed : ∀ e ∈ b.entries, ∀ id, b.grouping.current = some id → e.group ≠ some id) :
    ∃ dropped', u.makeRoom.value.2.Trails f dropped' b.makeRoom.value.2 ∧
      (u.config.ceiling ≤ b.config.ceiling →
        dropped' = [] ∧ u.makeRoom.value.1 = b.makeRoom.value.1) := by
  obtain ⟨ceiling_le, same⟩ := whole
  have length := t.length
  rcases makeRoom_of_granted long hu with ⟨few, capacity, refusals, hv⟩ | ⟨full, hv⟩ <;>
    rcases makeRoom_of_granted short hb with ⟨few', capacity', refusals', hv'⟩ |
        ⟨full', hv'⟩ <;>
    rw [hv, hv']
  · exact ⟨dropped, ⟨t.entries, t.position, t.base, t.next, t.rules, t.grouping, t.closed⟩,
      fun le => ⟨same le, rfl⟩⟩
  · obtain ⟨oldest, rest, h⟩ := exists_oldest full'
    have before : 0 < b.position := by simp [atEnd, h]
    have t' := t.dropShort hf h before (closed oldest (by simp [h]))
    refine ⟨_,
      ⟨t'.entries, t'.position, t'.base, t'.next, t'.rules, t'.grouping, t'.closed⟩, ?_⟩
    intro le
    rw [same le, List.length_nil] at length
    omega
  · cases dropped with
    | nil =>
      rw [List.length_nil] at length
      omega
    | cons oldest dropped =>
      have t' := t.dropLong
      refine ⟨dropped, ⟨t'.entries, t'.position, t'.base, t'.next, t'.rules, t'.grouping,
        t'.closed⟩, ?_⟩
      intro le
      simpa using same le
  · obtain ⟨oldest, rest, h⟩ := exists_oldest full'
    have before : 0 < b.position := by simp [atEnd, h]
    have t' := t.dropShort hf h before (closed oldest (by simp [h]))
    cases dropped with
    | nil => exact ⟨[], t'.dropLong, fun _ => ⟨rfl, rfl⟩⟩
    | cons first dropped =>
      refine ⟨_, t'.dropLong, fun le => ?_⟩
      simpa using same le

/-! ## Changes -/

theorem Trails.withEntry (t : u.Trails f dropped b) (entry : Entry) :
    (u.withEntry (entry.regroup f)).Trails f dropped (b.withEntry entry) where
  entries := by simp [Journal.withEntry, t.entries]
  position := by
    simp only [Journal.withEntry, t.length]
    omega
  base := t.base
  next := congrArg (· + 1) t.next
  rules := t.rules
  grouping := t.grouping
  closed := t.closed

theorem Trails.replaceTail (t : u.Trails f dropped b) {tail : Entry}
    (last : b.entries.getLast? = some tail) (changed : Entry) :
    (u.replaceTail (tail.regroup f) (changed.regroup f)).Trails f dropped
      (b.replaceTail tail changed) where
  entries := by
    obtain ⟨front, hfront⟩ := List.getLast?_eq_some_iff.mp last
    have whole : dropped ++ (front ++ [tail]).map (·.regroup f) =
        (dropped ++ front.map (·.regroup f)) ++ [tail.regroup f] := by simp
    have stamped : u.restamped (changed.regroup f) = (b.restamped changed).regroup f := by
      rw [restamped, restamped, t.next]
      rfl
    rw [replaceTail_entries, replaceTail_entries, t.entries, hfront, whole,
      List.dropLast_concat, List.dropLast_concat, stamped]
    simp
  position := t.position
  base := t.base
  next := congrArg (· + 1) t.next
  rules := t.rules
  grouping := t.grouping
  closed := t.closed

theorem Trails.noting (t : u.Trails f dropped b) (edit : Edit) (now : Nat) :
    (u.noting edit now).Trails f dropped (b.noting edit now) :=
  { t with grouping := t.grouping.note _ }

/-- A change that joins an entry of the shorter journal joins that of the longer
one. -/
theorem Joins.regroup (hf : Injective f) (t : u.Trails f dropped b) {tail changed : Entry}
    (joins : b.Joins edit now tail changed) :
    u.Joins edit now (tail.regroup f) (changed.regroup f) := by
  cases joins with
  | group id isOpen member =>
    have isOpen' : u.grouping.current = some (f id) := by simp [t.grouping.current, isOpen]
    exact .group (f id) isOpen' ((Entry.group_regroup_eq_some_iff hf tail id).mpr member)
  | run how loose small unsealed plan =>
    have loose' : u.grouping.current = none := by simp [t.grouping.current, loose]
    refine .run how loose' (by rwa [t.rules]) (by rwa [t.grouping.isSealed]) ?_
    rwa [t.rules, Coalesce.plan_regroup]

/-- A change that starts an entry in the shorter journal starts one in the
longer one. -/
theorem Starts.regroup (hf : Injective f) (t : u.Trails f dropped b)
    (resting : b.grouping.isSealed = false → dropped = [] ∨ b.entries ≠ [])
    {group : Option Nat} {mergeable : Bool} (starts : b.Starts edit now group mergeable) :
    u.Starts edit now (group.map f) mergeable := by
  -- the last entry of the longer journal is that of the shorter one, or was dropped
  have lasts (tail : Entry) (h : u.entries.getLast? = some tail) :
      (∃ e, b.entries.getLast? = some e ∧ tail = e.regroup f) ∨
        (b.entries = [] ∧ tail ∈ dropped) := by
    cases hlast : b.entries.getLast? with
    | some e =>
      rw [t.last hlast] at h
      exact Or.inl ⟨e, rfl, (Option.some.inj h).symm⟩
    | none =>
      have hnil := List.getLast?_eq_none_iff.mp hlast
      rw [t.entries, hnil, List.map_nil, List.append_nil] at h
      exact Or.inr ⟨hnil, List.mem_of_getLast? h⟩
  have loosely (loose : b.grouping.current = none) : u.grouping.current = none := by
    simp [t.grouping.current, loose]
  cases starts with
  | group id isOpen first =>
    have isOpen' : u.grouping.current = some (f id) := by simp [t.grouping.current, isOpen]
    refine .group (f id) isOpen' fun tail htail => ?_
    rcases lasts tail htail with ⟨e, he, rfl⟩ | ⟨-, hmem⟩
    · rw [ne_eq, Entry.group_regroup_eq_some_iff hf]
      exact first e he
    · exact t.closed tail hmem (f id) isOpen'
  | oversized loose large => exact .oversized (loosely loose) (by rwa [t.rules])
  | refused refusal loose small plan =>
    cases hplan : u.planJoin edit now with
    | error refusal' => exact .refused refusal' (loosely loose) (by rwa [t.rules]) hplan
    | ok joined =>
      -- it would join in the shorter journal as well
      obtain ⟨how, tail⟩ := joined
      obtain ⟨unsealed, htail, hok⟩ := planJoin_eq_ok hplan
      rw [t.grouping.isSealed] at unsealed
      rcases lasts tail htail with ⟨e, he, rfl⟩ | ⟨hnil, hmem⟩
      · rw [t.rules, Coalesce.plan_regroup] at hok
        rw [planJoin_eq_ok_iff.mpr ⟨unsealed, he, hok⟩] at plan
        simp at plan
      · rcases resting unsealed with rfl | hne
        · simp at hmem
        · exact absurd hnil hne

/-- **A change is taken in on both sides.** -/
theorem Trails.takes (hf : Injective f) (t : u.Trails f dropped b)
    (whole : Trails.Whole dropped u b) (long : u.Sound) (short : b.Sound)
    (openLast : b.OpenLast) (hu : u.Granted) (hb : b.Granted)
    (resting : b.grouping.isSealed = false → dropped = [] ∨ 0 < b.position)
    {status : RecordStatus} (takes : b.Takes edit now status b') :
    ∃ status' u' dropped', u.Takes edit now status' u' ∧ u'.Trails f dropped' b' ∧
      (b' = b ∧ dropped' = dropped ∨ 0 < b'.position) ∧
      (u.config.ceiling ≤ b.config.ceiling → dropped' = [] ∧ status' = status) := by
  have front := t.truncated
  cases takes with
  | nothing empty =>
    exact ⟨.empty, u, dropped, .nothing empty, t, Or.inl ⟨rfl, rfl⟩, fun le =>
      ⟨whole.2 le, rfl⟩⟩
  | joined tail changed nonempty last joins =>
    refine ⟨.merged, _, dropped,
      .joined _ _ nonempty (front.last last) (joins.regroup hf front),
      (front.replaceTail last changed).noting edit now, Or.inr ?_, fun le => ⟨whole.2 le, rfl⟩⟩
    have member := List.length_pos_of_mem (List.mem_of_getLast? last)
    rw [truncated_entries, List.length_take] at member
    show 0 < b.position
    omega
  | started group mergeable nonempty starts =>
    have atEnd : b.truncated.position = b.truncated.entries.length := by
      simp [short.position_le]
    have resting' : b.truncated.grouping.isSealed = false →
        dropped = [] ∨ b.truncated.entries ≠ [] := by
      intro unsealed
      refine (resting unsealed).imp_right fun before hnil => ?_
      have position : b.truncated.position = b.position := rfl
      rw [hnil, position, List.length_nil] at atEnd
      omega
    obtain ⟨dropped', room, same⟩ :=
      front.makeRoom hf whole long.truncated short.truncated hu hb
      atEnd fun e he id hid => starts.not_member openLast.truncated hid e he
    have entry : u.truncated.makeRoom.value.2.newEntry edit now (group.map f) mergeable =
        (b.truncated.makeRoom.value.2.newEntry edit now group mergeable).regroup f := by
      rw [newEntry, room.next]
      rfl
    refine ⟨_, _, dropped', .started _ mergeable nonempty (starts.regroup hf front resting'),
      ?_, Or.inr (Nat.succ_pos _), fun le => ⟨(same le).1, by rw [(same le).2]⟩⟩
    rw [Journal.started, entry]
    exact (room.withEntry _).noting edit now

/-! ## Steps in the history -/

theorem value_step (j : Journal) (direction : HistoryStep) (s : Text) :
    (j.step direction s).value =
      match j.target? direction with
      | none => (.ok none, j, s)
      | some (index, entry) =>
        match (entry.replay direction s).value with
        | (.ok (), t) =>
          (.ok (some (entry.cursorAfter direction)), j.stepped direction index, t)
        | (.error error, t) => (.error error, { j with replaying := false }, t) := by
  cases ht : j.target? direction with
  | none => simp [step, ht]
  | some target =>
    obtain ⟨index, entry⟩ := target
    cases hr : (entry.replay direction s).value with
    | mk result t => cases result <;> simp [step, ht, hr, stepped]

/-- Both have the same target, unless only what was dropped could be undone. -/
theorem Trails.target? (t : u.Trails f dropped b) {direction : HistoryStep}
    (above : direction = .undo → b.position = 0 → dropped = []) :
    u.target? direction = (b.target? direction).map fun (index, entry) =>
      (dropped.length + index, entry.regroup f) := by
  have entry (index : Nat) :
      u.entries[dropped.length + index]? = b.entries[index]?.map (·.regroup f) := by
    rw [t.entries, List.getElem?_append_right (Nat.le_add_right _ _), Nat.add_sub_cancel_left,
      List.getElem?_map]
  cases direction with
  | undo =>
    cases hp : b.position with
    | zero =>
      have position := t.position
      rw [above rfl hp, hp, List.length_nil] at position
      simp [Journal.target?, hp, position]
    | succ index =>
      have position : u.position = dropped.length + index + 1 := by rw [t.position, hp]; rfl
      rw [target?_undo_succ b index hp, target?_undo_succ u _ position, entry]
      simp [Function.comp_def]
  | redo => simp [Journal.target?, t.position, entry, Function.comp_def]

theorem Trails.stepped (t : u.Trails f dropped b) (direction : HistoryStep) (index : Nat) :
    (u.stepped direction (dropped.length + index)).Trails f dropped
      (b.stepped direction index) where
  entries := t.entries
  position := by cases direction <;> rfl
  base := t.base
  next := t.next
  rules := t.rules
  grouping := t.grouping.endRun
  closed := t.closed

/-- **A step does the same on both sides.** -/
theorem Trails.step (t : u.Trails f dropped b) {direction : HistoryStep}
    (above : direction = .undo → b.position = 0 → dropped = []) (s : Text) :
    (u.step direction s).value.1 = (b.step direction s).value.1 ∧
      (u.step direction s).value.2.1.Trails f dropped (b.step direction s).value.2.1 ∧
      (u.step direction s).value.2.2 = (b.step direction s).value.2.2 := by
  rw [value_step u, value_step b, t.target? above]
  cases ht : b.target? direction with
  | none => exact ⟨rfl, t, rfl⟩
  | some target =>
    obtain ⟨index, entry⟩ := target
    have replay : (entry.regroup f).replay direction s = entry.replay direction s := rfl
    have cursor : (entry.regroup f).cursorAfter direction = entry.cursorAfter direction := by
      cases direction <;> rfl
    simp only [Option.map_some, replay, cursor]
    cases hr : (entry.replay direction s).value with
    | mk result t' =>
      cases result with
      | ok _ => exact ⟨rfl, t.stepped direction index, rfl⟩
      | error error => exact ⟨rfl, { t with }, rfl⟩

/-! ## Save points, brackets and clearing -/

/-- Save points do not touch versions. -/
theorem versionBehind_mapIdx {mark : Nat → Entry → Entry}
    (same : ∀ i e, (mark i e).version = e.version) (base : Nat) (entries : List Entry) :
    versionBehind base (entries.mapIdx mark) = versionBehind base entries := by
  -- behind the first entry the indices are one higher, so `mark` is not fixed
  induction entries generalizing base mark with
  | nil => rfl
  | cons e rest ih =>
    rw [List.mapIdx_cons, versionBehind_cons, versionBehind_cons, same,
      ih fun i => same (i + 1)]

/-- The entries as a save at a position leaves them. -/
def marked (position : Nat) (entries : List Entry) : List Entry :=
  entries.mapIdx fun i e => { e with savePoint := i + 1 == position }

theorem versionBehind_marked (position base : Nat) (entries : List Entry) :
    versionBehind base (marked position entries) = versionBehind base entries := by
  apply versionBehind_mapIdx
  intro i e
  rfl

/-- The entries of the shorter journal are marked where those of the longer one
are. -/
theorem marked_append (dropped entries : List Entry) (position : Nat) :
    marked (dropped.length + position) (dropped ++ entries.map (·.regroup f)) =
      marked (dropped.length + position) dropped ++
        (marked position entries).map (·.regroup f) := by
  have here (i : Nat) : (i + dropped.length + 1 == dropped.length + position) =
      (i + 1 == position) := by
    rw [Bool.eq_iff_iff, beq_iff_eq, beq_iff_eq]
    omega
  rw [marked, marked, marked, List.mapIdx_append]
  congr 1
  apply List.ext_getElem?
  intro i
  simp [here, Function.comp_def, Entry.regroup]

theorem Trails.markSaved (t : u.Trails f dropped b) :
    u.markSaved.value.2.Trails f (marked u.position dropped) b.markSaved.value.2 where
  entries := by
    show marked u.position u.entries = _ ++ (marked b.position b.entries).map _
    rw [t.entries, t.position, marked_append]
  position := by
    rw [marked, List.length_mapIdx]
    exact t.position
  base := by
    rw [versionBehind_marked]
    exact t.base
  next := t.next
  rules := t.rules
  grouping := t.grouping
  closed e he := by
    obtain ⟨i, hi, rfl⟩ := List.mem_mapIdx.mp he
    exact t.closed dropped[i] (List.getElem_mem hi)

theorem Trails.regrouped (t : u.Trails f dropped b) {g h : Grouping} (matched : g.Matches f h)
    (closed : ∀ e ∈ dropped, ∀ id, g.current = some id → e.group ≠ some id) :
    Trails f dropped { u with grouping := g } { b with grouping := h } :=
  { t with
    grouping := matched
    closed := closed }

theorem Trails.begin (t : u.Trails f dropped b) (long : u.Sound) :
    Trails f dropped { u with grouping := u.grouping.begin }
      { b with grouping := b.grouping.begin } := by
  refine t.regrouped t.grouping.begin fun e he id hid => ?_
  by_cases hd : u.grouping.depth = 0
  · -- the number of the new group was not given out before
    obtain rfl : u.grouping.newest + 1 = id := by simpa [Grouping.begin, hd] using hid
    intro hgroup
    have := (long.entries e (by simp [t.entries, he])).group_le _ hgroup
    omega
  · exact t.closed e he id (by simpa [Grouping.begin, hd] using hid)

theorem Trails.close (t : u.Trails f dropped b) :
    Trails f dropped { u with grouping := u.grouping.close.2 }
      { b with grouping := b.grouping.close.2 } := by
  refine t.regrouped t.grouping.close fun e he id hid => t.closed e he id ?_
  unfold Grouping.close at hid
  split at hid
  · exact hid
  · split at hid <;> simp at hid
  · exact hid

theorem Trails.endRun (t : u.Trails f dropped b) : u.endRun.Trails f dropped b.endRun :=
  t.regrouped t.grouping.endRun t.closed

theorem Trails.clear (t : u.Trails f dropped b) : u.clear.value.Trails f [] b.clear.value where
  entries := rfl
  position := rfl
  base := t.next.symm
  next := congrArg (· + 1) t.next
  rules := t.rules
  grouping := t.grouping.endRun
  closed _ he := by simp at he

end Journal

end EditJournal
