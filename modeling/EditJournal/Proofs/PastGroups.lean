/-
EditJournal.Proofs.PastGroups — what becomes of the entry of an undo group that
is over: it is kept as it is, or dropped.

* `Journal.Moves.members_sublist` — of a group that is over (`Grouping.Past`) no
  operation changes an entry or adds one, and so no run does
  (`Journal.Becomes.members_sublist`).
* `Session.kept_or_dropped` — an entry of it that is gone was dropped by the action
  for one of three reasons (`Session.Drops`).

## How the proof goes

A change joins the last entry for two reasons only. Joining its group takes that
group to be open, and a number that was given out is not given out again; joining
the typing run is refused to an entry that has a group.
-/
import EditJournal.Proofs.Changes

namespace EditJournal

/-- The typing run is not joined where the last entry has a group. -/
theorem Coalesce.ungrouped_of_plan {rules : MergeRules} {tail : Entry} {kind : EditKind}
    {place : Location} {text : Text} {now : Nat} {how : Splice}
    (h : plan rules tail kind place text now = .ok how) : tail.group = none := by
  cases hg : tail.group with
  | none => rfl
  | some id =>
    unfold plan at h
    split at h
    · simp at h
    · simp [hg] at h

/-! ## Groups that are over -/

namespace Grouping

/-- The number was given out, and it is not that of the open group. -/
structure Past (g : Grouping) (id : Nat) : Prop where
  given : id ≤ g.newest
  notOpen : g.current ≠ some id

variable {g : Grouping} {id : Nat}

/-- The next group gets a number of its own. -/
theorem Past.begin (h : g.Past id) : g.begin.Past id := by
  refine ⟨Nat.le_trans h.given g.newest_le_begin, ?_⟩
  by_cases hd : g.depth = 0
  · have given := h.given
    have fresh : g.newest + 1 ≠ id := by omega
    simpa [Grouping.begin, hd] using fresh
  · simpa [Grouping.begin, hd] using h.notOpen

theorem Past.close (h : g.Past id) : g.close.2.Past id := by
  refine ⟨by rw [g.newest_close]; exact h.given, ?_⟩
  unfold Grouping.close
  split
  · exact h.notOpen
  · split <;> simp
  · exact h.notOpen

end Grouping

namespace Journal

variable {j k : Journal} {edit : Edit} {now id : Nat} {status : RecordStatus}

/-! ## Entries of a group -/

/-- The entries of a group, but for the marks of saves. -/
def members (j : Journal) (id : Nat) : List Entry := j.unmarked.filter (·.group = some id)

/-- Entries were dropped, and one of another group was put behind the rest. -/
theorem members_sublist_of_snoc {front : List Entry} {last : Entry}
    (entries : k.entries = front ++ [last]) (old : front.Sublist j.entries)
    (other : last.group ≠ some id) : (k.members id).Sublist (j.members id) := by
  have members : k.members id = (front.map Entry.unmarked).filter (·.group = some id) := by
    simp [members, unmarked, entries, other]
  rw [members]
  exact (old.map Entry.unmarked).filter _

/-! ## Changes -/

/-- Room is made by dropping the oldest entry, or none. -/
theorem makeRoom_entries (j : Journal) :
    j.makeRoom.value.2.entries = j.entries.drop j.makeRoom.value.1.toNat := by
  have dropped (l : Journal) : l.withoutOldest.entries = l.entries.drop 1 := by
    unfold withoutOldest
    split <;> simp [*]
  rcases j.makeRoom_cases with ⟨-, hv⟩ | ⟨-, -, -, hv⟩ | ⟨-, -, hv, -⟩ | ⟨-, -, -, hv, -⟩
  · rw [hv]
    rfl
  · rw [hv]
    rfl
  · rw [hv]
    exact dropped j
  · rw [hv]
    exact dropped j.asked

/-- What a change joins is of the open group or of none, and stays so. -/
theorem Joins.group_eq {tail changed : Entry} (joins : j.Joins edit now tail changed) :
    changed.group = tail.group ∧ (tail.group = none ∨ tail.group = j.grouping.current) := by
  cases joins with
  | group id isOpen member => exact ⟨rfl, Or.inr (member.trans isOpen.symm)⟩
  | run how loose small unsealed plan => exact ⟨rfl, Or.inl (Coalesce.ungrouped_of_plan plan)⟩

/-- A change joins no entry of a group that is over. -/
theorem Joins.ne_of_past {tail changed : Entry} (joins : j.Joins edit now tail changed)
    (past : j.grouping.Past id) : tail.group ≠ some id ∧ changed.group ≠ some id := by
  obtain ⟨same, loose | isOpen⟩ := joins.group_eq
  · simp [same, loose]
  · rw [same, isOpen]
    exact ⟨past.notOpen, past.notOpen⟩

/-- A change leaves the groups as they are. -/
theorem Takes.grouping_eq (takes : j.Takes edit now status k) :
    ∃ last, k.grouping = { j.grouping with last } := by
  cases takes with
  | nothing empty => exact ⟨_, rfl⟩
  | joined tail changed nonempty last joins => exact ⟨_, rfl⟩
  | started group mergeable nonempty starts =>
    exact ⟨_, congrArg (Grouping.note · _) j.truncated.roomMade.grouping⟩

theorem Takes.members_sublist (takes : j.Takes edit now status k) (past : j.grouping.Past id) :
    (k.members id).Sublist (j.members id) := by
  have truncated : j.truncated.entries.Sublist j.entries := List.take_sublist _ _
  cases takes with
  | nothing empty => exact List.Sublist.refl _
  | joined tail changed nonempty last joins =>
    exact members_sublist_of_snoc rfl ((List.dropLast_sublist _).trans truncated)
      (joins.ne_of_past past).2
  | started group mergeable nonempty starts =>
    refine members_sublist_of_snoc rfl ?_ (starts.group_eq ▸ past.notOpen)
    rw [makeRoom_entries]
    exact (List.drop_sublist _ _).trans truncated

/-- A change keeps an entry of a group that is over, but for the redo tail and the
oldest entry. -/
theorem Takes.mem_of_past (takes : j.Takes edit now status k) (past : j.grouping.Past id)
    {i : Nat} {e : Entry} (at_i : j.entries[i]? = some e) (member : e.group = some id)
    (done : status = .empty ∨ i < j.position) (later : status = .evicted → 0 < i) :
    e ∈ k.entries := by
  cases takes with
  | nothing empty => exact List.mem_of_getElem? at_i
  | joined tail changed nonempty last joins =>
    have done : i < j.position := done.resolve_left (by simp)
    have kept : j.truncated.entries[i]? = some e := by
      rw [truncated_entries, List.getElem?_take_of_lt done, at_i]
    obtain ⟨front, hfront⟩ := List.getLast?_eq_some_iff.mp last
    have inside : e ∈ front ++ [tail] := hfront ▸ List.mem_of_getElem? kept
    show e ∈ j.truncated.entries.dropLast ++ [j.truncated.restamped changed]
    rw [hfront, List.dropLast_concat]
    rcases List.mem_append.mp inside with inside | inside
    · exact List.mem_append_left _ inside
    · obtain rfl : e = tail := by simpa using inside
      exact absurd member (joins.ne_of_past past).1
  | started group mergeable nonempty starts =>
    have started : startStatus j.truncated.makeRoom.value.1 mergeable ≠ .empty := by
      cases j.truncated.makeRoom.value.1 <;> cases mergeable <;> simp [startStatus]
    have done : i < j.position := done.resolve_left started
    have kept : j.truncated.entries[i]? = some e := by
      rw [truncated_entries, List.getElem?_take_of_lt done, at_i]
    show e ∈ j.truncated.makeRoom.value.2.entries ++ _
    refine List.mem_append_left _ ?_
    rw [makeRoom_entries]
    cases dropped : j.truncated.makeRoom.value.1 with
    | false => exact List.mem_of_getElem? kept
    | true =>
      have later : 0 < i := later (by simp [startStatus, dropped])
      obtain ⟨i, rfl⟩ := Nat.exists_eq_succ_of_ne_zero (Nat.ne_of_gt later)
      refine List.mem_of_getElem? (i := i) ?_
      rw [List.getElem?_drop, ← kept]
      simp [Nat.add_comm]

/-! ## Operations -/

theorem Moves.past (move : j.Moves k) (past : j.grouping.Past id) : k.grouping.Past id := by
  cases move with
  | takes edit now status plain takes =>
    obtain ⟨last, hg⟩ := takes.grouping_eq
    rw [hg]
    exact ⟨past.given, past.notOpen⟩
  | step direction text =>
    rcases j.step_cases direction text with
      ⟨-, hv⟩ | ⟨index, entry, -, ⟨t, -, hv⟩ | ⟨error, -, hv⟩⟩ <;>
      rw [hv] <;> exact ⟨past.given, past.notOpen⟩
  | endRun => exact ⟨past.given, past.notOpen⟩
  | groupBegin => exact past.begin
  | groupEnd => exact past.close
  | markSaved => exact past
  | clear => exact ⟨past.given, past.notOpen⟩

/-- **No operation changes the entries of a group that is over, or adds one.** -/
theorem Moves.members_sublist (move : j.Moves k) (past : j.grouping.Past id) :
    (k.members id).Sublist (j.members id) := by
  have same (h : k.unmarked = j.unmarked) : (k.members id).Sublist (j.members id) := by
    rw [members, h]
    exact List.Sublist.refl _
  cases move with
  | takes edit now status plain takes => exact takes.members_sublist past
  | step direction text => exact same (congrArg (List.map _) (j.step_entries direction text))
  | endRun => exact same rfl
  | groupBegin => exact same rfl
  | groupEnd => exact same rfl
  | markSaved => exact same j.unmarked_markSaved
  | clear => exact List.nil_sublist _

theorem Becomes.past (h : j.Becomes k) (past : j.grouping.Past id) : k.grouping.Past id :=
  h.invariant (P := fun k => k.grouping.Past id) (fun _ _ => Moves.past) past

/-- **In a run, the entries of a group that is over are only ever dropped.** -/
theorem Becomes.members_sublist (h : j.Becomes k) (past : j.grouping.Past id) :
    (k.members id).Sublist (j.members id) := by
  induction h with
  | refl => exact List.Sublist.refl _
  | tail before move ih => exact (move.members_sublist (Becomes.past before past)).trans ih

end Journal

/-! ## Actions -/

namespace Session

variable {s : Session Text} {id : Nat}

/-- Why an action drops the entry at an index: with the whole history, with the
redo tail for a change, or as the oldest entry for a change. -/
inductive Drops (s : Session Text) (action : Action) (i : Nat) : Prop
  | cleared (clear : action = .clearHistory)
  | undone (behind : s.buffer.journal.position ≤ i) (status : RecordStatus)
      (fate : s.fate? action = some status) (nonempty : status ≠ .empty)
  | oldest (first : i = 0) (evicted : s.fate? action = some .evicted)

/-- **An action keeps an entry of a group that is over, or drops it.** -/
theorem kept_or_dropped (idle : s.buffer.journal.replaying = false)
    (past : s.buffer.journal.grouping.Past id) (action : Action) {i : Nat} {e : Entry}
    (at_i : s.buffer.journal.unmarked[i]? = some e) (member : e.group = some id) :
    e ∈ (s.act action).value.2.buffer.journal.unmarked ∨ s.Drops action i := by
  have old : e ∈ s.buffer.journal.unmarked := List.mem_of_getElem? at_i
  cases s.act_cases idle action with
  | takes edit now status plain fate takes =>
    by_cases undone : status ≠ .empty ∧ s.buffer.journal.position ≤ i
    · exact Or.inr (.undone undone.2 status fate undone.1)
    by_cases oldest : status = .evicted ∧ i = 0
    · exact Or.inr (.oldest oldest.2 (oldest.1 ▸ fate))
    rw [Journal.unmarked, List.getElem?_map, Option.map_eq_some_iff] at at_i
    obtain ⟨e, at_i, rfl⟩ := at_i
    refine Or.inl (List.mem_map_of_mem (takes.mem_of_past past at_i member ?_ ?_))
    · by_cases empty : status = .empty
      · exact Or.inl empty
      · exact Or.inr (Nat.lt_of_not_le fun behind => undone ⟨empty, behind⟩)
    · exact fun evicted => Nat.pos_of_ne_zero fun first => oldest ⟨evicted, first⟩
  | leaves same => exact Or.inl (same ▸ old)
  | clears clear => exact Or.inr (.cleared clear)

end Session

end EditJournal
