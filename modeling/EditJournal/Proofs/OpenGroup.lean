/-
EditJournal.Proofs.OpenGroup — only the last entry can belong to the open undo
group.

An opening bracket takes a number that no entry has, so at first none belongs to
the group. A change inside starts the group's entry behind all others, or joins
it where it is the last one. A step back leaves it where it is; the next change
then drops it with the redo tail.

So what is dropped from the old end to make room is never of the open group
(`Starts.not_member`): an entry is only started where no entry of the group is
left.
-/
import EditJournal.Proofs.Operations

namespace EditJournal.Journal

variable {j k : Journal}

/-- Only the last entry may belong to the open group. -/
def OpenLast (j : Journal) : Prop :=
  ∀ id, j.grouping.current = some id → ∀ e ∈ j.entries.dropLast, e.group ≠ some id

theorem openLast_of_closed (h : j.grouping.current = none) : j.OpenLast := by
  intro id hid
  simp [h] at hid

theorem OpenLast.truncated (h : j.OpenLast) : j.truncated.OpenLast := by
  intro id hid e he
  refine h id hid e ?_
  rw [truncated_entries, List.dropLast_eq_take, List.take_take, List.length_take] at he
  rw [List.dropLast_eq_take]
  exact List.take_subset_take_left j.entries (by omega) he

/-- **Where a change starts an entry, none is of the open group.** -/
theorem Starts.not_member {edit : Edit} {now : Nat} {group : Option Nat} {mergeable : Bool}
    (starts : j.Starts edit now group mergeable) (h : j.OpenLast) {id : Nat}
    (isOpen : j.grouping.current = some id) : ∀ e ∈ j.entries, e.group ≠ some id := by
  intro e he
  cases starts with
  | group id' isOpen' first =>
    obtain rfl : id = id' := by simpa [isOpen] using isOpen'
    cases hlast : j.entries.getLast? with
    | none =>
      rw [List.getLast?_eq_none_iff.mp hlast] at he
      simp at he
    | some tail =>
      obtain ⟨front, hfront⟩ := List.getLast?_eq_some_iff.mp hlast
      rw [hfront, List.mem_append, List.mem_singleton] at he
      rcases he with he | rfl
      · exact h id isOpen e (by rwa [hfront, List.dropLast_concat])
      · exact first e hlast
  | oversized loose large => simp [isOpen] at loose
  | refused refusal loose small plan => simp [isOpen] at loose

theorem Takes.openLast {edit : Edit} {now : Nat} {status : RecordStatus}
    (takes : j.Takes edit now status k) (h : j.OpenLast) : k.OpenLast := by
  cases takes with
  | nothing empty => exact h
  | joined tail changed nonempty last joins =>
    intro id hid e he
    refine h.truncated id hid e ?_
    rwa [noting_entries, replaceTail_entries, List.dropLast_concat] at he
  | started group mergeable nonempty starts =>
    intro id hid e he
    have isOpen : j.truncated.grouping.current = some id := by
      rwa [noting_current, started_grouping, j.truncated.roomMade.grouping] at hid
    refine starts.not_member h.truncated isOpen e (j.truncated.roomMade.entries e ?_)
    rwa [noting_entries, started_entries, List.dropLast_concat] at he

theorem OpenLast.begin (h : j.OpenLast) (sound : j.Sound) :
    OpenLast { j with grouping := j.grouping.begin } := by
  intro id hid e he
  by_cases hd : j.grouping.depth = 0
  · -- the number of the new group was not given out before
    obtain rfl : j.grouping.newest + 1 = id := by simpa [Grouping.begin, hd] using hid
    intro hgroup
    have := (sound.entries e (List.dropLast_subset _ he)).group_le _ hgroup
    omega
  · exact h id (by simpa [Grouping.begin, hd] using hid) e he

theorem OpenLast.close (h : j.OpenLast) :
    OpenLast { j with grouping := j.grouping.close.2 } := by
  intro id hid e he
  refine h id ?_ e he
  dsimp only at hid
  unfold Grouping.close at hid
  split at hid
  · exact hid
  · split at hid <;> simp at hid
  · exact hid

/-- No operation breaks it. -/
theorem Moves.openLast (move : j.Moves k) (sound : j.Sound) (h : j.OpenLast) : k.OpenLast := by
  cases move with
  | takes edit now status plain takes => exact takes.openLast h
  | step direction text =>
    rcases j.step_cases direction text with
      ⟨-, hv⟩ | ⟨index, entry, -, ⟨t, -, hv⟩ | ⟨error, -, hv⟩⟩ <;>
      rw [hv] <;> exact h
  | endRun => exact h
  | groupBegin => exact h.begin sound
  | groupEnd => exact h.close
  | markSaved =>
    intro id hid e he
    have groups : (j.markSaved.value.2.entries.dropLast).map (·.group) =
        j.entries.dropLast.map (·.group) := by
      rw [List.map_dropLast, List.map_dropLast]
      simp [Journal.markSaved, List.ext_getElem_iff]
    have member : e.group ∈ j.entries.dropLast.map (·.group) := groups ▸ List.mem_map_of_mem he
    obtain ⟨old, hold, heq⟩ := List.mem_map.mp member
    rw [← heq]
    exact h id hid old hold
  | clear =>
    intro id hid e he
    simp [Journal.clear, Journal.endRun] at he

theorem Becomes.openLast (h : j.Becomes k) (sound : j.Sound) (openLast : j.OpenLast) :
    k.OpenLast :=
  (h.invariant (P := fun j => j.Sound ∧ j.OpenLast)
    (fun _ _ move hj => ⟨move.sound hj.1, move.openLast hj.1 hj.2⟩) ⟨sound, openLast⟩).2

end EditJournal.Journal
