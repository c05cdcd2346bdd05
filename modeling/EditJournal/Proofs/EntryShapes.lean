/-
EditJournal.Proofs.EntryShapes — the shape of the entries that a journal makes itself.

A file may bring entries of any shape along. Without files, an entry is what recording
has made of it, over any number of merges, behind truncation and eviction.

* `Entry.Shaped rules e` — the entry is of insertions and deletions of something; it is
  of one change if it has no group; it is closed to merging exactly if it has no group
  and is above the cap; and only a deletion without a group has a direction.
* `Grouping.OpenNewest` — the open group is the newest one, as long as no numbers are
  set aside for a file.
* `Journal.Shaped` — all entries are shaped, and the numbers of their groups rise.
* `Journal.standsBehind_cases` — an entry that stands behind a request is as it was, but
  for the mark of a save, or was joined by the change of the request.

`entries_keep_shape` is the main result, for journals behind any calls but loads. It
says moreover that a direction stays as long as its entry stands.

## How the proof goes

A change joins an entry of the open group, whose size does not matter, or one within the
cap, which the joined entry is within as well. An entry is started for a group only
where none of it is left (`Starts.not_member`): be it that there was none, or that it was
undone and went with the redo tail. All others have smaller numbers.
-/
import EditJournal.Proofs.OpenRun
import EditJournal.Proofs.RestoredEntries

namespace EditJournal

/-! ## Entries -/

/-- The shape of an entry that was recorded under these rules. -/
structure Entry.Shaped (rules : MergeRules) (e : Entry) : Prop where
  some_edit : e.edits ≠ []
  edits : ∀ edit ∈ e.edits, (edit.kind = .insert ∨ edit.kind = .delete) ∧ edit.payload ≠ []
  single : e.group = none → ∃ only, e.edits = [only]
  mergeable : e.mergeable = false ↔ e.group = none ∧ rules.maxEntryBytes < e.payloadBytes
  run : ∀ edit ∈ e.edits, edit.run ≠ none → edit.kind = .delete ∧ e.group = none

theorem Entry.Shaped.of_unmarked {rules : MergeRules} {e e' : Entry} (h : e.Shaped rules)
    (same : e'.unmarked = e.unmarked) : e'.Shaped rules := by
  have shaped : e.unmarked.Shaped rules := ⟨h.some_edit, h.edits, h.single, h.mergeable, h.run⟩
  rw [← same] at shaped
  exact ⟨shaped.some_edit, shaped.edits, shaped.single, shaped.mergeable, shaped.run⟩

theorem EditKind.insert_or_delete {kind : EditKind} (plain : kind ≠ .replace) :
    kind = .insert ∨ kind = .delete := by
  cases kind with
  | insert => exact Or.inl rfl
  | delete => exact Or.inr rfl
  | replace => exact absurd rfl plain

theorem Coalesce.mergeable_of_plan {rules : MergeRules} {tail : Entry} {kind : EditKind}
    {place : Location} {text : Text} {now : Nat} {how : Splice}
    (h : plan rules tail kind place text now = .ok how) : tail.mergeable = true := by
  cases hm : tail.mergeable with
  | true => rfl
  | false => simp [plan, hm] at h

/-- A deletion joins one that has a direction in that direction only. -/
theorem Coalesce.planDelete_of_run {last : Edit} {place : Location} {text : Text}
    {how : Splice} {direction : RunDirection} (h : planDelete last place text = .ok how)
    (run : last.run = some direction) :
    (direction = .forward ∧ how = .forwardDelete) ∨
      (direction = .backward ∧ how = .backspace) := by
  simp only [planDelete] at h
  split at h
  · rename_i forward
    have ahead : direction ≠ .backward := by
      simpa [run] using (Bool.and_eq_true_iff.mp forward).2
    refine Or.inl ⟨?_, (Except.ok.inj h).symm⟩
    cases direction with
    | backward => exact absurd rfl ahead
    | forward => rfl
  · split at h
    · rename_i backward
      have back : direction ≠ .forward := by
        simpa [run] using (Bool.and_eq_true_iff.mp backward).2
      refine Or.inr ⟨?_, (Except.ok.inj h).symm⟩
      cases direction with
      | backward => rfl
      | forward => exact absurd rfl back
    · split at h <;> simp at h

/-- What is joined to a deletion that has a direction leaves the direction. -/
theorem Coalesce.run_join {rules : MergeRules} {tail : Entry} {kind : EditKind}
    {place : Location} {text : Text} {now : Nat} {how : Splice} {direction : RunDirection}
    (h : plan rules tail kind place text now = .ok how)
    (run : tail.first.run = some direction) :
    (how.join tail.first place text).run = some direction := by
  obtain ⟨single, -, -, fits⟩ := plan_eq_ok h
  have edits : tail.edits = [tail.first] := by rw [Entry.edits, single]
  have joined := joining_of_plan edits h
  cases kind with
  | insert =>
    cases how with
    | append => exact run
    | backspace => simp [Splice.Fits] at fits
    | forwardDelete => simp [Splice.Fits] at fits
  | delete =>
    rcases planDelete_of_run joined run with ⟨rfl, rfl⟩ | ⟨rfl, rfl⟩
    · rfl
    · rfl
  | replace => simp [joining] at joined

namespace Journal

section Entries

variable {j : Journal} {edit : Edit} {now : Nat}

/-- **A joined entry keeps the shape.** -/
theorem Joins.shaped {tail changed : Entry} (joins : j.Joins edit now tail changed)
    (plain : edit.kind ≠ .replace) (nonempty : edit.payload ≠ []) (fresh : edit.run = none)
    (h : tail.Shaped j.config.rules) : (j.restamped changed).Shaped j.config.rules := by
  cases joins with
  | group id isOpen member =>
    have edits : (j.restamped { tail.push edit with timestamp := now }).edits =
        tail.edits ++ [edit] := rfl
    have group : (j.restamped { tail.push edit with timestamp := now }).group =
        some id := member
    have mergeable : tail.mergeable ≠ false := fun closed => by
      simpa [member] using (h.mergeable.mp closed).1
    refine ⟨by simp [edits], ?_, by simp [group], ?_, ?_⟩
    · rw [edits, List.forall_mem_append, List.forall_mem_singleton]
      exact ⟨h.edits, EditKind.insert_or_delete plain, nonempty⟩
    · rw [group]
      exact ⟨fun closed => absurd closed mergeable, by simp⟩
    · rw [edits, List.forall_mem_append, List.forall_mem_singleton]
      refine ⟨fun old hold run => ?_, fun run => absurd fresh run⟩
      simpa [member] using (h.run old hold run).2
  | run how loose small unsealed plan =>
    obtain ⟨single, same, size, fits⟩ := Coalesce.plan_eq_ok plan
    have only : tail.edits = [tail.first] := by rw [Entry.edits, single]
    have edits : (j.restamped (Coalesce.splice how tail edit.place edit.payload now)).edits =
        [how.join tail.first edit.place edit.payload] := by
      simp [restamped, Coalesce.splice, Entry.edits, single]
    have group := Coalesce.ungrouped_of_plan plan
    have kind := how.kind_join tail.first edit.place edit.payload
    have within :
        (j.restamped (Coalesce.splice how tail edit.place edit.payload now)).payloadBytes ≤
        j.config.rules.maxEntryBytes := by
      rw [Entry.payloadBytes, edits, total_cons, total_nil, Splice.byteLength_join_payload]
      exact size
    refine ⟨by simp [edits], ?_, fun _ => ⟨_, edits⟩, ?_, ?_⟩
    · rw [edits, List.forall_mem_singleton, kind]
      have some_payload : tail.first.payload ≠ [] := (h.edits tail.first (by simp [only])).2
      refine ⟨(h.edits tail.first (by simp [only])).1, ?_⟩
      cases how <;> simp [Splice.join, some_payload]
    · have mergeable : (j.restamped
          (Coalesce.splice how tail edit.place edit.payload now)).mergeable =
            tail.mergeable := rfl
      rw [mergeable, Coalesce.mergeable_of_plan plan]
      exact ⟨by simp, fun above => absurd above.2 (Nat.not_lt.mpr within)⟩
    · rw [edits, List.forall_mem_singleton, kind, same]
      refine fun run => ⟨?_, group⟩
      cases how with
      | append => exact same ▸ (h.run tail.first (by simp [only]) run).1
      | backspace => exact fits.1
      | forwardDelete => exact fits.1

/-- A started entry has the shape. -/
theorem Starts.shaped {group : Option Nat} {mergeable : Bool}
    (starts : j.Starts edit now group mergeable)
    (plain : edit.kind ≠ .replace) (nonempty : edit.payload ≠ []) (fresh : edit.run = none)
    (k : Journal) : (k.newEntry edit now group mergeable).Shaped j.config.rules := by
  have edits : (k.newEntry edit now group mergeable).edits = [edit] := rfl
  refine ⟨by simp [edits], ?_, fun _ => ⟨edit, edits⟩, ?_, ?_⟩
  · rw [edits, List.forall_mem_singleton]
    exact ⟨EditKind.insert_or_delete plain, nonempty⟩
  · have bytes : (k.newEntry edit now group mergeable).payloadBytes =
        edit.payload.byteLength := by
      rw [Entry.payloadBytes, edits, total_cons, total_nil, Nat.add_zero]
    rw [bytes, show (k.newEntry edit now group mergeable).mergeable = mergeable from rfl,
      show (k.newEntry edit now group mergeable).group = group from rfl]
    cases starts with
    | group id isOpen first => simp
    | oversized loose large => simp [large]
    | refused refusal loose small plan => simp [small]
  · rw [edits, List.forall_mem_singleton]
    exact fun run => absurd fresh run

end Entries

end Journal

/-! ## Groups -/

/-- The open group is the newest one. -/
def Grouping.OpenNewest (g : Grouping) : Prop := ∀ id, g.current = some id → id = g.newest

theorem Grouping.OpenNewest.begin {g : Grouping} (h : g.OpenNewest) : g.begin.OpenNewest := by
  intro id isOpen
  by_cases hd : g.depth = 0
  · simpa [Grouping.begin, hd, eq_comm] using isOpen
  · simp only [Grouping.begin, hd, if_false] at isOpen ⊢
    exact h id isOpen

theorem Grouping.OpenNewest.close {g : Grouping} (h : g.OpenNewest) :
    g.close.2.OpenNewest := by
  unfold Grouping.close
  split
  · exact h
  · split <;> simp [OpenNewest]
  · exact h

namespace Journal

variable {j k : Journal}

/-- The numbers of the groups along the entries. -/
def groups (j : Journal) : List Nat := j.entries.filterMap (·.group)

theorem groups_eq_unmarked (j : Journal) : j.groups = j.unmarked.filterMap (·.group) := by
  rw [groups, unmarked, List.filterMap_map]
  rfl

section Groups

variable {edit : Edit} {now : Nat}

/-- A joined entry has the group of the one that it was. -/
theorem Joins.groups_eq {tail changed : Entry} (joins : j.Joins edit now tail changed)
    (last : j.entries.getLast? = some tail) :
    (j.replaceTail tail changed).groups = j.groups := by
  obtain ⟨front, parts⟩ := List.getLast?_eq_some_iff.mp last
  have same : (j.restamped changed).group = tail.group := joins.group_eq.1
  rw [groups, groups, replaceTail_entries, parts, List.dropLast_concat]
  simp [List.filterMap_append, List.filterMap_cons, same]

/-- The group of a started entry has the greatest number that was given out, and none of
the other entries has it. -/
theorem Starts.groups_rise {group : Option Nat} {mergeable : Bool}
    (starts : j.Starts edit now group mergeable) (sound : j.Sound) (openLast : j.OpenLast)
    (newest : j.grouping.OpenNewest) (rising : j.groups.Pairwise (· < ·)) :
    (j.started edit now group mergeable).groups.Pairwise (· < ·) := by
  have left : (j.makeRoom.value.2.entries.filterMap (·.group)).Pairwise (· < ·) := by
    rw [j.makeRoom_entries]
    exact rising.sublist ((List.drop_sublist _ _).filterMap _)
  rw [groups, started_entries, List.filterMap_append, List.pairwise_append]
  refine ⟨left, ?_, ?_⟩
  · cases group <;> simp [newEntry]
  · intro id hid id' hid'
    obtain ⟨e, member, of_group⟩ := List.mem_filterMap.mp hid
    obtain ⟨new, is_new, of_new⟩ := List.mem_filterMap.mp hid'
    obtain rfl := List.mem_singleton.mp is_new
    have isOpen : j.grouping.current = some id' := starts.group_eq.symm.trans of_new
    have there : e ∈ j.entries := j.roomMade.entries e member
    have other := starts.not_member openLast isOpen e there
    have given := (sound.entries e there).group_le id of_group
    have top : id' = j.grouping.newest := newest id' isOpen
    exact Nat.lt_of_le_of_ne (top ▸ given) fun same => other (same ▸ of_group)

end Groups

/-! ## Journals -/

/-- All entries are shaped, and the numbers of their groups rise, up to that of the open
group, which is the newest one. -/
structure Shaped (j : Journal) : Prop where
  sound : j.Sound
  openLast : j.OpenLast
  newest : j.grouping.OpenNewest
  entries : ∀ e ∈ j.entries, e.Shaped j.config.rules
  groups : j.groups.Pairwise (· < ·)

namespace Shaped

theorem of_unmarked (h : j.Shaped) (sound : k.Sound) (openLast : k.OpenLast)
    (newest : k.grouping.OpenNewest) (config : k.config = j.config)
    (same : k.unmarked = j.unmarked) :
    k.Shaped where
  sound := sound
  openLast := openLast
  newest := newest
  entries e member := by
    have marked : e.unmarked ∈ j.unmarked := same ▸ List.mem_map_of_mem member
    obtain ⟨old, hold, unmarked⟩ := List.mem_map.mp marked
    rw [config]
    exact (h.entries old hold).of_unmarked unmarked.symm
  groups := by
    rw [groups_eq_unmarked, same, ← groups_eq_unmarked]
    exact h.groups

/-- **A change keeps the shape**, whether it joins an entry or starts one. -/
theorem takes (h : j.Shaped) {edit : Edit} {now : Nat} {status : RecordStatus}
    (takes : j.Takes edit now status k) (plain : edit.kind ≠ .replace)
    (nonempty : edit.payload ≠ []) (fresh : edit.run = none) : k.Shaped := by
  obtain ⟨last, grouping⟩ := takes.grouping_eq
  have sound := takes.sound h.sound plain
  have openLast := takes.openLast h.openLast
  have newest : k.grouping.OpenNewest := by
    rw [grouping]
    exact h.newest
  have config := takes.outgrows.config
  have old : ∀ e ∈ j.truncated.entries, e.Shaped k.config.rules := fun e member => by
    rw [config]
    exact h.entries e (List.mem_of_mem_take member)
  have rising : j.truncated.groups.Pairwise (· < ·) :=
    h.groups.sublist ((List.take_sublist _ _).filterMap _)
  cases takes with
  | nothing empty => exact absurd empty nonempty
  | joined tail changed _ last joins =>
    refine ⟨sound, openLast, newest, ?_, ?_⟩
    · rw [noting_entries, replaceTail_entries, List.forall_mem_append,
        List.forall_mem_singleton]
      refine ⟨fun e member => old e (List.dropLast_subset _ member), ?_⟩
      exact joins.shaped plain nonempty fresh (old tail (List.mem_of_getLast? last))
    · have same : (j.truncated.replaceTail tail changed).groups = j.truncated.groups :=
        joins.groups_eq last
      exact same ▸ rising
  | started group mergeable _ starts =>
    refine ⟨sound, openLast, newest, ?_, ?_⟩
    · rw [noting_entries, started_entries, List.forall_mem_append, List.forall_mem_singleton]
      refine ⟨fun e member => old e (j.truncated.roomMade.entries e member), ?_⟩
      rw [config]
      exact starts.shaped plain nonempty fresh _
    · exact starts.groups_rise h.sound.truncated h.openLast.truncated h.newest rising

/-- **No request breaks the shape.** -/
theorem serve {σ : Type} [Storage σ] (h : j.Shaped) (request : Request σ) :
    (j.serve request).Shaped := by
  have sound := h.sound.serve request
  have openLast := h.openLast.serve h.sound request
  cases request with
  | record kind place text now =>
    rcases j.serve_record_cases σ kind place text now with
      ⟨same, -⟩ | ⟨status, -, plain, nonempty, takes⟩
    · rw [same]
      exact h
    · exact h.takes takes plain nonempty rfl
  | step direction storage =>
    rcases j.serve_step_cases direction storage with same | idle | ⟨index, entry, -, moved⟩
    · rw [same]
      exact h
    · rw [idle] at sound openLast ⊢
      exact h.of_unmarked sound openLast h.newest rfl rfl
    · rw [moved] at sound openLast ⊢
      exact h.of_unmarked sound openLast h.newest rfl rfl
  | endRun => exact h.of_unmarked sound openLast h.newest rfl rfl
  | groupBegin => exact h.of_unmarked sound openLast h.newest.begin rfl rfl
  | groupEnd =>
    rw [serve_groupEnd] at sound openLast ⊢
    exact h.of_unmarked sound openLast h.newest.close rfl rfl
  | markSaved => exact h.of_unmarked sound openLast h.newest rfl j.unmarked_markSaved
  | clear =>
    exact ⟨sound, openLast, h.newest, by simp [Journal.serve, clear, endRun],
      List.Pairwise.nil⟩

end Shaped

theorem shaped_create (config : Config) (refusals : List Bool) :
    (Journal.create config refusals).value.Shaped := by
  have sound := sound_create config refusals
  obtain ⟨capacity, rest, -, new⟩ := value_create config refusals
  rw [new] at sound ⊢
  exact ⟨sound, openLast_of_closed rfl, by simp [Grouping.OpenNewest], by simp,
    List.Pairwise.nil⟩

/-- **So no calls do, where there are no files.** -/
theorem Shaped.behindAll (h : j.Shaped) {calls : List Call}
    (own : ∀ call ∈ calls, call.isLoad = false) : (j.behindAll calls).Shaped := by
  induction calls generalizing j with
  | nil => exact h
  | cons call rest ih =>
    rw [List.forall_mem_cons] at own
    cases call with
    | ask request => exact ih (h.serve request) own.2
    | load text path d => simp [Call.isLoad] at own

theorem outgrows_behindAll (j : Journal) {calls : List Call}
    (own : ∀ call ∈ calls, call.isLoad = false) : j.Outgrows (j.behindAll calls) := by
  induction calls generalizing j with
  | nil => exact .refl j
  | cons call rest ih =>
    rw [List.forall_mem_cons] at own
    cases call with
    | ask request => exact (j.outgrows_serve request).trans (ih _ own.2)
    | load text path d => simp [Call.isLoad] at own

/-! ## Directions -/

section Standing

variable {σ : Type} [Storage σ] {i now : Nat} {e : Entry} {edit : Edit} {status : RecordStatus}

/-- **An entry that stands behind a change is as it was, or was joined.** -/
theorem Takes.stands (takes : j.Takes edit now status k) (nonempty : edit.payload ≠ [])
    (at_i : j.entries[i]? = some e) {n : Nat} (stands : j.placeBehind status i = some n) :
    ∃ kept, k.entries[n]? = some kept ∧ (kept = e ∨
      ∃ changed, j.truncated.Joins edit now e changed ∧
        kept = j.truncated.restamped changed) := by
  cases takes with
  | nothing empty => exact absurd empty nonempty
  | joined tail changed _ last joins =>
    obtain ⟨done, rfl⟩ : i < j.position ∧ i = n := by simpa [placeBehind] using stands
    obtain ⟨front, parts⟩ := List.getLast?_eq_some_iff.mp last
    have there : j.truncated.entries[i]? = some e := by
      rw [truncated_entries, List.getElem?_take_of_lt done, at_i]
    rw [parts] at there
    rw [noting_entries, replaceTail_entries, parts, List.dropLast_concat]
    rcases Nat.lt_trichotomy i front.length with before | rfl | behind
    · rw [List.getElem?_append_left before] at there ⊢
      exact ⟨e, there, Or.inl rfl⟩
    · obtain rfl : tail = e := by simpa using there
      exact ⟨_, by simp, Or.inr ⟨changed, joins, rfl⟩⟩
    · have inside := (List.getElem?_eq_some_iff.mp there).1
      rw [List.length_append, List.length_singleton] at inside
      omega
  | started group mergeable _ starts =>
    rw [placeBehind_startStatus] at stands
    obtain ⟨⟨above, done⟩, rfl⟩ : (j.truncated.makeRoom.value.1.toNat ≤ i ∧ i < j.position) ∧
        i - j.truncated.makeRoom.value.1.toNat = n := by simpa using stands
    have there :
        (j.truncated.makeRoom.value.2.entries)[i - j.truncated.makeRoom.value.1.toNat]? =
        some e := by
      rw [makeRoom_entries, List.getElem?_drop, Nat.add_sub_cancel' above, truncated_entries,
        List.getElem?_take_of_lt done, at_i]
    have inside := (List.getElem?_eq_some_iff.mp there).1
    refine ⟨e, ?_, Or.inl rfl⟩
    rw [noting_entries, started_entries, List.getElem?_append_left inside, there]

/-- **So it is behind any request**, but for the mark of a save. -/
theorem standsBehind_cases (at_i : j.entries[i]? = some e) {request : Request σ} {n : Nat}
    (stands : j.standsBehind i request = some n) :
    ∃ kept, (j.serve request).entries[n]? = some kept ∧ (kept.unmarked = e.unmarked ∨
      ∃ edit now changed, j.truncated.Joins edit now e changed ∧
        kept = j.truncated.restamped changed) := by
  have unchanged {l : Journal} (same : l.entries = j.entries) (here : some i = some n) :
      ∃ kept, l.entries[n]? = some kept ∧ (kept.unmarked = e.unmarked ∨
        ∃ edit now changed, j.truncated.Joins edit now e changed ∧
          kept = j.truncated.restamped changed) := by
    obtain rfl := Option.some.inj here
    exact ⟨e, same ▸ at_i, Or.inl rfl⟩
  cases request with
  | record kind place text now =>
    rcases j.serve_record_cases σ kind place text now with
      ⟨same, idle⟩ | ⟨status, recorded, -, nonempty, takes⟩
    · rw [same]
      refine unchanged rfl ?_
      rw [← stands]
      cases recorded : (j.record kind place text now).value with
      | error error => simp [standsBehind, recorded]
      | ok answer =>
        rcases idle answer.1 answer.2 recorded with nothing | nothing <;>
          simp [standsBehind, recorded, placeBehind, nothing]
    · have moves : j.standsBehind i (.record kind place text now : Request σ) =
          j.placeBehind status i := by simp [standsBehind, recorded]
      obtain ⟨kept, at_n, same | ⟨changed, joins, taken⟩⟩ :=
        takes.stands nonempty at_i (moves ▸ stands)
      · exact ⟨kept, at_n, Or.inl (congrArg Entry.unmarked same)⟩
      · exact ⟨kept, at_n, Or.inr ⟨_, now, changed, joins, taken⟩⟩
  | step direction storage =>
    refine unchanged ?_ stands
    rcases j.serve_step_cases direction storage with same | idle | ⟨index, entry, -, moved⟩
    · rw [same]
    · rw [idle]
    · rw [moved]
      rfl
  | endRun => exact unchanged rfl stands
  | groupBegin => exact unchanged rfl stands
  | groupEnd => exact unchanged (by rw [serve_groupEnd]) stands
  | markSaved =>
    obtain rfl : i = n := Option.some.inj stands
    refine ⟨{ e with savePoint := i + 1 == j.position }, ?_, Or.inl rfl⟩
    simp [serve, markSaved, at_i]
  | clear => simp [standsBehind] at stands

/-- **A direction stays**, as long as its entry stands. -/
theorem run_standsAfter (at_i : j.entries[i]? = some e) {direction : RunDirection}
    (run : e.first.run = some direction) {requests : List (Request σ)} {n : Nat}
    (stands : j.standsAfter i requests = some n) :
    ∃ kept, (j.serveAll requests).entries[n]? = some kept ∧
      kept.first.run = some direction := by
  induction requests generalizing j i e with
  | nil =>
    obtain rfl : i = n := Option.some.inj stands
    exact ⟨e, at_i, run⟩
  | cons request rest ih =>
    obtain ⟨m, first, stands⟩ := Option.bind_eq_some_iff.mp stands
    obtain ⟨kept, at_m, same | ⟨edit, now, changed, joins, rfl⟩⟩ :=
      standsBehind_cases at_i first
    · have first_eq : kept.unmarked.first = e.unmarked.first := by rw [same]
      exact ih at_m ((congrArg Edit.run first_eq).trans run) stands
    · refine ih at_m ?_ stands
      cases joins with
      | group id isOpen member => exact run
      | run how loose small unsealed plan => exact Coalesce.run_join plan run

end Standing

end Journal

/-- **The entries that a journal makes keep their shape**, under any limits, behind any
calls but loads. Each holds a change at least, and insertions and deletions of something
only; one without a group holds one change; it is closed to merging exactly if it has no
group and its payload is above the cap; and only a deletion without a group has a
direction, which stays as long as the entry stands. Along the entries, the numbers of
the groups rise, up to that of the newest group. -/
theorem entries_keep_shape (config : Config) (refusals : List Bool) (calls : List Call)
    (own : ∀ call ∈ calls, call.isLoad = false) :
    let j := (Journal.create config refusals).value.behindAll calls
    (∀ e ∈ j.entries, e.Shaped config.rules) ∧
    (∀ i e edit direction, j.entries[i]? = some e → edit ∈ e.edits →
      edit.run = some direction →
      ∀ {σ : Type} [Storage σ] (requests : List (Request σ)) (n : Nat),
        j.standsAfter i requests = some n →
          ∃ kept only, (j.serveAll requests).entries[n]? = some kept ∧ kept.edits = [only] ∧
            only.run = some direction) ∧
    j.groups.Pairwise (· < ·) ∧ ∀ id ∈ j.groups, id ≤ j.grouping.newest := by
  intro j
  have shaped : j.Shaped := (Journal.shaped_create config refusals).behindAll own
  have limits : j.config = config := by
    obtain ⟨capacity, rest, -, new⟩ := Journal.value_create config refusals
    rw [((Journal.create config refusals).value.outgrows_behindAll own).config, new]
  refine ⟨limits ▸ shaped.entries, ?_, shaped.groups, ?_⟩
  · intro i e edit direction at_i member run σ _ requests n stands
    have of_e := shaped.entries e (List.mem_of_getElem? at_i)
    obtain ⟨only, edits⟩ := of_e.single (of_e.run edit member (by simp [run])).2
    obtain rfl : edit = only := by simpa [edits] using member
    obtain ⟨first, -⟩ : e.first = edit ∧ e.more = [] := by simpa [Entry.edits] using edits
    obtain ⟨kept, at_n, kept_run⟩ := Journal.run_standsAfter at_i (first ▸ run) stands
    have later : (j.serveAll requests).Shaped :=
      Journal.serveAll_invariant (P := Journal.Shaped)
        (fun _ request h => Journal.Shaped.serve h request) shaped requests
    have of_kept := later.entries kept (List.mem_of_getElem? at_n)
    have loose := (of_kept.run kept.first (by simp [Entry.edits]) (by simp [kept_run])).2
    obtain ⟨only, single⟩ := of_kept.single loose
    obtain ⟨rfl, -⟩ : kept.first = only ∧ kept.more = [] := by simpa [Entry.edits] using single
    exact ⟨kept, kept.first, at_n, single, kept_run⟩
  · intro id member
    obtain ⟨e, there, of_group⟩ := List.mem_filterMap.mp member
    exact (shaped.sound.entries e there).group_le id of_group

/-- A group whose entry is undone and made again, an insertion above a cap of two bytes,
and two backspaces. -/
def mixedCalls : List Call :=
  [.ask (.groupBegin : Request Text), .ask (.record .insert ⟨0, 0⟩ ['a'] 0 : Request Text),
    .ask (.step .undo (['a'] : Text)), .ask (.record .insert ⟨0, 0⟩ ['b'] 1 : Request Text),
    .ask (.groupEnd : Request Text),
    .ask (.record .insert ⟨0, 1⟩ ['x', 'y', 'z'] 2 : Request Text),
    .ask (.record .delete ⟨0, 3⟩ ['z'] 3 : Request Text),
    .ask (.record .delete ⟨0, 2⟩ ['y'] 4 : Request Text)]

/-- The journal behind them. -/
def mixedJournal : Journal :=
  (Journal.create { rules := { maxEntryBytes := 2 } }).value.behindAll mixedCalls

/-- The group has one entry, the insertion is closed to merging, and the backspaces have
their direction, also behind a third one that is too much for the cap. -/
theorem mixedCalls_keep_shape :
    (∀ e ∈ mixedJournal.entries, e.Shaped { maxEntryBytes := 2 }) ∧
    mixedJournal.entries.map (fun e => (e.group, e.mergeable, e.first.run)) =
      [(some 1, true, none), (none, false, none), (none, true, some .backward)] ∧
    ∃ kept only,
      (mixedJournal.serveAll [(.record .delete ⟨0, 1⟩ ['x'] 5 : Request Text)]).entries[2]? =
        some kept ∧ kept.edits = [only] ∧ only.run = some .backward := by
  obtain ⟨shaped, directed, -, -⟩ := entries_keep_shape { rules := { maxEntryBytes := 2 } } []
    mixedCalls (by simp [mixedCalls, Call.isLoad])
  have backspaces : mixedJournal.entries[2]? = some
      { first := ⟨.delete, ⟨0, 2⟩, ['y', 'z'], some .backward⟩, timestamp := 4,
        version := 5 } := by
    decide +kernel
  exact ⟨shaped, by decide +kernel, directed 2 _ _ _ backspaces List.mem_cons_self rfl
    [(.record .delete ⟨0, 1⟩ ['x'] 5 : Request Text)] 2 (by decide +kernel)⟩

end EditJournal
