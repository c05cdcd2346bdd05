/-
EditJournal.Proofs.TypingRuns — when a change joins the typing run.

* `Journal.Takes.merged_iff` — outside any group a change joins the entry before the
  position exactly if the run is open and the rules allow it.
* `Journal.Running older only time` — a run is open; its entry is the last one, behind
  `older`, and holds the change `only`, which was last added to at `time`.
* `Call`, `Journal.behind`, `Journal.behindAll` — what happens to a journal, as data:
  requests, and files that are loaded.
* `Call.Journals`, `Call.EndsRun` — the calls that have a change taken in, and those
  that end the run; `Journal.Undisturbed` — calls that do neither.

`merged_iff_run_goes_on` is the main result: it says when a change joins an entry, and
what must have gone before it.

## How the proof goes

Each call has a change taken in, or ends the run, or leaves the run and the entries as
they are, but for the marks of saves (`behind_journals_or_endsRun_or_rests`). So, by
induction on the calls, a run that is open goes back to one change, behind which nothing
ended it (`exists_change_of_unsealed`).
-/
import Mathlib.Data.List.Induction
import EditJournal.Proofs.ByteBalance

namespace EditJournal

/-! ## The rules -/

namespace Coalesce

variable {rules : MergeRules} {tail : Entry} {only edit : Edit} {kind : EditKind}
  {place : Location} {text : Text} {now : Nat} {how : Splice}

/-- How a change joins another one of its kind, as far as places and words decide. -/
def joining (rules : MergeRules) (only : Edit) (kind : EditKind) (place : Location)
    (text : Text) :
    Except Refusal Splice :=
  match kind with
  | .insert => planInsert rules only place text
  | .delete => planDelete only place text
  | .replace => .error .kindMismatch

/-- May a change of this kind and size join another one, at this time? -/
structure InReach (rules : MergeRules) (only : Edit) (time : Nat) (edit : Edit) (now : Nat) :
    Prop where
  same : only.kind = edit.kind
  soon : now ≤ time + rules.windowMs
  small : only.payload.byteLength + edit.payload.byteLength ≤ rules.maxEntryBytes

/-- For an entry of one change outside any group, nothing else counts. -/
theorem plan_of_inReach (edits : tail.edits = [only]) (mergeable : tail.mergeable = true)
    (loose : tail.group = none) (reach : InReach rules only tail.timestamp edit now) :
    plan rules tail edit.kind edit.place edit.payload now =
      joining rules only edit.kind edit.place edit.payload := by
  obtain ⟨rfl, single⟩ : tail.first = only ∧ tail.more = [] := by
    simpa [Entry.edits] using edits
  obtain ⟨same, soon, small⟩ := reach
  have soon : ¬ rules.windowMs < now - tail.timestamp := by omega
  have small := Nat.not_lt.mpr small
  unfold plan joining
  cases hkind : edit.kind <;> simp [mergeable, loose, single, same, hkind, soon, small]

/-- What joins an entry of one change does so by places and words. -/
theorem joining_of_plan (edits : tail.edits = [only])
    (accepted : plan rules tail kind place text now = .ok how) :
    joining rules only kind place text = .ok how := by
  obtain ⟨rfl, -⟩ : tail.first = only ∧ tail.more = [] := by simpa [Entry.edits] using edits
  unfold plan at accepted
  unfold joining
  cases kind <;> simp only at accepted ⊢ <;> repeat' split at accepted
  all_goals first | simp at accepted | exact accepted

theorem shouldMerge_iff :
    shouldMerge rules tail kind place text now = true ↔
      ∃ how, plan rules tail kind place text now = .ok how := by
  unfold shouldMerge
  cases plan rules tail kind place text now <;> simp [Except.isOk, Except.toBool]

end Coalesce

/-! ## Changes outside any group -/

namespace Journal

section Loose

variable {j k : Journal} {edit : Edit} {now : Nat} {status : RecordStatus}

/-- Only a change that starts an entry or joins one is taken in. -/
theorem Takes.status_mem (takes : j.Takes edit now status k) (nonempty : edit.payload ≠ []) :
    status ∈ [RecordStatus.appended, .merged, .evicted, .oversized] := by
  cases takes with
  | nothing empty => exact absurd empty nonempty
  | joined tail changed _ last joins => simp
  | started group mergeable _ starts =>
    cases j.truncated.makeRoom.value.1 <;> cases mergeable <;> simp [startStatus]

theorem startStatus_ne_merged (evicted mergeable : Bool) :
    startStatus evicted mergeable ≠ .merged := by
  cases evicted <;> cases mergeable <;> simp [startStatus]

/-- A change that is merged joins the last entry before the position. -/
theorem Takes.joined_of_merged (takes : j.Takes edit now status k)
    (merged : status = .merged) :
    ∃ tail changed, j.truncated.entries.getLast? = some tail ∧
      j.truncated.Joins edit now tail changed ∧
      k = (j.truncated.replaceTail tail changed).noting edit now := by
  cases takes with
  | nothing empty => simp at merged
  | joined tail changed nonempty last joins => exact ⟨tail, changed, last, joins, rfl⟩
  | started group mergeable nonempty starts => exact absurd merged (startStatus_ne_merged _ _)

theorem getLast?_truncated (within : j.position ≤ j.entries.length) :
    j.truncated.entries.getLast? =
      if 0 < j.position then j.entries[j.position - 1]? else none := by
  rw [truncated_entries, List.getLast?_take]
  by_cases some_before : 0 < j.position
  · have inside : j.position - 1 < j.entries.length := by omega
    rw [if_neg (Nat.ne_of_gt some_before), if_pos some_before, List.getElem?_eq_getElem inside,
      Option.some_or]
  · rw [if_pos (Nat.eq_zero_of_not_pos some_before), if_neg some_before]

/-- **A change joins the entry before the position exactly if the run is open and the
rules allow it.** -/
theorem Takes.merged_iff (takes : j.Takes edit now status k) (nonempty : edit.payload ≠ [])
    (loose : j.grouping.current = none) :
    status = .merged ↔
      j.grouping.isSealed = false ∧ ∃ tail, j.truncated.entries.getLast? = some tail ∧
        Coalesce.shouldMerge j.config.rules tail edit.kind edit.place edit.payload now =
          true := by
  have loose' : j.truncated.grouping.current = none := loose
  constructor
  · intro merged
    obtain ⟨tail, changed, last, joins, -⟩ := takes.joined_of_merged merged
    cases joins with
    | group id isOpen member => simp [loose'] at isOpen
    | run how _ small unsealed plan =>
      exact ⟨unsealed, tail, last, Coalesce.shouldMerge_iff.mpr ⟨how, plan⟩⟩
  · rintro ⟨unsealed, tail, last, merges⟩
    obtain ⟨how, plan⟩ := Coalesce.shouldMerge_iff.mp merges
    obtain ⟨-, -, bytes, -⟩ := Coalesce.plan_eq_ok plan
    have small : edit.payload.byteLength ≤ j.config.rules.maxEntryBytes :=
      Nat.le_trans (Nat.le_add_left _ _) bytes
    cases takes with
    | nothing empty => exact absurd empty nonempty
    | joined => rfl
    | started group mergeable _ starts =>
      exact absurd starts ((Joins.run how loose' small unsealed plan).not_starts last)

/-- Behind the end of a run no change joins an entry. -/
theorem Takes.ne_merged_of_sealed (takes : j.Takes edit now status k)
    (nonempty : edit.payload ≠ []) (loose : j.grouping.current = none)
    (sealed : j.grouping.isSealed = true) : status ≠ .merged := by
  intro merged
  obtain ⟨unsealed, -⟩ := (takes.merged_iff nonempty loose).mp merged
  simp [sealed] at unsealed

end Loose

/-! ## An open run -/

/-- A run is open. Its entry is the last one, behind `older`; it holds the change
`only`, which was made, or last added to, at `time`. -/
structure Running (j : Journal) (older : List Entry) (only : Edit) (time : Nat) : Prop where
  sound : j.Sound
  loose : j.grouping.current = none
  unsealed : j.grouping.isSealed = false
  position : j.position = j.entries.length
  entry : ∃ entry, j.entries = older ++ [entry] ∧ entry.edits = [only] ∧
    entry.timestamp = time ∧ entry.group = none ∧ entry.mergeable = true

section Running

variable {j k : Journal} {older : List Entry} {only edit : Edit} {time now : Nat}
  {status : RecordStatus}

/-- Whatever a change does outside any group, the run is open behind it. -/
theorem Takes.unsealed (takes : j.Takes edit now status k) (nonempty : edit.payload ≠ []) :
    k.grouping.isSealed = false := by
  cases takes with
  | nothing empty => exact absurd empty nonempty
  | joined => rfl
  | started => rfl

/-- A change that joins nothing is put behind the entries before the position, from
which the oldest one may go. -/
theorem Takes.started_entry (takes : j.Takes edit now status k) (sound : j.Sound)
    (nonempty : edit.payload ≠ []) (loose : j.grouping.current = none)
    (refused : status ≠ .merged) :
    ∃ entry, k.entries = (j.entries.take j.position).drop (evictedBy status) ++ [entry] ∧
      entry.edits = [edit] ∧ entry.timestamp = now ∧ entry.group = none ∧
      entry.mergeable = decide (edit.payload.byteLength ≤ j.config.rules.maxEntryBytes) := by
  have extended := takes.extended sound nonempty
  generalize k.entries = entries at extended
  cases extended with
  | joined older tail changed front joined version => exact absurd rfl refused
  | started _ evicted kept entry front count known new =>
    refine ⟨entry, ?_, ?_⟩
    · rw [front, ← count, List.drop_left]
    · simp [new, loose, Entry.edits]

/-- **A change that joins nothing opens a run**, if it is not too large. -/
theorem Takes.opens (takes : j.Takes edit now status k) (sound : j.Sound)
    (plain : edit.kind ≠ .replace) (nonempty : edit.payload ≠ [])
    (loose : j.grouping.current = none)
    (small : edit.payload.byteLength ≤ j.config.rules.maxEntryBytes)
    (refused : status ≠ .merged) :
    k.Running ((j.entries.take j.position).drop (evictedBy status)) edit now := by
  obtain ⟨last, grouping⟩ := takes.grouping_eq
  obtain ⟨p, d, _, leaves⟩ := takes.leaves_of_nonempty nonempty
  obtain ⟨entry, entries, edits, timestamp, group, mergeable⟩ :=
    takes.started_entry sound nonempty loose refused
  exact
    { sound := takes.sound sound plain
      loose := by rw [grouping]; exact loose
      unsealed := takes.unsealed nonempty
      position := leaves.position sound.position_le
      entry :=
        ⟨entry, entries, edits, timestamp, group, mergeable.trans (decide_eq_true small)⟩ }

namespace Running

theorem getLast?_truncated (h : j.Running older only time) :
    j.truncated.entries.getLast? = j.entries.getLast? := by
  rw [truncated_entries, h.position, List.take_length]

/-- **A change in reach goes on with the run, if places and words allow it.** -/
theorem joins (h : j.Running older only time) (takes : j.Takes edit now status k)
    (plain : edit.kind ≠ .replace) (nonempty : edit.payload ≠ [])
    (reach : Coalesce.InReach j.config.rules only time edit now) {how : Splice}
    (fits : Coalesce.joining j.config.rules only edit.kind edit.place edit.payload = .ok how) :
    status = .merged ∧ k.Running older (how.join only edit.place edit.payload) now := by
  obtain ⟨entry, entries, edits, rfl, group, mergeable⟩ := h.entry
  have last : j.truncated.entries.getLast? = some entry := by
    rw [h.getLast?_truncated, entries, List.getLast?_concat]
  have plan := (Coalesce.plan_of_inReach edits mergeable group reach).trans fits
  have merged : status = .merged := (takes.merged_iff nonempty h.loose).mpr
    ⟨h.unsealed, entry, last, Coalesce.shouldMerge_iff.mpr ⟨how, plan⟩⟩
  obtain ⟨_, grouping⟩ := takes.grouping_eq
  obtain ⟨p, d, _, leaves⟩ := takes.leaves_of_nonempty nonempty
  refine ⟨merged,
    { sound := takes.sound h.sound plain
      loose := by rw [grouping]; exact h.loose
      unsealed := takes.unsealed nonempty
      position := leaves.position h.sound.position_le
      entry := ?_ }⟩
  obtain ⟨tail, changed, last', joins, rfl⟩ := takes.joined_of_merged merged
  obtain rfl : entry = tail := Option.some.inj (last.symm.trans last')
  cases joins with
  | group id isOpen member => simp [group] at member
  | run how' _ small _ plan' =>
    obtain rfl : how = how' := Except.ok.inj (plan.symm.trans plan')
    obtain ⟨rfl, single⟩ : entry.first = only ∧ entry.more = [] := by
      simpa [Entry.edits] using edits
    refine ⟨j.truncated.restamped (Coalesce.splice how entry edit.place edit.payload now), ?_,
      ?_, rfl, group, mergeable⟩
    · rw [noting_entries, replaceTail_entries, truncated_entries, h.position, List.take_length,
        entries, List.dropLast_concat]
    · simp [restamped, Coalesce.splice, Entry.edits, single]

/-- **Where places or words do not allow it, the change starts an entry.** -/
theorem refuses (h : j.Running older only time) (takes : j.Takes edit now status k)
    (nonempty : edit.payload ≠ [])
    (refused : ∀ how,
      Coalesce.joining j.config.rules only edit.kind edit.place edit.payload ≠ .ok how) :
    status ≠ .merged := by
  intro merged
  obtain ⟨-, tail, last, merges⟩ := (takes.merged_iff nonempty h.loose).mp merged
  obtain ⟨how, plan⟩ := Coalesce.shouldMerge_iff.mp merges
  obtain ⟨entry, entries, edits, -, -, -⟩ := h.entry
  rw [h.getLast?_truncated, entries, List.getLast?_concat] at last
  obtain rfl := Option.some.inj last
  exact refused how (Coalesce.joining_of_plan edits plan)

end Running

end Running

end Journal

/-! ## Requests and the run -/

namespace Request

variable {σ : Type} [Storage σ]

/-- The request has a change taken in. -/
def Journals (j : Journal) : Request σ → Prop
  | .record kind place text now =>
    ∃ status ∈ [RecordStatus.appended, .merged, .evicted, .oversized],
      ∃ k, (j.record kind place text now).value = .ok (status, k)
  | _ => False

/-- The request ends the typing run: a step that moves, the end of the run itself,
clearing, or an outermost bracket. -/
def EndsRun (j : Journal) : Request σ → Prop
  | .step direction storage => ∃ cursor, (j.step direction storage).value.1 = .ok (some cursor)
  | .endRun | .clear => True
  | .groupBegin => j.grouping.depth = 0
  | .groupEnd => j.grouping.depth = 1
  | .record .. | .markSaved => False

end Request

namespace Journal

/-- The run is as it was, and so are the entries but for the marks of saves. -/
structure Rests (j k : Journal) : Prop where
  entries : k.unmarked = j.unmarked
  position : k.position = j.position
  last : k.grouping.last = j.grouping.last

theorem Rests.refl (j : Journal) : j.Rests j := ⟨rfl, rfl, rfl⟩

theorem Rests.trans {j k l : Journal} (h : j.Rests k) (h' : k.Rests l) : j.Rests l where
  entries := h'.entries.trans h.entries
  position := h'.position.trans h.position
  last := h'.last.trans h.last

theorem Rests.isSealed {j k : Journal} (h : j.Rests k) :
    k.grouping.isSealed = j.grouping.isSealed := by
  rw [Grouping.isSealed, h.last]
  rfl

section Requests

variable {σ : Type} [Storage σ] {j : Journal}

/-- A step that moves ends the run; any other one does nothing. -/
theorem step_endsRun_or_rests (idle : j.replaying = false) (direction : HistoryStep) (s : σ) :
    (Request.EndsRun j (.step direction s) ∧
      (j.serve (.step direction s)).grouping.isSealed = true) ∨
    (¬ Request.EndsRun j (.step direction s) ∧ j.Rests (j.serve (.step direction s))) := by
  have rested : ({ j with replaying := false } : Journal) = j := by rw [← idle]
  simp only [Request.EndsRun, serve]
  cases ht : j.target? direction with
  | none =>
    have hv : (j.step direction s).value = (.ok none, j, s) := by simp [step, ht]
    rw [hv]
    exact Or.inr ⟨by simp, .refl j⟩
  | some target =>
    obtain ⟨index, entry⟩ := target
    cases hr : (entry.replay direction s).value with
    | mk result storage =>
      cases result with
      | error error =>
        have hv : (j.step direction s).value = (.error error, j, storage) := by
          simp [step, ht, hr, rested]
        rw [hv]
        exact Or.inr ⟨by simp, .refl j⟩
      | ok _ =>
        have hv : (j.step direction s).value =
            (.ok (some (entry.cursorAfter direction)),
              j.stepped direction index, storage) := by
          simp [step, ht, hr, stepped]
        rw [hv]
        exact Or.inl ⟨⟨_, rfl⟩, rfl⟩

/-- **What a request does to the run**: it has a change taken in, or ends the run, or
leaves it. -/
theorem serve_journals_or_endsRun_or_rests (idle : j.replaying = false) (request : Request σ) :
    request.Journals j ∨
    (request.EndsRun j ∧ (j.serve request).grouping.isSealed = true) ∨
    (¬ request.Journals j ∧ ¬ request.EndsRun j ∧ j.Rests (j.serve request)) := by
  cases request with
  | record kind place text now =>
    rcases j.serve_record_cases σ kind place text now with
      ⟨same, idles⟩ | ⟨status, hv, -, nonempty, takes⟩
    · refine Or.inr (Or.inr ⟨?_, id, ?_⟩)
      · rintro ⟨status, member, k, hv⟩
        rcases idles status k hv with rfl | rfl <;> simp at member
      · rw [same]
        exact .refl j
    · exact Or.inl ⟨status, takes.status_mem nonempty, _, hv⟩
  | step direction storage =>
    rcases step_endsRun_or_rests idle direction storage with ends | ⟨stays, rests⟩
    · exact Or.inr (Or.inl ends)
    · exact Or.inr (Or.inr ⟨id, stays, rests⟩)
  | endRun => exact Or.inr (Or.inl ⟨trivial, rfl⟩)
  | clear => exact Or.inr (Or.inl ⟨trivial, rfl⟩)
  | markSaved => exact Or.inr (Or.inr ⟨id, id, j.unmarked_markSaved, rfl, rfl⟩)
  | groupBegin =>
    by_cases outermost : j.grouping.depth = 0
    · refine Or.inr (Or.inl ⟨outermost, ?_⟩)
      simp [serve, groupBegin, Grouping.begin, Grouping.isSealed, outermost]
    · refine Or.inr (Or.inr ⟨id, outermost, rfl, rfl, ?_⟩)
      simp [serve, groupBegin, Grouping.begin, outermost]
  | groupEnd =>
    rw [serve_groupEnd]
    by_cases outermost : j.grouping.depth = 1
    · refine Or.inr (Or.inl ⟨outermost, ?_⟩)
      unfold Grouping.close
      rw [outermost]
      dsimp only
      split <;> rfl
    · refine Or.inr (Or.inr ⟨id, outermost, rfl, rfl, ?_⟩)
      unfold Grouping.close
      split
      · rfl
      · exact absurd ‹_› outermost
      · rfl

end Requests

end Journal

/-! ## What happens to a journal -/

/-- What happens to a journal. -/
inductive Call : Type 1 where
  /-- It is asked for something, on any storage. -/
  | ask {σ : Type} [Storage σ] (request : Request σ)
  /-- It is to take a file over, for a text. -/
  | load (text : Text) (path : Path) (d : Directory)

namespace Call

/-- The call has a change taken in. -/
def Journals (j : Journal) : Call → Prop
  | @ask _ _ request => request.Journals j
  | .load .. => False

/-- The call ends the typing run; a file does that is taken over. -/
def EndsRun (j : Journal) : Call → Prop
  | @ask _ _ request => request.EndsRun j
  | .load text path d => ∃ version k, (j.load text path d).value = .ok (some (version, k))

end Call

namespace Journal

/-- The journal behind a call. -/
def behind (j : Journal) : Call → Journal
  | @Call.ask _ _ request => j.serve request
  | .load text path d => j.loaded text path d

/-- The journal behind a list of calls. -/
def behindAll (j : Journal) (calls : List Call) : Journal := calls.foldl behind j

@[simp] theorem behindAll_nil (j : Journal) : j.behindAll [] = j := rfl

theorem behindAll_append (j : Journal) (first second : List Call) :
    j.behindAll (first ++ second) = (j.behindAll first).behindAll second :=
  List.foldl_append

theorem behindAll_concat (j : Journal) (calls : List Call) (call : Call) :
    j.behindAll (calls ++ [call]) = (j.behindAll calls).behind call :=
  j.behindAll_append calls [call]

theorem Reachable.behind {j : Journal} (h : j.Reachable) (call : Call) :
    (j.behind call).Reachable := by
  cases call with
  | ask request => exact .serve request h
  | load text path d => exact .load text path d h

theorem Reachable.behindAll {j : Journal} (h : j.Reachable) (calls : List Call) :
    (j.behindAll calls).Reachable := by
  induction calls generalizing j with
  | nil => exact h
  | cons call rest ih => exact ih (h.behind call)

/-- **Every journal that comes about has a history.** -/
theorem Reachable.exists_history {j : Journal} (h : j.Reachable) :
    ∃ config refusals calls, j = (Journal.create config refusals).value.behindAll calls := by
  induction h with
  | create config refusals => exact ⟨config, refusals, [], rfl⟩
  | @serve σ _ j request before ih =>
    obtain ⟨config, refusals, calls, rfl⟩ := ih
    refine ⟨config, refusals, calls ++ [.ask request], ?_⟩
    rw [behindAll_concat]
    rfl
  | load text path d before ih =>
    obtain ⟨config, refusals, calls, rfl⟩ := ih
    refine ⟨config, refusals, calls ++ [.load text path d], ?_⟩
    rw [behindAll_concat]
    rfl

/-- No call has a change taken in, and none ends the run. -/
def Undisturbed (j : Journal) : List Call → Prop
  | [] => True
  | call :: rest => ¬ call.Journals j ∧ ¬ call.EndsRun j ∧ (j.behind call).Undisturbed rest

theorem undisturbed_append {j : Journal} {first second : List Call} :
    j.Undisturbed (first ++ second) ↔
      j.Undisturbed first ∧ (j.behindAll first).Undisturbed second := by
  induction first generalizing j with
  | nil => simp [Undisturbed]
  | cons call rest ih =>
    simp only [List.cons_append, Undisturbed, ih, and_assoc]
    rfl

/-- **What a call does to the run.** -/
theorem behind_journals_or_endsRun_or_rests {j : Journal} (idle : j.replaying = false)
    (call : Call) :
    call.Journals j ∨ (call.EndsRun j ∧ (j.behind call).grouping.isSealed = true) ∨
    (¬ call.Journals j ∧ ¬ call.EndsRun j ∧ j.Rests (j.behind call)) := by
  cases call with
  | ask request => exact serve_journals_or_endsRun_or_rests idle request
  | load text path d =>
    by_cases accepted : Call.EndsRun j (.load text path d)
    · refine Or.inr (Or.inl ⟨accepted, ?_⟩)
      obtain ⟨version, k, accepted⟩ := accepted
      obtain ⟨file, entries, -, -, -, rfl⟩ := load_eq_ok_some_iff.mp accepted
      have taken : j.behind (.load text path d) = _ := loaded_of_accepted accepted
      rw [taken, value_restore]
      rfl
    · have same : j.behind (.load text path d) = j :=
        (j.loaded_cases text path d).resolve_right fun ⟨version, taken⟩ =>
          accepted ⟨version, _, taken⟩
      rw [same]
      exact Or.inr (Or.inr ⟨id, accepted, .refl j⟩)

/-- **An open run goes back to a change, behind which nothing ended it.** -/
theorem exists_change_of_unsealed {start : Journal} (reachable : start.Reachable)
    (sealed : start.grouping.isSealed = true) {calls : List Call}
    (unsealed : (start.behindAll calls).grouping.isSealed = false) :
    ∃ before change since, calls = before ++ change :: since ∧
      change.Journals (start.behindAll before) ∧
      (start.behindAll (before ++ [change])).Undisturbed since ∧
      (start.behindAll (before ++ [change])).Rests (start.behindAll calls) := by
  induction calls using List.reverseRecOn with
  | nil => simp [sealed] at unsealed
  | append_singleton calls call ih =>
    have idle := (reachable.behindAll calls).sound.idle
    rw [behindAll_concat] at unsealed
    rcases behind_journals_or_endsRun_or_rests idle call with
      journals | ⟨-, sealed'⟩ | ⟨quiet, open_still, rests⟩
    · exact ⟨calls, call, [], rfl, journals, trivial, .refl _⟩
    · simp [sealed'] at unsealed
    · rw [rests.isSealed] at unsealed
      obtain ⟨before, change, since, rfl, journals, undisturbed, rests'⟩ := ih unsealed
      have between : (start.behindAll (before ++ [change])).behindAll since =
          start.behindAll (before ++ change :: since) := by
        rw [← behindAll_append, List.append_assoc]
        rfl
      refine ⟨before, change, since ++ [call], by simp, journals, ?_, ?_⟩
      · rw [undisturbed_append, between]
        exact ⟨undisturbed, quiet, open_still, trivial⟩
      · rw [start.behindAll_concat (before ++ change :: since)]
        exact rests'.trans rests

/-- A call that has a change taken in leaves an entry of its own, or one that it added
to, as the last one. -/
theorem getLast?_of_journals {j : Journal} (sound : j.Sound) {call : Call}
    (journals : call.Journals j) :
    ∃ last, (j.behind call).entries.getLast? = some last ∧ last.version = j.nextVersion ∧
      (j.behind call).position = (j.behind call).entries.length := by
  cases call with
  | load text path d => exact journals.elim
  | @ask σ _ request =>
    cases request with
    | record kind place text now =>
      obtain ⟨status, member, k, hv⟩ := journals
      rcases j.serve_record_cases σ kind place text now with
        ⟨-, idles⟩ | ⟨status', -, -, nonempty, takes⟩
      · rcases idles status k hv with rfl | rfl <;> simp at member
      · obtain ⟨p, d, last, leaves⟩ := takes.leaves_of_nonempty nonempty
        refine ⟨last, ?_, leaves.version, leaves.position sound.position_le⟩
        show (j.serve (.record kind place text now : Request σ)).entries.getLast? = some last
        rw [leaves.entries, List.getLast?_concat]
    | _ => exact journals.elim

/-- In a history, a change made the entry `tail`, or was added to it; and behind it no
other one was taken in, and nothing ended the run. -/
structure LastChange (start : Journal) (before : List Call) (change : Call) (since : List Call)
    (tail : Entry) : Prop where
  journals : change.Journals (start.behindAll before)
  /-- But for the mark of a save, the entry is the last one behind the change. -/
  made : (start.behindAll (before ++ [change])).unmarked.getLast? = some tail.unmarked
  version : tail.version = (start.behindAll before).nextVersion
  /-- No entry had that version before. -/
  new : ∀ entry ∈ (start.behindAll before).entries, entry.version < tail.version
  undisturbed : (start.behindAll (before ++ [change])).Undisturbed since

/-- **The entry before the position of an open run is that of the last change.** -/
theorem exists_lastChange {start : Journal} (reachable : start.Reachable)
    (sealed : start.grouping.isSealed = true) {calls : List Call}
    (unsealed : (start.behindAll calls).grouping.isSealed = false) {tail : Entry}
    (at_tail : (start.behindAll calls).entries[(start.behindAll calls).position - 1]? =
      some tail) :
    ∃ before change since, calls = before ++ change :: since ∧
      start.LastChange before change since tail := by
  obtain ⟨before, change, since, rfl, journals, undisturbed, rests⟩ :=
    exists_change_of_unsealed reachable sealed unsealed
  have old := reachable.behindAll before
  obtain ⟨last, at_last, version, position⟩ := getLast?_of_journals old.sound journals
  rw [← behindAll_concat] at at_last position
  have same : last.unmarked = tail.unmarked := by
    have marked := congrArg (Option.map Entry.unmarked) at_tail
    rw [← List.getElem?_map, ← unmarked, rests.entries, rests.position, position, unmarked,
      List.getElem?_map, ← List.getLast?_eq_getElem?, at_last] at marked
    exact Option.some.inj marked
  have tail_version : tail.version = (start.behindAll before).nextVersion := by
    rw [← version, ← tail.unmarked_version, ← same, last.unmarked_version]
  refine ⟨before, change, since, rfl, journals, ?_, tail_version, ?_, undisturbed⟩
  · rw [Journal.unmarked, List.getLast?_map, at_last, Option.map_some, same]
  · rw [tail_version]
    exact old.version_lt

end Journal

/-- Typing that a run is open behind: a second run, a save, a change of nothing, a step
that does not move, and a file that is not there. -/
def savedTyping : List Call :=
  [.ask (.record .insert ⟨0, 0⟩ ['a'] 0 : Request Text), .ask (.endRun : Request Text),
    .ask (.record .insert ⟨0, 1⟩ ['b'] 1 : Request Text), .ask (.markSaved : Request Text),
    .ask (.record .insert ⟨0, 0⟩ [] 2 : Request Text), .ask (.step .redo ['a', 'b']),
    .load ['a', 'b'] [['j']] {}]

end EditJournal
