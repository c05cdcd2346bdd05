/-
EditJournal.Proofs.OpenRun — what is remembered of the last change is what the last
entry says.

The grouping state keeps the time, the kind and the end of the last change as long as
the typing run is open. The last entry has all three as well.

* `Journal.Mirrors j last` — the position is at the end, and the last entry says of its
  newest change what `last` says.
* `Journal.RunMirrored` — so it is with whatever is remembered.
* `Call.KeepsApart`, `Journal.LoadsApart` — no file is taken over that has an entry with
  the number of the group that is open then.

`open_run_mirrors_last_entry` is the main result, for journals behind any calls. Hence
where something can be redone the run is over, and a change is merged there only into
an entry that has the number of the open group. A journal makes none there itself, but
a file can bring one along, which undo then reaches (`restoredGroup_is_joined_behind_undo`).

## How the proof goes

A change that is taken in is remembered, and it starts the last entry or joins it. If
it joins by coalescing, the joined change ends where the new one does: a walk over two
insertions one behind the other is the walk over both (`Splice.cursorAfter_join`). All
else that leaves the run open leaves position and entries, but for marks of saves.
-/
import EditJournal.Proofs.OpenGroup
import EditJournal.Proofs.TypingRuns

namespace EditJournal

/-! ## The newest change -/

theorem Entry.getLast?_edits (e : Entry) : e.edits.getLast? = some e.last := by
  rw [Entry.edits, Entry.last, List.getLast?_cons, List.getLastD_eq_getLast?]

theorem Entry.last_eq_of_edits {e : Entry} {front : List Edit} {edit : Edit}
    (h : e.edits = front ++ [edit]) : e.last = edit := by
  have newest := e.getLast?_edits
  rw [h, List.getLast?_concat] at newest
  exact (Option.some.inj newest).symm

theorem Splice.kind_join (how : Splice) (e : Edit) (place : Location) (text : Text) :
    (how.join e place text).kind = e.kind := by
  cases how <;> rfl

/-- A joined change ends where the change does that joined it. -/
theorem Splice.cursorAfter_join {how : Splice} {only edit : Edit}
    (same : only.kind = edit.kind) (fits : how.Fits only edit.kind edit.place edit.payload) :
    (how.join only edit.place edit.payload).cursorAfter .redo = edit.cursorAfter .redo := by
  cases how with
  | append =>
    obtain ⟨insertion, behind⟩ := fits
    simp [Edit.cursorAfter, Edit.finish, Splice.join, same, insertion, behind,
      Location.advance_append]
  | backspace =>
    obtain ⟨deletion, -⟩ := fits
    simp [Edit.cursorAfter, Splice.join, same, deletion]
  | forwardDelete =>
    obtain ⟨deletion, here⟩ := fits
    simp [Edit.cursorAfter, Splice.join, same, deletion, here]

/-- Of the entry that a change joined, the newest change has its kind and its end. -/
theorem Entry.JoinedBy.last {tail changed : Entry} {edit : Edit} {now : Nat}
    (h : tail.JoinedBy edit now changed) :
    changed.last.kind = edit.kind ∧
      changed.last.cursorAfter .redo = edit.cursorAfter .redo := by
  rcases h.edits with pushed | ⟨only, how, -, same, fits, spliced⟩
  · rw [Entry.last_eq_of_edits pushed]
    exact ⟨rfl, rfl⟩
  · rw [Entry.last_eq_of_edits (show changed.edits = [] ++ [_] from spliced)]
    exact ⟨(how.kind_join _ _ _).trans same, Splice.cursorAfter_join same fits⟩

namespace Journal

/-! ## The last change and the last entry -/

/-- The position is at the end, and the last entry says of its newest change what is
remembered. -/
structure Mirrors (j : Journal) (last : LastEdit) : Prop where
  atEnd : j.position = j.entries.length
  tail : ∃ tail, j.entries.getLast? = some tail ∧ last.time = tail.timestamp ∧
    last.kind = tail.last.kind ∧ last.stop = tail.last.cursorAfter .redo

/-- Whatever is remembered as the last change, the last entry says so too. -/
def RunMirrored (j : Journal) : Prop := ∀ last, j.grouping.last = some last → j.Mirrors last

section Mirrored

variable {j k : Journal} {edit : Edit} {now : Nat} {status : RecordStatus}

theorem runMirrored_of_sealed (sealed : j.grouping.isSealed = true) : j.RunMirrored := by
  intro last remembered
  simp [Grouping.isSealed, remembered] at sealed

/-- A change that is taken in is remembered. -/
theorem Takes.last_eq (takes : j.Takes edit now status k) (nonempty : edit.payload ≠ []) :
    k.grouping.last = some ⟨now, edit.kind, edit.cursorAfter .redo⟩ := by
  cases takes with
  | nothing empty => exact absurd empty nonempty
  | joined => rfl
  | started => rfl

/-- **The last entry is that of the change that was taken in.** -/
theorem Takes.runMirrored (takes : j.Takes edit now status k) (sound : j.Sound)
    (nonempty : edit.payload ≠ []) : k.RunMirrored := by
  intro last remembered
  obtain rfl : _ = last := Option.some.inj ((takes.last_eq nonempty).symm.trans remembered)
  obtain ⟨p, d, entry, leaves⟩ := takes.leaves_of_nonempty nonempty
  refine ⟨leaves.position sound.position_le, ?_⟩
  have extended := takes.extended sound nonempty
  generalize k.entries = entries at extended
  cases extended with
  | joined older tail changed front joined version =>
    obtain ⟨kind, stop⟩ := joined.last
    exact ⟨changed, List.getLast?_concat, joined.timestamp.symm, kind.symm, stop.symm⟩
  | started _ evicted kept entry front count known new =>
    exact ⟨entry, List.getLast?_concat, by rw [new], by rw [new]; rfl, by rw [new]; rfl⟩

/-- What leaves the run and the entries as they are, but for marks of saves. -/
theorem RunMirrored.rests (h : j.RunMirrored) (rests : j.Rests k) : k.RunMirrored := by
  intro last remembered
  rw [rests.last] at remembered
  obtain ⟨atEnd, tail, at_tail, time, kind, stop⟩ := h last remembered
  have length : k.entries.length = j.entries.length := by
    simpa [unmarked] using congrArg List.length rests.entries
  refine ⟨by rw [rests.position, atEnd, length], ?_⟩
  have marked : k.unmarked.getLast? = some tail.unmarked := by
    rw [rests.entries, unmarked, List.getLast?_map, at_tail, Option.map_some]
  rw [unmarked, List.getLast?_map] at marked
  obtain ⟨tail', at_tail', same⟩ := Option.map_eq_some_iff.mp marked
  have timestamp : tail.unmarked.timestamp = tail'.unmarked.timestamp := by rw [same]
  have newest : tail.unmarked.last = tail'.unmarked.last := by rw [same]
  exact ⟨tail', at_tail', time.trans timestamp, kind.trans (congrArg Edit.kind newest),
    stop.trans (congrArg (Edit.cursorAfter · .redo) newest)⟩

/-- **No call breaks the mirror.** -/
theorem RunMirrored.behind (h : j.RunMirrored) (sound : j.Sound) (call : Call) :
    (j.behind call).RunMirrored := by
  rcases behind_journals_or_endsRun_or_rests sound.idle call with
    journals | ⟨-, sealed⟩ | ⟨-, -, rests⟩
  · cases call with
    | load text path d => exact journals.elim
    | @ask σ _ request =>
      cases request with
      | record kind place text now =>
        rcases j.serve_record_cases σ kind place text now with
          ⟨same, -⟩ | ⟨status, -, -, nonempty, takes⟩
        · rw [Journal.behind, same]
          exact h
        · exact takes.runMirrored sound nonempty
      | _ => exact journals.elim
  · exact runMirrored_of_sealed sealed
  · exact h.rests rests

theorem sealed_create (config : Config) (refusals : List Bool) :
    (Journal.create config refusals).value.grouping.isSealed = true := by
  obtain ⟨capacity, rest, -, new⟩ := value_create config refusals
  rw [new]
  rfl

/-- **So no calls do.** -/
theorem runMirrored_behindAll (config : Config) (refusals : List Bool) (calls : List Call) :
    ((Journal.create config refusals).value.behindAll calls).RunMirrored := by
  induction calls using List.reverseRecOn with
  | nil => exact runMirrored_of_sealed (sealed_create config refusals)
  | append_singleton calls call ih =>
    have reachable : (Journal.create config refusals).value.Reachable :=
      .create config refusals
    rw [behindAll_concat]
    exact ih.behind (reachable.behindAll calls).sound call

/-- **Where something can be redone, the run is over.** -/
theorem RunMirrored.sealed_of_canRedo (h : j.RunMirrored) (redo : j.canRedo = true) :
    j.grouping.isSealed = true := by
  have before : j.position < j.entries.length := of_decide_eq_true redo
  cases remembered : j.grouping.last with
  | none => simp [Grouping.isSealed, remembered]
  | some last => exact absurd (h last remembered).atEnd (Nat.ne_of_lt before)

end Mirrored

/-! ## Changes behind undo -/

section Apart

variable {j k : Journal} {edit : Edit} {now : Nat} {status : RecordStatus}

/-- Behind the end of a run, a change is merged exactly into an entry with the number of
the open group. -/
theorem Takes.merged_iff_of_sealed (takes : j.Takes edit now status k)
    (nonempty : edit.payload ≠ []) (sealed : j.grouping.isSealed = true) :
    status = .merged ↔ ∃ id tail, j.grouping.current = some id ∧
      j.truncated.entries.getLast? = some tail ∧ tail.group = some id := by
  constructor
  · intro merged
    obtain ⟨tail, changed, last, joins, -⟩ := takes.joined_of_merged merged
    cases joins with
    | group id isOpen member => exact ⟨id, tail, isOpen, last, member⟩
    | run how loose small unsealed plan =>
      have unsealed : j.grouping.isSealed = false := unsealed
      simp [sealed] at unsealed
  · rintro ⟨id, tail, isOpen, last, member⟩
    cases takes with
    | nothing empty => exact absurd empty nonempty
    | joined => rfl
    | started group mergeable _ starts =>
      have joins : j.truncated.Joins edit now tail { tail.push edit with timestamp := now } :=
        .group id isOpen member
      exact absurd starts (joins.not_starts last)

/-- A request on any storage keeps entries of the open group at the end. -/
theorem OpenLast.serve {σ : Type} [Storage σ] (h : j.OpenLast) (sound : j.Sound)
    (request : Request σ) : (j.serve request).OpenLast := by
  cases request with
  | record kind place text now =>
    rcases j.serve_record_cases σ kind place text now with ⟨same, -⟩ | ⟨status, -, -, -, takes⟩
    · rw [same]
      exact h
    · exact takes.openLast h
  | step direction storage =>
    rcases j.serve_step_cases direction storage with same | idle | ⟨index, entry, -, moved⟩
    · rw [same]
      exact h
    · rw [idle]
      exact h
    · rw [moved]
      exact h
  | endRun => exact Moves.endRun.openLast sound h
  | groupBegin => exact Moves.groupBegin.openLast sound h
  | groupEnd =>
    rw [serve_groupEnd]
    exact Moves.groupEnd.openLast sound h
  | markSaved => exact Moves.markSaved.openLast sound h
  | clear => exact Moves.clear.openLast sound h

end Apart

end Journal

/-- Is a file to be taken over? -/
def Call.isLoad : Call → Bool
  | @ask _ _ _ => false
  | .load .. => true

/-- The call takes no history over that has an entry with the number of the open group. -/
def Call.KeepsApart (j : Journal) : Call → Prop
  | @ask _ _ _ => True
  | .load text path d => ∀ version k, (j.load text path d).value = .ok (some (version, k)) →
    ∀ id, j.grouping.current = some id → ∀ e ∈ k.entries, e.group ≠ some id

namespace Journal

/-- No call takes such a history over. -/
def LoadsApart (j : Journal) : List Call → Prop
  | [] => True
  | call :: rest => call.KeepsApart j ∧ (j.behind call).LoadsApart rest

section Apart

variable {j : Journal}

/-- Where there are no files, none has such an entry. -/
theorem loadsApart_of_requests {calls : List Call}
    (own : ∀ call ∈ calls, call.isLoad = false) :
    j.LoadsApart calls := by
  induction calls generalizing j with
  | nil => trivial
  | cons call rest ih =>
    rw [List.forall_mem_cons] at own
    refine ⟨?_, ih own.2⟩
    cases call with
    | ask request => trivial
    | load text path d => simp [Call.isLoad] at own

theorem OpenLast.behind (h : j.OpenLast) (sound : j.Sound) {call : Call}
    (apart : call.KeepsApart j) : (j.behind call).OpenLast := by
  cases call with
  | ask request => exact h.serve sound request
  | load text path d =>
    rcases j.loaded_cases text path d with same | ⟨version, accepted⟩
    · rw [Journal.behind, same]
      exact h
    · obtain ⟨file, entries, -, -, -, taken⟩ := load_eq_ok_some_iff.mp accepted
      intro id isOpen e member
      have isOpen : j.grouping.current = some id := by
        rw [Journal.behind, taken, value_restore] at isOpen
        exact isOpen
      exact apart version _ accepted id isOpen e (List.dropLast_subset _ member)

theorem OpenLast.behindAll (h : j.OpenLast) (reachable : j.Reachable) {calls : List Call}
    (apart : j.LoadsApart calls) : (j.behindAll calls).OpenLast := by
  induction calls generalizing j with
  | nil => exact h
  | cons call rest ih =>
    exact ih (h.behind reachable.sound apart.1) (reachable.behind call) apart.2

/-- Where something can be redone, the entry before the position is not the last one. -/
theorem OpenLast.group_ne (h : j.OpenLast) (redo : j.canRedo = true) {id : Nat}
    (isOpen : j.grouping.current = some id) {tail : Entry}
    (last : j.truncated.entries.getLast? = some tail) : tail.group ≠ some id := by
  have before : j.position < j.entries.length := of_decide_eq_true redo
  refine h id isOpen tail ?_
  have member := List.mem_of_getLast? last
  rw [truncated_entries] at member
  rw [List.dropLast_eq_take]
  exact List.take_subset_take_left _ (by omega) member

end Apart

end Journal

/-- **While the run is open, what is remembered of the last change is what the last entry
says**, behind any calls: the position is at the end, and time, kind and end are those
of the newest change of the last entry. Hence where something can be redone the run is
over, and a change is merged exactly where a group is open and the entry before the
position has its number; it never is if no file with such an entry was taken over. -/
theorem open_run_mirrors_last_entry (config : Config) (refusals : List Bool)
    (calls : List Call) :
    let start := (Journal.create config refusals).value
    let j := start.behindAll calls
    (j.grouping.isSealed = false → 1 ≤ j.entries.length ∧ j.position = j.entries.length ∧
      ∃ last tail, j.grouping.last = some last ∧ j.entries.getLast? = some tail ∧
        last.time = tail.timestamp ∧ last.kind = tail.last.kind ∧
        last.stop = tail.last.cursorAfter .redo) ∧
    (j.canRedo = true → j.grouping.isSealed = true) ∧
    (j.canRedo = true → ∀ kind ≠ .replace, ∀ place text, text ≠ [] → ∀ now,
      ((∃ k, (j.record kind place text now).value = .ok (.merged, k)) ↔
        ∃ id tail, j.grouping.current = some id ∧ 0 < j.position ∧
          j.entries[j.position - 1]? = some tail ∧ tail.group = some id)) ∧
    (j.canRedo = true → start.LoadsApart calls →
      ∀ kind place text now k, (j.record kind place text now).value ≠ .ok (.merged, k)) := by
  intro start j
  have created : start.Reachable := .create config refusals
  have sound : j.Sound := (created.behindAll calls).sound
  have mirrored : j.RunMirrored := Journal.runMirrored_behindAll config refusals calls
  have openLast : start.LoadsApart calls → j.OpenLast := fun apart => by
    refine Journal.OpenLast.behindAll (Journal.openLast_of_closed ?_) created apart
    obtain ⟨capacity, rest, -, new⟩ := Journal.value_create config refusals
    show start.grouping.current = none
    rw [show start = _ from new]
  refine ⟨fun unsealed => ?_, mirrored.sealed_of_canRedo, ?_, ?_⟩
  · cases remembered : j.grouping.last with
    | none => simp [Grouping.isSealed, remembered] at unsealed
    | some last =>
      obtain ⟨atEnd, tail, at_tail, same⟩ := mirrored last remembered
      have some_entry := List.length_pos_of_mem (List.mem_of_getLast? at_tail)
      exact ⟨some_entry, atEnd, last, tail, rfl, at_tail, same⟩
  · intro redo kind plain place text nonempty now
    obtain ⟨status, k, recorded⟩ := Journal.exists_record_eq_ok sound.idle plain place text now
    have takes := (Journal.record_eq_ok_iff sound.idle plain).mp recorded
    have merged_iff : (∃ k, (j.record kind place text now).value = .ok (.merged, k)) ↔
        status = .merged := by
      simp [recorded]
    rw [merged_iff, takes.merged_iff_of_sealed nonempty (mirrored.sealed_of_canRedo redo),
      Journal.getLast?_truncated sound.position_le]
    by_cases some_before : 0 < j.position
    · simp [some_before]
    · simp [some_before]
  · intro redo apart kind place text now k recorded
    rcases j.serve_record_cases Text kind place text now with
      ⟨-, idles⟩ | ⟨status, served, -, nonempty, takes⟩
    · rcases idles _ _ recorded with merged | merged <;> simp at merged
    · obtain rfl : status = .merged := by
        rw [recorded] at served
        exact (congrArg Prod.fst (Except.ok.inj served)).symm
      obtain ⟨id, tail, isOpen, last, member⟩ :=
        (takes.merged_iff_of_sealed nonempty (mirrored.sealed_of_canRedo redo)).mp rfl
      exact (openLast apart).group_ne redo isOpen last member

/-- Typing over a line feed behind the entry of a group. -/
def typedOverLines : List Call :=
  [.ask (.groupBegin : Request Text), .ask (.record .insert ⟨0, 0⟩ ['a'] 1 : Request Text),
    .ask (.groupEnd : Request Text),
    .ask (.record .insert ⟨0, 1⟩ ['é', '\n'] 2 : Request Text),
    .ask (.record .insert ⟨1, 0⟩ ['b'] 3 : Request Text)]

/-- That is undone, and a group opened. -/
def undoneOverLines : List Call :=
  typedOverLines ++
    [.ask (.step .undo (['a', 'é', '\n', 'b'] : Text)), .ask (.groupBegin : Request Text)]

/-- The run ends where its entry does, on the second line. Behind undo it is over, and in
the new group no change is merged. -/
theorem typedOverLines_mirror_last_entry :
    (∃ last tail,
      ((Journal.create {}).value.behindAll typedOverLines).grouping.last = some last ∧
      ((Journal.create {}).value.behindAll typedOverLines).entries.getLast? = some tail ∧
      last.time = tail.timestamp ∧ last.stop = tail.last.cursorAfter .redo ∧
      last.stop = ⟨1, 1⟩) ∧
    ((Journal.create {}).value.behindAll undoneOverLines).grouping.isSealed = true ∧
    ∀ kind place text now k,
      (((Journal.create {}).value.behindAll undoneOverLines).record kind place text
        now).value ≠ .ok (.merged, k) := by
  obtain ⟨mirror, -⟩ := open_run_mirrors_last_entry {} [] typedOverLines
  obtain ⟨-, sealed, -, unmerged⟩ := open_run_mirrors_last_entry {} [] undoneOverLines
  obtain ⟨-, -, last, tail, remembered, at_tail, time, -, stop⟩ := mirror (by decide +kernel)
  have ends : ((Journal.create {}).value.behindAll typedOverLines).grouping.last =
      some ⟨3, .insert, ⟨1, 1⟩⟩ := by decide +kernel
  have redo : ((Journal.create {}).value.behindAll undoneOverLines).canRedo = true := by
    decide +kernel
  have own : ∀ call ∈ undoneOverLines, call.isLoad = false := by
    simp [undoneOverLines, typedOverLines, Call.isLoad]
  refine ⟨⟨last, tail, remembered, at_tail, time, stop, ?_⟩, sealed redo, ?_⟩
  · rw [Option.some.inj (remembered.symm.trans ends)]
  · exact unmerged redo (Journal.loadsApart_of_requests own)

/-- A file on the text `ab`: `a` is of group 1, `b` of none. -/
def groupBehindTyping : JournalFile :=
  { savedAt := 0, digest := Text.digest ['a', 'b'], length := 2, position := 2,
    baseVersion := 0
    nextVersion := 3, savedVersion := 0
    entries :=
      [{ version := 1, timestamp := 0, group := some 1, savePoint := false, mergeable := true
         edits := [⟨.insert, ⟨0, 0⟩, ['a'], none⟩] },
        { version := 2, timestamp := 0, group := none, savePoint := false, mergeable := true
          edits := [⟨.insert, ⟨0, 1⟩, ['b'], none⟩] }] }

theorem Journal.behindAll_restored (start : Journal) (text : Text) (path : Path)
    (d : Directory) :
    start.behindAll [.ask (.groupBegin : Request Text), .load text path d,
      .ask (.step .undo text)] =
      ((start.serve (.groupBegin : Request Text)).loaded text path d).serve
        (.step .undo text) := rfl

/-- It is taken over while group 1 of a new journal is open, and `b` is undone. The run is
over; but the next change joins `a`, which has the number of the open group. -/
theorem restoredGroup_is_joined_behind_undo :
    let calls : List Call :=
      [.ask (.groupBegin : Request Text), .load ['a', 'b'] [['j']] groupBehindTyping.onDisk,
        .ask (.step .undo (['a', 'b'] : Text))]
    let j := (Journal.create {}).value.behindAll calls
    ∃ k, j.canRedo = true ∧ j.grouping.isSealed = true ∧
      (j.record .insert ⟨0, 1⟩ ['c'] 0).value = .ok (.merged, k) ∧
      k.entries.map (fun e => (e.edits, e.version)) =
        [([⟨.insert, ⟨0, 0⟩, ['a'], none⟩, ⟨.insert, ⟨0, 1⟩, ['c'], none⟩], 3)] := by
  intro calls j
  let opened := (Journal.create {}).value.serve (.groupBegin : Request Text)
  have found := JournalFile.load_onDisk (f := groupBehindTyping) (by decide) (by decide)
  have suits : groupBehindTyping.Suits ['a', 'b'] _ := ⟨rfl, rfl, rfl, rfl⟩
  have taken := Journal.loaded_of_accepted (opened.load_of_suits found suits)
  have behind : j = _ := Journal.behindAll_restored _ _ _ _
  rw [taken] at behind
  have undone : j =
      { entries :=
          [{ first := ⟨.insert, ⟨0, 0⟩, ['a'], none⟩, timestamp := 0, group := some 1,
             version := 1 },
           { first := ⟨.insert, ⟨0, 1⟩, ['b'], none⟩, timestamp := 0, version := 2 }]
        position := 1, capacity := 128, config := {}, totalBytes := 226, baseVersion := 0
        nextVersion := 3, grouping := { depth := 1, current := some 1, newest := 1 } } :=
    behind.trans (by decide +kernel)
  clear_value j
  subst undone
  exact ⟨_, rfl, rfl, rfl, rfl⟩

end EditJournal
