/-
EditJournal.Proofs.Cursors — where a step in the history leaves the cursor.

The cursor is worked out from what the journal holds; it is not looked up in the text.

* `Entry.lastReplayed entry step` — the change that a step replays last: the first one of
  the entry to undo it, the last one to redo it.
* `Edit.putIn e step` — how many bytes a step puts in for a change.
* `Edit.Holds e step t cursor` — in the text `t` the change and the cursor are resolved,
  the cursor as many bytes behind the change as the step put in for it.
* `Journal.CursorAt j direction t cursor` — so it is for the change that a step into the
  direction replayed last to come here.

`step_cursor_is_resolved` is the main result, for every journal and every text, also one
that the journal was not made on, and for every command, also one that failed on the way.

## How the proof goes

Whatever is replayed before, the change that comes last leads to the text behind the step
(`Entry.lastReplayed_leads`). There the part in front of its place stands unchanged, so
that the cursor is where a walk over this part and the payload ends
(`Text.Inserted.byteIndex_eq`). A step that fails leaves text and position, so that what
holds of the last cursor goes on to hold (`Buffer.takeSteps_placed`).
-/
import EditJournal.Proofs.Addresses
import EditJournal.Proofs.Operations

namespace EditJournal

/-! ## One change -/

/-- The place of an insertion is resolved to the same byte before and behind it, and the
place behind the payload to the byte behind it. -/
theorem Text.Inserted.byteIndex_eq {place : Location} {new s t : Text}
    (h : Text.Inserted place new s t) :
    ∃ byte, s.byteIndex place = .ok byte ∧ t.byteIndex place = .ok byte ∧
      t.byteIndex (place.advance new) = .ok (byte + new.byteLength) := by
  obtain ⟨before, after, rfl, rfl, rfl⟩ := h
  refine ⟨before.byteLength, ?_, ?_, ?_⟩
  · exact (Text.byteIndex_eq_ok_iff _ _ _).mpr ⟨before, after, rfl, rfl, rfl⟩
  · exact (Text.byteIndex_eq_ok_iff _ _ _).mpr ⟨before, new ++ after, by simp, rfl, rfl⟩
  · rw [← Location.advance_append]
    exact (Text.byteIndex_eq_ok_iff _ _ _).mpr ⟨before ++ new, after, rfl, rfl, by simp⟩

namespace Edit

/-- How many bytes a step puts in for the change: its payload, or none where the step
takes that out. -/
def putIn (e : Edit) : HistoryStep → Nat
  | .undo => if e.kind = .delete then e.payload.byteLength else 0
  | .redo => if e.kind = .insert then e.payload.byteLength else 0

/-- The place of the change is resolved in the text, and the cursor as many bytes behind
it as the step put in. -/
def Holds (e : Edit) (step : HistoryStep) (t : Text) (cursor : Location) : Prop :=
  ∃ byte, t.byteIndex e.place = .ok byte ∧ t.byteIndex cursor = .ok (byte + e.putIn step)

/-- Where a change is made or unmade, the cursor goes to it. -/
theorem holds_of_leads {e : Edit} {step : HistoryStep} {s t : Text}
    (leads : step.along e.Leads s t) : e.Holds step t (e.cursorAfter step) := by
  cases step with
  | redo =>
    cases kind : e.kind with
    | insert =>
      have inserted : Text.Inserted e.place e.payload s t := by simpa [Leads, kind] using leads
      obtain ⟨byte, -, place, behind⟩ := inserted.byteIndex_eq
      exact ⟨byte, place, by simpa [cursorAfter, putIn, kind, finish] using behind⟩
    | delete =>
      have inserted : Text.Inserted e.place e.payload t s := by simpa [Leads, kind] using leads
      obtain ⟨byte, place, -, -⟩ := inserted.byteIndex_eq
      exact ⟨byte, place, by simpa [cursorAfter, putIn, kind] using place⟩
    | replace => simp [Leads, kind] at leads
  | undo =>
    cases kind : e.kind with
    | insert =>
      have inserted : Text.Inserted e.place e.payload t s := by simpa [Leads, kind] using leads
      obtain ⟨byte, place, -, -⟩ := inserted.byteIndex_eq
      exact ⟨byte, place, by simpa [cursorAfter, putIn, kind] using place⟩
    | delete =>
      have inserted : Text.Inserted e.place e.payload s t := by simpa [Leads, kind] using leads
      obtain ⟨byte, -, place, behind⟩ := inserted.byteIndex_eq
      exact ⟨byte, place, by simpa [cursorAfter, putIn, kind, finish] using behind⟩
    | replace => simp [Leads, kind] at leads

end Edit

/-! ## One entry -/

namespace Entry

variable {entry : Entry} {step : HistoryStep} {s t : Text}

/-- The change that a step replays last. -/
def lastReplayed (entry : Entry) : HistoryStep → Edit
  | .undo => entry.first
  | .redo => entry.last

theorem cursorAfter_eq (entry : Entry) (step : HistoryStep) :
    entry.cursorAfter step = (entry.lastReplayed step).cursorAfter step := by
  cases step <;> rfl

theorem edits_eq_append_last (entry : Entry) :
    ∃ front, entry.edits = front ++ [entry.last] := by
  have last : entry.edits.getLast? = some entry.last := by
    simp [edits, Entry.last, List.getLast?_cons, List.getLastD_eq_getLast?]
  exact List.getLast?_eq_some_iff.mp last

/-- The change that is replayed last leads to the text behind the step. -/
theorem lastReplayed_leads (leads : step.along entry.Leads s t) :
    ∃ u, step.along (entry.lastReplayed step).Leads u t := by
  cases step with
  | undo =>
    -- read forward, the changes lead from `t`, and the first one begins there
    obtain ⟨u, first, -⟩ := leads
    exact ⟨u, first⟩
  | redo =>
    obtain ⟨front, edits⟩ := entry.edits_eq_append_last
    have chain : Edit.Chain .redo entry.edits s t := leads
    rw [edits, Edit.chain_append] at chain
    obtain ⟨u, -, v, last, rfl⟩ := chain
    exact ⟨u, last⟩

theorem holds_of_leads (leads : step.along entry.Leads s t) :
    (entry.lastReplayed step).Holds step t (entry.cursorAfter step) := by
  obtain ⟨u, last⟩ := lastReplayed_leads leads
  rw [cursorAfter_eq]
  exact Edit.holds_of_leads last

end Entry

/-! ## One step -/

namespace Journal

variable {j k : Journal} {direction : HistoryStep} {s t : Text} {cursor : Location}

/-- The cursor is at the change that a step into the direction replayed last to come here:
that of the entry which the opposite step has to replay. -/
def CursorAt (j : Journal) (direction : HistoryStep) (t : Text) (cursor : Location) : Prop :=
  ∃ index entry, j.target? direction.opposite = some (index, entry) ∧
    (entry.lastReplayed direction).Holds direction t cursor

theorem CursorAt.resolved (h : j.CursorAt direction t cursor) :
    ∃ byte, t.byteIndex cursor = .ok byte := by
  obtain ⟨index, entry, -, byte, -, resolved⟩ := h
  exact ⟨_, resolved⟩

theorem target?_rested (j : Journal) (direction : HistoryStep) :
    ({ j with replaying := false } : Journal).target? direction = j.target? direction := by
  cases direction <;> rfl

/-- A step that moves leaves the cursor at its target. -/
theorem step_cursor (h : (j.step direction s).value = (.ok (some cursor), k, t)) :
    ∃ index entry, j.target? direction = some (index, entry) ∧
      (entry.lastReplayed direction).Holds direction t cursor := by
  rcases j.step_cases direction s with
    ⟨-, hv⟩ | ⟨index, entry, target, ⟨t', leads, hv⟩ | ⟨error, -, hv⟩⟩
  · simp [hv] at h
  · rw [hv] at h
    simp only [Prod.mk.injEq, Except.ok.injEq, Option.some.injEq] at h
    obtain ⟨rfl, rfl, rfl⟩ := h
    exact ⟨index, entry, target, Entry.holds_of_leads leads⟩
  · simp [hv] at h

end Journal

/-! ## Commands -/

/-- The report has a cursor as soon as a step was taken, and it is at the change that was
replayed last. -/
structure CommandReport.Placed (r : CommandReport) (b : Buffer Text) : Prop where
  cursor_eq_none_iff : r.cursor = none ↔ r.applied = 0
  cursorAt : ∀ cursor, r.cursor = some cursor →
    b.journal.CursorAt r.direction b.contents cursor

/-- **Each step moves the cursor with the text, or both stay.** -/
theorem Buffer.takeSteps_placed {b : Buffer Text} {report : CommandReport}
    (placed : report.Placed b) (count : Nat) :
    (b.takeSteps report count).value.1.direction = report.direction ∧
      (b.takeSteps report count).value.1.Placed (b.takeSteps report count).value.2 := by
  induction count generalizing b report with
  | zero => exact ⟨rfl, placed⟩
  | succ count ih =>
    rcases b.journal.step_cases report.direction b.store with
      ⟨-, hv⟩ | ⟨index, entry, target, ⟨t, leads, hv⟩ | ⟨error, -, hv⟩⟩
    · have stopped : (b.takeSteps report (count + 1)).value =
          ({ report with exhausted := true }, b) := by
        simp [takeSteps, Buffer.step, hv]
      rw [stopped]
      exact ⟨rfl, placed.cursor_eq_none_iff, placed.cursorAt⟩
    · have moved : (b.takeSteps report (count + 1)).value =
          (Buffer.takeSteps
            { b with journal := b.journal.stepped report.direction index, store := t }
            { report with
              applied := report.applied + 1
              cursor := some (entry.cursorAfter report.direction) } count).value := by
        simp [takeSteps, Buffer.step, hv]
      rw [moved]
      refine ih ⟨by simp, ?_⟩
      intro cursor here
      obtain rfl := Option.some.inj here
      exact ⟨index, entry, Journal.target?_stepped target, Entry.holds_of_leads leads⟩
    · have failed : (b.takeSteps report (count + 1)).value =
          ({ report with failure := some error },
            { b with journal := { b.journal with replaying := false } }) := by
        simp [takeSteps, Buffer.step, hv]
      rw [failed]
      refine ⟨rfl, placed.cursor_eq_none_iff, ?_⟩
      intro cursor here
      obtain ⟨index, entry, target, holds⟩ := placed.cursorAt cursor here
      exact ⟨index, entry, (Journal.target?_rested _ _).trans target, holds⟩

/-- The report of a command. -/
theorem Buffer.command_placed (b : Buffer Text) (direction : HistoryStep) (count : Nat)
    (screen : Screen) :
    (b.command direction count screen).value.1.direction = direction ∧
      (b.command direction count screen).value.1.Placed
        (b.command direction count screen).value.2.1 := by
  obtain ⟨depth, depth', screen', hv⟩ := b.value_command direction count screen
  have fresh : CommandReport.Placed { direction, requested := max count 1 } { b with depth } :=
    ⟨by simp, by simp⟩
  obtain ⟨same, placed⟩ := takeSteps_placed fresh (max count 1)
  rw [hv]
  exact ⟨same, placed.cursor_eq_none_iff, placed.cursorAt⟩

/-- **A step that moves leaves the cursor at a place of the text**, of every journal and
on every text: behind an undo it is resolved to the byte of the entry's first change, and
the payload's length further on where that is a deletion; behind a redo to the byte of the
last change, and the payload's length further on where that is an insertion. So the cursor
in the report of a command, which there is exactly if a step was taken, is resolved in the
text that the command leaves, whatever stopped it. -/
theorem step_cursor_is_resolved (direction : HistoryStep) :
    (∀ (j k : Journal) (s t : Text) (cursor : Location),
      (j.step direction s).value = (.ok (some cursor), k, t) →
      ∃ index entry, j.target? direction = some (index, entry) ∧
        ∃ byte, t.byteIndex (entry.lastReplayed direction).place = .ok byte ∧
          t.byteIndex cursor = .ok (byte + (entry.lastReplayed direction).putIn direction)) ∧
    (∀ (b : Buffer Text) (count : Nat) (screen : Screen),
      let report := (b.command direction count screen).value.1
      let behind := (b.command direction count screen).value.2.1
      (report.cursor = none ↔ report.applied = 0) ∧
      ∀ cursor, report.cursor = some cursor →
        behind.journal.CursorAt direction behind.contents cursor ∧
        ∃ byte, behind.contents.byteIndex cursor = .ok byte) := by
  constructor
  · intro j k s t cursor h
    exact Journal.step_cursor h
  · intro b count screen report behind
    obtain ⟨same, placed⟩ := b.command_placed direction count screen
    refine ⟨placed.cursor_eq_none_iff, ?_⟩
    intro cursor here
    have at_change := placed.cursorAt cursor here
    rw [same] at at_change
    exact ⟨at_change, at_change.resolved⟩

/-- A deletion that is not found where `breakAndDelete` leads to. -/
def strayDelete : Entry :=
  { first := ⟨.delete, ⟨1, 0⟩, ['x'], none⟩, timestamp := 1, version := 2 }

/-- On `abc`, of two steps forward the first one is taken: the cursor is behind the line
break, where the deletion stands. The second one fails and leaves it there. Back again the
cursor is in front of the line break. -/
theorem breakAndDelete_cursor_is_resolved :
    let j : Journal :=
      { entries := [breakAndDelete, strayDelete], capacity := 2, config := {} }
    let b : Buffer Text :=
      { name := [], store := ['a', 'b', 'c'], journal := j, savedVersion := 0 }
    let redone := (b.command .redo 2 {}).value
    let undone := ((j.stepped .redo 0).step .undo ['a', 'é', '\n', 'c']).value
    redone.1.cursor = some ⟨1, 0⟩ ∧ redone.1.failure = some (.stateDrift ⟨1, 0⟩ ['x'] ['c']) ∧
      redone.2.1.contents = ['a', 'é', '\n', 'c'] ∧
      (∃ byte, redone.2.1.contents.byteIndex ⟨1, 0⟩ = .ok byte) ∧
      undone = (.ok (some ⟨0, 1⟩), j.stepped .undo 0, ['a', 'b', 'c']) ∧
      ∃ index entry, (j.stepped .redo 0).target? .undo = some (index, entry) ∧
        ∃ byte, Text.byteIndex ['a', 'b', 'c'] entry.first.place = .ok byte ∧
          Text.byteIndex ['a', 'b', 'c'] ⟨0, 1⟩ = .ok (byte + entry.first.putIn .undo) := by
  intro j b redone undone
  have cursor : redone.1.cursor = some ⟨1, 0⟩ := by rfl
  have back : undone = (.ok (some ⟨0, 1⟩), j.stepped .undo 0, ['a', 'b', 'c']) := by rfl
  obtain ⟨-, reported⟩ := (step_cursor_is_resolved .redo).2 b 2 {}
  obtain ⟨-, resolved⟩ := reported ⟨1, 0⟩ cursor
  refine ⟨cursor, by rfl, by rfl, resolved, back, ?_⟩
  exact (step_cursor_is_resolved .undo).1 (j.stepped .redo 0) _ _ _ _ back

end EditJournal
