/-
EditJournal.Proofs.Operations — by which operations the journal of a session
changes.

`Journal.Moves j k` says that one operation leads from `j` to `k`: taking a
change in, a step in the history, a bracket, the end of a typing run, a save, or
clearing. `Session.act_becomes` says that an action is made of these, and
`Session.after_becomes` that a run is; so what each of them keeps, every run keeps
(`Journal.Becomes.invariant`).

The equations on values take the storage out of the way: what comes of an
insertion or a deletion is what comes of recording it.
-/
import Mathlib.Logic.Relation
import EditJournal.Proofs.Runs
import EditJournal.Proofs.Soundness

namespace EditJournal

/-! ## What a buffer does -/

namespace Buffer

variable {b : Buffer Text} {place : Location} {now : Nat}

theorem value_insert_of_ok {text t : Text} {stop : Location}
    (h : b.store.insertAt place text = .ok (stop, t)) :
    (b.insert place text now).value =
      ((Buffer.record { b with store := t } .insert place text now).value.1.map fun _ => stop,
        (Buffer.record { b with store := t } .insert place text now).value.2) := by
  simp [Buffer.insert, Storage.insert, Text.insertTold, h]

theorem value_insert_of_error {text : Text} {cause : TextError}
    (h : b.store.insertAt place text = .error cause) :
    (b.insert place text now).value = (.error (.storage place cause), b) := by
  simp [Buffer.insert, Storage.insert, Text.insertTold, h]

theorem value_delete_of_ok {length : Nat} {removed t : Text}
    (h : b.store.deleteAt place length = .ok (removed, t)) :
    (b.delete place length now).value =
      ((Buffer.record { b with store := t } .delete place removed now).value.1.map
          fun _ => removed,
        (Buffer.record { b with store := t } .delete place removed now).value.2) := by
  simp [Buffer.delete, Storage.delete, Text.deleteTold, h]

theorem value_delete_of_error {length : Nat} {cause : TextError}
    (h : b.store.deleteAt place length = .error cause) :
    (b.delete place length now).value = (.error (.storage place cause), b) := by
  simp [Buffer.delete, Storage.delete, Text.deleteTold, h]

/-- A command takes its steps; the display bracket is no part of them. -/
theorem value_command (b : Buffer Text) (direction : HistoryStep) (count : Nat)
    (screen : Screen) :
    ∃ depth depth' screen', (b.command direction count screen).value =
      let steps := (Buffer.takeSteps { b with depth } { direction, requested := max count 1 }
        (max count 1)).value
      (steps.1, { steps.2 with depth := depth' }, screen') :=
  ⟨_, _, _, rfl⟩

end Buffer

/-! ## Operations -/

namespace Journal

/-- One operation leads from a journal to another one. -/
inductive Moves (j : Journal) : Journal → Prop
  | takes {k : Journal} (edit : Edit) (now : Nat) (status : RecordStatus)
      (plain : edit.kind ≠ .replace) (h : j.Takes edit now status k) : Moves j k
  | step (direction : HistoryStep) (text : Text) : Moves j (j.step direction text).value.2.1
  | endRun : Moves j j.endRun
  | groupBegin : Moves j { j with grouping := j.grouping.begin }
  | groupEnd : Moves j { j with grouping := j.grouping.close.2 }
  | markSaved : Moves j j.markSaved.value.2
  | clear : Moves j j.clear.value

/-- Some operations do, one after the other. -/
abbrev Becomes : Journal → Journal → Prop := Relation.ReflTransGen Moves

/-- What each operation keeps holds behind all of them. -/
theorem Becomes.invariant {P : Journal → Prop} (keeps : ∀ j k, Moves j k → P j → P k)
    {j k : Journal} (h : j.Becomes k) (start : P j) : P k := by
  induction h with
  | refl => exact start
  | tail _ move ih => exact keeps _ _ move ih

/-- No operation breaks a sound journal. -/
theorem Moves.sound {j k : Journal} (move : j.Moves k) (h : j.Sound) : k.Sound := by
  cases move with
  | takes edit now status plain takes => exact takes.sound h plain
  | step direction text => exact h.step direction text
  | endRun => exact h.regroup h.grouping.endRun (Nat.le_refl _)
  | groupBegin => exact h.regroup h.grouping.begin j.grouping.newest_le_begin
  | groupEnd => exact h.regroup h.grouping.close (Nat.le_of_eq j.grouping.newest_close.symm)
  | markSaved => exact h.markSaved
  | clear => exact h.clear

/-- No operation changes the limits of a journal, and what the allocator is
still to answer is only used up. -/
theorem Moves.limits {j k : Journal} (move : j.Moves k) :
    k.config = j.config ∧ ∀ refused ∈ k.refusals, refused ∈ j.refusals := by
  cases move with
  | takes edit now status plain takes =>
    cases takes with
    | nothing empty => exact ⟨rfl, fun _ h => h⟩
    | joined tail changed nonempty last joins => exact ⟨rfl, fun _ h => h⟩
    | started group mergeable nonempty starts =>
      exact ⟨j.truncated.roomMade.config, j.truncated.roomMade.refusals⟩
  | step direction text =>
    rcases j.step_cases direction text with
      ⟨-, hv⟩ | ⟨index, entry, -, ⟨t, -, hv⟩ | ⟨error, -, hv⟩⟩ <;>
      rw [hv] <;> exact ⟨rfl, fun _ h => h⟩
  | endRun => exact ⟨rfl, fun _ h => h⟩
  | groupBegin => exact ⟨rfl, fun _ h => h⟩
  | groupEnd => exact ⟨rfl, fun _ h => h⟩
  | markSaved => exact ⟨rfl, fun _ h => h⟩
  | clear => exact ⟨rfl, fun _ h => h⟩

theorem Becomes.sound {j k : Journal} (h : j.Becomes k) (sound : j.Sound) : k.Sound :=
  h.invariant (fun _ _ => Moves.sound) sound

theorem Becomes.config {j k : Journal} (h : j.Becomes k) : k.config = j.config :=
  h.invariant (P := fun k => k.config = j.config)
    (fun _ _ move hk => move.limits.1.trans hk) rfl

/-- A change that is recorded is taken in, or nothing happens. -/
theorem record_becomes {j k : Journal} {kind : EditKind} {place : Location} {text : Text}
    {now : Nat}
    {status : RecordStatus} (hv : (j.record kind place text now).value = .ok (status, k)) :
    j.Becomes k := by
  cases idle : j.replaying with
  | true =>
    obtain ⟨-, rfl⟩ : RecordStatus.suppressed = status ∧ j = k := by
      simpa [record, idle] using hv
    exact .refl
  | false =>
    by_cases hkind : kind = .replace
    · simp [hkind, record_replace idle] at hv
    · exact .single (.takes _ now status hkind ((record_eq_ok_iff idle hkind).mp hv))

end Journal

namespace Buffer

variable {b : Buffer Text}

theorem record_becomes (b : Buffer Text) (kind : EditKind) (place : Location) (text : Text)
    (now : Nat) : b.journal.Becomes (b.record kind place text now).value.2.journal := by
  cases hv : (b.journal.record kind place text now).value with
  | error error =>
    simp only [Buffer.record, Narrated.value_bind, hv]
    exact .refl
  | ok recorded =>
    simp only [Buffer.record, Narrated.value_bind, hv]
    exact Journal.record_becomes hv

theorem takeSteps_becomes (b : Buffer Text) (report : CommandReport) (count : Nat) :
    b.journal.Becomes (b.takeSteps report count).value.2.journal := by
  induction count generalizing b report with
  | zero => exact .refl
  | succ count ih =>
    have stepped : b.journal.Becomes (b.step report.direction).value.2.journal :=
      .single (.step report.direction b.store)
    simp only [Buffer.takeSteps, Narrated.value_bind]
    split
    · exact stepped.trans (ih _ _)
    · exact stepped
    · exact stepped

end Buffer

/-- **An action changes the journal by its operations only.** -/
theorem Session.act_becomes (s : Session Text) (action : Action) :
    s.buffer.journal.Becomes (s.act action).value.2.buffer.journal := by
  cases action with
  | insert place text now =>
    show s.buffer.journal.Becomes (s.buffer.insert place text now).value.2.journal
    cases hi : s.buffer.store.insertAt place text with
    | error cause =>
      rw [Buffer.value_insert_of_error hi]
    | ok outcome =>
      rw [Buffer.value_insert_of_ok hi]
      exact Buffer.record_becomes { s.buffer with store := outcome.2 } _ _ _ _
  | delete place length now =>
    show s.buffer.journal.Becomes (s.buffer.delete place length now).value.2.journal
    cases hd : s.buffer.store.deleteAt place length with
    | error cause =>
      rw [Buffer.value_delete_of_error hd]
    | ok outcome =>
      rw [Buffer.value_delete_of_ok hd]
      exact Buffer.record_becomes { s.buffer with store := outcome.2 } _ _ _ _
  | record kind place text now => exact s.buffer.record_becomes kind place text now
  | step direction => exact .single (.step direction s.buffer.store)
  | command direction count =>
    show s.buffer.journal.Becomes (s.buffer.command direction count s.screen).value.2.1.journal
    obtain ⟨depth, depth', screen', hv⟩ := s.buffer.value_command direction count s.screen
    rw [hv]
    exact Buffer.takeSteps_becomes { s.buffer with depth } _ _
  | endRun => exact .single .endRun
  | groupBegin => exact .single .groupBegin
  | groupEnd =>
    rw [buffer_groupEnd]
    exact .single .groupEnd
  | markSaved => exact .single .markSaved
  | clearHistory => exact (Relation.ReflTransGen.single Journal.Moves.clear).tail .markSaved

/-- **So does a run.** -/
theorem Session.after_becomes (s : Session Text) (actions : List Action) :
    s.buffer.journal.Becomes (s.after actions).buffer.journal := by
  induction actions generalizing s with
  | nil => exact .refl
  | cons action rest ih => exact (s.act_becomes action).trans (ih _)

end EditJournal
