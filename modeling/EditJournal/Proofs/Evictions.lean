/-
EditJournal.Proofs.Evictions — when it is told that an entry was dropped.

`Session.fate?` is what becomes of the change that an action makes, if it makes
one. `Session.evictionTold_act` says that an eviction is told exactly if that is
what became of a change; steps, commands, brackets and saves tell none.

`Journal.fate?_eq_evicted_iff` says when that is, where the allocator refuses
nothing: the change starts an entry, and with the redo tail gone the journal is
still at its ceiling.
-/
import EditJournal.Proofs.Told
import EditJournal.Proofs.Trailing

namespace EditJournal

/-! ## Quiet calls -/

/-- No eviction is told. -/
def Narrated.Quiet {α : Type} (x : Narrated α) : Prop := evictionTold x.notes = false

open Narrated (Quiet)

theorem Narrated.Quiet.bind {α β : Type} {x : Narrated α} {f : α → Narrated β} (hx : x.Quiet)
    (hf : ∀ a, (f a).Quiet) : (x >>= f).Quiet := by
  have hf := hf x.value
  simp only [Quiet] at hx hf ⊢
  simp [hx, hf]

/-- Neither a replay nor the display tells an eviction. -/
theorem Narrated.Tells.quiet {α : Type} {x : Narrated α}
    (h : x.Tells fun e => e.IsReplay ∨ e.IsDisplay) : x.Quiet := by
  rw [Quiet, evictionTold, List.any_eq_false]
  rintro ⟨event, span⟩ hnote
  have told := h _ hnote
  cases event with
  | evicted version capacity => exact absurd told (by simp [Event.IsReplay, Event.IsDisplay])
  | _ => simp [Note.isEviction]

/-! ## Changes -/

/-- Did the change start an entry? -/
def RecordStatus.startsEntry : RecordStatus → Bool
  | appended | evicted | oversized => true
  | _ => false

/-- What becomes of a change. -/
def Journal.fate? (j : Journal) (kind : EditKind) (place : Location) (text : Text)
    (now : Nat) :
    Option RecordStatus :=
  (j.record kind place text now).value.toOption.map (·.1)

/-- **When the oldest entry is dropped**: where a change starts an entry, and the
journal without its redo tail is at the ceiling. -/
theorem Journal.Takes.status_eq_evicted_iff {j k : Journal} (h : j.Sound) (granted : j.Granted)
    {edit : Edit} {now : Nat} {status : RecordStatus} (takes : j.Takes edit now status k) :
    status = .evicted ↔
      status.startsEntry = true ∧ (j.entries.take j.position).length = j.config.ceiling := by
  cases takes with
  | nothing empty => simp [RecordStatus.startsEntry]
  | joined tail changed nonempty last joins => simp [RecordStatus.startsEntry]
  | started group mergeable nonempty starts =>
    have full : j.truncated.entries.length ≤ j.config.ceiling := h.truncated.length_le_ceiling
    rw [truncated_entries] at full
    rcases makeRoom_of_granted h.truncated granted with
      ⟨few, capacity, refusals, hv⟩ | ⟨most, hv⟩
    · have few : (j.entries.take j.position).length ≠ j.config.ceiling := Nat.ne_of_lt few
      rw [hv]
      simp only [few, and_false, iff_false]
      cases mergeable <;> simp [startStatus]
    · have most : j.config.ceiling ≤ (j.entries.take j.position).length := most
      rw [hv]
      simp only [startStatus, if_true, RecordStatus.startsEntry, true_and, true_iff]
      omega

theorem Journal.fate?_eq_evicted_iff {j : Journal} (h : j.Sound) (granted : j.Granted)
    (kind : EditKind) (place : Location) (text : Text) (now : Nat) :
    j.fate? kind place text now = some .evicted ↔
      ∃ status, j.fate? kind place text now = some status ∧ status.startsEntry = true ∧
        (j.entries.take j.position).length = j.config.ceiling := by
  by_cases hkind : kind = .replace
  · simp [fate?, hkind, record_replace h.idle, Except.toOption]
  obtain ⟨status, k, hk⟩ := exists_record_eq_ok h.idle hkind place text now
  have takes := (record_eq_ok_iff h.idle hkind).mp hk
  have fate : j.fate? kind place text now = some status := by simp [fate?, hk, Except.toOption]
  simp only [fate, Option.some.injEq, exists_eq_left']
  exact takes.status_eq_evicted_iff h granted

theorem Journal.fate?_eq_evicted_iff_told {j : Journal} (h : j.Sound) (kind : EditKind)
    (place : Location) (text : Text) (now : Nat) :
    evictionTold (j.record kind place text now).notes = true ↔
      j.fate? kind place text now = some .evicted := by
  rw [evictionTold_record h.capacity_pos, fate?]
  cases hv : (j.record kind place text now).value with
  | error error => simp [Except.toOption]
  | ok recorded => simp [Except.toOption, Prod.ext_iff]

/-- A buffer tells of a change what its journal tells. -/
theorem Buffer.notes_record (b : Buffer Text) (kind : EditKind) (place : Location)
    (text : Text) (now : Nat) :
    (b.record kind place text now).notes = (b.journal.record kind place text now).notes := by
  simp only [Buffer.record, Narrated.notes_bind]
  cases (b.journal.record kind place text now).value <;> simp

namespace Session

theorem notes_act_insert (s : Session Text) (place : Location) (text : Text) (now : Nat) :
    (s.act (.insert place text now)).notes =
      match s.contents.insertAt place text with
      | .ok _ => ⟨.inserted place text.byteLength, none⟩ ::
          (s.buffer.journal.record .insert place text now).notes
      | .error _ => [] := by
  have store : s.contents.insertAt place text = s.buffer.store.insertAt place text := rfl
  cases inserted : s.buffer.store.insertAt place text <;>
    simp [store, inserted, act, Buffer.insert, Storage.insert, Text.insertTold,
      Buffer.notes_record]

theorem notes_act_delete (s : Session Text) (place : Location) (length now : Nat) :
    (s.act (.delete place length now)).notes =
      match s.contents.deleteAt place length with
      | .ok (removed, _) => ⟨.deleted place length, none⟩ ::
          (s.buffer.journal.record .delete place removed now).notes
      | .error _ => [] := by
  have store : s.contents.deleteAt place length = s.buffer.store.deleteAt place length := rfl
  cases deleted : s.buffer.store.deleteAt place length <;>
    simp [store, deleted, act, Buffer.delete, Storage.delete, Text.deleteTold,
      Buffer.notes_record]

theorem notes_act_record (s : Session Text) (kind : EditKind) (place : Location) (text : Text)
    (now : Nat) :
    (s.act (.record kind place text now)).notes =
      (s.buffer.journal.record kind place text now).notes := by
  simp [act, Buffer.notes_record]

/-- What becomes of the change that an action makes, if it makes one. -/
def fate? (s : Session Text) : Action → Option RecordStatus
  | .insert place text now =>
    match s.contents.insertAt place text with
    | .ok _ => s.buffer.journal.fate? .insert place text now
    | .error _ => none
  | .delete place length now =>
    match s.contents.deleteAt place length with
    | .ok (removed, _) => s.buffer.journal.fate? .delete place removed now
    | .error _ => none
  | .record kind place text now => s.buffer.journal.fate? kind place text now
  | _ => none

variable {s : Session Text}

theorem fate?_eq_evicted_iff (h : s.buffer.journal.Sound) (granted : s.buffer.journal.Granted)
    (action : Action) :
    s.fate? action = some .evicted ↔
      ∃ status, s.fate? action = some status ∧ status.startsEntry = true ∧
        (s.buffer.journal.entries.take s.buffer.journal.position).length =
          s.buffer.journal.config.ceiling := by
  have journal := Journal.fate?_eq_evicted_iff h granted
  cases action with
  | insert place text now =>
    simp only [fate?]
    split
    · exact journal .insert place text now
    · simp
  | delete place length now =>
    simp only [fate?]
    split
    · exact journal .delete place _ now
    · simp
  | record kind place text now => exact journal kind place text now
  | _ => simp [fate?]

/-- **An eviction is told exactly if that is what becomes of a change.** -/
theorem evictionTold_act (h : s.buffer.journal.Sound) (action : Action) :
    evictionTold (s.act action).notes = true ↔ s.fate? action = some .evicted := by
  have quiet (action : Action) (hq : (s.act action).Quiet) (none : s.fate? action = none) :
      evictionTold (s.act action).notes = true ↔ s.fate? action = some .evicted := by
    rw [none, hq]
    simp
  have journal := s.buffer.journal.fate?_eq_evicted_iff_told h
  cases action with
  | insert place text now =>
    rw [notes_act_insert, fate?]
    split
    · simp [journal .insert place text now, Note.isEviction]
    · simp
  | delete place length now =>
    rw [notes_act_delete, fate?]
    split
    · simp [journal .delete place _ now, Note.isEviction]
    · simp
  | record kind place text now => rw [notes_act_record, fate?, journal kind place text now]
  | step direction =>
    have told := (s.buffer.tells_step direction).mono (Q := fun e => e.IsReplay ∨ e.IsDisplay)
      fun _ => Or.inl
    exact quiet (.step direction) (told.quiet.bind fun _ => rfl) rfl
  | command direction count =>
    exact quiet (.command direction count)
      ((s.buffer.tells_command direction count s.screen).quiet.bind fun _ => rfl) rfl
  | endRun => exact quiet .endRun rfl rfl
  | groupBegin => exact quiet .groupBegin rfl rfl
  | groupEnd =>
    refine quiet .groupEnd ?_ rfl
    have told : s.buffer.journal.groupEnd.Quiet := by
      unfold Journal.groupEnd
      split
      rename_i result grouping hclose
      cases result <;> rfl
    exact Quiet.bind (told.bind fun _ => rfl) fun _ => rfl
  | markSaved => exact quiet .markSaved rfl rfl
  | clearHistory => exact quiet .clearHistory rfl rfl

/-- What is told is known from what becomes of the change. -/
theorem evictionTold_eq (h : s.buffer.journal.Sound) {action : Action} {status : RecordStatus}
    (fate : s.fate? action = some status) :
    evictionTold (s.act action).notes = (status == .evicted) := by
  rw [Bool.eq_iff_iff, evictionTold_act h, fate]
  simp

end Session

end EditJournal
