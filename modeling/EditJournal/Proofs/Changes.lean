/-
EditJournal.Proofs.Changes — the change that an action makes.

* `Session.changes` — the changes of a run, read off what its insertions and
  deletions answered.
* `Session.Edits` — what comes of an insertion or a deletion: it changes the text
  and is taken into the journal, or nothing happens.
* `Session.act_cases` — of the journal, an action takes one change in, or leaves
  the entries but for the marks of saves, or clears them.
-/
import EditJournal.Proofs.Evictions

namespace EditJournal

/-! ## Entries without marks -/

/-- The entry without the mark of a save. -/
def Entry.unmarked (e : Entry) : Entry := { e with savePoint := false }

@[simp] theorem Entry.unmarked_group (e : Entry) : e.unmarked.group = e.group := rfl

@[simp] theorem Entry.unmarked_version (e : Entry) : e.unmarked.version = e.version := rfl

@[simp] theorem Entry.unmarked_edits (e : Entry) : e.unmarked.edits = e.edits := rfl

/-- The entries, but for the marks of saves. -/
def Journal.unmarked (j : Journal) : List Entry := j.entries.map Entry.unmarked

/-- Saving touches the marks only. -/
theorem Journal.unmarked_markSaved (j : Journal) :
    j.markSaved.value.2.unmarked = j.unmarked := by
  simp [unmarked, markSaved, List.ext_getElem_iff, Entry.unmarked]

theorem Journal.step_entries (j : Journal) (direction : HistoryStep) (t : Text) :
    (j.step direction t).value.2.1.entries = j.entries := by
  rcases j.step_cases direction t with
    ⟨-, hv⟩ | ⟨index, entry, -, ⟨t', -, hv⟩ | ⟨error, -, hv⟩⟩
  · rw [hv]
  · rw [hv]
    rfl
  · rw [hv]

theorem Buffer.takeSteps_entries (b : Buffer Text) (report : CommandReport) (count : Nat) :
    (b.takeSteps report count).value.2.journal.entries = b.journal.entries := by
  induction count generalizing b report with
  | zero => rfl
  | succ count ih =>
    have stepped : (b.step report.direction).value.2.journal.entries = b.journal.entries :=
      b.journal.step_entries report.direction b.store
    simp only [Buffer.takeSteps, Narrated.value_bind]
    split
    · exact (ih _ _).trans stepped
    · exact stepped
    · exact stepped

/-! ## Changes of a run -/

namespace Action

/-- Does it insert or delete? -/
def isEdit : Action → Bool
  | .insert .. | .delete .. => true
  | _ => false

/-- The change that an action made, as its answer tells. -/
def change? : Action → Answer → Option Edit
  | .insert place text _, .inserted (.ok _) =>
    if text = [] then none else some { kind := .insert, place, payload := text }
  | .delete place _ _, .deleted (.ok removed) =>
    if removed = [] then none else some { kind := .delete, place, payload := removed }
  | _, _ => none

end Action

namespace Session

/-- The changes that a run made, in order. -/
def changes (s : Session Text) : List Action → List Edit
  | [] => []
  | action :: rest =>
    (action.change? (s.act action).value.1).toList ++ (s.act action).value.2.changes rest

@[simp] theorem changes_nil (s : Session Text) : s.changes [] = [] := rfl

@[simp] theorem changes_cons (s : Session Text) (action : Action) (rest : List Action) :
    s.changes (action :: rest) =
      (action.change? (s.act action).value.1).toList ++ (s.act action).value.2.changes rest :=
    rfl

theorem changes_append (s : Session Text) (first second : List Action) :
    s.changes (first ++ second) = s.changes first ++ (s.after first).changes second := by
  induction first generalizing s with
  | nil => rfl
  | cons action rest ih => simp [ih]

@[simp] theorem answers_nil (s : Session Text) : (s.run []).value.1 = [] := rfl

@[simp] theorem answers_cons (s : Session Text) (action : Action) (rest : List Action) :
    (s.run (action :: rest)).value.1 =
      (s.act action).value.1 :: ((s.act action).value.2.run rest).value.1 := rfl

theorem answers_append (s : Session Text) (first second : List Action) :
    (s.run (first ++ second)).value.1 =
      (s.run first).value.1 ++ ((s.after first).run second).value.1 := by
  induction first generalizing s with
  | nil => rfl
  | cons action rest ih => simp [ih]

/-- Does a run tell that an entry was dropped to make room? -/
def evicts (s : Session Text) (actions : List Action) :
    Bool := evictionTold (s.run actions).notes

@[simp] theorem evicts_nil (s : Session Text) : s.evicts [] = false := rfl

@[simp] theorem evicts_cons (s : Session Text) (action : Action) (rest : List Action) :
    s.evicts (action :: rest) =
      (evictionTold (s.act action).notes || (s.act action).value.2.evicts rest) := by
  simp [evicts, run]

theorem evicts_append (s : Session Text) (first second : List Action) :
    s.evicts (first ++ second) = (s.evicts first || (s.after first).evicts second) := by
  induction first generalizing s with
  | nil => simp
  | cons action rest ih => simp [ih, Bool.or_assoc]

end Session

/-! ## Insertions and deletions -/

/-- A change that is handed to the journal is taken in, unless it is a
replacement. -/
theorem Buffer.record_cases {b : Buffer Text} (idle : b.journal.replaying = false)
    (kind : EditKind) (place : Location) (text : Text) (now : Nat) :
    (kind = .replace ∧ (b.record kind place text now).value.2 = b) ∨
    ∃ status k, kind ≠ .replace ∧
      b.journal.Takes { kind, place, payload := text } now status k ∧
      b.journal.fate? kind place text now = some status ∧
      (b.record kind place text now).value = (.ok status, { b with journal := k }) := by
  by_cases hkind : kind = .replace
  · refine Or.inl ⟨hkind, ?_⟩
    simp [Buffer.record, hkind, Journal.record_replace idle]
  · obtain ⟨status, k, hv⟩ := Journal.exists_record_eq_ok idle hkind place text now
    refine Or.inr ⟨status, k, hkind, (Journal.record_eq_ok_iff idle hkind).mp hv, ?_, ?_⟩
    · simp [Journal.fate?, hv, Except.toOption]
    · simp [Buffer.record, hv]

namespace Session

variable {s : Session Text}

/-- An insertion that the text refuses changes nothing. -/
theorem act_insert_of_error {place : Location} {text : Text} {cause : TextError}
    (refused : s.contents.insertAt place text = .error cause) (now : Nat) :
    (s.act (.insert place text now)).value =
      (.inserted (.error (.storage place cause)), s) := by
  have stored : s.buffer.store.insertAt place text = .error cause := refused
  simp [act, Buffer.value_insert_of_error stored]

/-- One that it allows is taken in. -/
theorem act_insert_of_ok (idle : s.buffer.journal.replaying = false) {place stop : Location}
    {text t : Text} (inserted : s.contents.insertAt place text = .ok (stop, t)) (now : Nat) :
    ∃ status k, (s.act (.insert place text now)).value =
        (.inserted (.ok stop),
          { s with buffer := { s.buffer with store := t, journal := k } }) ∧
      s.buffer.journal.Takes { kind := .insert, place, payload := text } now status k ∧
      s.fate? (.insert place text now) = some status := by
  have stored : s.buffer.store.insertAt place text = .ok (stop, t) := inserted
  have idle' : ({ s.buffer with store := t } : Buffer Text).journal.replaying = false := idle
  rcases Buffer.record_cases idle' .insert place text now with
    ⟨replace, -⟩ | ⟨status, k, -, takes, fate, hv⟩
  · cases replace
  · refine ⟨status, k, ?_, takes, ?_⟩
    · simp [act, Buffer.value_insert_of_ok stored, hv, Except.map]
    · simp [fate?, inserted, fate]

/-- A deletion that the text refuses changes nothing. -/
theorem act_delete_of_error {place : Location} {length : Nat} {cause : TextError}
    (refused : s.contents.deleteAt place length = .error cause) (now : Nat) :
    (s.act (.delete place length now)).value =
      (.deleted (.error (.storage place cause)), s) := by
  have stored : s.buffer.store.deleteAt place length = .error cause := refused
  simp [act, Buffer.value_delete_of_error stored]

/-- One that it allows is taken in. -/
theorem act_delete_of_ok (idle : s.buffer.journal.replaying = false) {place : Location}
    {length : Nat} {removed t : Text}
    (deleted : s.contents.deleteAt place length = .ok (removed, t)) (now : Nat) :
    ∃ status k, (s.act (.delete place length now)).value =
        (.deleted (.ok removed),
          { s with buffer := { s.buffer with store := t, journal := k } }) ∧
      s.buffer.journal.Takes { kind := .delete, place, payload := removed } now status k ∧
      s.fate? (.delete place length now) = some status := by
  have stored : s.buffer.store.deleteAt place length = .ok (removed, t) := deleted
  have idle' : ({ s.buffer with store := t } : Buffer Text).journal.replaying = false := idle
  rcases Buffer.record_cases idle' .delete place removed now with
    ⟨replace, -⟩ | ⟨status, k, -, takes, fate, hv⟩
  · cases replace
  · refine ⟨status, k, ?_, takes, ?_⟩
    · simp [act, Buffer.value_delete_of_ok stored, hv, Except.map]
    · simp [fate?, deleted, fate]

/-- What comes of an insertion or a deletion. -/
inductive Edits (s : Session Text) (action : Action) : Prop
  | nothing (same : (s.act action).value.2.buffer = s.buffer)
      (none : action.change? (s.act action).value.1 = none)
      (fate : ∀ status, s.fate? action = some status → status = .empty)
  | change (edit : Edit) (now : Nat) (status : RecordStatus) (k : Journal) (t : Text)
      (plain : edit.kind ≠ .replace) (nonempty : edit.payload ≠ [])
      (leads : edit.Leads s.contents t) (takes : s.buffer.journal.Takes edit now status k)
      (made : action.change? (s.act action).value.1 = some edit)
      (fate : s.fate? action = some status)
      (behind : (s.act action).value.2.buffer = { s.buffer with store := t, journal := k })

/-- Of a change that is taken in, nothing comes if it is empty. -/
theorem edits_of_taken {action : Action} {edit : Edit} {now : Nat} {status : RecordStatus}
    {k : Journal} {t : Text} (plain : edit.kind ≠ .replace) (leads : edit.Leads s.contents t)
    (takes : s.buffer.journal.Takes edit now status k)
    (made : action.change? (s.act action).value.1 =
      if edit.payload = [] then none else some edit)
    (fate : s.fate? action = some status)
    (behind : (s.act action).value.2.buffer = { s.buffer with store := t, journal := k }) :
    s.Edits action := by
  by_cases empty : edit.payload = []
  · cases takes with
    | nothing _ =>
      obtain rfl : t = s.buffer.store := leads.eq_of_nil empty
      refine .nothing behind (by simpa [empty] using made) fun status hs => ?_
      rw [fate] at hs
      exact (Option.some.inj hs).symm
    | joined tail changed nonempty last joins => exact absurd empty nonempty
    | started group mergeable nonempty starts => exact absurd empty nonempty
  · exact .change edit now status k t plain empty leads takes
      (by simpa [empty] using made) fate behind

/-- **An insertion or a deletion changes the text and is taken in, or nothing
happens.** -/
theorem act_edit (idle : s.buffer.journal.replaying = false) {action : Action}
    (edit : action.isEdit = true) : s.Edits action := by
  cases action with
  | insert place text now =>
    cases hi : s.contents.insertAt place text with
    | error cause =>
      have refused := act_insert_of_error hi now
      exact .nothing (by rw [refused]) (by rw [refused]; rfl) (by simp [fate?, hi])
    | ok outcome =>
      obtain ⟨stop, t⟩ := outcome
      obtain ⟨-, inserted⟩ := (Text.insertAt_eq_ok_iff s.contents place text stop t).mp hi
      obtain ⟨status, k, value, takes, fate⟩ := act_insert_of_ok idle hi now
      have leads : Edit.Leads { kind := .insert, place, payload := text } s.contents t :=
        inserted
      exact edits_of_taken (by simp) leads takes (by rw [value]; rfl) fate (by rw [value])
  | delete place length now =>
    cases hd : s.contents.deleteAt place length with
    | error cause =>
      have refused := act_delete_of_error hd now
      exact .nothing (by rw [refused]) (by rw [refused]; rfl) (by simp [fate?, hd])
    | ok outcome =>
      obtain ⟨removed, t⟩ := outcome
      obtain ⟨-, deleted⟩ := (Text.deleteAt_eq_ok_iff s.contents place length removed t).mp hd
      obtain ⟨status, k, value, takes, fate⟩ := act_delete_of_ok idle hd now
      have leads : Edit.Leads { kind := .delete, place, payload := removed } s.contents t :=
        deleted
      exact edits_of_taken (by simp) leads takes (by rw [value]; rfl) fate (by rw [value])
  | _ => simp [Action.isEdit] at edit

/-- What an action does to the entries of the journal. -/
inductive Acts (s : Session Text) (action : Action) : Prop
  | takes (edit : Edit) (now : Nat) (status : RecordStatus) (plain : edit.kind ≠ .replace)
      (fate : s.fate? action = some status)
      (takes : s.buffer.journal.Takes edit now status (s.act action).value.2.buffer.journal)
  | leaves (same : (s.act action).value.2.buffer.journal.unmarked = s.buffer.journal.unmarked)
  | clears (clear : action = .clearHistory)

/-- **An action takes one change into the journal, or leaves the entries but for
the marks of saves, or clears the history.** -/
theorem act_cases (idle : s.buffer.journal.replaying = false) (action : Action) :
    s.Acts action := by
  have edited (edit : action.isEdit = true) : s.Acts action := by
    cases act_edit idle edit with
    | nothing same none fate => exact .leaves (by rw [same])
    | change edit now status k t plain nonempty leads takes made fate behind =>
      exact .takes edit now status plain fate (by rw [behind]; exact takes)
  cases action with
  | insert place text now => exact edited rfl
  | delete place length now => exact edited rfl
  | record kind place text now =>
    rcases s.buffer.record_cases idle kind place text now with
      ⟨-, same⟩ | ⟨status, k, plain, takes, fate, hv⟩
    · exact .leaves (congrArg (·.journal.unmarked) same)
    · have behind : (s.act (.record kind place text now)).value.2.buffer =
          { s.buffer with journal := k } := congrArg Prod.snd hv
      exact .takes _ now status plain fate (by rw [behind]; exact takes)
  | step direction =>
    have entries := s.buffer.journal.step_entries direction s.buffer.store
    exact .leaves (congrArg (List.map Entry.unmarked) entries)
  | command direction count =>
    obtain ⟨depth, depth', screen, hv⟩ := s.buffer.value_command direction count s.screen
    have behind : (s.act (.command direction count)).value.2.buffer = _ :=
      congrArg (fun answer => answer.2.1) hv
    have entries := Buffer.takeSteps_entries { s.buffer with depth }
      { direction, requested := max count 1 } (max count 1)
    refine .leaves ?_
    rw [behind]
    exact congrArg (List.map Entry.unmarked) entries
  | endRun => exact .leaves rfl
  | groupBegin => exact .leaves rfl
  | groupEnd =>
    refine .leaves ?_
    rw [buffer_groupEnd]
    rfl
  | markSaved => exact .leaves s.buffer.journal.unmarked_markSaved
  | clearHistory => exact .clears rfl

end Session

end EditJournal
