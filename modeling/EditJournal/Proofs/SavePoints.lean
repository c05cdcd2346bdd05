/-
EditJournal.Proofs.SavePoints — a version names one text, throughout a run.

`run_versions_name_texts` is the main result: at two moments of a run with the
same current version, the text is the same. Merges and group joins stamp the
last entry again, a dropped redo tail forgets its versions, and eviction and
clearing move the base version; none of them gives a version to a second text.

So a text that counts as unmodified is the one that was saved, and a change
always makes the text count as modified.

## How the proof goes

The ledger of the longer of two runs extends that of the shorter one below
the versions given out by then (`Carries.keeps`), and the current version is
one of them. Between two saves the saved version stays
(`savedVersion_act`).
-/
import EditJournal.Proofs.Runs

namespace EditJournal

open Ledger (Covers)

namespace Action

/-- Does the action make the text the saved one? -/
def saves : Action → Bool
  | .markSaved | .clearHistory => true
  | _ => false

/-- Does a run end in a save, or not even begin? -/
def endSaved (actions : List Action) : Bool := actions.getLast?.all saves

end Action

namespace Buffer

variable {σ : Type}

theorem savedVersion_record (b : Buffer σ) (kind : EditKind) (place : Location) (text : Text)
    (now : Nat) : (b.record kind place text now).value.2.savedVersion = b.savedVersion := by
  simp only [Buffer.record, Narrated.value_bind]
  split <;> rfl

theorem savedVersion_takeSteps [Storage σ] (b : Buffer σ) (report : CommandReport)
    (count : Nat) :
    (b.takeSteps report count).value.2.savedVersion = b.savedVersion := by
  induction count generalizing b report with
  | zero => rfl
  | succ count ih =>
    simp only [takeSteps, Narrated.value_bind]
    split
    · exact ih _ _
    · rfl
    · rfl

end Buffer

namespace Session

section Storage

variable {σ : Type} [Storage σ]

/-- An action that saves nothing keeps the saved version, on every storage. -/
theorem savedVersion_act (s : Session σ) {action : Action} (unsaved : action.saves = false) :
    (s.act action).value.2.buffer.savedVersion = s.buffer.savedVersion := by
  cases action with
  | insert place text now =>
    show (s.buffer.insert place text now).value.2.savedVersion = _
    simp only [Buffer.insert, Narrated.value_bind]
    split
    · rfl
    · exact Buffer.savedVersion_record _ _ _ _ _
  | delete place length now =>
    show (s.buffer.delete place length now).value.2.savedVersion = _
    simp only [Buffer.delete, Narrated.value_bind]
    split
    · rfl
    · exact Buffer.savedVersion_record _ _ _ _ _
  | record kind place text now => exact s.buffer.savedVersion_record kind place text now
  | step direction => rfl
  | command direction count =>
    exact Buffer.savedVersion_takeSteps
      { s.buffer with depth := (EditScope.enter s.buffer.depth).value.2 } _ _
  | endRun => rfl
  | groupBegin => rfl
  | groupEnd => rfl
  | markSaved => simp [Action.saves] at unsaved
  | clearHistory => simp [Action.saves] at unsaved

theorem savedVersion_after (s : Session σ) {actions : List Action}
    (unsaved : ∀ action ∈ actions, action.saves = false) :
    (s.after actions).buffer.savedVersion = s.buffer.savedVersion := by
  induction actions generalizing s with
  | nil => rfl
  | cons action rest ih =>
    rw [List.forall_mem_cons] at unsaved
    rw [after_cons, ih _ unsaved.2, savedVersion_act s unsaved.1]

end Storage

variable {s : Session Text} {ledger : Ledger}

/-- An action that saves makes the current version the saved one. -/
theorem savedVersion_of_saves {action : Action} (saves : action.saves = true) :
    (s.act action).value.2.buffer.savedVersion =
      (s.act action).value.2.buffer.journal.currentVersion := by
  cases action with
  | markSaved => rfl
  | clearHistory => rfl
  | _ => simp [Action.saves] at saves

/-- From one moment to a later one, a version keeps its text. -/
theorem contents_eq_of_currentVersion_eq (h : ledger.Covers s.buffer) {actions : List Action}
    (own : ∀ action ∈ actions, action.isForeign = false)
    (same : (s.after actions).buffer.journal.currentVersion =
      s.buffer.journal.currentVersion) :
    (s.after actions).contents = s.contents := by
  obtain ⟨later, hcarries⟩ := after_carries h own
  have there : later (s.after actions).buffer.journal.currentVersion =
      (s.after actions).contents :=
    hcarries.covers.explains.current
  have here : ledger s.buffer.journal.currentVersion = s.contents := h.explains.current
  rw [← there, same, hcarries.keeps _ h.explains.currentVersion_lt, here]

/-- Two moments of a run, the first of them earlier. -/
theorem contents_take_eq (h : ledger.Covers s.buffer) {actions : List Action}
    (own : ∀ action ∈ actions, action.isForeign = false) {m n : Nat} (hle : m ≤ n)
    (same : (s.after (actions.take n)).buffer.journal.currentVersion =
      (s.after (actions.take m)).buffer.journal.currentVersion) :
    (s.after (actions.take n)).contents = (s.after (actions.take m)).contents := by
  -- the longer run goes on where the shorter one ends
  have hsplit : actions.take n = actions.take m ++ (actions.take n).drop m := by
    have htake : (actions.take n).take m = actions.take m := by
      rw [List.take_take, Nat.min_eq_left hle]
    rw [← htake, List.take_append_drop]
  have own' : ∀ action ∈ actions.take m, action.isForeign = false := fun a ha =>
    own a (List.mem_of_mem_take ha)
  obtain ⟨later, hfirst⟩ := after_carries h own'
  rw [hsplit, after_append] at same ⊢
  refine contents_eq_of_currentVersion_eq hfirst.covers (fun a ha => own a ?_) same
  exact List.mem_of_mem_take (List.mem_of_mem_drop ha)

/-- Where a run ends in a save, the saved version is the current one. -/
theorem savedVersion_of_endSaved {actions : List Action}
    (hs : s.buffer.savedVersion = s.buffer.journal.currentVersion)
    (saved : Action.endSaved actions) :
    (s.after actions).buffer.savedVersion =
      (s.after actions).buffer.journal.currentVersion := by
  cases hlast : actions.getLast? with
  | none =>
    rw [List.getLast?_eq_none_iff.mp hlast]
    exact hs
  | some save =>
    obtain ⟨front, rfl⟩ := List.getLast?_eq_some_iff.mp hlast
    have saves : save.saves = true := by simpa [Action.endSaved] using saved
    rw [after_append, after_cons, after_nil]
    exact savedVersion_of_saves saves

/-- Where the text counts as unmodified, it is that of the last save. -/
theorem contents_of_unmodified (h : ledger.Covers s.buffer) {since : List Action}
    (own : ∀ action ∈ since, action.isForeign = false)
    (unsaved : ∀ action ∈ since, action.saves = false)
    (hs : s.buffer.savedVersion = s.buffer.journal.currentVersion)
    (unmodified : (s.after since).buffer.isModified = false) :
    (s.after since).contents = s.contents := by
  have current : (s.after since).buffer.journal.currentVersion =
      (s.after since).buffer.savedVersion := by
    simpa [Buffer.isModified] using unmodified
  rw [savedVersion_after s unsaved, hs] at current
  exact contents_eq_of_currentVersion_eq h own current

end Session

open Session (opened)

/-- **At two moments of a run with one current version the text is one.** So
a text that counts as unmodified is that of the last save, or of the start;
and an insertion or a deletion that changes the text makes it count as
modified. -/
theorem run_versions_name_texts (name start : Text) (config : Config) (refusals : List Bool)
    (actions : List Action) (own : ∀ action ∈ actions, action.isForeign = false) :
    let s := opened name start config refusals
    (∀ m n, (s.after (actions.take m)).buffer.journal.currentVersion =
        (s.after (actions.take n)).buffer.journal.currentVersion →
      (s.after (actions.take m)).contents = (s.after (actions.take n)).contents) ∧
    (∀ before since, actions = before ++ since → Action.endSaved before →
      (∀ action ∈ since, action.saves = false) → (s.after actions).buffer.isModified = false →
      (s.after actions).contents = (s.after before).contents) ∧
    (∀ place text now stop,
      ((s.after actions).act (.insert place text now)).value.1 = .inserted (.ok stop) →
      text ≠ [] →
      ((s.after actions).act (.insert place text now)).value.2.buffer.isModified = true) ∧
    (∀ place length now removed,
      ((s.after actions).act (.delete place length now)).value.1 = .deleted (.ok removed) →
      removed ≠ [] →
      ((s.after actions).act (.delete place length now)).value.2.buffer.isModified =
        true) := by
  intro s
  have fresh : Covers (fun _ => start) s.buffer :=
    Session.opened_covers name start config refusals
  obtain ⟨ledger, hrun⟩ := Session.after_carries fresh own
  refine ⟨?_, ?_, ?_, ?_⟩
  · intro m n same
    rcases Nat.le_total m n with hle | hle
    · exact (Session.contents_take_eq fresh own hle same.symm).symm
    · exact Session.contents_take_eq fresh own hle same
  · rintro before since rfl saved unsaved unmodified
    have own' := List.forall_mem_append.mp own
    obtain ⟨middle, hbefore⟩ := Session.after_carries fresh own'.1
    rw [Session.after_append] at unmodified ⊢
    exact Session.contents_of_unmodified hbefore.covers own'.2 unsaved
      (Session.savedVersion_of_endSaved rfl saved) unmodified
  · intro place text now stop hanswer hne
    obtain ⟨later, -, -, hmod⟩ := hrun.covers.insert place text now
    refine hmod stop ?_ hne
    simpa [Session.act] using hanswer
  · intro place length now removed hanswer hne
    obtain ⟨later, -, -, hmod⟩ := hrun.covers.delete place length now
    refine hmod removed ?_ hne
    simpa [Session.act] using hanswer

/-- `é` is typed and saved; then a deletion is made and undone. -/
def saveAndReturn : List Action :=
  [.insert ⟨0, 1⟩ ['é'] 0, .markSaved, .delete ⟨0, 0⟩ 3 5, .step .undo]

/-- Behind it the version is the saved one again, and so is the text; either
change makes the text count as modified. -/
theorem saveAndReturn_names_texts :
    let s := opened [] ['a', 'b'] {}
    (∀ action ∈ saveAndReturn, action.isForeign = false) ∧
      (s.after (saveAndReturn.take 4)).buffer.journal.currentVersion =
        (s.after (saveAndReturn.take 2)).buffer.journal.currentVersion ∧
      (s.after (saveAndReturn.take 4)).contents = (s.after (saveAndReturn.take 2)).contents ∧
      (s.after saveAndReturn).buffer.isModified = false ∧
      (s.after saveAndReturn).contents = (s.after (saveAndReturn.take 2)).contents ∧
      ((s.after saveAndReturn).act (.insert ⟨0, 0⟩ ['ü'] 9)).value.2.buffer.isModified = true ∧
      ((s.after saveAndReturn).act (.delete ⟨0, 0⟩ 1 9)).value.2.buffer.isModified = true := by
  dsimp only
  have own : ∀ action ∈ saveAndReturn, action.isForeign = false := by decide
  obtain ⟨named, saved, inserted, deleted⟩ :=
    run_versions_name_texts [] ['a', 'b'] {} [] saveAndReturn own
  refine ⟨own, by rfl, named 4 2 (by rfl), by rfl, ?_, ?_, ?_⟩
  · exact saved (saveAndReturn.take 2) (saveAndReturn.drop 2) rfl rfl (by decide) (by rfl)
  · exact inserted ⟨0, 0⟩ ['ü'] 9 ⟨0, 2⟩ (by rfl) (by decide)
  · exact deleted ⟨0, 0⟩ 1 9 ['a'] (by rfl) (by decide)

end EditJournal
