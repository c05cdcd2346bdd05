/-
EditJournal.Proofs.SavePointMarks — the saved text is named twice, and the names agree.

A buffer has the saved version as a number beside its journal; the journal has it as the
mark of an entry.

* `Journal.Marks j saved` — the entries that are marked are those with the version `saved`.
* `Buffer.Marked b` — so it is for the saved version of a buffer, whose versions rise and
  which is below the next one.
* `Buffer.Lived b` — the buffer comes about by any actions, and by loading histories that
  such buffers saved.

`save_points_name_saved_version` is the main result: the names agree in all of them.

## How the proof goes

A change leaves old entries and one behind them that has the next version and no mark, so
a mark goes with its version (`Journal.Marks.leaves`); other requests than saves touch
neither. A save marks the entry before the position, and since the versions rise no other
entry has the current version (`Journal.Rising.version_eq_versionAt_iff`). A history that
is loaded brings its saved version along, and what is kept of it keeps its marks.
-/
import Mathlib.Data.List.Nodup
import EditJournal.Proofs.Continuity
import EditJournal.Proofs.Lifetimes
import EditJournal.Proofs.LoadedSavePoint
import EditJournal.Proofs.RefusedFiles

namespace EditJournal

variable {σ : Type} [Storage σ]

/-! ## Requests that save nothing -/

omit [Storage σ] in
/-- Does the request set the marks anew? -/
def Request.saves : Request σ → Bool
  | .markSaved | .clear => true
  | _ => false

theorem Journal.stepRequests_unsaved (j : Journal) (direction : HistoryStep) (s : σ)
    (count : Nat) :
    ∀ request ∈ j.stepRequests direction s count, request.saves = false := by
  induction count generalizing j s with
  | zero => simp [stepRequests]
  | succ count ih =>
    rw [stepRequests, List.forall_mem_cons]
    refine ⟨rfl, ?_⟩
    split
    · exact ih _ _
    · simp

/-- An action that saves nothing asks for no save. -/
theorem Session.requests_unsaved (s : Session σ) {action : Action}
    (unsaved : action.saves = false) :
    ∀ request ∈ s.requests action, request.saves = false := by
  cases action with
  | insert place text now =>
    simp only [requests]
    split <;> simp [Request.saves]
  | delete place length now =>
    simp only [requests]
    split <;> simp [Request.saves]
  | record kind place text now => simp [requests, Request.saves]
  | step direction => simp [requests, Request.saves]
  | command direction count => exact s.buffer.journal.stepRequests_unsaved _ _ _
  | endRun => simp [requests, Request.saves]
  | groupBegin => simp [requests, Request.saves]
  | groupEnd => simp [requests, Request.saves]
  | markSaved => simp [Action.saves] at unsaved
  | clearHistory => simp [Action.saves] at unsaved

namespace Journal

variable {j k w : Journal} {edit : Edit} {now saved : Nat} {status : RecordStatus}

/-! ## Marks -/

/-- The entries that are marked are those with the saved version. -/
def Marks (j : Journal) (saved : Nat) : Prop :=
  ∀ entry ∈ j.entries, entry.savePoint = true ↔ entry.version = saved

/-- The entry that a change leaves behind the old ones is not marked. -/
theorem Takes.leaves_unmarked (takes : j.Takes edit now status k)
    (nonempty : edit.payload ≠ []) :
    ∃ p d last, j.Leaves k p d last ∧ last.savePoint = false := by
  cases takes with
  | nothing empty => exact absurd empty nonempty
  | joined tail changed nonempty last joins =>
    exact ⟨_, _, _, leaves_replaceTail last changed, rfl⟩
  | started group mergeable nonempty starts =>
    exact ⟨_, _, _, j.leaves_started edit now group mergeable, rfl⟩

/-- A change takes the saved version and its mark away, or neither. -/
theorem Marks.leaves {p d : Nat} {last : Entry} (marks : j.Marks saved)
    (below : saved < j.nextVersion) (leaves : j.Leaves k p d last)
    (unmarked : last.savePoint = false) : k.Marks saved := by
  intro entry member
  rw [leaves.entries, List.mem_append, List.mem_singleton] at member
  rcases member with old | rfl
  · exact marks entry (leaves.mem_old old)
  · rw [unmarked, leaves.version]
    simp [Nat.ne_of_gt below]

theorem Marks.serve (marks : j.Marks saved) (below : saved < j.nextVersion)
    {request : Request σ}
    (unsaved : request.saves = false) : (j.serve request).Marks saved := by
  cases request with
  | record kind place text now =>
    rcases j.serve_record_cases σ kind place text now with
      ⟨same, -⟩ | ⟨status, -, -, nonempty, takes⟩
    · rw [same]
      exact marks
    · obtain ⟨p, d, last, leaves, unmarked⟩ := takes.leaves_unmarked nonempty
      exact marks.leaves below leaves unmarked
  | step direction storage =>
    rcases j.serve_step_cases direction storage with same | idle | ⟨index, entry, -, moved⟩
    · rw [same]
      exact marks
    · rw [idle]
      exact marks
    · rw [moved]
      exact marks
  | endRun => exact marks
  | groupBegin => exact marks
  | groupEnd =>
    rw [serve_groupEnd]
    exact marks
  | markSaved => simp [Request.saves] at unsaved
  | clear => simp [Request.saves] at unsaved

/-- **Without a save, the marks stay with the saved version.** -/
theorem Marks.serveAll (marks : j.Marks saved) (below : saved < j.nextVersion)
    {requests : List (Request σ)} (unsaved : ∀ request ∈ requests, request.saves = false) :
    (j.serveAll requests).Marks saved := by
  induction requests generalizing j with
  | nil => exact marks
  | cons request rest ih =>
    rw [List.forall_mem_cons] at unsaved
    have below' : saved < (j.serve request).nextVersion :=
      Nat.lt_of_lt_of_le below (j.serves_serve request).nextVersion_le
    exact ih (marks.serve below unsaved.1) below' unsaved.2

/-! ## Saves -/

theorem Rising.currentVersion_lt (h : j.Rising) (within : j.position ≤ j.entries.length) :
    j.currentVersion < j.nextVersion := by
  rw [currentVersion_eq within]
  exact versionBehind_lt h.base_lt fun entry he => h.version_lt entry (List.mem_of_mem_take he)

/-- Later positions have later versions. -/
theorem Rising.versionAt_lt (h : j.Rising) {p q : Nat} (later : p < q)
    (within : q ≤ j.entries.length) : j.versionAt p < j.versionAt q := by
  obtain ⟨index, rfl⟩ : ∃ index, q = index + 1 := ⟨q - 1, by omega⟩
  have found := List.getElem?_eq_getElem (l := j.entries) (i := index) (by omega)
  have behind : Ascending j.nextVersion (j.versionAt p) (j.entries.drop p) := by
    have whole := h.ascending
    rw [← List.take_append_drop p j.entries, ascending_append] at whole
    exact whole.2
  have member : j.entries[index] ∈ j.entries.drop p := by
    refine List.mem_of_getElem? (i := index - p) ?_
    rw [List.getElem?_drop, Nat.add_sub_of_le (by omega), found]
  rw [versionAt_succ found]
  exact (behind.between _ member).1

/-- No entry but the one before a position has its version. -/
theorem Rising.version_eq_versionAt_iff (h : j.Rising) {index p : Nat} {entry : Entry}
    (found : j.entries[index]? = some entry) (within : p ≤ j.entries.length) :
    entry.version = j.versionAt p ↔ index + 1 = p := by
  have inside : index < j.entries.length := (List.getElem?_eq_some_iff.mp found).1
  rw [← versionAt_succ found]
  constructor
  · intro same
    rcases Nat.lt_trichotomy (index + 1) p with before | here | behind
    · exact absurd same (Nat.ne_of_lt (h.versionAt_lt before within))
    · exact here
    · exact absurd same (Nat.ne_of_gt (h.versionAt_lt behind inside))
  · intro here
    rw [here]

/-- A save takes the current version. -/
theorem version_markSaved (j : Journal) : j.markSaved.value.1 = j.currentVersion := by
  simp only [markSaved, Narrated.value_bind, Narrated.value_pure, currentVersion]
  cases j.position with
  | zero => rfl
  | succ index => cases found : j.entries[index]? <;> simp [found]

/-- **A save marks the entry with the current version, and no other.** -/
theorem Rising.marks_markSaved (h : j.Rising) (within : j.position ≤ j.entries.length) :
    j.markSaved.value.2.Marks j.currentVersion := by
  intro entry member
  simp only [markSaved, Narrated.value_bind, Narrated.value_pure, List.mem_mapIdx] at member
  obtain ⟨index, inside, rfl⟩ := member
  rw [currentVersion_eq within]
  have named := h.version_eq_versionAt_iff (List.getElem?_eq_getElem inside) within
  simp [named]

/-! ## Single entries -/

/-- Where no version is used twice, at most one entry is marked. -/
theorem Marks.countP_le_one (marks : j.Marks saved) (h : j.Rising) :
    j.entries.countP (·.savePoint) ≤ 1 := by
  have distinct : (j.entries.map (·.version)).Nodup :=
    (ascending_iff_pairwise.mp h.ascending).1.imp Nat.ne_of_lt
  have same : j.entries.countP (·.savePoint) = (j.entries.map (·.version)).count saved := by
    rw [List.count_eq_countP, List.countP_map]
    refine List.countP_congr fun entry member => ?_
    simpa using marks entry member
  rw [same]
  exact List.nodup_iff_count_le_one.mp distinct saved

/-- The current version is the saved one where the entry before the position is marked, or
where there is none and the base version is the saved one. -/
theorem Marks.currentVersion_eq_iff (marks : j.Marks saved)
    (within : j.position ≤ j.entries.length) :
    j.currentVersion = saved ↔
      (∃ index entry, j.position = index + 1 ∧ j.entries[index]? = some entry ∧
        entry.savePoint = true) ∨ j.position = 0 ∧ j.baseVersion = saved := by
  cases position : j.position with
  | zero => simp [Journal.currentVersion, position]
  | succ index =>
    have found := List.getElem?_eq_getElem (l := j.entries) (i := index) (by omega)
    have named := marks _ (List.getElem_mem (l := j.entries) (n := index) (by omega))
    simp [Journal.currentVersion, position, found, named]

end Journal

/-! ## Buffers -/

/-- The marks agree with the saved version. It was given out, so that no change gets it
again. -/
structure Buffer.Marked (b : Buffer σ) : Prop where
  rising : b.journal.Rising
  saved_lt : b.savedVersion < b.journal.nextVersion
  marks : b.journal.Marks b.savedVersion

theorem Buffer.marked_markSaved {b : Buffer σ} (rising : b.journal.Rising)
    (within : b.journal.position ≤ b.journal.entries.length) : b.markSaved.value.Marked where
  rising := rising.serves (b.journal.serves_serve (.markSaved : Request σ))
  saved_lt := by
    show b.journal.markSaved.value.1 < b.journal.nextVersion
    rw [b.journal.version_markSaved]
    exact rising.currentVersion_lt within
  marks := by
    show b.journal.markSaved.value.2.Marks b.journal.markSaved.value.1
    rw [b.journal.version_markSaved]
    exact rising.marks_markSaved within

omit [Storage σ] in
/-- A new journal has no entries, and its text is the saved one. -/
theorem Buffer.marked_of_new {b : Buffer σ} (config : Config) (refusals : List Bool)
    (new : b.journal = (Journal.create config refusals).value)
    (saved : b.savedVersion = b.journal.currentVersion) : b.Marked := by
  obtain ⟨capacity, rest, -, empty⟩ := Journal.value_create config refusals
  rw [empty] at new
  have version : b.savedVersion = 0 := by
    rw [saved, new]
    rfl
  refine ⟨?_, ?_, ?_⟩
  · rw [new]
    exact ⟨Nat.zero_lt_one, ascending_nil⟩
  · rw [new, version]
    exact Nat.zero_lt_one
  · rw [new]
    simp [Journal.Marks]

namespace Buffer.Marked

/-- **No action parts the two names.** -/
theorem act {s : Session σ} (h : s.buffer.Marked)
    (within : s.buffer.journal.position ≤ s.buffer.journal.entries.length) (action : Action) :
    (s.act action).value.2.buffer.Marked := by
  cases saves : action.saves with
  | false =>
    refine ⟨?_, ?_, ?_⟩
    · rw [Session.journal_act]
      exact Journal.serveAll_invariant (P := Journal.Rising)
        (fun j request rising => rising.serves (j.serves_serve request)) h.rising _
    · rw [Session.journal_act, Session.savedVersion_act s saves]
      exact Nat.lt_of_lt_of_le h.saved_lt (Journal.nextVersion_le_serveAll _ _)
    · rw [Session.journal_act, Session.savedVersion_act s saves]
      exact h.marks.serveAll h.saved_lt (s.requests_unsaved saves)
  | true =>
    cases action with
    | markSaved => exact marked_markSaved h.rising within
    | clearHistory =>
      have cleared := h.rising.serves (s.buffer.journal.serves_serve (.clear : Request Text))
      exact marked_markSaved
        (b := { s.buffer with journal := s.buffer.journal.clear.value }) cleared
        (Nat.zero_le _)
    | _ => simp [Action.saves] at saves

/-- What is taken over from the file of another buffer is marked as there. -/
theorem load {b w : Buffer Text} (h : b.Marked) (written : w.Marked) (plain : w.journal.Plain)
    {savedAt : Nat} {place path : Path} {disk disk' d : Directory}
    (saved : (w.saveHistory savedAt place disk).value = (.ok (), disk'))
    (kept : d.readText? path = disk'.readText? place) :
    (b.loadHistory path d).value.2.Marked := by
  by_cases taken : (b.loadHistory path d).value.1 = .ok true
  · have pair : (b.loadHistory path d).value = (.ok true, (b.loadHistory path d).value.2) :=
      Prod.ext taken rfl
    obtain ⟨version, l, accepted, behind⟩ := loadHistory_eq_ok_true_iff.mp pair
    obtain ⟨rfl, ascending, rfl⟩ := Journal.load_written plain saved kept accepted
    rw [behind]
    refine ⟨?_, ?_, ?_⟩
    · exact (Journal.rising_restore_iff b.journal ascending w.journal.position).mpr
        (Nat.lt_of_lt_of_le written.rising.base_lt (Nat.le_max_left _ _))
    · show w.savedVersion < (b.journal.restore _ _ _ _).value.nextVersion
      rw [Journal.value_restore]
      exact Nat.lt_of_lt_of_le written.saved_lt (Nat.le_max_left _ _)
    · intro entry member
      exact written.marks entry (Journal.mem_of_mem_restore member)
  · rw [loadHistory_untouched taken]
    exact h

end Buffer.Marked

/-- The buffers that come about by any actions, and by loading histories: a file that such
a buffer saved is read where its text still stands. -/
inductive Buffer.Lived : Buffer Text → Prop
  | create (name text : Text) (config : Config) (refusals : List Bool) :
      Lived (Buffer.create name text config refusals).value
  | act (s : Session Text) (action : Action) (h : Lived s.buffer) :
      Lived (s.act action).value.2.buffer
  | withConfig (b : Buffer Text) (config : Config) (refusals : List Bool) (h : Lived b) :
      Lived (b.withConfig config refusals).value
  | load {b w : Buffer Text} {savedAt : Nat} {place : Path} {disk disk' : Directory}
      (path : Path) (d : Directory) (writer : Lived w)
      (saved : (w.saveHistory savedAt place disk).value = (.ok (), disk'))
      (kept : d.readText? path = disk'.readText? place) (h : Lived b) :
      Lived (b.loadHistory path d).value.2
  /-- Display brackets are opened and closed around the changes. -/
  | displayed (b : Buffer Text) (depth : EditDepth) (h : Lived b) : Lived { b with depth }

namespace Buffer.Lived

theorem reachable {b : Buffer Text} (h : b.Lived) : b.Reachable := by
  induction h with
  | create name text config refusals => exact .create name text config refusals
  | act s action h ih => exact ih.act s action
  | withConfig b config refusals h ih => exact ih.withConfig b config refusals
  | load path d writer saved kept h ihw ih => exact ih.load _ path d
  | displayed b depth h ih => exact ih.displayed b depth

theorem after {s : Session Text} (h : s.buffer.Lived) (actions : List Action) :
    (s.after actions).buffer.Lived := by
  induction actions generalizing s with
  | nil => exact h
  | cons action rest ih => exact ih (h.act s action)

/-- **The two names agree in every buffer that comes about so.** -/
theorem marked {b : Buffer Text} (h : b.Lived) : b.Marked := by
  induction h with
  | create name text config refusals => exact marked_of_new config refusals rfl rfl
  | act s action h ih => exact ih.act h.reachable.sound.position_le action
  | withConfig b config refusals h ih => exact marked_of_new config refusals rfl rfl
  | load path d writer saved kept h ihw ih =>
    exact ih.load ihw writer.reachable.sound.plain saved kept
  | displayed b depth h ih => exact ⟨ih.rising, ih.saved_lt, ih.marks⟩

end Buffer.Lived

/-- **The save points name the saved version**: of a buffer that comes about by any actions
and by loading histories that such buffers saved, the marked entries are those with the
saved version, so there is at most one. The text counts as unmodified exactly if the entry
before the position is marked, or if there is none before it and the base version is the
saved one. -/
theorem save_points_name_saved_version (b : Buffer Text) (lived : b.Lived) :
    (∀ entry ∈ b.journal.entries, entry.savePoint = true ↔ entry.version = b.savedVersion) ∧
    b.journal.entries.countP (·.savePoint) ≤ 1 ∧
    (b.isModified = false ↔
      (∃ index entry, b.journal.position = index + 1 ∧ b.journal.entries[index]? = some entry ∧
        entry.savePoint = true) ∨
      b.journal.position = 0 ∧ b.journal.baseVersion = b.savedVersion) := by
  have marked := lived.marked
  refine ⟨marked.marks, marked.marks.countP_le_one marked.rising, ?_⟩
  rw [← marked.marks.currentVersion_eq_iff lived.reachable.sound.position_le]
  simp [Buffer.isModified]

/-- Three changes, each in an entry of its own. The text is saved behind the second one. -/
def savedMidway : List Action :=
  [.insert ⟨0, 1⟩ ['b'] 0, .endRun, .insert ⟨0, 2⟩ ['c'] 1, .markSaved, .endRun,
    .insert ⟨0, 3⟩ ['d'] 2]

/-- With room for two of the entries the first one is dropped, and the second one is still
marked. The text is modified until the third one is undone. -/
theorem savedMidway_names_second :
    let s := (Session.opened [] ['a'] {}).after savedMidway
    let stored := (s.buffer.saveHistory 0 [['j']] {}).value
    ∃ b, ((Session.opened [] s.contents { maxEntries := 2 }).buffer.loadHistory [['j']]
        stored.2).value = (.ok true, b) ∧
      let back := (Session.act { buffer := b } (.step .undo)).value.2.buffer
      (back.journal.entries.map fun entry => (entry.version, entry.savePoint)) =
        [(2, true), (3, false)] ∧
      (∀ entry ∈ back.journal.entries, entry.savePoint = true ↔ entry.version = 2) ∧
      back.journal.entries.countP (·.savePoint) ≤ 1 ∧
      b.isModified = true ∧ back.isModified = false := by
  intro s stored
  have created : (Session.opened [] ['a'] {}).buffer.Lived := .create _ _ _ _
  have lived : s.buffer.Lived := created.after savedMidway
  have saved : stored = (.ok (), stored.2) := by rfl
  have text := Session.contents_opened [] s.contents { maxEntries := 2 } []
  have loaded := (Buffer.loadHistory_save_eq_ok_iff lived.reachable.sound.plain text saved).mpr
    ⟨by decide, by decide, rfl⟩
  refine ⟨_, loaded, ?_⟩
  intro back
  have reopened : (Session.opened [] s.contents { maxEntries := 2 }).buffer.Lived :=
    .create _ _ _ _
  have taken := Buffer.Lived.load [['j']] stored.2 lived saved rfl reopened
  rw [loaded] at taken
  have behind : back.Lived := taken.act { buffer := _ } (.step .undo)
  obtain ⟨named, single, unmodified⟩ := save_points_name_saved_version back behind
  have version : back.savedVersion = 2 := by decide +kernel
  rw [version] at named
  refine ⟨by decide +kernel, named, single, by decide +kernel, unmodified.mpr (.inl ?_)⟩
  exact ⟨0, _, by decide +kernel, rfl, by decide +kernel⟩

end EditJournal
