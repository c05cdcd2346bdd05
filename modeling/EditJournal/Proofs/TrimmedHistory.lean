/-
EditJournal.Proofs.TrimmedHistory — what is left of a history under a lower ceiling.

* `Journal.TrimmedTo` — of a journal, what exceeds a ceiling is dropped from its two
  ends: the entries are those from the index `Journal.firstKept` on, the position is
  moved with them, and the base version is that of the text they start from.
* `Session.staysInside` — a walk of steps that finds an entry to replay at each.

`loaded_history_is_trimmed` is the main result: a buffer on the same text that takes a
history over holds what is left of it, has the same version, and answers every walk
inside as the whole history does, with the same texts. On a history of its own
(`Buffer.Native`) no step fails, whatever the walk. A change that is journaled from
elsewhere is taken on trust, so a step over one may fail on either side.

## How the proof goes

The two loops are closed forms in the length, the position and the ceiling
(`dropOldest_eq`, `kept_eq`). What is left is an excerpt of the whole (`Excerpt`): a step
that finds an entry there finds the same one in the whole, further on by what was
dropped, so both replay it on the same text (`Excerpt.step`). That a walk succeeds, and
that each position has one text, is the ledger's doing (`Walked.walk`).
-/
import EditJournal.Proofs.Continuity
import EditJournal.Proofs.Timeline

namespace EditJournal

/-! ## What is kept -/

namespace Journal

variable {j k : Journal} {ceiling first : Nat}

/-- The index from which on entries are kept under a ceiling. -/
def firstKept (j : Journal) (ceiling : Nat) : Nat :=
  if j.length ≤ ceiling then 0 else j.position - ceiling

theorem firstKept_cases (j : Journal) (ceiling : Nat) :
    (j.length ≤ ceiling ∧ j.firstKept ceiling = 0) ∨
      (ceiling < j.length ∧ j.firstKept ceiling = j.position - ceiling) := by
  unfold firstKept
  split
  · exact Or.inl ⟨‹_›, rfl⟩
  · exact Or.inr ⟨Nat.lt_of_not_le ‹_›, rfl⟩

/-- The journal `k` holds what is left of `j` under a ceiling. -/
structure TrimmedTo (j : Journal) (ceiling : Nat) (k : Journal) : Prop where
  length : k.length = min j.length ceiling
  entries : k.entries = (j.entries.drop (j.firstKept ceiling)).take (min j.length ceiling)
  first_le : j.firstKept ceiling ≤ j.position
  position : k.position = j.position - j.firstKept ceiling
  base : j.firstKept ceiling = 0 → k.baseVersion = j.baseVersion
  /-- Where entries are dropped in front, the last of them gives the base version. -/
  base_dropped : ∀ index, j.firstKept ceiling = index + 1 →
    j.entries[index]?.map (·.version) = some k.baseVersion

/-- The oldest entries are dropped one by one, until the others fit or none of them
could be undone. -/
theorem dropOldest_eq (ceiling : Nat) (entries : List Entry) (position base : Nat) :
    let dropped := min (entries.length - ceiling) position
    dropOldest ceiling entries position base =
      (entries.drop dropped, position - dropped,
        versionBehind base (entries.take dropped)) := by
  fun_induction dropOldest ceiling entries position base with
  | case1 oldest rest position base above ih =>
    have one : min ((oldest :: rest).length - ceiling) (position + 1) =
        min (rest.length - ceiling) position + 1 := by
      rw [List.length_cons]
      omega
    rw [ih, one]
    simp
  | case2 oldest rest position base fits =>
    have stays : min ((oldest :: rest).length - ceiling) (position + 1) = 0 := by
      rw [List.length_cons]
      omega
    rw [stays]
    rfl
  | case3 entries position base stop =>
    have stays : min (entries.length - ceiling) position = 0 := by
      cases entries with
      | nil => simp
      | cons oldest rest =>
        cases position with
        | zero => exact Nat.min_zero _
        | succ position => exact (stop oldest rest position rfl rfl).elim
    rw [stays]
    rfl

/-- **What is kept of a history**: first the redo end goes, then the oldest entries. -/
theorem kept_eq (within : j.position ≤ j.length) (k : Journal) :
    let first := j.firstKept k.config.ceiling
    k.kept j.entries j.position j.baseVersion =
      ((j.entries.drop first).take (min j.length k.config.ceiling), j.position - first,
        j.versionAt first) := by
  intro first
  -- how many are left when the redo end is gone
  obtain ⟨front, front_eq⟩ : ∃ front, front = min j.length (max k.config.ceiling j.position) :=
    ⟨_, rfl⟩
  have redo : j.length - min (j.length - k.config.ceiling)
      (j.length - j.position) = front := by
    omega
  have counts : min (front - k.config.ceiling) j.position = first ∧ first ≤ front ∧
      front - first = min j.length k.config.ceiling := by
    rcases j.firstKept_cases k.config.ceiling with ⟨fits, kept⟩ | ⟨above, kept⟩
    · simp only [first, kept]
      omega
    · simp only [first, kept]
      omega
  obtain ⟨oldest, le, count⟩ := counts
  have front_length : (j.entries.take front).length = front :=
    List.length_take_of_le (front_eq ▸ Nat.min_le_left _ _)
  have trimmed : k.kept j.entries j.position j.baseVersion =
      dropOldest k.config.ceiling (j.entries.take front) j.position j.baseVersion := by
    have position : min j.position j.entries.length = j.position := Nat.min_eq_left within
    rw [← redo]
    simp only [Journal.kept, Journal.length, position]
  rw [trimmed, dropOldest_eq]
  simp only [front_length, oldest]
  rw [List.drop_take, count, List.take_take, Nat.min_eq_left le, versionAt]

/-- **A history that is taken over is trimmed to the ceiling.** -/
theorem trimmedTo_restore (within : j.position ≤ j.length) (k : Journal) (next : Nat) :
    j.TrimmedTo k.config.ceiling
      (k.restore j.entries j.position j.baseVersion next).value := by
  obtain ⟨first_le, room⟩ : j.firstKept k.config.ceiling ≤ j.position ∧
      min j.length k.config.ceiling ≤ j.length - j.firstKept k.config.ceiling := by
    rcases j.firstKept_cases k.config.ceiling with ⟨fits, kept⟩ | ⟨above, kept⟩
    · omega
    · omega
  rw [value_restore, kept_eq within]
  refine ⟨?_, rfl, first_le, rfl, ?_, ?_⟩
  · show ((j.entries.drop _).take _).length = _
    rw [List.length_take, List.length_drop]
    exact Nat.min_eq_left room
  · intro whole
    show j.versionAt (j.firstKept k.config.ceiling) = j.baseVersion
    rw [whole, versionAt_zero]
  · intro index dropped
    have inside : index < j.entries.length := by
      rw [Journal.length] at within
      omega
    show _ = some (j.versionAt (j.firstKept k.config.ceiling))
    rw [dropped, versionAt_succ (List.getElem?_eq_getElem inside),
      List.getElem?_eq_getElem inside]
    rfl

namespace TrimmedTo

variable (h : j.TrimmedTo ceiling k) (within : j.position ≤ j.length)

include h

/-- The base version is that of the text in front of the first entry. -/
theorem base_eq : k.baseVersion = j.versionAt (j.firstKept ceiling) := by
  cases hfirst : j.firstKept ceiling with
  | zero => rw [versionAt_zero, h.base hfirst]
  | succ index =>
    obtain ⟨e, at_index, version⟩ := Option.map_eq_some_iff.mp (h.base_dropped index hfirst)
    rw [versionAt_succ at_index, version]

include within

theorem position_le : k.position ≤ k.length := by
  rw [h.length, h.position]
  rcases j.firstKept_cases ceiling with ⟨fits, kept⟩ | ⟨above, kept⟩
  · omega
  · omega

/-- The text at the position keeps its version. -/
theorem currentVersion : k.currentVersion = j.currentVersion := by
  have inside := h.position_le within
  have room : k.position ≤ min j.length ceiling := h.length ▸ inside
  have front : j.entries.take j.position =
      j.entries.take (j.firstKept ceiling) ++ k.entries.take k.position := by
    rw [h.entries, List.take_take, Nat.min_eq_left room, ← List.take_add, h.position,
      Nat.add_sub_of_le h.first_le]
  rw [currentVersion_eq within, currentVersion_eq inside, Journal.versionAt, Journal.versionAt,
    front, versionBehind_append, h.base_eq, Journal.versionAt]

end TrimmedTo

/-! ## Excerpts -/

/-- Is there something to do for a step? -/
def canStep (j : Journal) : HistoryStep → Bool
  | .undo => j.canUndo
  | .redo => j.canRedo

theorem exists_target (within : j.position ≤ j.length) {direction : HistoryStep}
    (can : j.canStep direction = true) :
    ∃ index entry, j.target? direction = some (index, entry) := by
  have found : j.target? direction ≠ none := by
    cases direction with
    | undo =>
      have inside : 0 < j.position := of_decide_eq_true can
      rw [ne_eq, target?_undo_eq_none_iff within]
      omega
    | redo =>
      have inside : j.position < j.entries.length := of_decide_eq_true can
      rw [ne_eq, target?_redo_eq_none_iff within]
      omega
  obtain ⟨⟨index, entry⟩, target⟩ := Option.ne_none_iff_exists'.mp found
  exact ⟨index, entry, target⟩

theorem canStep_of_target {direction : HistoryStep} {index : Nat} {entry : Entry}
    (target : j.target? direction = some (index, entry)) : j.canStep direction = true := by
  obtain ⟨at_index, position⟩ := (target?_eq_some_iff j direction index entry).mp target
  have inside := (List.getElem?_eq_some_iff.mp at_index).1
  cases direction with
  | undo => simp [canStep, canUndo, position, positionAfter, HistoryStep.opposite]
  | redo =>
    have here : j.position = index := position
    simpa [canStep, canRedo, length, here] using inside

/-- The entries of `k` are some of `j`, from index `first` on, with the same
place among them. -/
structure Excerpt (j : Journal) (first : Nat) (k : Journal) : Prop where
  entries : ∀ index entry, k.entries[index]? = some entry →
    j.entries[first + index]? = some entry
  position : j.position = first + k.position
  within : k.position ≤ k.length

theorem TrimmedTo.excerpt (h : j.TrimmedTo ceiling k) (within : j.position ≤ j.length) :
    j.Excerpt (j.firstKept ceiling) k where
  entries index entry at_index := by
    rw [h.entries, List.getElem?_take] at at_index
    split at at_index
    · rwa [List.getElem?_drop] at at_index
    · simp at at_index
  position := by
    have first_le := h.first_le
    rw [h.position]
    omega
  within := h.position_le within

namespace Excerpt

variable {direction : HistoryStep} {index : Nat} {entry : Entry}

theorem target? (h : j.Excerpt first k) (target : k.target? direction = some (index, entry)) :
    j.target? direction = some (first + index, entry) := by
  obtain ⟨at_index, position⟩ := (target?_eq_some_iff k direction index entry).mp target
  refine (target?_eq_some_iff j direction _ entry).mpr ⟨h.entries index entry at_index, ?_⟩
  rw [h.position, position]
  cases direction <;> rfl

theorem stepped (h : j.Excerpt first k) (target : k.target? direction = some (index, entry)) :
    (j.stepped direction (first + index)).Excerpt first (k.stepped direction index) where
  entries := h.entries
  position := by cases direction <;> rfl
  within := by
    obtain ⟨at_index, -⟩ := (target?_eq_some_iff k direction index entry).mp target
    have inside := (List.getElem?_eq_some_iff.mp at_index).1
    cases direction with
    | undo => exact Nat.le_of_lt inside
    | redo => exact inside

/-- **A step inside the excerpt does the same in the whole**, whether it succeeds or
fails. -/
theorem step (h : j.Excerpt first k) (can : k.canStep direction = true) (s : Text) :
    (j.step direction s).value.1 = (k.step direction s).value.1 ∧
      (j.step direction s).value.2.1.Excerpt first (k.step direction s).value.2.1 ∧
      (j.step direction s).value.2.2 = (k.step direction s).value.2.2 := by
  obtain ⟨index, entry, target⟩ := exists_target h.within can
  simp only [value_step, target, h.target? target]
  cases (entry.replay direction s).value with
  | mk result t =>
    cases result with
    | ok _ => exact ⟨rfl, h.stepped target, rfl⟩
    | error error => exact ⟨rfl, ⟨h.entries, h.position, h.within⟩, rfl⟩

end Excerpt

end Journal

/-! ## Walks -/

namespace Session

variable {s t : Session Text} {first : Nat}

theorem answer_step (s : Session Text) (direction : HistoryStep) :
    (s.act (.step direction)).value.1 =
      .stepped (s.buffer.journal.step direction s.buffer.store).value.1 := rfl

theorem step_fails {direction : HistoryStep}
    (h : (s.buffer.journal.step direction s.buffer.store).value.1.toOption = none) :
    ∃ error, (s.act (.step direction)).value.1 = .stepped (.error error) := by
  rw [answer_step]
  cases hv : (s.buffer.journal.step direction s.buffer.store).value.1 with
  | error error => exact ⟨error, rfl⟩
  | ok cursor => simp [hv, Except.toOption] at h

/-- Does each step of a walk have something to do? -/
def staysInside (s : Session Text) : List HistoryStep → Bool
  | [] => true
  | direction :: rest =>
    s.buffer.journal.canStep direction && (s.act (.step direction)).value.2.staysInside rest

/-- The texts are the same, and the journal of `t` is an excerpt of that of `s`. -/
structure Excerpt (s : Session Text) (first : Nat) (t : Session Text) : Prop where
  journal : s.buffer.journal.Excerpt first t.buffer.journal
  store : s.buffer.store = t.buffer.store

namespace Excerpt

theorem step (h : s.Excerpt first t) {direction : HistoryStep}
    (can : t.buffer.journal.canStep direction = true) :
    (s.act (.step direction)).value.1 = (t.act (.step direction)).value.1 ∧
      (s.act (.step direction)).value.2.Excerpt first (t.act (.step direction)).value.2 := by
  obtain ⟨answer, journal, store⟩ := h.journal.step can t.buffer.store
  have same := h.store
  refine ⟨?_, ?_, ?_⟩
  · rw [answer_step, answer_step, same, answer]
  · show (s.buffer.journal.step direction s.buffer.store).value.2.1.Excerpt first _
    rw [same]
    exact journal
  · show (s.buffer.journal.step direction s.buffer.store).value.2.2 = _
    rw [same]
    exact store

/-- **A walk inside the excerpt does the same in the whole, and stays inside it.** -/
theorem walk (h : s.Excerpt first t) {steps : List HistoryStep}
    (inside : t.staysInside steps = true) :
    (s.run (steps.map .step)).value.1 = (t.run (steps.map .step)).value.1 ∧
      (s.after (steps.map .step)).Excerpt first (t.after (steps.map .step)) ∧
      s.staysInside steps = true := by
  induction steps generalizing s t with
  | nil => exact ⟨rfl, h, rfl⟩
  | cons direction rest ih =>
    obtain ⟨can, inside⟩ := Bool.and_eq_true_iff.mp inside
    obtain ⟨answer, behind⟩ := h.step can
    obtain ⟨answers, there, stays⟩ := ih behind inside
    obtain ⟨index, entry, target⟩ := Journal.exists_target h.journal.within can
    have can' := Journal.canStep_of_target (h.journal.target? target)
    refine ⟨?_, there, ?_⟩
    · simp only [List.map_cons, run, Narrated.value_bind, Narrated.value_pure]
      rw [answer, answers]
    · simp [staysInside, can', stays]

end Excerpt

variable {ledger : Ledger} {position : Nat}

/-- Every walk ends at some position of the same history. -/
theorem Walked.walk (h : Walked ledger s t position) (steps : List HistoryStep) :
    Walked ledger s (t.after (steps.map .step))
      (t.after (steps.map .step)).buffer.journal.position := by
  induction steps generalizing t position with
  | nil =>
    obtain rfl := h.there
    exact h
  | cons direction rest ih =>
    rcases h.covers.step direction with ⟨-, hv⟩ | ⟨index, entry, target, -⟩
    · have same : (t.act (.step direction)).value.2.buffer = t.buffer := congrArg Prod.snd hv
      have stays : Walked ledger s (t.act (.step direction)).value.2 position :=
        ⟨same ▸ h.covers, same ▸ h.entries, same ▸ h.base, same ▸ h.there⟩
      exact ih stays
    · exact ih (h.step target)

/-- Where a ledger accounts for the history, no step of a walk inside it fails. -/
theorem walk_answers (h : ledger.Covers s.buffer) {steps : List HistoryStep}
    (inside : s.staysInside steps = true) :
    ∀ answer ∈ (s.run (steps.map .step)).value.1,
      ∃ cursor, answer = .stepped (.ok (some cursor)) := by
  induction steps generalizing s with
  | nil => simp [run]
  | cons direction rest ih =>
    obtain ⟨can, inside⟩ := Bool.and_eq_true_iff.mp inside
    obtain ⟨index, entry, target⟩ := Journal.exists_target h.explains.position_le can
    obtain ⟨cursor, answer, none_iff⟩ := step_answer h direction
    have found : cursor ≠ none := fun none => by simp [none_iff.mp none] at target
    obtain ⟨place, rfl⟩ := Option.ne_none_iff_exists'.mp found
    have covers := (h.step_carries direction).1.covers
    simp only [List.map_cons, run, Narrated.value_bind, Narrated.value_pure,
      List.forall_mem_cons]
    exact ⟨⟨place, answer⟩, ih covers inside⟩

end Session

/-- **A history that is taken over under a lower ceiling is trimmed from its two ends,
and what is left of it goes on as the whole does.** Whatever came about in a session,
once its history was saved and taken over on the same text: the version is the same, and
every walk inside what is left is answered as in the session and shows the same text.
Where the history of the session is its own, no step of such a walk fails, and the text
is the one that every walk of the session to that position shows. -/
theorem loaded_history_is_trimmed (s t : Session Text) (b : Buffer Text) (savedAt : Nat)
    (path : Path) (d d' : Directory) (reachable : s.buffer.Reachable)
    (text : b.contents = s.contents)
    (saved : (s.buffer.saveHistory savedAt path d).value = (.ok (), d'))
    (loaded : (b.loadHistory path d').value = (.ok true, t.buffer)) :
    let ceiling := max b.journal.config.maxEntries 1
    let first := s.buffer.journal.firstKept ceiling
    s.buffer.journal.TrimmedTo ceiling t.buffer.journal ∧
    t.contents = s.contents ∧
    t.buffer.journal.currentVersion = s.buffer.journal.currentVersion ∧
    t.buffer.isModified = s.buffer.isModified ∧
    ∀ steps : List HistoryStep, t.staysInside steps = true →
      let walk := steps.map Action.step
      (t.run walk).value.1 = (s.run walk).value.1 ∧
      (t.after walk).contents = (s.after walk).contents ∧
      first + (t.after walk).buffer.journal.position = (s.after walk).buffer.journal.position ∧
      (s.buffer.Native →
        (∀ answer ∈ (t.run walk).value.1, ∃ cursor, answer = .stepped (.ok (some cursor))) ∧
        ∀ others : List HistoryStep,
          (s.after (others.map .step)).buffer.journal.position =
              first + (t.after walk).buffer.journal.position →
            (s.after (others.map .step)).contents = (t.after walk).contents) := by
  intro ceiling first
  have loads :=
    Buffer.loadHistory_save_eq_ok_iff (c := t.buffer) reachable.sound.plain text saved
  obtain ⟨-, ⟨within, -⟩, taken⟩ := loads.mp loaded
  have trimmed : s.buffer.journal.TrimmedTo ceiling t.buffer.journal := by
    rw [taken]
    exact Journal.trimmedTo_restore within b.journal _
  have store : s.buffer.store = t.buffer.store := by
    rw [taken]
    exact text.symm
  have current := trimmed.currentVersion within
  have savedVersion : t.buffer.savedVersion = s.buffer.savedVersion := by rw [taken]
  refine ⟨trimmed, store.symm, current, ?_, ?_⟩
  · rw [Buffer.isModified, Buffer.isModified, current, savedVersion]
  · intro steps inside walk
    have excerpt : s.Excerpt first t := ⟨trimmed.excerpt within, store⟩
    obtain ⟨answers, there, stays⟩ := excerpt.walk inside
    refine ⟨answers.symm, there.store.symm, there.journal.position.symm, fun native => ?_⟩
    obtain ⟨ledger, covers⟩ := native.covers
    refine ⟨answers ▸ Session.walk_answers covers stays, fun others same => ?_⟩
    -- both walks of the session end at the same position
    have here := (Session.Walked.refl covers).walk steps
    have elsewhere := (Session.Walked.refl covers).walk others
    have contents : (t.after walk).contents = (s.after walk).contents := there.store.symm
    rw [contents, elsewhere.contents_eq, here.contents_eq, same, there.journal.position]

/-- Four changes, each in an entry of its own, and a step back. -/
def fourChanges : List Action :=
  [.insert ⟨0, 2⟩ ['c'] 0, .endRun, .insert ⟨0, 3⟩ ['\n'] 1, .markSaved, .endRun,
    .insert ⟨1, 0⟩ ['é'] 2, .endRun, .delete ⟨0, 0⟩ 1 3, .step .undo]

/-- With room for two of the entries, the undone one and the oldest are dropped. Both of
the others can be undone, and the first of them redone. -/
theorem fourChanges_are_trimmed :
    let s := (Session.opened [] ['a', 'b'] {}).after fourChanges
    let b := (Session.opened [] s.contents { maxEntries := 2 }).buffer
    let stored := (s.buffer.saveHistory 0 [['j']] {}).value
    let walk : List Action := [.step .undo, .step .undo, .step .redo]
    ∃ c, (b.loadHistory [['j']] stored.2).value = (.ok true, c) ∧
      let t : Session Text := { buffer := c }
      c.journal.entries = (s.buffer.journal.entries.drop 1).take 2 ∧
      c.journal.position = 2 ∧ c.journal.baseVersion = 1 ∧
      c.isModified = s.buffer.isModified ∧
      (∀ answer ∈ (t.run walk).value.1, ∃ cursor, answer = .stepped (.ok (some cursor))) ∧
      (t.after walk).contents = ['a', 'b', 'c', '\n'] := by
  intro s b stored walk
  have created : (Session.opened [] ['a', 'b'] {}).buffer.Native := .create _ _ _ _
  have native : s.buffer.Native := created.after (by decide)
  have saved : stored = (.ok (), stored.2) := by rfl
  have text := Session.contents_opened [] s.contents { maxEntries := 2 } []
  have loaded :=
    (Buffer.loadHistory_save_eq_ok_iff native.reachable.sound.plain text saved).mpr
    ⟨by decide, by decide, rfl⟩
  obtain ⟨trimmed, -, -, modified, walks⟩ := loaded_history_is_trimmed s { buffer := _ } b 0
    [['j']] {} stored.2 native.reachable text saved loaded
  obtain ⟨-, contents, -, own⟩ := walks [.undo, .undo, .redo] (by decide)
  obtain ⟨succeeds, -⟩ := own native
  refine ⟨_, loaded, ?_, ?_, ?_, modified, succeeds, ?_⟩
  · exact trimmed.entries
  · exact trimmed.position
  · decide +kernel
  · exact contents.trans (by decide +kernel)

/-- A change that was never made on the text is journaled. -/
def unmadeChange : List Action := [.record .insert ⟨0, 2⟩ ['c'] 0]

/-- It is taken over, and the position is behind it; but it cannot be undone. -/
theorem unmadeChange_is_not_undone :
    let s := (Session.opened [] ['a', 'b'] {}).after unmadeChange
    let b := (Session.opened [] s.contents {}).buffer
    let stored := (s.buffer.saveHistory 0 [['j']] {}).value
    stored.1 = .ok () ∧
    ∃ c, (b.loadHistory [['j']] stored.2).value = (.ok true, c) ∧
      let t : Session Text := { buffer := c }
      t.staysInside [.undo] = true ∧
      ∃ error, (t.act (.step .undo)).value.1 = .stepped (.error error) := by
  intro s b stored
  have created : (Session.opened [] ['a', 'b'] {}).buffer.Reachable := .create _ _ _ _
  have reachable : s.buffer.Reachable := created.after unmadeChange
  have saved : stored = (.ok (), stored.2) := by rfl
  have text := Session.contents_opened [] s.contents {} []
  have loaded := (Buffer.loadHistory_save_eq_ok_iff reachable.sound.plain text saved).mpr
    ⟨by decide, by decide, rfl⟩
  exact ⟨congrArg Prod.fst saved, _, loaded, by decide +kernel,
    Session.step_fails (by decide +kernel)⟩

end EditJournal
