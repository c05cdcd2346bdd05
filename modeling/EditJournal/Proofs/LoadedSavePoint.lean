/-
EditJournal.Proofs.LoadedSavePoint — after a history was taken over, does a change
make the text count as modified?

The saved version is a number of the file, compared with versions that are given out
later. `Session.EditsModify s` says that in the session `s` every insertion and every
deletion that changes the text makes it count as modified.

`loaded_edits_modify_iff` is the main result: that holds throughout every run without
a save exactly if the saved version of the file is below the next version of the
journal that took it over. The checks of a file do not ask for it
(`savedAhead_is_met`).

## How the proof goes

A change gets the next version, which no request makes smaller, and a run without a
save keeps the saved version. So a saved version below the next one is never met
again (`Session.Ahead`); and one that is not is met by typing on, for every key takes
one version (`Session.nextVersion_typing`).
-/
import EditJournal.Proofs.RisingVersions
import EditJournal.Proofs.SavePoints

namespace EditJournal

variable {σ : Type} [Storage σ]

/-! ## Fresh versions -/

namespace Journal

/-- Ready to take a change in: nothing is being replayed, and the position is among the
entries. -/
structure Ready (j : Journal) : Prop where
  idle : j.replaying = false
  position_le : j.position ≤ j.entries.length

variable {j k : Journal}

theorem Ready.serves (h : j.Ready) (serves : j.Serves k) : k.Ready :=
  ⟨serves.idle h.idle, serves.position_le h.position_le⟩

theorem Ready.serveAll (h : j.Ready) (requests : List (Request σ)) :
    (j.serveAll requests).Ready :=
  serveAll_invariant (P := Ready)
    (fun j request h => h.serves (j.serves_serve request)) h requests

theorem nextVersion_le_serveAll (j : Journal) (requests : List (Request σ)) :
    j.nextVersion ≤ (j.serveAll requests).nextVersion :=
  serveAll_invariant (P := fun k => j.nextVersion ≤ k.nextVersion)
    (fun k request h => Nat.le_trans h (k.serves_serve request).nextVersion_le) (Nat.le_refl _)
    requests

/-- A change is taken in under the next version, which is then the current one. -/
theorem Ready.fresh (h : j.Ready) {kind : EditKind} (hkind : kind ≠ .replace) {text : Text}
    (hne : text ≠ []) (place : Location) (now : Nat) :
    (j.serve (.record kind place text now : Request σ)).currentVersion = j.nextVersion ∧
      (j.serve (.record kind place text now : Request σ)).nextVersion = j.nextVersion + 1 := by
  obtain ⟨status, k, hv⟩ := exists_record_eq_ok h.idle hkind place text now
  have behind : j.serve (.record kind place text now : Request σ) = k := by simp [serve, hv]
  obtain ⟨p, d, last, leaves⟩ :=
    ((record_eq_ok_iff h.idle hkind).mp hv).leaves_of_nonempty hne
  rw [behind]
  exact ⟨leaves.currentVersion h.position_le, leaves.next⟩

/-- A journal that took a history over is ready, if nothing is being replayed. -/
theorem ready_restore (idle : j.replaying = false) (entries : List Entry)
    (position base next : Nat) : (j.restore entries position base next).value.Ready := by
  refine ⟨?_, j.position_restore_le entries position base next⟩
  rw [value_restore]
  exact idle

end Journal

/-! ## Changes under the next version -/

namespace Session

variable {s : Session σ}

theorem ready_act (ready : s.buffer.journal.Ready) (action : Action) :
    (s.act action).value.2.buffer.journal.Ready := by
  rw [journal_act]
  exact ready.serveAll _

/-- An insertion or a deletion that changes the text is journaled under the next
version. -/
theorem fresh_of_insert (ready : s.buffer.journal.Ready) {place stop : Location} {text : Text}
    {now : Nat} (done : (s.act (.insert place text now)).value.1 = .inserted (.ok stop))
    (hne : text ≠ []) :
    (s.act (.insert place text now)).value.2.buffer.journal.currentVersion =
        s.buffer.journal.nextVersion ∧
      (s.act (.insert place text now)).value.2.buffer.journal.nextVersion =
        s.buffer.journal.nextVersion + 1 := by
  rw [journal_act]
  cases hi : (Storage.insert s.buffer.store place text).value with
  | mk result store =>
    cases result with
    | error cause => simp [act, Buffer.insert, hi] at done
    | ok stop =>
      simp only [requests, hi, Journal.serveAll_cons, Journal.serveAll_nil]
      exact ready.fresh (by decide) hne place now

theorem fresh_of_delete (ready : s.buffer.journal.Ready) {place : Location} {length now : Nat}
    {removed : Text}
    (done : (s.act (.delete place length now)).value.1 = .deleted (.ok removed))
    (hne : removed ≠ []) :
    (s.act (.delete place length now)).value.2.buffer.journal.currentVersion =
      s.buffer.journal.nextVersion := by
  rw [journal_act]
  cases hd : (Storage.delete s.buffer.store place length).value with
  | mk result store =>
    cases result with
    | error cause => simp [act, Buffer.delete, hd] at done
    | ok found =>
      have same : found = removed := by
        simp only [act, Buffer.delete, Narrated.value_bind, Narrated.value_pure, hd,
          Answer.deleted.injEq] at done
        cases hr : (Buffer.record { s.buffer with store } .delete place found now).value.1 <;>
          simp_all [Except.map]
      simp only [requests, hd, Journal.serveAll_cons, Journal.serveAll_nil, same]
      exact (ready.fresh (by decide) hne place now).1

/-! ## Changes that modify -/

/-- Every insertion and every deletion that changes the text makes it count as
modified. -/
structure EditsModify (s : Session σ) : Prop where
  insert : ∀ place text now stop,
    (s.act (.insert place text now)).value.1 = .inserted (.ok stop) → text ≠ [] →
      (s.act (.insert place text now)).value.2.buffer.isModified = true
  delete : ∀ place length now removed,
    (s.act (.delete place length now)).value.1 = .deleted (.ok removed) → removed ≠ [] →
      (s.act (.delete place length now)).value.2.buffer.isModified = true

/-- No version that will be given out is the saved one. -/
structure Ahead (s : Session σ) : Prop where
  ready : s.buffer.journal.Ready
  saved_lt : s.buffer.savedVersion < s.buffer.journal.nextVersion

theorem Ahead.act (h : s.Ahead) {action : Action} (unsaved : action.saves = false) :
    (s.act action).value.2.Ahead := by
  refine ⟨ready_act h.ready action, ?_⟩
  rw [journal_act, savedVersion_act s unsaved]
  exact Nat.lt_of_lt_of_le h.saved_lt (Journal.nextVersion_le_serveAll _ _)

theorem Ahead.after (h : s.Ahead) {actions : List Action}
    (unsaved : ∀ action ∈ actions, action.saves = false) : (s.after actions).Ahead := by
  induction actions generalizing s with
  | nil => exact h
  | cons action rest ih =>
    rw [List.forall_mem_cons] at unsaved
    exact ih (h.act unsaved.1) unsaved.2

theorem Ahead.editsModify (h : s.Ahead) : s.EditsModify := by
  have modified (action : Action) (unsaved : action.saves = false)
      (fresh : (s.act action).value.2.buffer.journal.currentVersion =
        s.buffer.journal.nextVersion) : (s.act action).value.2.buffer.isModified = true := by
    have below := h.saved_lt
    rw [Buffer.isModified, savedVersion_act s unsaved, fresh, bne_iff_ne]
    omega
  refine ⟨fun place text now stop done hne => ?_, fun place length now removed done hne => ?_⟩
  · exact modified _ rfl (fresh_of_insert h.ready done hne).1
  · exact modified _ rfl (fresh_of_delete h.ready done hne)

/-! ## Typing on -/

/-- An insertion at the start of a text succeeds. -/
theorem inserted_at_origin {s : Session Text} (ready : s.buffer.journal.Ready) (text : Text)
    (now : Nat) :
    ∃ stop, (s.act (.insert .origin text now)).value.1 = .inserted (.ok stop) := by
  have changed : Text.insertAt s.buffer.store .origin text =
      .ok (Location.advance .origin text, text ++ s.buffer.store) :=
    (Text.insertAt_eq_ok_iff _ _ _ _ _).mpr ⟨rfl, [], s.buffer.store, rfl, rfl, rfl⟩
  have plain : EditKind.insert ≠ .replace := by decide
  obtain ⟨status, k, journaled⟩ :=
    Journal.exists_record_eq_ok ready.idle plain .origin text now
  refine ⟨Location.advance .origin text, ?_⟩
  simp [act, Buffer.insert, Buffer.record, Storage.insert, Text.insertTold, changed, journaled,
    Except.map]

/-- As many keys, typed at the start. -/
def typing (count : Nat) : List Action := List.replicate count (.insert .origin ['a'] 0)

theorem typing_unsaved (count : Nat) : ∀ action ∈ typing count, action.saves = false := by
  intro action member
  rw [List.eq_of_mem_replicate member]
  rfl

/-- Every key takes one version. -/
theorem nextVersion_typing {s : Session Text} (ready : s.buffer.journal.Ready) (count : Nat) :
    (s.after (typing count)).buffer.journal.Ready ∧
      (s.after (typing count)).buffer.journal.nextVersion =
        s.buffer.journal.nextVersion + count := by
  induction count generalizing s with
  | zero => exact ⟨ready, rfl⟩
  | succ count ih =>
    obtain ⟨stop, done⟩ := inserted_at_origin ready ['a'] 0
    have fresh := (fresh_of_insert ready done (by simp)).2
    obtain ⟨readyThen, next⟩ := ih (ready_act ready (.insert .origin ['a'] 0))
    refine ⟨readyThen, ?_⟩
    rw [typing, List.replicate_succ, after_cons]
    rw [typing] at next
    omega

/-- **Every change modifies, throughout every run without a save, exactly if the saved
version is below the next one.** -/
theorem editsModify_iff {s : Session Text} (ready : s.buffer.journal.Ready) :
    (∀ actions : List Action, (∀ action ∈ actions, action.saves = false) →
        (s.after actions).EditsModify) ↔
      s.buffer.savedVersion < s.buffer.journal.nextVersion := by
  constructor
  · intro modifies
    by_contra behind
    -- keys up to the saved version, and one more that is journaled under it
    let keys := s.buffer.savedVersion - s.buffer.journal.nextVersion
    obtain ⟨readyThen, next⟩ := nextVersion_typing ready keys
    have modified := modifies (typing keys) (typing_unsaved keys)
    have same := savedVersion_after s (typing_unsaved keys)
    obtain ⟨stop, done⟩ := inserted_at_origin readyThen ['a'] 0
    have fresh := (fresh_of_insert readyThen done (by simp)).1
    have counts := modified.insert _ _ _ _ done (by simp)
    rw [Buffer.isModified, bne_iff_ne, fresh, savedVersion_act _ rfl, same] at counts
    omega
  · intro below actions unsaved
    have ahead : s.Ahead := ⟨ready, below⟩
    exact (ahead.after unsaved).editsModify

end Session

/-- **After a history was taken over, every change makes the text count as modified**,
throughout every run without a save, exactly if the saved version of the file is below
the next version of the journal. Between two actions no replay is going on, so `idle`
holds of every buffer that a run comes to. -/
theorem loaded_edits_modify_iff (b loaded : Buffer Text) (path : Path) (d : Directory)
    (screen : Screen) (accepted : (b.loadHistory path d).value = (.ok true, loaded))
    (idle : b.journal.replaying = false) :
    ∃ file, JournalFile.load d path = .ok (some file) ∧
      loaded.savedVersion = file.savedVersion ∧
      ((∀ actions : List Action, (∀ action ∈ actions, action.saves = false) →
          (({ buffer := loaded, screen } : Session Text).after actions).EditsModify) ↔
        file.savedVersion < max file.nextVersion b.journal.nextVersion) := by
  obtain ⟨file, entries, found, -, rfl⟩ := Buffer.loadHistory_eq_ok_true_iff_suits.mp accepted
  refine ⟨file, found, rfl, ?_⟩
  have next : (b.journal.restore entries file.position file.baseVersion
      file.nextVersion).value.nextVersion = max file.nextVersion b.journal.nextVersion := by
    rw [Journal.value_restore]
    rfl
  rw [← next]
  exact Session.editsModify_iff
    (Journal.ready_restore idle entries file.position file.baseVersion file.nextVersion)

/-- Behind the file with gaps, which saves version 9: the text is changed in an undo
group, and on a branch behind an undo. Either change counts. -/
theorem gappedFile_edits_modify :
    let b : Buffer Text := (Session.opened [] ['b'] {}).buffer
    let first : List Action := [.groupBegin, .insert ⟨0, 1⟩ ['c'] 0, .groupEnd]
    ∃ loaded, (b.loadHistory [['j']] gappedFile.onDisk).value = (.ok true, loaded) ∧
      b.journal.replaying = false ∧ loaded.savedVersion = 9 ∧
      let s : Session Text := { buffer := loaded }
      ((s.after first).act (.delete ⟨0, 0⟩ 1 0)).value.2.buffer.isModified = true ∧
      ((s.after (first ++ [.step .undo])).act
        (.insert ⟨0, 1⟩ ['d'] 0)).value.2.buffer.isModified = true := by
  intro b first
  let typed : Entry :=
    { first := ⟨.insert, ⟨0, 0⟩, ['b'], none⟩, timestamp := 0, version := 5 }
  let undone : Entry :=
    { first := ⟨.delete, ⟨0, 0⟩, ['b'], none⟩, timestamp := 4, group := some 7, version := 9
      savePoint := true }
  have found := JournalFile.load_onDisk (f := gappedFile) (by decide) (by decide)
  have suits : gappedFile.Suits b.contents [typed, undone] := ⟨rfl, rfl, rfl, rfl⟩
  have accepted := b.loadHistory_of_suits found suits
  have journal : (b.journal.restore [typed, undone] gappedFile.position gappedFile.baseVersion
      gappedFile.nextVersion).value =
      { entries := [typed, undone], position := 1, config := {}, totalBytes := 226,
        baseVersion := 3
        nextVersion := 20, capacity := 128, grouping := { newest := 7 } } := by decide
  rw [journal] at accepted
  obtain ⟨file, found', -, modifies⟩ := loaded_edits_modify_iff b _ _ _ {} accepted rfl
  obtain rfl : gappedFile = file := by simpa [found] using found'
  have modified := modifies.mpr (by decide)
  have grouped := modified first (by decide)
  have branched := modified (first ++ [.step .undo]) (by decide)
  refine ⟨_, accepted, rfl, rfl, ?_⟩
  exact ⟨grouped.delete _ _ _ ['b'] (by rfl) (by decide),
    branched.insert _ _ _ ⟨0, 2⟩ (by rfl) (by decide)⟩

/-- A file without entries, whose saved version is still to be given out. -/
def savedAhead : JournalFile :=
  { savedAt := 0, digest := Text.digest [], length := 0, position := 0, baseVersion := 0
    nextVersion := 1, savedVersion := 2, entries := [] }

/-- It is taken over, and the second change behind it gets that version: the text,
two keys away from what the file was saved with, counts as saved. -/
theorem savedAhead_is_met :
    let b : Buffer Text := (Session.opened [] [] {}).buffer
    ∃ loaded, (b.loadHistory [['j']] savedAhead.onDisk).value = (.ok true, loaded) ∧
      let s : Session Text := { buffer := loaded }
      let typed := s.after [.insert ⟨0, 0⟩ ['a'] 0, .endRun, .insert ⟨0, 1⟩ ['b'] 0]
      typed.contents = ['a', 'b'] ∧ typed.buffer.journal.currentVersion = 2 ∧
        typed.buffer.isModified = false := by
  intro b
  have found := JournalFile.load_onDisk (f := savedAhead) (by decide) (by decide)
  have suits : savedAhead.Suits b.contents [] := ⟨rfl, rfl, rfl, rfl⟩
  refine ⟨_, b.loadHistory_of_suits found suits, ?_⟩
  intro s typed
  exact ⟨by decide +kernel, by decide +kernel, by decide +kernel⟩

end EditJournal
