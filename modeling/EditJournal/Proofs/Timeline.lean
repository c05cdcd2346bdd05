/-
EditJournal.Proofs.Timeline — the text at every position of a journal.

`Journal.Timeline j s texts` says that `texts` has a text for each position of
the journal `j`: at the position it is `s`, and each entry leads, forward and
back, between the texts on its two sides.

`run_has_timeline` is the main result. Whatever was done in a session, its
journal has a timeline; so steps never fail and end exactly at the ends of the
history, and steps back and forth meet the same texts again (`Walked`).
-/
import EditJournal.Proofs.Runs

namespace EditJournal

open Ledger (Covers)

/-- The texts at the positions of a journal on the text `s`. -/
structure Journal.Timeline (j : Journal) (s : Text) (texts : Nat → Text) : Prop where
  position_le : j.position ≤ j.length
  here : texts j.position = s
  forward : ∀ index entry, j.entries[index]? = some entry →
    (entry.replay .redo (texts index)).value = (.ok (), texts (index + 1))
  back : ∀ index entry, j.entries[index]? = some entry →
    (entry.replay .undo (texts (index + 1))).value = (.ok (), texts index)

/-- A ledger has the texts. -/
theorem Ledger.Explains.timeline {ledger : Ledger} {j : Journal} {s : Text}
    (h : ledger.Explains j s) :
    j.Timeline s fun position => ledger (j.versionAt position) where
  position_le := h.position_le
  here := h.here
  forward _ entry he := ((entry.replay_atomic .redo _).ok_iff _).mpr (h.leads he)
  back _ entry he := ((entry.replay_atomic .undo _).ok_iff _).mpr (h.leads he)

namespace Journal

variable {j : Journal}

/-- There is nothing to undo exactly at the start. -/
theorem target?_undo_eq_none_iff (h : j.position ≤ j.entries.length) :
    j.target? .undo = none ↔ j.position = 0 := by
  cases hp : j.position with
  | zero => simp [target?, hp]
  | succ index =>
    rw [target?_undo_succ j index hp]
    have hlt : index < j.entries.length := by omega
    simp [hlt]

/-- There is nothing to redo exactly at the end. -/
theorem target?_redo_eq_none_iff (h : j.position ≤ j.entries.length) :
    j.target? .redo = none ↔ j.position = j.entries.length := by
  simp only [target?, Option.map_eq_none_iff, List.getElem?_eq_none_iff]
  omega

end Journal

namespace Session

variable {ledger : Ledger} {s t : Session Text} {position : Nat}

/-! ## Walking along the history -/

/-- The session `t` is the session `s` with its history walked to a position. -/
structure Walked (ledger : Ledger) (s t : Session Text) (position : Nat) : Prop where
  covers : ledger.Covers t.buffer
  entries : t.buffer.journal.entries = s.buffer.journal.entries
  base : t.buffer.journal.baseVersion = s.buffer.journal.baseVersion
  there : t.buffer.journal.position = position

namespace Walked

theorem refl (h : ledger.Covers s.buffer) : Walked ledger s s s.buffer.journal.position :=
  ⟨h, rfl, rfl, rfl⟩

theorem contents_eq (h : Walked ledger s t position) :
    t.contents = ledger (s.buffer.journal.versionAt position) := by
  have here := h.covers.explains.here
  rw [h.there, Journal.versionAt_congr h.base (by rw [h.entries])] at here
  exact here.symm

/-- A step that has a target moves past it. -/
theorem step {direction : HistoryStep} {index : Nat} {entry : Entry}
    (h : Walked ledger s t position)
    (ht : t.buffer.journal.target? direction = some (index, entry)) :
    Walked ledger s (t.act (.step direction)).value.2
      (Journal.positionAfter index direction) := by
  rcases h.covers.step direction with ⟨hnone, -⟩ | ⟨index', entry', ht', hv⟩
  · simp [ht] at hnone
  · obtain ⟨rfl, rfl⟩ : index = index' ∧ entry = entry' := by simpa [ht] using ht'
    have covers := (h.covers.step_carries direction).1.covers
    have hbuffer : (t.act (.step direction)).value.2.buffer = _ := congrArg Prod.snd hv
    exact ⟨covers, by rw [hbuffer]; exact h.entries, by rw [hbuffer]; exact h.base,
      by rw [hbuffer]; rfl⟩

theorem undo (h : Walked ledger s t (position + 1)) :
    Walked ledger s (t.act (.step .undo)).value.2 position := by
  have hle := h.covers.explains.position_le
  rw [h.there] at hle
  have target : t.buffer.journal.target? .undo =
      some (position, t.buffer.journal.entries[position]) := by
    rw [Journal.target?_undo_succ _ position h.there]
    simp
  exact h.step target

theorem redo (h : Walked ledger s t position)
    (hlt : position < s.buffer.journal.entries.length) :
    Walked ledger s (t.act (.step .redo)).value.2 (position + 1) := by
  rw [← h.entries] at hlt
  have target : t.buffer.journal.target? .redo =
      some (position, t.buffer.journal.entries[position]) := by
    simp [Journal.target?, h.there, hlt]
  exact h.step target

theorem undos (k : Nat) (h : Walked ledger s t (position + k)) :
    Walked ledger s (t.after (List.replicate k (.step .undo))) position := by
  induction k generalizing t with
  | zero => exact h
  | succ k ih => exact ih h.undo

theorem redos (k : Nat) (h : Walked ledger s t position)
    (hle : position + k ≤ s.buffer.journal.entries.length) :
    Walked ledger s (t.after (List.replicate k (.step .redo))) (position + k) := by
  induction k generalizing t position with
  | zero => exact h
  | succ k ih =>
    have hrest := ih (h.redo (by omega)) (by omega)
    rw [show position + 1 + k = position + (k + 1) by omega] at hrest
    exact hrest

end Walked

/-- What a step answers: nothing where it has no target, a cursor elsewhere. -/
theorem step_answer (h : ledger.Covers s.buffer) (direction : HistoryStep) :
    ∃ cursor, (s.act (.step direction)).value.1 = .stepped (.ok cursor) ∧
      (cursor = none ↔ s.buffer.journal.target? direction = none) := by
  rcases h.step direction with ⟨ht, hv⟩ | ⟨index, entry, ht, hv⟩
  · exact ⟨none, by simp [act, hv], by simp [ht]⟩
  · exact ⟨some (entry.cursorAfter direction), by simp [act, hv], by simp [ht]⟩

end Session

/-- **Whatever is done in a session, its journal has a timeline**, which goes
back to the text at the start unless entries were lost. So a step never fails;
it answers that there was nothing to do exactly at the end of the history; and
steps back and as many forth restore the text. -/
theorem run_has_timeline (name start : Text) (config : Config) (refusals : List Bool)
    (actions : List Action) (own : ∀ action ∈ actions, action.isForeign = false) :
    let s := (Session.opened name start config refusals).after actions
    (∃ texts, s.buffer.journal.Timeline s.contents texts ∧
      ((Session.opened name start config refusals).loses actions = false → texts 0 = start)) ∧
    (∃ cursor, (s.act (.step .undo)).value.1 = .stepped (.ok cursor) ∧
      (cursor = none ↔ s.buffer.journal.position = 0)) ∧
    (∃ cursor, (s.act (.step .redo)).value.1 = .stepped (.ok cursor) ∧
      (cursor = none ↔ s.buffer.journal.position = s.buffer.journal.length)) ∧
    ∀ k ≤ s.buffer.journal.position,
      (s.after (List.replicate k (.step .undo) ++ List.replicate k (.step .redo))).contents =
        s.contents := by
  intro s
  obtain ⟨ledger, h⟩ := Session.after_carries
    (Session.opened_covers name start config refusals) own
  have covers : ledger.Covers s.buffer := h.covers
  have hle := covers.explains.position_le
  refine ⟨⟨_, covers.explains.timeline, ?_⟩, ?_, ?_, ?_⟩
  · intro kept
    rw [Journal.versionAt_zero]
    exact h.base.resolve_right (Bool.eq_false_iff.mp kept)
  · rw [← Journal.target?_undo_eq_none_iff hle]
    exact Session.step_answer covers .undo
  · obtain ⟨cursor, hanswer, hcursor⟩ := Session.step_answer covers .redo
    exact ⟨cursor, hanswer, hcursor.trans (Journal.target?_redo_eq_none_iff hle)⟩
  · intro k hk
    have here := Session.Walked.refl covers
    -- the undos walk back to position `first`, the redos from there
    obtain ⟨first, hfirst⟩ := Nat.exists_eq_add_of_le' hk
    rw [hfirst] at here
    have there := (here.undos k).redos k (by omega)
    rw [Session.after_append, there.contents_eq, here.contents_eq]

/-- A group of a deletion and an insertion, with a failed insertion between
them; a change, a step back, and another change. -/
def groupAndBranch : List Action :=
  [.insert ⟨0, 1⟩ ['é', '\n'] 0, .groupBegin, .delete ⟨1, 0⟩ 1 1, .insert ⟨7, 0⟩ ['x'] 2,
    .insert ⟨0, 0⟩ ['ü'] 3, .groupEnd, .endRun, .insert ⟨0, 0⟩ ['z'] 4, .step .undo,
    .delete ⟨0, 0⟩ 2 5]

/-- Its three entries go back to the start, in a journal that starts with room
for one. -/
theorem groupAndBranch_has_timeline :
    let s := (Session.opened [] ['a', 'b'] { initialCapacity := 1 }).after groupAndBranch
    (∀ action ∈ groupAndBranch, action.isForeign = false) ∧
      (∃ texts, s.buffer.journal.Timeline s.contents texts ∧ texts 0 = ['a', 'b']) ∧
      (∃ cursor, (s.act (.step .undo)).value.1 = .stepped (.ok cursor) ∧ cursor ≠ none) ∧
      (s.act (.step .redo)).value.1 = .stepped (.ok none) ∧
      s.contents = ['a', 'é', '\n'] ∧
      (s.after (List.replicate 3 (.step .undo) ++ List.replicate 3 (.step .redo))).contents =
        s.contents := by
  dsimp only
  have own : ∀ action ∈ groupAndBranch, action.isForeign = false := by decide
  obtain ⟨⟨texts, timeline, kept⟩, ⟨undone, hundone, start⟩, ⟨redone, hredone, stop⟩, walk⟩ :=
    run_has_timeline [] ['a', 'b'] { initialCapacity := 1 } [] groupAndBranch own
  refine ⟨own, ⟨texts, timeline, kept (by rfl)⟩, ⟨undone, hundone, ?_⟩, ?_, by rfl,
    walk 3 (by decide)⟩
  · exact fun hnone => absurd (start.mp hnone) (by decide)
  · obtain rfl : redone = none := stop.mpr (by rfl)
    exact hredone

end EditJournal
