/-
EditJournal.Proofs.Told — which events are told on the way.

* `Narrated.Tells P x` — every event that is told on the way to `x` satisfies `P`.
* `Event.IsSplice`, `Event.IsReplay`, `Event.IsDisplay` — the events of changing a text,
  of replaying an entry, and of display brackets and commands.

Replaying a change tells splices only, and so does replaying an entry where that
succeeds (`Entry.tells_splices_of_ok`). Steps and commands tell nothing but replays and
displays (`Buffer.tells_command`), whatever comes of them.
-/
import EditJournal.Proofs.HistorySteps
import EditJournal.Session

namespace EditJournal

/-! ## Events on the way -/

/-- Every event that is told on the way satisfies `P`. -/
def Narrated.Tells {α : Type} (P : Event → Prop) (x : Narrated α) : Prop :=
  ∀ note ∈ x.notes, P note.event

namespace Narrated

variable {α β : Type} {P Q : Event → Prop}

theorem tells_pure (a : α) : (pure a : Narrated α).Tells P := by
  intro note hnote
  simp at hnote

theorem tells_tell {e : Event} (h : P e) : (tell e).Tells P := by
  intro note hnote
  obtain rfl : note = ⟨e, none⟩ := by simpa using hnote
  exact h

/-- The way goes on from the value. -/
theorem Tells.bind_value {x : Narrated α} {f : α → Narrated β} (hx : x.Tells P)
    (hf : (f x.value).Tells P) : (x >>= f).Tells P := by
  intro note hnote
  rw [notes_bind, List.mem_append] at hnote
  exact hnote.elim (hx note) (hf note)

theorem Tells.bind {x : Narrated α} {f : α → Narrated β} (hx : x.Tells P)
    (hf : ∀ a, (f a).Tells P) : (x >>= f).Tells P :=
  hx.bind_value (hf x.value)

/-- A history step around the notes changes no event. -/
theorem Tells.within {x : Narrated α} (hx : x.Tells P) (span : Span) :
    (x.within span).Tells P := by
  intro note hnote
  obtain ⟨inner, hinner, rfl⟩ := List.mem_map.mp hnote
  exact hx inner hinner

theorem Tells.mono {x : Narrated α} (hx : x.Tells P) (h : ∀ e, P e → Q e) : x.Tells Q :=
  fun note hnote => h _ (hx note hnote)

end Narrated

namespace Event

/-- A text was changed. -/
def IsSplice : Event → Prop
  | inserted .. | deleted .. => True
  | _ => False

/-- An entry was replayed, or a part of it. -/
def IsReplay : Event → Prop
  | inserted .. | deleted .. | rollbackFailed .. | stepFailed .. | stepApplied .. => True
  | _ => False

/-- A bracket was opened or closed, or a command was run. -/
def IsDisplay : Event → Prop
  | bracketBegun _ | commitUnmatched | commitNested _ | commitPublished _ | abortPublished _
  | commandRun .. => True
  | _ => False

theorem IsSplice.isReplay {e : Event} (h : e.IsSplice) : e.IsReplay := by
  cases e with
  | inserted place length => trivial
  | deleted place length => trivial
  | _ => exact h.elim

end Event

open Narrated (tells_pure tells_tell)
open Event (IsSplice IsReplay IsDisplay)

/-! ## Replays -/

theorem Text.tells_insertTold (t : Text) (place : Location) (new : Text) :
    (t.insertTold place new).Tells IsSplice := by
  unfold Text.insertTold
  split
  · exact (tells_tell trivial).bind fun _ => tells_pure _
  · exact tells_pure _

theorem Text.tells_deleteTold (t : Text) (place : Location) (length : Nat) :
    (t.deleteTold place length).Tells IsSplice := by
  unfold Text.deleteTold
  split
  · exact (tells_tell trivial).bind fun _ => tells_pure _
  · exact tells_pure _

theorem Edit.tells_put (e : Edit) (t : Text) : (e.put t).Tells IsSplice := by
  refine (t.tells_insertTold e.place e.payload).bind ?_
  rintro ⟨result, s⟩
  cases result <;> exact tells_pure _

theorem Edit.tells_take (e : Edit) (t : Text) : (e.take t).Tells IsSplice := by
  refine (t.tells_deleteTold e.place _).bind ?_
  rintro ⟨result, s⟩
  cases result with
  | error cause => exact tells_pure _
  | ok found =>
    dsimp only
    split
    · exact tells_pure _
    · refine (s.tells_insertTold e.place found).bind ?_
      rintro ⟨result, s⟩
      cases result <;> exact tells_pure _

theorem Edit.tells_replay (e : Edit) (step : HistoryStep) (t : Text) :
    (e.replay step t).Tells IsSplice := by
  unfold Edit.replay
  split
  · exact e.tells_put t
  · exact e.tells_take t
  · exact e.tells_take t
  · exact e.tells_put t
  · exact tells_pure _

namespace Entry

theorem tells_rollback (step : HistoryStep) (edits : List Edit) (t : Text) :
    (rollback step edits t).Tells IsReplay := by
  induction edits generalizing t with
  | nil => exact tells_pure _
  | cons e rest ih =>
    refine ((e.tells_replay _ t).mono fun _ => IsSplice.isReplay).bind ?_
    rintro ⟨result, s⟩
    cases result with
    | ok _ => exact ih s
    | error error => exact (tells_tell trivial).bind fun _ => ih s

theorem tells_replayEdits (step : HistoryStep) (finished edits : List Edit) (t : Text) :
    (replayEdits step finished edits t).Tells IsReplay := by
  induction edits generalizing finished t with
  | nil => exact tells_pure _
  | cons e rest ih =>
    refine ((e.tells_replay _ t).mono fun _ => IsSplice.isReplay).bind ?_
    rintro ⟨result, s⟩
    cases result with
    | ok _ => exact ih (e :: finished) s
    | error error => exact (tells_rollback step finished s).bind fun _ => tells_pure _

theorem tells_replay (entry : Entry) (step : HistoryStep) (t : Text) :
    (entry.replay step t).Tells IsReplay := by
  cases step with
  | undo => exact tells_replayEdits .undo [] _ t
  | redo => exact tells_replayEdits .redo [] _ t

/-- Where no change fails, none has to be taken back. -/
theorem tells_splices_of_replayEdits {step : HistoryStep} {finished edits : List Edit}
    {t : Text} (done : (replayEdits step finished edits t).value.1 = .ok ()) :
    (replayEdits step finished edits t).Tells IsSplice := by
  induction edits generalizing finished t with
  | nil => exact tells_pure _
  | cons e rest ih =>
    rw [replayEdits] at done ⊢
    refine (e.tells_replay step t).bind_value ?_
    rw [Narrated.value_bind] at done
    generalize (e.replay step t).value = outcome at done ⊢
    obtain ⟨result, s⟩ := outcome
    cases result with
    | ok _ => exact ih done
    | error error => simp at done

theorem tells_splices_of_ok {entry : Entry} {step : HistoryStep} {t : Text}
    (done : (entry.replay step t).value.1 = .ok ()) :
    (entry.replay step t).Tells IsSplice := by
  cases step with
  | undo => exact tells_splices_of_replayEdits done
  | redo => exact tells_splices_of_replayEdits done

end Entry

/-! ## Steps and commands -/

theorem Journal.tells_step (j : Journal) (direction : HistoryStep) (t : Text) :
    (j.step direction t).Tells IsReplay := by
  unfold Journal.step
  split
  · exact tells_pure _
  · rename_i index entry _
    refine Narrated.Tells.within ((entry.tells_replay direction t).bind ?_) _
    rintro ⟨result, s⟩
    cases result with
    | ok _ => exact Narrated.Tells.bind (tells_tell trivial) fun _ => tells_pure _
    | error error => exact Narrated.Tells.bind (tells_tell trivial) fun _ => tells_pure _

namespace Buffer

theorem tells_step (b : Buffer Text) (direction : HistoryStep) :
    (b.step direction).Tells IsReplay :=
  (b.journal.tells_step direction b.store).bind fun _ => tells_pure _

theorem tells_takeSteps (b : Buffer Text) (report : CommandReport) (count : Nat) :
    (b.takeSteps report count).Tells IsReplay := by
  induction count generalizing b report with
  | zero => exact tells_pure _
  | succ count ih =>
    refine (b.tells_step report.direction).bind ?_
    rintro ⟨result, c⟩
    cases result with
    | error error => exact tells_pure _
    | ok cursor =>
      cases cursor with
      | none => exact tells_pure _
      | some cursor => exact ih c _

end Buffer

theorem EditDepth.tells_commit (d : EditDepth) (screen : Screen) :
    (d.commit screen).Tells IsDisplay := by
  intro note hnote
  by_cases hnone : d.level = 0 <;> by_cases hmany : 1 < d.level <;>
    simp [EditDepth.commit, hnone, hmany] at hnote
  · omega
  · rcases hnote with rfl | rfl <;> trivial
  · obtain rfl := hnote
    trivial
  · obtain rfl := hnote
    trivial

theorem EditScope.tells_finish (d : EditDepth) (screen : Screen) :
    (EditScope.finish {} .commit d screen).Tells IsDisplay := by
  have committed : (EditScope.commit {} d screen).Tells IsDisplay :=
    (d.tells_commit screen).bind fun _ => tells_pure _
  refine committed.bind fun ended => ?_
  refine Narrated.Tells.bind ?_ fun _ => tells_pure _
  unfold EditScope.leave
  split
  · exact tells_pure _
  · exact (EditDepth.tells_commit _ _).bind fun _ => tells_pure _

/-- A command tells of replays and of the display, whatever comes of it. -/
theorem Buffer.tells_command (b : Buffer Text) (direction : HistoryStep) (count : Nat)
    (screen : Screen) :
    (b.command direction count screen).Tells fun e => e.IsReplay ∨ e.IsDisplay := by
  have entered : (EditScope.enter b.depth).Tells IsDisplay :=
    (tells_tell trivial).bind fun _ => tells_pure _
  refine (entered.mono fun _ => Or.inr).bind fun entered => ?_
  refine ((tells_takeSteps _ _ _).mono fun _ => Or.inl).bind fun taken => ?_
  refine ((EditScope.tells_finish _ _).mono fun _ => Or.inr).bind fun finished => ?_
  exact Narrated.Tells.bind (tells_tell (Or.inr trivial)) fun _ => tells_pure _

end EditJournal
