/-
EditJournal.Proofs.TrailingRuns — two sessions side by side, where the journal of
one lacks the oldest entries of the other.

`Buffer.Follows f dropped a b` says that the buffers have one text and one saved
version, and that the journal of `b` trails that of `a` (`Journal.Trails`) in a
way that goes on: both are sound, the allocator refuses nothing, and where
something was dropped and `b` is at its start, no typing run is open.

`Session.follows_act` is the step: the same action on both sides keeps this.
Answers are the same where the ceilings are, since nothing is dropped on one side
only then. A step back past what the shorter journal has is not allowed
(`Action.Above`).
-/
import EditJournal.Proofs.Trailing

namespace EditJournal

open Function (Injective)

variable {f : Nat → Nat} {dropped : List Entry}

namespace Journal

variable {j k u b u' b' : Journal}

/-! ## What operations keep -/

theorem Becomes.granted (h : j.Becomes k) (granted : j.Granted) : k.Granted :=
  h.invariant (P := Granted) (fun _ _ move hj r hr => hj r (move.limits.2 r hr)) granted

/-! ## Journals side by side -/

structure Follows (f : Nat → Nat) (dropped : List Entry) (u b : Journal) : Prop where
  trails : u.Trails f dropped b
  resting : b.grouping.isSealed = false → dropped = [] ∨ 0 < b.position
  whole : Trails.Whole dropped u b
  long : u.Sound
  short : b.Sound
  openLast : b.OpenLast
  granted_long : u.Granted
  granted_short : b.Granted

namespace Follows

/-- What is left to say behind operations on both sides. -/
theorem onward (h : u.Follows f dropped b) (long : u.Becomes u') (short : b.Becomes b')
    {dropped' : List Entry} (trails : u'.Trails f dropped' b')
    (resting : b'.grouping.isSealed = false → dropped' = [] ∨ 0 < b'.position)
    (whole : u.config.ceiling ≤ b.config.ceiling → dropped' = []) :
    u'.Follows f dropped' b' where
  trails := trails
  resting := resting
  whole := by
    rw [Trails.Whole, long.config, short.config]
    exact ⟨h.whole.1, whole⟩
  long := long.sound h.long
  short := short.sound h.short
  openLast := short.openLast h.short h.openLast
  granted_long := long.granted h.granted_long
  granted_short := short.granted h.granted_short

theorem takes (hf : Injective f) (h : u.Follows f dropped b) {edit : Edit} {now : Nat}
    {status : RecordStatus} (plain : edit.kind ≠ .replace)
    (takes : b.Takes edit now status b') :
    ∃ status' u' dropped', u.Takes edit now status' u' ∧ u'.Follows f dropped' b' ∧
      (u.config.ceiling ≤ b.config.ceiling → status' = status) := by
  obtain ⟨status', u', dropped', takes', trails, behind, same⟩ :=
    h.trails.takes hf h.whole h.long
    h.short h.openLast h.granted_long h.granted_short h.resting takes
  refine ⟨status', u', dropped', takes', ?_, fun le => (same le).2⟩
  refine h.onward (.single (.takes edit now status' plain takes'))
    (.single (.takes edit now status plain takes)) trails ?_ fun le => (same le).1
  rcases behind with ⟨rfl, rfl⟩ | before
  · exact h.resting
  · exact fun _ => Or.inr before

/-- A change that is recorded is taken in on both sides, or refused on both. -/
theorem record (hf : Injective f) (h : u.Follows f dropped b) (kind : EditKind)
    (place : Location) (text : Text) (now : Nat) :
    (∃ error, (u.record kind place text now).value = .error error ∧
      (b.record kind place text now).value = .error error) ∨
    ∃ status status' u' b' dropped', (u.record kind place text now).value = .ok (status', u') ∧
      (b.record kind place text now).value = .ok (status, b') ∧ u'.Follows f dropped' b' ∧
      (u.config.ceiling ≤ b.config.ceiling → status' = status) := by
  by_cases hkind : kind = .replace
  · subst hkind
    exact Or.inl ⟨_, record_replace h.long.idle place text now,
      record_replace h.short.idle place text now⟩
  · obtain ⟨status, b', hb⟩ := exists_record_eq_ok h.short.idle hkind place text now
    obtain ⟨status', u', dropped', takes, follows, same⟩ :=
      h.takes hf hkind ((record_eq_ok_iff h.short.idle hkind).mp hb)
    exact Or.inr ⟨status, status', u', b', dropped',
      (record_eq_ok_iff h.long.idle hkind).mpr takes, hb, follows, same⟩

/-- A step ends the typing run, or does not move. -/
theorem step_resting (j : Journal) (direction : HistoryStep) (s : Text) :
    (j.step direction s).value.2.1.grouping.isSealed = true ∨
      ((j.step direction s).value.2.1.grouping = j.grouping ∧
        (j.step direction s).value.2.1.position = j.position) := by
  rcases j.step_cases direction s with
    ⟨-, hv⟩ | ⟨index, entry, -, ⟨t, -, hv⟩ | ⟨error, -, hv⟩⟩
  · rw [hv]
    exact Or.inr ⟨rfl, rfl⟩
  · rw [hv]
    exact Or.inl rfl
  · rw [hv]
    exact Or.inr ⟨rfl, rfl⟩

theorem step (h : u.Follows f dropped b) {direction : HistoryStep}
    (above : direction = .undo → b.position = 0 → dropped = []) (s : Text) :
    (u.step direction s).value.1 = (b.step direction s).value.1 ∧
      (u.step direction s).value.2.1.Follows f dropped (b.step direction s).value.2.1 ∧
      (u.step direction s).value.2.2 = (b.step direction s).value.2.2 := by
  obtain ⟨answer, trails, store⟩ := h.trails.step above s
  refine ⟨answer, h.onward (.single (.step direction s))
    (.single (.step direction s)) trails ?_ h.whole.2, store⟩
  intro unsealed
  rcases step_resting b direction s with sealed | ⟨grouping, position⟩
  · simp [sealed] at unsealed
  · rw [grouping] at unsealed
    rw [position]
    exact h.resting unsealed

theorem endRun (h : u.Follows f dropped b) : u.endRun.Follows f dropped b.endRun :=
  h.onward (.single .endRun) (.single .endRun) h.trails.endRun
    (fun unsealed => by simp [Journal.endRun, Grouping.endRun, Grouping.isSealed] at unsealed)
    h.whole.2

theorem begin (h : u.Follows f dropped b) :
    Follows f dropped { u with grouping := u.grouping.begin }
      { b with grouping := b.grouping.begin } := by
  refine h.onward (.single .groupBegin) (.single .groupBegin)
    (h.trails.begin h.long) ?_ h.whole.2
  intro unsealed
  refine h.resting ?_
  by_cases hd : b.grouping.depth = 0
  · simp [Grouping.begin, Grouping.isSealed, hd] at unsealed
  · simpa [Grouping.begin, Grouping.isSealed, hd] using unsealed

theorem close (h : u.Follows f dropped b) :
    Follows f dropped { u with grouping := u.grouping.close.2 }
      { b with grouping := b.grouping.close.2 } := by
  refine h.onward (.single .groupEnd) (.single .groupEnd) h.trails.close ?_ h.whole.2
  intro unsealed
  refine h.resting ?_
  dsimp only at unsealed
  unfold Grouping.close at unsealed
  split at unsealed
  · exact unsealed
  · split at unsealed <;> simp [Grouping.isSealed] at unsealed
  · exact unsealed

theorem markSaved (h : u.Follows f dropped b) :
    u.markSaved.value.2.Follows f (marked u.position dropped) b.markSaved.value.2 := by
  have none_left : dropped = [] → marked u.position dropped = [] := by
    rintro rfl
    rfl
  exact h.onward (.single .markSaved) (.single .markSaved) h.trails.markSaved
    (fun unsealed => (h.resting unsealed).imp_left none_left) fun le =>
      none_left (h.whole.2 le)

theorem clear (h : u.Follows f dropped b) : u.clear.value.Follows f [] b.clear.value :=
  h.onward (.single .clear) (.single .clear) h.trails.clear (fun _ => Or.inl rfl) fun _ => rfl

theorem currentVersion (h : u.Follows f dropped b) : u.currentVersion = b.currentVersion :=
  h.trails.currentVersion h.short.position_le

end Follows

end Journal

/-! ## Buffers side by side -/

structure Buffer.Follows (f : Nat → Nat) (dropped : List Entry)
    (a b : Buffer Text) : Prop where
  journal : a.journal.Follows f dropped b.journal
  store : a.store = b.store
  saved : a.savedVersion = b.savedVersion

namespace Buffer.Follows

variable {a b : Buffer Text}

/-- The ceilings are the same. -/
abbrev Level (a b : Buffer Text) : Prop :=
  a.journal.config.ceiling ≤ b.journal.config.ceiling

theorem record (hf : Injective f) (h : a.Follows f dropped b) (kind : EditKind)
    (place : Location) (text : Text) (now : Nat) :
    ∃ dropped', (a.record kind place text now).value.2.Follows f dropped'
        (b.record kind place text now).value.2 ∧
      (Level a b →
        (a.record kind place text now).value.1 = (b.record kind place text now).value.1) ∧
      ∀ {α : Type} (answer : α), (a.record kind place text now).value.1.map (fun _ => answer) =
        (b.record kind place text now).value.1.map fun _ => answer := by
  rcases h.journal.record hf kind place text now with
    ⟨error, ha, hb⟩ | ⟨status, status', u', b', dropped', ha, hb, follows, same⟩
  · simp only [Buffer.record, Narrated.value_bind, ha, hb]
    exact ⟨dropped, h, fun _ => rfl, fun _ => rfl⟩
  · simp only [Buffer.record, Narrated.value_bind, ha, hb]
    exact ⟨dropped', ⟨follows, h.store, h.saved⟩, fun le => congrArg Except.ok (same le),
      fun _ => rfl⟩

theorem insert (hf : Injective f) (h : a.Follows f dropped b) (place : Location) (text : Text)
    (now : Nat) :
    ∃ dropped', (a.insert place text now).value.2.Follows f dropped'
        (b.insert place text now).value.2 ∧
      (a.insert place text now).value.1 = (b.insert place text now).value.1 := by
  cases hi : b.store.insertAt place text with
  | error cause =>
    rw [value_insert_of_error hi, value_insert_of_error (h.store ▸ hi)]
    exact ⟨dropped, h, rfl⟩
  | ok outcome =>
    have h' : Follows f dropped { a with store := outcome.2 } { b with store := outcome.2 } :=
      ⟨h.journal, rfl, h.saved⟩
    obtain ⟨dropped', follows, -, answer⟩ := h'.record hf .insert place text now
    rw [value_insert_of_ok hi, value_insert_of_ok (h.store ▸ hi)]
    exact ⟨dropped', follows, answer outcome.1⟩

theorem delete (hf : Injective f) (h : a.Follows f dropped b) (place : Location)
    (length now : Nat) :
    ∃ dropped', (a.delete place length now).value.2.Follows f dropped'
        (b.delete place length now).value.2 ∧
      (a.delete place length now).value.1 = (b.delete place length now).value.1 := by
  cases hd : b.store.deleteAt place length with
  | error cause =>
    rw [value_delete_of_error hd, value_delete_of_error (h.store ▸ hd)]
    exact ⟨dropped, h, rfl⟩
  | ok outcome =>
    have h' : Follows f dropped { a with store := outcome.2 } { b with store := outcome.2 } :=
      ⟨h.journal, rfl, h.saved⟩
    obtain ⟨dropped', follows, -, answer⟩ := h'.record hf .delete place outcome.1 now
    rw [value_delete_of_ok hd, value_delete_of_ok (h.store ▸ hd)]
    exact ⟨dropped', follows, answer outcome.1⟩

theorem step (h : a.Follows f dropped b) (direction : HistoryStep)
    (above : direction = .undo → b.journal.position = 0 → dropped = []) :
    (a.step direction).value.1 = (b.step direction).value.1 ∧
      (a.step direction).value.2.Follows f dropped (b.step direction).value.2 := by
  obtain ⟨answer, follows, store⟩ := h.journal.step above b.store
  rw [← h.store] at answer follows store
  have hb : (b.step direction).value =
      ((b.journal.step direction a.store).value.1,
        { b with
          journal := (b.journal.step direction a.store).value.2.1
          store := (b.journal.step direction a.store).value.2.2 }) := by
    rw [h.store]
    rfl
  rw [hb]
  exact ⟨answer, follows, store, h.saved⟩

theorem takeSteps (h : a.Follows f [] b) (report : CommandReport) (count : Nat) :
    (a.takeSteps report count).value.1 = (b.takeSteps report count).value.1 ∧
      (a.takeSteps report count).value.2.Follows f [] (b.takeSteps report count).value.2 := by
  induction count generalizing a b report with
  | zero => exact ⟨rfl, h⟩
  | succ count ih =>
    obtain ⟨answer, follows⟩ := h.step report.direction fun _ _ => rfl
    simp only [Buffer.takeSteps, Narrated.value_bind, answer]
    split
    · exact ih follows _
    · exact ⟨rfl, follows⟩
    · exact ⟨rfl, follows⟩

theorem command (h : a.Follows f [] b) (direction : HistoryStep) (count : Nat)
    (screen screen' : Screen) :
    (a.command direction count screen).value.1 = (b.command direction count screen').value.1 ∧
      (a.command direction count screen).value.2.1.Follows f []
        (b.command direction count screen').value.2.1 := by
  obtain ⟨depth₁, depth₁', screen₁, ha⟩ := a.value_command direction count screen
  obtain ⟨depth₂, depth₂', screen₂, hb⟩ := b.value_command direction count screen'
  -- the display brackets may be different ones
  have inside : Follows f [] { a with depth := depth₁ } { b with depth := depth₂ } :=
    ⟨h.journal, h.store, h.saved⟩
  obtain ⟨report, steps⟩ :=
    inside.takeSteps { direction, requested := max count 1 } (max count 1)
  rw [ha, hb]
  exact ⟨report, steps.journal, steps.store, steps.saved⟩

theorem markSaved (h : a.Follows f dropped b) :
    ∃ dropped', a.markSaved.value.Follows f dropped' b.markSaved.value :=
  ⟨_, h.journal.markSaved, h.store, h.journal.markSaved.currentVersion⟩

theorem clearHistory (h : a.Follows f dropped b) :
    ∃ dropped', a.clearHistory.value.Follows f dropped' b.clearHistory.value :=
  markSaved (a := { a with journal := a.journal.clear.value })
    (b := { b with journal := b.journal.clear.value }) ⟨h.journal.clear, h.store, h.saved⟩

theorem isModified (h : a.Follows f dropped b) : a.isModified = b.isModified := by
  rw [Buffer.isModified, Buffer.isModified, h.journal.currentVersion, h.saved]

end Buffer.Follows

/-! ## Sessions side by side -/

/-- The action takes no step back past what the shorter journal has. -/
def Action.Above (dropped : List Entry) (b : Buffer Text) (action : Action) : Prop :=
  (action = .step .undo → b.journal.position = 0 → dropped = []) ∧
    ∀ direction count, action = .command direction count → dropped = []

namespace Session

theorem value_groupEnd (s : Session Text) :
    (s.act .groupEnd).value.1 =
      .matched (decide (s.buffer.journal.grouping.close.1 ≠ .unmatched)) := by
  cases hc : s.buffer.journal.grouping.close with
  | mk result grouping =>
    cases result <;> simp [act, Buffer.groupEnd, Journal.groupEnd, hc]

variable {s t : Session Text}

/-- **The same action keeps sessions side by side**, and is answered the same
where their ceilings are. -/
theorem follows_act (hf : Injective f) (h : s.buffer.Follows f dropped t.buffer)
    (action : Action) (above : action.Above dropped t.buffer) :
    ∃ dropped', (s.act action).value.2.buffer.Follows f dropped'
      (t.act action).value.2.buffer ∧ (Buffer.Follows.Level s.buffer t.buffer →
        (s.act action).value.1 = (t.act action).value.1) := by
  cases action with
  | insert place text now =>
    obtain ⟨dropped', follows, answer⟩ := h.insert hf place text now
    exact ⟨dropped', follows, fun _ => congrArg Answer.inserted answer⟩
  | delete place length now =>
    obtain ⟨dropped', follows, answer⟩ := h.delete hf place length now
    exact ⟨dropped', follows, fun _ => congrArg Answer.deleted answer⟩
  | record kind place text now =>
    obtain ⟨dropped', follows, answer, -⟩ := h.record hf kind place text now
    exact ⟨dropped', follows, fun le => congrArg Answer.recorded (answer le)⟩
  | step direction =>
    obtain ⟨answer, follows⟩ := h.step direction fun back => above.1 (by rw [back])
    exact ⟨dropped, follows, fun _ => congrArg Answer.stepped answer⟩
  | command direction count =>
    obtain rfl := above.2 direction count rfl
    obtain ⟨answer, follows⟩ := h.command direction count s.screen t.screen
    exact ⟨[], follows, fun _ => congrArg Answer.commanded answer⟩
  | endRun => exact ⟨dropped, ⟨h.journal.endRun, h.store, h.saved⟩, fun _ => rfl⟩
  | groupBegin =>
    exact ⟨dropped, ⟨h.journal.begin, h.store, h.saved⟩,
      fun _ => congrArg Answer.depth h.journal.begin.trails.grouping.depth⟩
  | groupEnd =>
    refine ⟨dropped, ?_, fun _ => ?_⟩
    · rw [buffer_groupEnd, buffer_groupEnd]
      exact ⟨h.journal.close, h.store, h.saved⟩
    · rw [value_groupEnd, value_groupEnd]
      simp only [ne_eq, h.journal.trails.grouping.close_unmatched]
  | markSaved =>
    obtain ⟨dropped', follows⟩ := h.markSaved
    exact ⟨dropped', follows, fun _ => rfl⟩
  | clearHistory =>
    obtain ⟨dropped', follows⟩ := h.clearHistory
    exact ⟨dropped', follows, fun _ => rfl⟩

end Session

end EditJournal
