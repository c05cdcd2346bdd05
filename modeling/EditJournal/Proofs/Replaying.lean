/-
EditJournal.Proofs.Replaying — what replaying a change or an entry does to a
text: exactly the change it stands for, or nothing.

* `Edit.Leads e s t` — the change `e` leads from the text `s` to the text `t`;
  `Entry.Leads` chains that over the changes of an entry.
* `Atomic x s R` — the outcome `x` of a call on the text `s` is a success with
  exactly the texts that `R` allows, and a failure leaves `s` as it was.
* `Edit.replay_atomic`, `Entry.replay_atomic` — replay is atomic, for the
  relation read forward (redo) or backward (undo).

Since both directions read one relation, a replay is undone by the opposite
one (`Entry.replay_eq_ok_comm`). Nothing is asked of the text: it may have
drifted from what the entry was made on.

## How the proof goes

A change alone is atomic because insertion and removal are one relation
(`Edit.take_atomic`: what was taken out wrongly goes back in). For a list,
the finished changes form a chain back to the text at the start, along which
rollback walks (`Entry.rollback_of_chain`); that chain is what the induction
over the changes still to come carries (`Entry.replayEdits_atomic`).
-/
import EditJournal.Replay
import EditJournal.Proofs.Splices

namespace EditJournal

/-! ## Directions -/

namespace HistoryStep

/-- A relation between texts, read in the direction of a step. -/
def along (step : HistoryStep) (R : Text → Text → Prop) (s t : Text) : Prop :=
  match step with
  | .redo => R s t
  | .undo => R t s

@[simp] theorem along_redo (R : Text → Text → Prop) (s t : Text) :
    redo.along R s t = R s t := rfl

@[simp] theorem along_undo (R : Text → Text → Prop) (s t : Text) :
    undo.along R s t = R t s := rfl

@[simp] theorem opposite_opposite (step : HistoryStep) : step.opposite.opposite = step := by
  cases step <;> rfl

/-- The opposite step reads a relation from the other end. -/
@[simp] theorem along_opposite (step : HistoryStep) (R : Text → Text → Prop) (s t : Text) :
    step.opposite.along R s t = step.along R t s := by
  cases step <;> rfl

end HistoryStep

/-! ## Calls that succeed or do nothing -/

/-- A call on the text `s` succeeds with exactly the texts that `R` allows,
and leaves `s` as it was where it fails. -/
structure Atomic (x : Except UndoError Unit × Text) (s : Text) (R : Text → Prop) : Prop where
  ok_iff : ∀ t, x = (.ok (), t) ↔ R t
  unchanged : ∀ error t, x = (.error error, t) → t = s

namespace Atomic

variable {x : Except UndoError Unit × Text} {s : Text} {R R' : Text → Prop}

/-- The two ways an atomic call can end. -/
theorem cases (h : Atomic x s R) :
    (∃ t, x = (.ok (), t) ∧ R t) ∨ (∃ error, x = (.error error, s) ∧ ∀ t, ¬ R t) := by
  obtain ⟨result, t⟩ := x
  cases result with
  | ok _ => exact Or.inl ⟨t, rfl, (h.ok_iff t).mp rfl⟩
  | error error =>
    obtain rfl := h.unchanged error t rfl
    refine Or.inr ⟨error, rfl, ?_⟩
    intro u hu
    simpa using (h.ok_iff u).mpr hu

/-- A success whose text is the only one allowed. -/
theorem succeeded {t : Text} (h : R t) (unique : ∀ u, R u → u = t) :
    Atomic (.ok (), t) s R where
  ok_iff u := by
    constructor
    · rintro ⟨⟩
      exact h
    · intro hu
      rw [unique u hu]
  unchanged _ _ hu := by simp at hu

/-- A failure where no text is allowed. -/
theorem failed {error : UndoError} (h : ∀ t, ¬ R t) : Atomic (.error error, s) s R where
  ok_iff t := by simp [h t]
  unchanged _ t ht := by simpa [eq_comm] using congrArg Prod.snd ht

theorem congr (h : Atomic x s R) (hR : ∀ t, R t ↔ R' t) : Atomic x s R' where
  ok_iff t := (h.ok_iff t).trans (hR t)
  unchanged := h.unchanged

end Atomic

/-! ## One change -/

namespace Edit

open Text (Inserted insertAt_eq_ok_iff deleteAt_eq_ok_iff)

/-- The change leads from the text `s` to the text `t`. -/
def Leads (e : Edit) (s t : Text) : Prop :=
  match e.kind with
  | .insert => Inserted e.place e.payload s t
  | .delete => Inserted e.place e.payload t s
  | .replace => False

/-- A change of nothing leads nowhere. -/
theorem Leads.eq_of_nil {e : Edit} {s t : Text} (h : e.Leads s t) (hnil : e.payload = []) :
    t = s := by
  unfold Leads at h
  rw [hnil] at h
  split at h
  · exact h.eq_of_nil
  · exact h.eq_of_nil.symm
  · exact h.elim

theorem put_atomic (e : Edit) (s : Text) :
    Atomic (e.put s).value s (Inserted e.place e.payload s) := by
  cases h : s.insertAt e.place e.payload with
  | error cause =>
    have hv : (e.put s).value = (.error (.storage e.place cause), s) := by
      simp [put, Storage.insert, Text.insertTold, h]
    rw [hv]
    apply Atomic.failed
    intro t ht
    have := (insertAt_eq_ok_iff s e.place e.payload _ t).mpr ⟨rfl, ht⟩
    simp [h] at this
  | ok p =>
    obtain ⟨stop, changed⟩ := p
    have hv : (e.put s).value = (.ok (), changed) := by
      simp [put, Storage.insert, Text.insertTold, h]
    obtain ⟨hstop, hins⟩ := (insertAt_eq_ok_iff s e.place e.payload stop changed).mp h
    rw [hv]
    refine Atomic.succeeded hins ?_
    intro t ht
    have := (insertAt_eq_ok_iff s e.place e.payload stop t).mpr ⟨hstop, ht⟩
    rw [h] at this
    simpa [eq_comm] using this

theorem take_atomic (e : Edit) (s : Text) :
    Atomic (e.take s).value s (Inserted e.place e.payload · s) := by
  -- a text behind the removal would show that the payload was found
  have found_of (t : Text) (ht : Inserted e.place e.payload t s) :
      s.deleteAt e.place e.payload.byteLength = .ok (e.payload, t) :=
    (deleteAt_eq_ok_iff s e.place _ e.payload t).mpr ⟨rfl, ht⟩
  cases h : s.deleteAt e.place e.payload.byteLength with
  | error cause =>
    have hv : (e.take s).value = (.error (.storage e.place cause), s) := by
      simp [take, Storage.delete, Text.deleteTold, h]
    rw [hv]
    apply Atomic.failed
    intro t ht
    have := found_of t ht
    simp [h] at this
  | ok p =>
    obtain ⟨found, rest⟩ := p
    obtain ⟨hn, hins⟩ := (deleteAt_eq_ok_iff s e.place _ found rest).mp h
    by_cases hf : found = e.payload
    · have hv : (e.take s).value = (.ok (), rest) := by
        simp [take, Storage.delete, Text.deleteTold, h, hf]
      subst hf
      rw [hv]
      refine Atomic.succeeded hins ?_
      intro t ht
      have := found_of t ht
      rw [h] at this
      simpa [eq_comm] using this
    · have hback : rest.insertAt e.place found = .ok (e.place.advance found, s) :=
        (insertAt_eq_ok_iff rest e.place found _ s).mpr ⟨rfl, hins⟩
      have hv : (e.take s).value = (.error (.stateDrift e.place e.payload found), s) := by
        simp [take, Storage.delete, Storage.insert, Text.deleteTold,
          Text.insertTold, h, hf, hback]
      rw [hv]
      apply Atomic.failed
      intro t ht
      have := found_of t ht
      rw [h] at this
      simp [hf] at this

/-- **A change is made or unmade, or the text stays as it is.** -/
theorem replay_atomic (e : Edit) (step : HistoryStep) (s : Text) :
    Atomic (e.replay step s).value s (step.along e.Leads s) := by
  cases hk : e.kind with
  | insert =>
    cases step with
    | redo =>
      simp only [replay, hk]
      exact (e.put_atomic s).congr fun t => by simp [Leads, hk]
    | undo =>
      simp only [replay, hk]
      exact (e.take_atomic s).congr fun t => by simp [Leads, hk]
  | delete =>
    cases step with
    | redo =>
      simp only [replay, hk]
      exact (e.take_atomic s).congr fun t => by simp [Leads, hk]
    | undo =>
      simp only [replay, hk]
      exact (e.put_atomic s).congr fun t => by simp [Leads, hk]
  | replace =>
    have hv : (e.replay step s).value = (.error (.unsupportedKind e.kind), s) := by
      simp [replay, hk]
    rw [hv]
    apply Atomic.failed
    intro t ht
    cases step <;> simp [Leads, hk] at ht

/-! ## Chains of changes -/

/-- The changes, each in the direction of the step, lead from `s` to `t`. -/
def Chain (step : HistoryStep) : List Edit → Text → Text → Prop
  | [], s, t => s = t
  | e :: rest, s, t => ∃ u, step.along e.Leads s u ∧ Chain step rest u t

variable {step : HistoryStep}

@[simp] theorem chain_nil (s t : Text) : Chain step [] s t ↔ s = t := Iff.rfl

@[simp] theorem chain_cons (e : Edit) (rest : List Edit) (s t : Text) :
    Chain step (e :: rest) s t ↔ ∃ u, step.along e.Leads s u ∧ Chain step rest u t := Iff.rfl

theorem chain_append (front back : List Edit) (s t : Text) :
    Chain step (front ++ back) s t ↔ ∃ u, Chain step front s u ∧ Chain step back u t := by
  induction front generalizing s with
  | nil => simp
  | cons e front ih =>
    simp only [List.cons_append, chain_cons, ih]
    constructor
    · rintro ⟨u, he, v, hf, hb⟩
      exact ⟨v, ⟨u, he, hf⟩, hb⟩
    · rintro ⟨v, ⟨u, he, hf⟩, hb⟩
      exact ⟨u, he, v, hf, hb⟩

/-- A chain is walked back by the opposite steps, last change first. -/
theorem chain_reverse (step : HistoryStep) (edits : List Edit) (s t : Text) :
    Chain step.opposite edits.reverse t s ↔ Chain step edits s t := by
  induction edits generalizing s with
  | nil => simp [eq_comm]
  | cons e rest ih =>
    rw [List.reverse_cons, chain_append]
    simp only [chain_cons, chain_nil, HistoryStep.along_opposite, ih]
    constructor
    · rintro ⟨u, hr, v, he, rfl⟩
      exact ⟨u, he, hr⟩
    · rintro ⟨u, he, hr⟩
      exact ⟨u, hr, s, he, rfl⟩

end Edit

/-! ## Entries -/

namespace Entry

open Edit (Chain)

/-- The entry's changes, first to last, lead from the text `s` to the text `t`. -/
def Leads (entry : Entry) (s t : Text) : Prop := Chain .redo entry.edits s t

/-- Rollback walks back along the finished changes. -/
theorem rollback_of_chain {step : HistoryStep} {finished : List Edit} {s start : Text}
    (h : Chain step.opposite finished s start) : (rollback step finished s).value = start := by
  induction finished generalizing s with
  | nil => exact h
  | cons e rest ih =>
    obtain ⟨u, he, hrest⟩ := h
    have hv := ((e.replay_atomic step.opposite s).ok_iff u).mpr he
    simp only [rollback, Narrated.value_bind, hv]
    exact ih hrest

theorem replayEdits_atomic (step : HistoryStep) (finished edits : List Edit) {s start : Text}
    (h : Chain step.opposite finished s start) :
    Atomic (replayEdits step finished edits s).value start (Chain step edits s) := by
  induction edits generalizing finished s with
  | nil =>
    refine ⟨fun t => ?_, fun _ _ ht => ?_⟩
    · simp [replayEdits]
    · simp [replayEdits] at ht
  | cons e rest ih =>
    rcases (e.replay_atomic step s).cases with ⟨u, hv, hu⟩ | ⟨error, hv, hnone⟩
    · simp only [replayEdits, Narrated.value_bind, hv]
      have hback : Chain step.opposite (e :: finished) u start := ⟨s, by simpa using hu, h⟩
      refine (ih (e :: finished) hback).congr fun t => ?_
      constructor
      · intro ht
        exact ⟨u, hu, ht⟩
      · rintro ⟨u', hu', ht⟩
        -- the change has one outcome
        have : (.ok (), u) = ((.ok (), u') : Except UndoError Unit × Text) :=
          hv ▸ ((e.replay_atomic step s).ok_iff u').mpr hu'
        obtain rfl : u = u' := congrArg Prod.snd this
        exact ht
    · simp only [replayEdits, Narrated.value_bind, hv, Narrated.value_pure,
        rollback_of_chain h]
      refine Atomic.failed ?_
      rintro t ⟨u, hu, -⟩
      exact hnone u hu

/-- **An entry is done or taken back as a whole, or the text stays as it is.** -/
theorem replay_atomic (entry : Entry) (step : HistoryStep) (s : Text) :
    Atomic (entry.replay step s).value s (step.along entry.Leads s) := by
  cases step with
  | redo => exact replayEdits_atomic .redo [] entry.edits rfl
  | undo =>
    refine (replayEdits_atomic .undo [] entry.edits.reverse rfl).congr fun t => ?_
    exact Edit.chain_reverse .redo entry.edits t s

/-- A replay is taken back by the opposite one. -/
theorem replay_eq_ok_comm (entry : Entry) (step : HistoryStep) (s t : Text) :
    (entry.replay step s).value = (.ok (), t) ↔
      (entry.replay step.opposite t).value = (.ok (), s) := by
  rw [(entry.replay_atomic step s).ok_iff, (entry.replay_atomic step.opposite t).ok_iff,
    HistoryStep.along_opposite]

end Entry

end EditJournal
