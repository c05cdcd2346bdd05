/-
EditJournal.Proofs.HistorySteps — a step in the history moves the text and the
position together, or moves neither.

`Journal.step_cases` says all that a step can do: there is nothing to replay;
or the target entry is replayed and the position moves past it; or it cannot
be replayed on this text, and text and journal stay.

`step_restored_or_inert` draws the consequences for a replay and for a step,
on any text and any journal: a success is taken back by the opposite step, a
failure has changed nothing.
-/
import EditJournal.Journal.Step
import EditJournal.Proofs.Replaying

namespace EditJournal

namespace Journal

variable {j : Journal} {step : HistoryStep}

theorem target?_undo_succ (j : Journal) (index : Nat) (h : j.position = index + 1) :
    j.target? .undo = j.entries[index]?.map (index, ·) := by
  simp [target?, h]

/-- The target is the entry at its index, and the step moves past it. -/
theorem target?_eq_some_iff (j : Journal) (step : HistoryStep) (index : Nat) (entry : Entry) :
    j.target? step = some (index, entry) ↔
      j.entries[index]? = some entry ∧ j.position = positionAfter index step.opposite := by
  cases step with
  | undo =>
    cases hp : j.position with
    | zero => simp [target?, hp, positionAfter, HistoryStep.opposite]
    | succ n =>
      simp only [target?_undo_succ j n hp, Option.map_eq_some_iff, Prod.mk.injEq,
        positionAfter, HistoryStep.opposite]
      constructor
      · rintro ⟨e, he, rfl, rfl⟩
        exact ⟨he, rfl⟩
      · rintro ⟨he, hi⟩
        obtain rfl : n = index := by omega
        exact ⟨entry, he, rfl, rfl⟩
  | redo =>
    simp only [target?, Option.map_eq_some_iff, Prod.mk.injEq, positionAfter,
      HistoryStep.opposite]
    constructor
    · rintro ⟨e, he, rfl, rfl⟩
      exact ⟨he, rfl⟩
    · rintro ⟨he, hi⟩
      exact ⟨entry, hi ▸ he, hi, rfl⟩

/-- The journal behind a step that replayed the entry at `index`. -/
def stepped (j : Journal) (step : HistoryStep) (index : Nat) : Journal :=
  { j with replaying := false, position := positionAfter index step }.endRun

@[simp] theorem stepped_position (index : Nat) :
    (j.stepped step index).position = positionAfter index step := rfl

/-- All that a step can do. -/
theorem step_cases (j : Journal) (step : HistoryStep) (s : Text) :
    (j.target? step = none ∧ (j.step step s).value = (.ok none, j, s)) ∨
    ∃ index entry, j.target? step = some (index, entry) ∧
      ((∃ t, step.along entry.Leads s t ∧
          (j.step step s).value =
            (.ok (some (entry.cursorAfter step)), j.stepped step index, t)) ∨
        (∃ error, (∀ t, ¬ step.along entry.Leads s t) ∧
          (j.step step s).value = (.error error, { j with replaying := false }, s))) := by
  cases ht : j.target? step with
  | none => exact Or.inl ⟨rfl, by simp [Journal.step, ht]⟩
  | some target =>
    obtain ⟨index, entry⟩ := target
    refine Or.inr ⟨index, entry, rfl, ?_⟩
    rcases (entry.replay_atomic step s).cases with ⟨t, hv, hlead⟩ | ⟨error, hv, hnone⟩
    · refine Or.inl ⟨t, hlead, ?_⟩
      simp [Journal.step, ht, hv, stepped]
    · refine Or.inr ⟨error, hnone, ?_⟩
      simp [Journal.step, ht, hv]

/-- A step whose target leads somewhere goes there. -/
theorem step_of_leads {index : Nat} {entry : Entry} {s t : Text}
    (ht : j.target? step = some (index, entry)) (leads : step.along entry.Leads s t) :
    (j.step step s).value =
      (.ok (some (entry.cursorAfter step)), j.stepped step index, t) := by
  have hv : (entry.replay step s).value = (.ok (), t) :=
    ((entry.replay_atomic step s).ok_iff t).mpr leads
  simp [Journal.step, ht, hv, stepped]

/-- Behind a step, the opposite one has the same target. -/
theorem target?_stepped {index : Nat} {entry : Entry}
    (h : j.target? step = some (index, entry)) :
    (j.stepped step index).target? step.opposite = some (index, entry) := by
  obtain ⟨he, -⟩ := (target?_eq_some_iff j step index entry).mp h
  exact (target?_eq_some_iff _ _ _ _).mpr ⟨he, by simp⟩

/-- A step that moved is taken back by the opposite one. -/
theorem step_back {k : Journal} {s t : Text} {cursor : Location}
    (h : (j.step step s).value = (.ok (some cursor), k, t)) :
    ∃ back l, (k.step step.opposite t).value = (.ok (some back), l, s) ∧
      l.position = j.position ∧ l.entries = j.entries := by
  rcases step_cases j step s with ⟨-, hv⟩ |
      ⟨index, entry, ht, ⟨t', hlead, hv⟩ | ⟨error, -, hv⟩⟩
  · simp [hv] at h
  · rw [hv] at h
    simp only [Prod.mk.injEq, Except.ok.injEq, Option.some.injEq] at h
    obtain ⟨rfl, rfl, rfl⟩ := h
    have hlead' : step.opposite.along entry.Leads t' s := by simpa using hlead
    have hv' := step_of_leads (target?_stepped ht) hlead'
    exact ⟨_, _, hv', ((target?_eq_some_iff j step index entry).mp ht).2.symm, rfl⟩
  · simp [hv] at h

end Journal

/-- **A replay or a step that succeeds is taken back by the opposite one, and
one that fails has changed nothing** — for every entry, every journal and
every text, also one that the journal was not made on. A replay succeeds
exactly where the entry's changes lead from the one text to the other. -/
theorem step_restored_or_inert (entry : Entry) (j : Journal) (step : HistoryStep) (s : Text) :
    (∀ t, (entry.replay step s).value = (.ok (), t) ↔ step.along entry.Leads s t) ∧
    (∀ t, (entry.replay step s).value = (.ok (), t) →
      (entry.replay step.opposite t).value = (.ok (), s)) ∧
    (∀ error t, (entry.replay step s).value = (.error error, t) → t = s) ∧
    (∀ error k t, (j.step step s).value = (.error error, k, t) →
      k = { j with replaying := false } ∧ t = s) ∧
    (∀ cursor k t, (j.step step s).value = (.ok (some cursor), k, t) →
      ∃ back l, (k.step step.opposite t).value = (.ok (some back), l, s) ∧
        l.position = j.position ∧ l.entries = j.entries) := by
  refine ⟨(entry.replay_atomic step s).ok_iff, ?_, ?_, ?_, ?_⟩
  · intro t h
    exact (entry.replay_eq_ok_comm step s t).mp h
  · intro error t h
    exact (entry.replay_atomic step s).unchanged error t h
  · intro error k t h
    rcases j.step_cases step s with ⟨-, hv⟩ | ⟨index, target, -, ⟨u, -, hv⟩ | ⟨error', -, hv⟩⟩
    · simp [hv] at h
    · simp [hv] at h
    · rw [hv] at h
      simp only [Prod.mk.injEq] at h
      exact ⟨h.2.1.symm, h.2.2.symm⟩
  · intro cursor k t h
    exact Journal.step_back h

/-- An insertion over a line break and a deletion behind it, in one entry. -/
def breakAndDelete : Entry :=
  { first := ⟨.insert, ⟨0, 1⟩, ['é', '\n'], none⟩
    more := [⟨.delete, ⟨1, 0⟩, ['b'], none⟩]
    timestamp := 0
    version := 1 }

/-- On `abc` it is done and taken back, alone and as a step. On `x` the
deletion fails, and the insertion before it is taken back. -/
theorem breakAndDelete_restored_or_inert :
    let j : Journal := { entries := [breakAndDelete], capacity := 1, config := {} }
    ((breakAndDelete.replay .redo ['a', 'b', 'c']).value = (.ok (), ['a', 'é', '\n', 'c']) ∧
      (breakAndDelete.replay .undo ['a', 'é', '\n', 'c']).value = (.ok (), ['a', 'b', 'c'])) ∧
    ((j.step .redo ['a', 'b', 'c']).value =
        (.ok (some ⟨1, 0⟩), j.stepped .redo 0, ['a', 'é', '\n', 'c']) ∧
      ∃ back l, ((j.stepped .redo 0).step .undo ['a', 'é', '\n', 'c']).value =
        (.ok (some back), l, ['a', 'b', 'c']) ∧ l.position = 0 ∧
          l.entries = [breakAndDelete]) ∧
    (breakAndDelete.replay .redo ['x']).value.1 =
        .error (.storage ⟨1, 0⟩ (.rangeOutOfBounds ⟨1, 0⟩ 1 0)) ∧
      (breakAndDelete.replay .redo ['x']).value.2 = ['x'] ∧
      (j.step .redo ['x']).value.2 = (j, ['x']) := by
  intro j
  obtain ⟨-, hback, -, -, hstep⟩ :=
    step_restored_or_inert breakAndDelete j .redo ['a', 'b', 'c']
  obtain ⟨-, -, hsame, hinert, -⟩ := step_restored_or_inert breakAndDelete j .redo ['x']
  have redone : (breakAndDelete.replay .redo ['a', 'b', 'c']).value =
      (.ok (), ['a', 'é', '\n', 'c']) := by rfl
  have stepDone : (j.step .redo ['a', 'b', 'c']).value =
      (.ok (some ⟨1, 0⟩), j.stepped .redo 0, ['a', 'é', '\n', 'c']) := by rfl
  refine ⟨⟨redone, hback _ redone⟩, ⟨stepDone, hstep _ _ _ stepDone⟩, by rfl, ?_, ?_⟩
  · exact hsame (.storage ⟨1, 0⟩ (.rangeOutOfBounds ⟨1, 0⟩ 1 0)) _ (by rfl)
  · obtain ⟨hk, ht⟩ := hinert (.storage ⟨1, 0⟩ (.rangeOutOfBounds ⟨1, 0⟩ 1 0)) _ _ (by rfl)
    exact Prod.ext hk ht

end EditJournal
