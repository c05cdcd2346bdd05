/-
EditJournal.Proofs.FaultyReplay — replaying on a storage that refuses calls.

`FaultyStorage.Mirrors` compares a computation on such a storage with the same one on
its text: unless it meets a refused call, it does the same. That holds of every function
up to a step in the history, and is put together along their binds.

`replayEdits_of_refused` says what becomes of a replay that meets one refused call,
whichever that is: it fails with the storage's error, and the text is what it was.

## How the proof goes

A change of a chain takes one call. If that is refused, the change has done nothing, and
the finished ones are taken back. The refused call was the only one, so rollback does as
on a text, where it walks back along the chain (`Entry.rollback_of_chain`).
-/
import EditJournal.Proofs.HistorySteps

namespace EditJournal

namespace FaultyStorage

/-! ## Counting refused calls -/

/-- The storage behind a call that did nothing. -/
def counted (s : FaultyStorage) : FaultyStorage := { s with calls := s.calls + 1 }

/-- How many calls were refused from one state of the storage to a later one. -/
def refusedUntil (s t : FaultyStorage) : Nat :=
  (List.range' s.calls (t.calls - s.calls)).countP s.refuses

/-- `t` is the storage `s`, some calls later. -/
structure Precedes (s t : FaultyStorage) : Prop where
  refuses : t.refuses = s.refuses
  calls : s.calls ≤ t.calls

variable {s t u : FaultyStorage}

@[simp] theorem refusedUntil_self (s : FaultyStorage) : s.refusedUntil s = 0 := by
  simp [refusedUntil]

theorem refusedUntil_counted (s : FaultyStorage) (text : Text) :
    s.refusedUntil { s.counted with text } = (s.refuses s.calls).toNat := by
  cases h : s.refuses s.calls <;> simp [refusedUntil, counted, h]

namespace Precedes

theorem refl (s : FaultyStorage) : s.Precedes s := ⟨rfl, Nat.le_refl _⟩

theorem counted (s : FaultyStorage) (text : Text) : s.Precedes { s.counted with text } :=
  ⟨rfl, Nat.le_succ _⟩

theorem trans (h : s.Precedes t) (h' : t.Precedes u) : s.Precedes u :=
  ⟨h'.refuses.trans h.refuses, Nat.le_trans h.calls h'.calls⟩

/-- Refused calls add up. -/
theorem refusedUntil_eq (h : s.Precedes t) (h' : t.Precedes u) :
    s.refusedUntil u = s.refusedUntil t + t.refusedUntil u := by
  have first := h.calls
  have second := h'.calls
  have middle : t.calls = s.calls + 1 * (t.calls - s.calls) := by omega
  have total : u.calls - s.calls = t.calls - s.calls + (u.calls - t.calls) := by omega
  have parts : List.range' s.calls (u.calls - s.calls) =
      List.range' s.calls (t.calls - s.calls) ++ List.range' t.calls (u.calls - t.calls) := by
    rw [total, ← List.range'_append, ← middle]
  rw [refusedUntil, parts, List.countP_append, refusedUntil, refusedUntil, h.refuses]

end Precedes

/-! ## Computations without refused calls -/

section Mirrors

variable {α β γ δ : Type}

/-- A computation on the storage `s` comes to `x`, and the same one on a text comes to
`y`: if the first one meets no refused call, that is the same. `store` is the storage of
an outcome, and `plain` the outcome with its text instead. -/
structure Mirrors (s : FaultyStorage) (store : α → FaultyStorage) (plain : α → β) (x : α)
    (y : β) : Prop where
  precedes : s.Precedes (store x)
  same : s.refusedUntil (store x) = 0 → plain x = y

variable {store : α → FaultyStorage} {plain : α → β} {store' : γ → FaultyStorage}
    {plain' : γ → δ}

theorem Mirrors.done {x : α} (rest : store x = s) : s.Mirrors store plain x (plain x) :=
  ⟨rest ▸ .refl _, fun _ => rfl⟩

theorem Mirrors.bind {x : Narrated α} {y : Narrated β} {f : α → Narrated γ}
    {g : β → Narrated δ} (h : s.Mirrors store plain x.value y.value)
    (hf : ∀ a, (store a).Mirrors store' plain' (f a).value (g (plain a)).value) :
    s.Mirrors store' plain' (x >>= f).value (y >>= g).value := by
  have later := hf x.value
  refine ⟨h.precedes.trans later.precedes, ?_⟩
  intro none
  have sum := h.precedes.refusedUntil_eq later.precedes
  simp only [Narrated.value_bind] at none ⊢
  rw [← h.same (by omega), later.same (by omega)]

/-- An outcome with the text instead of the storage. -/
def forget (x : α × FaultyStorage) : α × Text := (x.1, x.2.text)

/-! ## One call -/

variable (call : Text → Narrated (Except TextError α × Text))

theorem attempt_of_refused (h : s.refuses s.calls = true) :
    (s.attempt call).value = (.error (.notCharBoundary s.calls), s.counted) := by
  simp [attempt, h, counted]

theorem attempt_of_granted (h : s.refuses s.calls = false) :
    (s.attempt call).value =
      ((call s.text).value.1, { s.counted with text := (call s.text).value.2 }) := by
  simp [attempt, h, counted]

theorem refusedUntil_attempt (s : FaultyStorage) :
    s.refusedUntil (s.attempt call).value.2 = (s.refuses s.calls).toNat := by
  cases h : s.refuses s.calls with
  | true =>
    rw [attempt_of_refused call h, ← h]
    exact s.refusedUntil_counted s.text
  | false =>
    rw [attempt_of_granted call h, ← h]
    exact s.refusedUntil_counted _

theorem attempt_mirrors (s : FaultyStorage) :
    s.Mirrors Prod.snd forget (s.attempt call).value (call s.text).value := by
  have count := s.refusedUntil_attempt call
  cases h : s.refuses s.calls with
  | true =>
    rw [h] at count
    rw [attempt_of_refused call h] at count ⊢
    exact ⟨.counted s s.text, fun none => absurd (count.symm.trans none) (by decide)⟩
  | false =>
    rw [attempt_of_granted call h]
    exact ⟨.counted s _, fun _ => rfl⟩

end Mirrors

theorem insert_mirrors (s : FaultyStorage) (place : Location) (new : Text) :
    s.Mirrors Prod.snd forget (Storage.insert s place new).value
      (Storage.insert s.text place new).value :=
  attempt_mirrors (Text.insertTold · place new) s

theorem delete_mirrors (s : FaultyStorage) (place : Location) (length : Nat) :
    s.Mirrors Prod.snd forget (Storage.delete s place length).value
      (Storage.delete s.text place length).value :=
  attempt_mirrors (Text.deleteTold · place length) s

end FaultyStorage

open FaultyStorage (Precedes Mirrors forget)

/-! ## One change -/

namespace Edit

variable {step : HistoryStep} {s : FaultyStorage} {e : Edit}

theorem put_mirrors (e : Edit) (s : FaultyStorage) :
    s.Mirrors Prod.snd forget (e.put s).value (e.put s.text).value := by
  refine (s.insert_mirrors e.place e.payload).bind ?_
  rintro ⟨result, t⟩
  cases result <;> exact .done rfl

theorem take_mirrors (e : Edit) (s : FaultyStorage) :
    s.Mirrors Prod.snd forget (e.take s).value (e.take s.text).value := by
  refine (s.delete_mirrors e.place e.payload.byteLength).bind ?_
  rintro ⟨result, t⟩
  cases result with
  | error cause => exact .done rfl
  | ok found =>
    by_cases hf : found = e.payload
    · simp only [forget, hf, if_true]
      exact .done rfl
    · simp only [forget, hf, if_false]
      refine (t.insert_mirrors e.place found).bind ?_
      rintro ⟨back, u⟩
      cases back <;> exact .done rfl

theorem replay_mirrors (e : Edit) (step : HistoryStep) (s : FaultyStorage) :
    s.Mirrors Prod.snd forget (e.replay step s).value (e.replay step s.text).value := by
  unfold Edit.replay
  split
  · exact e.put_mirrors s
  · exact e.take_mirrors s
  · exact e.take_mirrors s
  · exact e.put_mirrors s
  · exact .done rfl

/-- A change whose first call is refused does nothing. -/
theorem replay_of_refused (step : HistoryStep) (plain : e.kind ≠ .replace)
    (refused : s.refuses s.calls = true) :
    (e.replay step s).value =
      (.error (.storage e.place (.notCharBoundary s.calls)), s.counted) := by
  have put : (e.put s).value =
      (.error (.storage e.place (.notCharBoundary s.calls)), s.counted) := by
    simp [Edit.put, Storage.insert, FaultyStorage.attempt_of_refused _ refused]
  have take : (e.take s).value =
      (.error (.storage e.place (.notCharBoundary s.calls)), s.counted) := by
    simp [Edit.take, Storage.delete, FaultyStorage.attempt_of_refused _ refused]
  cases hk : e.kind with
  | insert => cases step <;> simpa [Edit.replay, hk]
  | delete => cases step <;> simpa [Edit.replay, hk]
  | replace => exact absurd hk plain

theorem put_of_granted {t : Text} (h : (e.put s.text).value = (.ok (), t))
    (granted : s.refuses s.calls = false) :
    (e.put s).value = (.ok (), { s.counted with text := t }) := by
  have called : (Storage.insert s e.place e.payload).value = _ :=
    FaultyStorage.attempt_of_granted (Text.insertTold · e.place e.payload) granted
  cases hv : (Text.insertTold s.text e.place e.payload).value with
  | mk result u =>
    cases result with
    | error cause => simp [Edit.put, Storage.insert, hv] at h
    | ok stop =>
      obtain rfl : u = t := by simpa [Edit.put, Storage.insert, hv] using h
      simp [Edit.put, called, hv]

theorem take_of_granted {t : Text} (h : (e.take s.text).value = (.ok (), t))
    (granted : s.refuses s.calls = false) :
    (e.take s).value = (.ok (), { s.counted with text := t }) := by
  have called : (Storage.delete s e.place e.payload.byteLength).value = _ :=
    FaultyStorage.attempt_of_granted (Text.deleteTold · e.place e.payload.byteLength) granted
  cases hv : (Text.deleteTold s.text e.place e.payload.byteLength).value with
  | mk result u =>
    cases result with
    | error cause => simp [Edit.take, Storage.delete, hv] at h
    | ok found =>
      by_cases hf : found = e.payload
      · obtain rfl : u = t := by simpa [Edit.take, Storage.delete, hv, hf] using h
        simp [Edit.take, called, hv, hf]
      · -- anything else that is found makes it fail, put back or not
        simp only [Edit.take, Storage.delete, hv, hf, Narrated.value_bind, if_false] at h
        split at h <;> simp at h

/-- A change that leads somewhere takes one call. -/
theorem replay_of_granted {t : Text} (leads : step.along e.Leads s.text t)
    (granted : s.refuses s.calls = false) :
    (e.replay step s).value = (.ok (), { s.counted with text := t }) := by
  have plain := ((e.replay_atomic step s.text).ok_iff t).mpr leads
  unfold Edit.replay at plain ⊢
  split at plain
  · exact put_of_granted plain granted
  · exact take_of_granted plain granted
  · exact take_of_granted plain granted
  · exact put_of_granted plain granted
  · simp at plain

/-- A change that leads somewhere can be replayed. -/
theorem kind_ne_replace_of_leads {t u : Text} (leads : step.along e.Leads t u) :
    e.kind ≠ .replace := by
  intro hk
  cases step <;> simp [Edit.Leads, hk] at leads

end Edit

/-! ## Entries -/

namespace Entry

open Edit (Chain)

variable {step : HistoryStep} {s : FaultyStorage}

theorem rollback_mirrors (step : HistoryStep) (finished : List Edit) (s : FaultyStorage) :
    s.Mirrors id FaultyStorage.text (rollback step finished s).value
      (rollback step finished s.text).value := by
  induction finished generalizing s with
  | nil => exact .done rfl
  | cons e rest ih =>
    refine (e.replay_mirrors step.opposite s).bind ?_
    rintro ⟨result, t⟩
    cases result <;> exact ih t

theorem replayEdits_mirrors (step : HistoryStep) (finished edits : List Edit)
    (s : FaultyStorage) :
    s.Mirrors Prod.snd forget (replayEdits step finished edits s).value
      (replayEdits step finished edits s.text).value := by
  induction edits generalizing finished s with
  | nil => exact .done rfl
  | cons e rest ih =>
    refine (e.replay_mirrors step s).bind ?_
    rintro ⟨result, t⟩
    cases result with
    | ok done => exact ih (e :: finished) t
    | error error =>
      refine (rollback_mirrors step finished t).bind ?_
      intro u
      exact .done rfl

theorem replay_mirrors (entry : Entry) (step : HistoryStep) (s : FaultyStorage) :
    s.Mirrors Prod.snd forget (entry.replay step s).value
      (entry.replay step s.text).value := by
  cases step with
  | redo => exact replayEdits_mirrors .redo [] entry.edits s
  | undo => exact replayEdits_mirrors .undo [] entry.edits.reverse s

/-- **Where a replay along a chain meets one refused call, it fails with the storage's
error, and the text is that of its start.** -/
theorem replayEdits_of_refused (finished edits : List Edit) {start t : Text}
    (back : Chain step.opposite finished s.text start) (chain : Chain step edits s.text t)
    (one : s.refusedUntil (replayEdits step finished edits s).value.2 = 1) :
    ∃ place cause,
      (replayEdits step finished edits s).value.1 = .error (.storage place cause) ∧
        (replayEdits step finished edits s).value.2.text = start := by
  -- on the changes; what is finished grows as the chain behind it does
  induction edits generalizing finished s with
  | nil => simp [replayEdits] at one
  | cons e rest ih =>
    obtain ⟨u, leads, chain⟩ := chain
    cases refused : s.refuses s.calls with
    | true =>
      have failed := Edit.replay_of_refused step (Edit.kind_ne_replace_of_leads leads) refused
      simp only [replayEdits, Narrated.value_bind, failed, Narrated.value_pure] at one ⊢
      have rolled := rollback_mirrors step finished s.counted
      have later : s.counted.Precedes (rollback step finished s.counted).value :=
        rolled.precedes
      rw [(Precedes.counted s s.text).refusedUntil_eq later, s.refusedUntil_counted,
        refused] at one
      have none : s.counted.refusedUntil (rollback step finished s.counted).value = 0 :=
        Nat.add_left_cancel one
      refine ⟨e.place, .notCharBoundary s.calls, rfl, ?_⟩
      rw [rolled.same none]
      exact rollback_of_chain back
    | false =>
      have done := Edit.replay_of_granted leads refused
      simp only [replayEdits, Narrated.value_bind, done] at one ⊢
      refine ih (e :: finished) ⟨s.text, by simpa using leads, back⟩ chain ?_
      have later := replayEdits_mirrors step (e :: finished) rest { s.counted with text := u }
      rw [(Precedes.counted s u).refusedUntil_eq later.precedes, s.refusedUntil_counted,
        refused] at one
      exact (Nat.zero_add _).symm.trans one

/-- So does the replay of an entry that leads somewhere. -/
theorem replay_of_refused {entry : Entry} {t : Text} (leads : step.along entry.Leads s.text t)
    (one : s.refusedUntil (entry.replay step s).value.2 = 1) :
    ∃ place cause, (entry.replay step s).value.1 = .error (.storage place cause) ∧
      (entry.replay step s).value.2.text = s.text := by
  cases step with
  | redo => exact replayEdits_of_refused [] entry.edits rfl leads one
  | undo =>
    exact replayEdits_of_refused [] entry.edits.reverse rfl
      ((Edit.chain_reverse .redo entry.edits t s.text).mpr leads) one

end Entry

/-! ## Steps in the history -/

namespace Journal

variable {j : Journal} {direction : HistoryStep} {s : FaultyStorage}

theorem step_mirrors (j : Journal) (direction : HistoryStep) (s : FaultyStorage) :
    s.Mirrors (·.2.2) (fun x => (x.1, x.2.1, x.2.2.text)) (j.step direction s).value
      (j.step direction s.text).value := by
  unfold Journal.step
  cases ht : j.target? direction with
  | none => exact .done rfl
  | some target =>
    obtain ⟨index, entry⟩ := target
    simp only [Narrated.value_within]
    refine (entry.replay_mirrors direction s).bind ?_
    rintro ⟨result, t⟩
    cases result <;> exact .done rfl

/-- **A step that meets one refused call fails with the storage's error and changes
nothing**, if its target leads somewhere. -/
theorem step_of_refused {index : Nat} {entry : Entry} {t : Text}
    (ht : j.target? direction = some (index, entry))
    (leads : direction.along entry.Leads s.text t)
    (one : s.refusedUntil (j.step direction s).value.2.2 = 1) :
    ∃ place cause, (j.step direction s).value.1 = .error (.storage place cause) ∧
      (j.step direction s).value.2.1 = { j with replaying := false } ∧
      (j.step direction s).value.2.2.text = s.text := by
  cases hv : (entry.replay direction s).value with
  | mk result u =>
    have store : (j.step direction s).value.2.2 = u := by
      cases result <;> simp [Journal.step, ht, hv]
    have one' : s.refusedUntil (entry.replay direction s).value.2 = 1 := by
      rw [hv, ← store]
      exact one
    obtain ⟨place, cause, failed, same⟩ := Entry.replay_of_refused leads one'
    rw [hv] at failed same
    obtain rfl : result = .error (.storage place cause) := failed
    refine ⟨place, cause, ?_, ?_, ?_⟩
    · simp [Journal.step, ht, hv]
    · simp [Journal.step, ht, hv]
    · rw [store]
      exact same

end Journal

end EditJournal
