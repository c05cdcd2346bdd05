/-
EditJournal.Proofs.IdleCalls — calls that fail, or have nothing to do, leave no trace.

* `Session.Fails s action` — the call is answered with an error.
* `Session.Idles s action` — it is, or there is nothing for it to do: no text to put in or
  to take out at a place that is there, no change to journal, no bracket to close, no
  history left in the direction of the step.
* `Session.busy s actions` — the other calls of a run, with what they were answered.

`idle_calls_leave_no_trace` is the main result: an idle call changes nothing, and of the
calls that may be idle no other one does, so that the busy calls of a run do alone what they
do in it.

## How the proof goes

Each operation decides that it is idle before it changes anything: a text refuses a place
before a change is journaled, and a journal that takes something in gives out a version
(`Journal.Takes.eq_iff`), so that text and journal stay exactly if the change is empty
(`Session.taken_eq_self_iff`). Only a step fails late; it takes back what it replayed
(`Journal.step_cases`), and a journal that was not replaying before is as it was. The run
lemma `Session.run_busy` is by induction on the run.
-/
import EditJournal.Proofs.Changes
import EditJournal.Proofs.Cursors
import EditJournal.Proofs.Reachable
import EditJournal.Proofs.RefusedCalls
import EditJournal.Proofs.Requests
import EditJournal.Proofs.Timeline

namespace EditJournal

/-! ## Idle calls -/

/-- Can a call of this kind find nothing to do? -/
def Action.mayIdle : Action → Bool
  | .insert .. | .delete .. | .record .. | .step _ | .groupEnd => true
  | _ => false

namespace Session

/-- The call is answered with an error. -/
def Fails (s : Session Text) (action : Action) : Prop :=
  (s.act action).value.1.error?.isSome = true

instance (s : Session Text) : DecidablePred s.Fails :=
  fun _ => inferInstanceAs (Decidable (_ = true))

/-- The call fails, or has nothing to do. -/
def Idles (s : Session Text) : Action → Prop
  | .insert place text now =>
    s.Fails (.insert place text now) ∨ text = [] ∧ (s.contents.byteIndex place).isOk = true
  | .delete place length now =>
    s.Fails (.delete place length now) ∨ length = 0 ∧ (s.contents.byteIndex place).isOk = true
  | .record kind place text now =>
    s.Fails (.record kind place text now) ∨ kind = .replace ∨ text = []
  | .step .undo => s.Fails (.step .undo) ∨ s.buffer.journal.position = 0
  | .step .redo =>
    s.Fails (.step .redo) ∨ s.buffer.journal.position = s.buffer.journal.entries.length
  | .groupEnd => s.buffer.journal.grouping.depth = 0
  | .command .. | .endRun | .groupBegin | .markSaved | .clearHistory => False

instance (s : Session Text) : DecidablePred s.Idles
  | .insert .. | .delete .. | .record .. | .step .undo | .step .redo =>
    inferInstanceAs (Decidable (_ ∨ _))
  | .groupEnd => inferInstanceAs (Decidable (_ = 0))
  | .command .. | .endRun | .groupBegin | .markSaved | .clearHistory => .isFalse id

/-- The calls of a run that are not idle where they are made, with their answers. -/
def busy (s : Session Text) : List Action → List (Action × Answer)
  | [] => []
  | action :: rest =>
    if s.Idles action then (s.act action).value.2.busy rest
    else (action, (s.act action).value.1) :: (s.act action).value.2.busy rest

end Session

/-! ## What is taken in -/

/-- Of what is empty, and of nothing else, a journal takes nothing in. -/
theorem Journal.Takes.eq_iff {j k : Journal} {edit : Edit} {now : Nat} {status : RecordStatus}
    (takes : j.Takes edit now status k) : k = j ↔ edit.payload = [] := by
  constructor
  · intro same
    by_contra nonempty
    obtain ⟨p, d, last, leaves⟩ := takes.leaves_of_nonempty nonempty
    have next := leaves.next
    rw [same] at next
    omega
  · intro empty
    cases takes with
    | nothing _ => rfl
    | joined tail changed nonempty last joins => exact absurd empty nonempty
    | started group mergeable nonempty starts => exact absurd empty nonempty

/-- A bracket is closed where one is open. -/
theorem Grouping.close_eq_self_iff (g : Grouping) : g.close.2 = g ↔ g.depth = 0 := by
  constructor
  · intro same
    have depth := congrArg Grouping.depth same
    unfold close at depth
    split at depth
    · assumption
    · rename_i one
      split at depth <;> simp [one] at depth
    · rename_i nested
      simp [nested] at depth
  · intro none
    simp [close, none]

namespace Session

variable {s : Session Text} {action : Action}

/-- A session in which a change is taken in is another one, unless the change is empty. -/
theorem taken_eq_self_iff {edit : Edit} {now : Nat} {status : RecordStatus} {k : Journal}
    {t : Text}
    (leads : edit.Leads s.contents t) (takes : s.buffer.journal.Takes edit now status k) :
    ({ s with buffer := { s.buffer with store := t, journal := k } } : Session Text) = s ↔
      edit.payload = [] := by
  rw [← takes.eq_iff]
  constructor
  · intro same
    exact congrArg (·.buffer.journal) same
  · intro journal
    have text : t = s.contents := leads.eq_of_nil (takes.eq_iff.mp journal)
    rw [journal, text]
    rfl

/-! ## Single calls -/

theorem act_insert_eq_self_iff (rests : s.buffer.journal.replaying = false) {place : Location}
    {text : Text} {now : Nat} :
    (s.act (.insert place text now)).value.2 = s ↔ s.Idles (.insert place text now) := by
  cases found : s.contents.insertAt place text with
  | error cause =>
    have refused := act_insert_of_error found now
    simp [Idles, Fails, refused, Answer.error?]
  | ok outcome =>
    obtain ⟨stop, t⟩ := outcome
    obtain ⟨-, inserted⟩ := (Text.insertAt_eq_ok_iff s.contents place text stop t).mp found
    obtain ⟨byte, valid, -, -⟩ := inserted.byteIndex_eq
    obtain ⟨status, k, value, takes, -⟩ := act_insert_of_ok rests found now
    have leads : Edit.Leads { kind := .insert, place, payload := text } s.contents t :=
      inserted
    rw [value, taken_eq_self_iff leads takes]
    simp [Idles, Fails, value, Answer.error?, valid, Except.isOk, Except.toBool]

theorem act_delete_eq_self_iff (rests : s.buffer.journal.replaying = false) {place : Location}
    {length now : Nat} :
    (s.act (.delete place length now)).value.2 = s ↔ s.Idles (.delete place length now) := by
  cases found : s.contents.deleteAt place length with
  | error cause =>
    have refused := act_delete_of_error found now
    simp [Idles, Fails, refused, Answer.error?]
  | ok outcome =>
    obtain ⟨removed, t⟩ := outcome
    obtain ⟨rfl, inserted⟩ :=
      (Text.deleteAt_eq_ok_iff s.contents place length removed t).mp found
    obtain ⟨byte, -, valid, -⟩ := inserted.byteIndex_eq
    obtain ⟨status, k, value, takes, -⟩ := act_delete_of_ok rests found now
    have leads : Edit.Leads { kind := .delete, place, payload := removed } s.contents t :=
      inserted
    rw [value, taken_eq_self_iff leads takes]
    simp [Idles, Fails, value, Answer.error?, valid, Except.isOk, Except.toBool,
      Text.byteLength_eq_zero_iff]

theorem act_record_eq_self_iff (rests : s.buffer.journal.replaying = false) {kind : EditKind}
    {place : Location} {text : Text} {now : Nat} :
    (s.act (.record kind place text now)).value.2 = s ↔
      s.Idles (.record kind place text now) := by
  rcases s.buffer.record_cases rests kind place text now with
    ⟨replace, same⟩ | ⟨status, k, plain, takes, -, hv⟩
  · have behind : (s.act (.record kind place text now)).value.2 = s :=
      congrArg (fun b => { s with buffer := b }) same
    exact iff_of_true behind (.inr (.inl replace))
  · have value : (s.act (.record kind place text now)).value =
        (.recorded (.ok status), { s with buffer := { s.buffer with journal := k } }) := by
      simp [act, hv]
    have same : (s.act (.record kind place text now)).value.2 = s ↔ text = [] := by
      rw [value]
      refine Iff.trans ?_ takes.eq_iff
      constructor
      · intro same
        exact congrArg (·.buffer.journal) same
      · intro journal
        rw [journal]
    rw [same]
    simp [Idles, Fails, value, Answer.error?, plain]

/-- A step is idle where it fails, or where there is no entry for it. -/
theorem idles_step_iff (within : s.buffer.journal.position ≤ s.buffer.journal.entries.length)
    (direction : HistoryStep) :
    s.Idles (.step direction) ↔
      s.Fails (.step direction) ∨ s.buffer.journal.target? direction = none := by
  cases direction with
  | undo =>
    rw [Journal.target?_undo_eq_none_iff within]
    exact Iff.rfl
  | redo =>
    rw [Journal.target?_redo_eq_none_iff within]
    exact Iff.rfl

theorem act_step_eq_self_iff (rests : s.buffer.journal.replaying = false)
    (within : s.buffer.journal.position ≤ s.buffer.journal.entries.length)
    {direction : HistoryStep} :
    (s.act (.step direction)).value.2 = s ↔ s.Idles (.step direction) := by
  rw [idles_step_iff within]
  rcases s.buffer.journal.step_cases direction s.buffer.store with
    ⟨none, hv⟩ | ⟨index, entry, target, ⟨t, -, hv⟩ | ⟨error, -, hv⟩⟩
  · have behind : (s.act (.step direction)).value.2 = s := by simp [act, Buffer.step, hv]
    exact iff_of_true behind (.inr none)
  · have value : (s.act (.step direction)).value =
        (.stepped (.ok (some (entry.cursorAfter direction))),
          { s with buffer := { s.buffer with
            journal := s.buffer.journal.stepped direction index, store := t } }) := by
      simp [act, Buffer.step, hv]
    have moved : (s.act (.step direction)).value.2 ≠ s := by
      intro same
      rw [value] at same
      have position : Journal.positionAfter index direction = s.buffer.journal.position :=
        congrArg (·.buffer.journal.position) same
      rw [((Journal.target?_eq_some_iff _ _ _ _).mp target).2] at position
      cases direction <;> simp [Journal.positionAfter, HistoryStep.opposite] at position
    refine iff_of_false moved ?_
    simp [Fails, value, Answer.error?, target]
  · -- what was replayed is taken back
    have behind : (s.act (.step direction)).value.2 = s := by
      simp [act, Buffer.step, hv, ← rests]
    have fails : s.Fails (.step direction) := by
      simp [Fails, act, Buffer.step, hv, Answer.error?]
    exact iff_of_true behind (.inl fails)

theorem act_groupEnd_eq_self_iff : (s.act .groupEnd).value.2 = s ↔ s.Idles .groupEnd := by
  have behind : (s.act .groupEnd).value.2 =
      { s with buffer := (s.act .groupEnd).value.2.buffer } :=
    rfl
  rw [behind, buffer_groupEnd]
  refine Iff.trans ?_ s.buffer.journal.grouping.close_eq_self_iff
  constructor
  · intro same
    exact congrArg (·.buffer.journal.grouping) same
  · intro closed
    rw [closed]

/-- **A call that may idle changes nothing exactly if it does.** -/
theorem act_eq_self_iff (reachable : s.buffer.Reachable) (may : action.mayIdle = true) :
    (s.act action).value.2 = s ↔ s.Idles action := by
  have rests := reachable.sound.idle
  cases action with
  | insert place text now => exact act_insert_eq_self_iff rests
  | delete place length now => exact act_delete_eq_self_iff rests
  | record kind place text now => exact act_record_eq_self_iff rests
  | step direction => exact act_step_eq_self_iff rests reachable.sound.position_le
  | groupEnd => exact act_groupEnd_eq_self_iff
  | _ => simp [Action.mayIdle] at may

theorem Idles.mayIdle (idles : s.Idles action) : action.mayIdle = true := by
  cases action with
  | insert place text now => rfl
  | delete place length now => rfl
  | record kind place text now => rfl
  | step direction => rfl
  | groupEnd => rfl
  | _ => exact absurd idles id

/-- **An idle call changes nothing.** -/
theorem Idles.act (idles : s.Idles action) (reachable : s.buffer.Reachable) :
    (s.act action).value.2 = s :=
  (act_eq_self_iff reachable idles.mayIdle).mpr idles

/-! ## Runs -/

/-- **The busy calls of a run do alone what they do in it.** -/
theorem run_busy (reachable : s.buffer.Reachable) (actions : List Action) :
    (s.run ((s.busy actions).map (·.1))).value =
      ((s.busy actions).map (·.2), s.after actions) := by
  induction actions generalizing s with
  | nil => rfl
  | cons action rest ih =>
    rw [busy, after_cons]
    by_cases idles : s.Idles action
    · rw [if_pos idles, idles.act reachable]
      exact ih reachable
    · rw [if_neg idles, List.map_cons, List.map_cons, run]
      simp only [Narrated.value_bind, Narrated.value_pure]
      rw [ih (reachable.act s action)]

end Session

/-- **Idle calls leave no trace.** Whatever came about in a buffer: a call that fails, or has
nothing to do, leaves the session exactly as it was, its text, the whole journal with the
redo tail, the versions and the open typing run, and the saved version. So any later run
does, answers and tells what it would without the call. No other call of these kinds leaves
the session as it was. Of a run, the calls that are not idle do alone what they do in it. -/
theorem idle_calls_leave_no_trace (s : Session Text) (reachable : s.buffer.Reachable) :
    (∀ action, s.Idles action →
      (s.act action).value.2 = s ∧ ∀ later, (s.act action).value.2.run later = s.run later) ∧
    (∀ action, action.mayIdle = true → (s.act action).value.2 = s → s.Idles action) ∧
    ∀ actions, (s.run ((s.busy actions).map (·.1))).value =
      ((s.busy actions).map (·.2), s.after actions) := by
  refine ⟨?_, ?_, ?_⟩
  · intro action idles
    have same := idles.act reachable
    exact ⟨same, fun later => congrArg (Session.run · later) same⟩
  · intro action may same
    exact (Session.act_eq_self_iff reachable may).mp same
  · intro actions
    exact Session.run_busy reachable actions

/-- Behind a group and a step back, a word is typed, and between its letters there are calls
that fail or have nothing to do. -/
def interruptedWord : List Action :=
  [.groupBegin, .insert ⟨0, 1⟩ ['é', '\n'] 0, .groupEnd, .step .undo, .step .undo,
    .insert ⟨0, 0⟩ ['x'] 5, .insert ⟨3, 0⟩ ['!'] 6, .insert ⟨0, 1⟩ [] 6, .delete ⟨0, 0⟩ 9 6,
    .delete ⟨0, 2⟩ 0 6, .record .replace ⟨0, 0⟩ ['!'] 6,
    .record .delete ⟨0, 0⟩ [] 6, .groupEnd, .step .redo, .insert ⟨0, 1⟩ ['y'] 7]

/-- Six calls are busy. The letters join in one entry all the same, and while the redo tail
is there, none of the calls drops it. -/
theorem interruptedWord_is_one_entry :
    let s := Session.opened [] ['a', 'b'] {}
    let back := s.after (interruptedWord.take 5)
    let calls := (s.busy interruptedWord).map (·.1)
    back.buffer.journal.position = 0 ∧
      (back.act (.record .replace ⟨0, 0⟩ ['!'] 1)).value.2.buffer.journal.entries.length = 1 ∧
      calls = [.groupBegin, .insert ⟨0, 1⟩ ['é', '\n'] 0, .groupEnd, .step .undo,
        .insert ⟨0, 0⟩ ['x'] 5, .insert ⟨0, 1⟩ ['y'] 7] ∧
      s.after calls = s.after interruptedWord ∧
      (s.after interruptedWord).contents = ['x', 'y', 'a', 'b'] ∧
      (s.after interruptedWord).buffer.journal.entries.length = 1 := by
  intro s back calls
  have created : s.buffer.Reachable := .create _ _ _ _
  have reachable : back.buffer.Reachable := created.after (interruptedWord.take 5)
  obtain ⟨-, -, alone⟩ := idle_calls_leave_no_trace s created
  obtain ⟨traceless, -, -⟩ := idle_calls_leave_no_trace back reachable
  have idles : back.Idles (.record .replace ⟨0, 0⟩ ['!'] 1) := .inr (.inl rfl)
  obtain ⟨same, -⟩ := traceless _ idles
  refine ⟨by decide +kernel, ?_, by decide +kernel, ?_, by decide +kernel, by decide +kernel⟩
  · rw [same]
    decide +kernel
  · rw [Session.after, alone interruptedWord]

end EditJournal
