/-
EditJournal.Proofs.Commands — a command takes as many steps as there are, and shows
them at once.

* `Journal.stepsLeft direction` — how many steps there are in a direction.
* `Buffer.behindStep direction` — the buffer behind one step; behind `k` of them it is
  `(behindStep direction)^[k]`.

`command_takes_steps` is the main result.

## How the proof goes

A ledger accounts for a history of its own, so that a step fails nowhere: while one is
left it moves (`Ledger.Covers.step_of_left`), and leaves one fewer in its direction and one
more in the other (`stepsLeft_behindStep`). It is taken back by the opposite step, but that
the typing run is over then. Since it is over behind the first step already, `k` steps and
as many back are no different (`iterate_opposite`). What a command does is then all in one
equation, `value_command`, and two commands are one since iterations add up.
-/
import Mathlib.Logic.Function.Iterate
import EditJournal.Proofs.Publishing
import EditJournal.Proofs.Reachable
import EditJournal.Proofs.Timeline

namespace EditJournal

/-! ## Steps that are left -/

namespace Journal

/-- How many steps there are in a direction. -/
def stepsLeft (j : Journal) : HistoryStep → Nat
  | .undo => j.position
  | .redo => j.entries.length - j.position

variable {j : Journal} {direction : HistoryStep}

theorem target?_eq_none_iff (h : j.position ≤ j.entries.length) :
    j.target? direction = none ↔ j.stepsLeft direction = 0 := by
  cases direction with
  | undo => exact target?_undo_eq_none_iff h
  | redo =>
    rw [target?_redo_eq_none_iff h, stepsLeft]
    omega

/-- A step leaves one fewer in its direction, and one more in the other. -/
theorem stepsLeft_stepped {index : Nat} {entry : Entry}
    (h : j.target? direction = some (index, entry)) :
    (j.stepped direction index).stepsLeft direction + 1 = j.stepsLeft direction ∧
      (j.stepped direction index).stepsLeft direction.opposite =
        j.stepsLeft direction.opposite + 1 := by
  obtain ⟨found, position⟩ := (target?_eq_some_iff j direction index entry).mp h
  have within : index < j.entries.length := (List.getElem?_eq_some_iff.mp found).1
  have entries : (j.stepped direction index).entries = j.entries := rfl
  cases direction with
  | undo =>
    have position : j.position = index + 1 := position
    simp only [stepsLeft, HistoryStep.opposite, stepped_position, entries, positionAfter,
      position, true_and]
    omega
  | redo =>
    have position : j.position = index := position
    simp only [stepsLeft, HistoryStep.opposite, stepped_position, entries, positionAfter,
      position, and_true]
    omega

/-- There and back is the end of the typing run. -/
theorem stepped_opposite (idle : j.replaying = false) {index : Nat} {entry : Entry}
    (h : j.target? direction = some (index, entry)) :
    (j.stepped direction index).stepped direction.opposite index = j.endRun := by
  obtain ⟨-, position⟩ := (target?_eq_some_iff j direction index entry).mp h
  have rested : ({ j with replaying := false, position := j.position } : Journal) = j := by
    rw [← idle]
  show ({ j with replaying := false, position := positionAfter index direction.opposite } :
    Journal).endRun = j.endRun
  rw [← position, rested]

end Journal

/-! ## The buffer behind some steps -/

namespace Buffer

/-- The buffer behind a step. -/
def behindStep (direction : HistoryStep) (b : Buffer Text) : Buffer Text :=
  (b.step direction).value.2

variable {b : Buffer Text} {direction : HistoryStep}

/-- A step leaves the display brackets as they are, and does not look at them. -/
theorem iterate_behindStep_depth (b : Buffer Text) (depth : EditDepth) (k : Nat) :
    (behindStep direction)^[k] { b with depth } =
      { (behindStep direction)^[k] b with depth } := by
  induction k with
  | zero => rfl
  | succ k ih => rw [Function.iterate_succ_apply', Function.iterate_succ_apply', ih]; rfl

theorem depth_iterate_behindStep (b : Buffer Text) (k : Nat) :
    ({ (behindStep direction)^[k] b with depth := b.depth } : Buffer Text) =
      (behindStep direction)^[k] b :=
  (iterate_behindStep_depth b b.depth k).symm

end Buffer

theorem Session.after_steps (s : Session Text) (direction : HistoryStep) (k : Nat) :
    s.after (List.replicate k (.step direction)) =
      { s with buffer := (Buffer.behindStep direction)^[k] s.buffer } := by
  induction k generalizing s with
  | zero => rfl
  | succ k ih =>
    rw [List.replicate_succ, after_cons, ih, Function.iterate_succ_apply]
    rfl

namespace Ledger.Covers

open Buffer (behindStep)

variable {ledger : Ledger} {b : Buffer Text} {direction : HistoryStep} {index : Nat}
    {entry : Entry}

theorem behind (h : ledger.Covers b) (direction : HistoryStep) :
    ledger.Covers (behindStep direction b) :=
  (h.step_carries direction).1.covers

/-- A step that has a target moves. -/
theorem step_of_target (h : ledger.Covers b)
    (target : b.journal.target? direction = some (index, entry)) :
    (b.step direction).value = (.ok (some (entry.cursorAfter direction)), { b with
      journal := b.journal.stepped direction index
      store := ledger (b.journal.versionAt (Journal.positionAfter index direction)) }) := by
  rcases h.step direction with ⟨none, -⟩ | ⟨index', entry', target', hv⟩
  · simp [target] at none
  · obtain ⟨rfl, rfl⟩ : index = index' ∧ entry = entry' := by simpa [target] using target'
    exact hv

theorem behindStep_eq (h : ledger.Covers b)
    (target : b.journal.target? direction = some (index, entry)) :
    behindStep direction b = { b with
      journal := b.journal.stepped direction index
      store := ledger (b.journal.versionAt (Journal.positionAfter index direction)) } :=
  congrArg Prod.snd (h.step_of_target target)

/-- Where no step is left, none is taken. -/
theorem step_of_none_left (h : ledger.Covers b)
    (none_left : b.journal.stepsLeft direction = 0) :
    (b.step direction).value = (.ok none, b) := by
  rw [← Journal.target?_eq_none_iff h.explains.position_le] at none_left
  rcases h.step direction with ⟨-, hv⟩ | ⟨index, entry, target, -⟩
  · exact hv
  · simp [none_left] at target

section Left

variable (h : ledger.Covers b) (left : 0 < b.journal.stepsLeft direction)
include h left

theorem exists_target : ∃ index entry, b.journal.target? direction = some (index, entry) := by
  have some_left := Nat.ne_of_gt left
  rw [ne_eq, ← Journal.target?_eq_none_iff h.explains.position_le] at some_left
  obtain ⟨found, target⟩ := Option.ne_none_iff_exists'.mp some_left
  exact ⟨found.1, found.2, target⟩

theorem step_of_left :
    ∃ cursor, (b.step direction).value = (.ok (some cursor), behindStep direction b) := by
  obtain ⟨index, entry, target⟩ := h.exists_target left
  exact ⟨_, (h.step_of_target target).trans (by rw [h.behindStep_eq target])⟩

/-- A step leaves one fewer in its direction, and one more in the other. -/
theorem stepsLeft_behindStep :
    (behindStep direction b).journal.stepsLeft direction + 1 = b.journal.stepsLeft direction ∧
      (behindStep direction b).journal.stepsLeft direction.opposite =
        b.journal.stepsLeft direction.opposite + 1 := by
  obtain ⟨index, entry, target⟩ := h.exists_target left
  rw [h.behindStep_eq target]
  exact Journal.stepsLeft_stepped target

theorem endRun_behindStep : (behindStep direction b).endRun = behindStep direction b := by
  obtain ⟨index, entry, target⟩ := h.exists_target left
  rw [h.behindStep_eq target]
  rfl

/-- **A step and the opposite one** end the typing run, and change nothing else. -/
theorem behindStep_opposite :
    behindStep direction.opposite (behindStep direction b) = b.endRun := by
  obtain ⟨index, entry, target⟩ := h.exists_target left
  have behind := h.behindStep_eq target
  have target_back : (behindStep direction b).journal.target? direction.opposite =
      some (index, entry) := by
    rw [behind]
    exact Journal.target?_stepped target
  have journal := Journal.stepped_opposite h.explains.idle target
  have store : ledger (b.journal.versionAt (Journal.positionAfter index direction.opposite)) =
      b.store := by
    rw [← ((Journal.target?_eq_some_iff _ _ _ _).mp target).2]
    exact h.explains.here
  rw [(h.behind direction).behindStep_eq target_back, behind, Buffer.endRun,
    ← journal, ← store]
  rfl

end Left

/-! ## Some steps -/

/-- **Steps that are left are taken**, and leave as many in the other direction. -/
theorem iterate (h : ledger.Covers b) {k : Nat} (left : k ≤ b.journal.stepsLeft direction) :
    ledger.Covers ((behindStep direction)^[k] b) ∧
      ((behindStep direction)^[k] b).journal.stepsLeft direction + k =
        b.journal.stepsLeft direction ∧
      ((behindStep direction)^[k] b).journal.stepsLeft direction.opposite =
        b.journal.stepsLeft direction.opposite + k := by
  induction k with
  | zero => exact ⟨h, rfl, rfl⟩
  | succ k ih =>
    obtain ⟨covers, fewer, more⟩ := ih (Nat.le_of_succ_le left)
    have one_left : 0 < ((behindStep direction)^[k] b).journal.stepsLeft direction := by omega
    obtain ⟨fewer', more'⟩ := covers.stepsLeft_behindStep one_left
    rw [Function.iterate_succ_apply']
    refine ⟨covers.behind direction, ?_, ?_⟩
    · omega
    · rw [more', more, Nat.add_assoc]

/-- **Steps and as many back** end the typing run, and change nothing else. -/
theorem iterate_opposite (h : ledger.Covers b) {k : Nat}
    (left : k < b.journal.stepsLeft direction) :
    (behindStep direction.opposite)^[k + 1] ((behindStep direction)^[k + 1] b) = b.endRun := by
  induction k generalizing b with
  | zero => exact h.behindStep_opposite left
  | succ k ih =>
    -- the run is over behind the first step, so that the last step back meets that buffer
    have some_left := Nat.zero_lt_of_lt left
    have fewer := (h.stepsLeft_behindStep some_left).1
    have inner := ih (h.behind direction) (by omega)
    rw [h.endRun_behindStep some_left] at inner
    rw [Function.iterate_succ_apply', Function.iterate_succ_apply (behindStep direction),
      inner, h.behindStep_opposite some_left]

end Ledger.Covers

/-! ## Commands -/

namespace Ledger.Covers

open Buffer (behindStep)

variable {ledger : Ledger} {b : Buffer Text}

/-- The steps of a command: as many as are wanted, or as there are. -/
theorem value_takeSteps (h : ledger.Covers b) (report : CommandReport) (count : Nat) :
    let left := b.journal.stepsLeft report.direction
    let taken := min count left
    ∃ cursor, (b.takeSteps report count).value =
        ({ report with
            applied := report.applied + taken
            exhausted := report.exhausted || decide (left < count)
            cursor },
          (behindStep report.direction)^[taken] b) ∧
      (taken = 0 → cursor = report.cursor) ∧
      ∀ i, taken = i + 1 →
        (((behindStep report.direction)^[i] b).step report.direction).value.1 =
          .ok cursor := by
  induction count generalizing b report with
  | zero => exact ⟨report.cursor, by simp [Buffer.takeSteps], by simp, by simp⟩
  | succ count ih =>
    cases left : b.journal.stepsLeft report.direction with
    | zero =>
      have hv := h.step_of_none_left left
      exact ⟨report.cursor, by simp [Buffer.takeSteps, hv], by simp, by simp⟩
    | succ n =>
      have some_left : 0 < b.journal.stepsLeft report.direction := by omega
      have fewer : (behindStep report.direction b).journal.stepsLeft report.direction = n :=
        Nat.succ.inj ((h.stepsLeft_behindStep some_left).1.trans left)
      obtain ⟨stop, hv⟩ := h.step_of_left some_left
      obtain ⟨cursor, steps, none_taken, last⟩ := ih (h.behind report.direction)
        { report with applied := report.applied + 1, cursor := some stop }
      simp only [fewer] at steps none_taken last
      have wanted : decide (n + 1 < count + 1) = decide (n < count) := by simp
      simp only [Nat.add_min_add_right, wanted]
      refine ⟨cursor, ?_, by simp, ?_⟩
      · rw [Function.iterate_succ_apply]
        simp only [Buffer.takeSteps, Narrated.value_bind, hv, steps]
        rw [Nat.add_assoc, Nat.add_comm 1]
      · rintro i ⟨⟩
        -- the cursor is that of this step if it is the last one
        cases taken : min count n with
        | zero =>
          rw [none_taken taken]
          exact congrArg Prod.fst hv
        | succ i =>
          rw [Function.iterate_succ_apply]
          exact last i taken

/-- The bracket of a command is closed again, and shown if it is the only one. -/
theorem value_finish_enter (depth : EditDepth) (screen : Screen) :
    ((EditScope.enter depth).value.1.finish .commit ⟨depth.level + 1⟩ screen).value.2 =
      (depth, if depth.level = 0 then screen.redrawn else screen) := by
  rw [EditScope.value_finish _ _ (EditScope.enter depth).value.1 rfl]
  simp [EditDepth.value_commit]

/-- **All that a command does.** -/
theorem value_command (h : ledger.Covers b) (direction : HistoryStep) (count : Nat)
    (screen : Screen) :
    let wanted := max count 1
    let left := b.journal.stepsLeft direction
    let taken := min wanted left
    ∃ cursor, (b.command direction count screen).value =
        ({ direction, requested := wanted, applied := taken
           exhausted := decide (left < wanted), cursor },
          (behindStep direction)^[taken] b,
          if b.depth.level = 0 then screen.redrawn else screen) ∧
      (taken = 0 → cursor = none) ∧
      ∀ i, taken = i + 1 →
        (((behindStep direction)^[i] b).step direction).value.1 = .ok cursor := by
  intro wanted left taken
  have entered : ledger.Covers { b with depth := ⟨b.depth.level + 1⟩ } :=
    ⟨h.explains, h.saved_lt⟩
  obtain ⟨cursor, steps, none_taken, last⟩ :=
    entered.value_takeSteps { direction, requested := wanted } wanted
  rw [Buffer.iterate_behindStep_depth] at steps
  refine ⟨cursor, ?_, none_taken, fun i hi => ?_⟩
  · have value : (b.command direction count screen).value =
        let steps := (Buffer.takeSteps { b with depth := ⟨b.depth.level + 1⟩ }
          { direction, requested := wanted } wanted).value
        let shown :=
          ((EditScope.enter b.depth).value.1.finish .commit steps.2.depth screen).value.2
        (steps.1, { steps.2 with depth := shown.1 }, shown.2) := rfl
    rw [value, steps]
    simp only [value_finish_enter, Buffer.depth_iterate_behindStep, Nat.zero_add,
      Bool.false_or]
    rfl
  · have same := last i hi
    rw [Buffer.iterate_behindStep_depth] at same
    exact same

end Ledger.Covers

namespace Session

variable {ledger : Ledger} {s t : Session Text} {direction : HistoryStep}

/-- Behind some steps, the opposite command with as many restores the buffer. -/
theorem command_back (covers : ledger.Covers s.buffer) {k : Nat} (some_step : 1 ≤ k)
    (within : k ≤ s.buffer.journal.stepsLeft direction)
    (behind : t.buffer = (Buffer.behindStep direction)^[k] s.buffer) :
    (∃ report, (t.act (.command direction.opposite k)).value.1 = .commanded report ∧
      report.succeeded = true ∧ report.applied = k) ∧
    (t.act (.command direction.opposite k)).value.2.buffer = s.buffer.endRun := by
  obtain ⟨covers', -, more⟩ := covers.iterate within
  rw [← behind] at covers' more
  obtain ⟨cursor, hv, -⟩ := covers'.value_command direction.opposite k t.screen
  have all_there : min (max k 1) (t.buffer.journal.stepsLeft direction.opposite) = k := by
    omega
  have enough : ¬ t.buffer.journal.stepsLeft direction.opposite < max k 1 := by omega
  rw [all_there, decide_eq_false enough] at hv
  have answer : (t.act (.command direction.opposite k)).value.1 = .commanded
      { direction := direction.opposite, requested := max k 1, applied := k, cursor } := by
    show Answer.commanded (t.buffer.command direction.opposite k t.screen).value.1 = _
    rw [hv]
  have restored : (t.act (.command direction.opposite k)).value.2.buffer =
      (Buffer.behindStep direction.opposite)^[k] t.buffer := congrArg (·.2.1) hv
  refine ⟨⟨_, answer, rfl, rfl⟩, ?_⟩
  obtain ⟨fewer, rfl⟩ := Nat.exists_eq_add_of_le' some_step
  rw [restored, behind]
  exact covers.iterate_opposite within

/-- Two commands are as good as one with the steps of both. -/
theorem commands_add (covers : ledger.Covers s.buffer) (direction : HistoryStep) {a b : Nat}
    (some_a : 1 ≤ a) (some_b : 1 ≤ b) :
    (s.after [.command direction a, .command direction b]).buffer =
      (s.after [.command direction (a + b)]).buffer := by
  have behind (u : Session Text) (covers : ledger.Covers u.buffer) {n : Nat} (some_n : 1 ≤ n) :
      (u.act (.command direction n)).value.2.buffer =
        (Buffer.behindStep direction)^[min n (u.buffer.journal.stepsLeft direction)]
          u.buffer := by
    obtain ⟨cursor, hv, -⟩ := covers.value_command direction n u.screen
    rw [Nat.max_eq_left some_n] at hv
    exact congrArg (·.2.1) hv
  have first := behind s covers some_a
  obtain ⟨covers', fewer, -⟩ :=
    covers.iterate (Nat.min_le_right a (s.buffer.journal.stepsLeft direction))
  rw [← first] at covers' fewer
  have both := behind _ covers' some_b
  have one := behind s covers (Nat.le_add_right_of_le some_a : 1 ≤ a + b)
  have together :
      min b ((s.act (.command direction a)).value.2.buffer.journal.stepsLeft direction) +
          min a (s.buffer.journal.stepsLeft direction) =
        min (a + b) (s.buffer.journal.stepsLeft direction) := by omega
  rw [← together, Function.iterate_add_apply, ← first] at one
  exact both.trans one.symm

end Session

/-- **A command takes the steps that are wanted, or those that there are,** one if none is
wanted, and reports them; it never fails. The buffer is as behind these steps, and the
screen is redrawn once, or not at all in another display bracket. Where a step was taken,
the opposite command with as many restores what was there. Two commands are as good as one
with the steps of both. -/
theorem command_takes_steps (s : Session Text) (native : s.buffer.Native)
    (direction : HistoryStep) (count : Nat) :
    let wanted := max count 1
    let left := s.buffer.journal.stepsLeft direction
    let taken := min wanted left
    let t := (s.act (.command direction count)).value.2
    let back := (t.act (.command direction.opposite taken)).value
    (∃ cursor, (s.act (.command direction count)).value.1 =
        .commanded { direction, requested := wanted, applied := taken
                     exhausted := decide (left < wanted), failure := none, cursor } ∧
      (taken = 0 → cursor = none) ∧
      ∀ i, taken = i + 1 → ((s.after (List.replicate i (.step direction))).act
        (.step direction)).value.1 = .stepped (.ok cursor)) ∧
    t.buffer = (s.after (List.replicate taken (.step direction))).buffer ∧
    t.buffer.journal.stepsLeft direction = left - taken ∧
    t.screen = (if s.buffer.depth.level = 0 then s.screen.redrawn else s.screen) ∧
    t.buffer.depth = s.buffer.depth ∧
    (1 ≤ taken →
      (∃ report, back.1 = .commanded report ∧ report.succeeded = true ∧
        report.applied = taken) ∧
      back.2.buffer = s.buffer.endRun ∧ back.2.contents = s.contents ∧
      back.2.buffer.journal.position = s.buffer.journal.position ∧
      back.2.buffer.journal.currentVersion = s.buffer.journal.currentVersion ∧
      back.2.buffer.isModified = s.buffer.isModified) ∧
    ∀ a b, 1 ≤ a → 1 ≤ b →
      (s.after [.command direction a, .command direction b]).buffer =
        (s.after [.command direction (a + b)]).buffer := by
  obtain ⟨ledger, covers⟩ := native.covers
  intro wanted left taken t back
  obtain ⟨cursor, hv, none_taken, last⟩ := covers.value_command direction count s.screen
  have acted : (s.act (.command direction count)).value =
      (.commanded { direction, requested := wanted, applied := taken
                    exhausted := decide (left < wanted), failure := none, cursor },
        { buffer := (Buffer.behindStep direction)^[taken] s.buffer
          screen := if s.buffer.depth.level = 0 then s.screen.redrawn else s.screen }) := by
    simp [Session.act, hv, wanted, left, taken]
  have buffer : t.buffer = (Buffer.behindStep direction)^[taken] s.buffer :=
    congrArg (·.2.buffer) acted
  have within : taken ≤ s.buffer.journal.stepsLeft direction := Nat.min_le_right wanted left
  refine ⟨⟨cursor, congrArg Prod.fst acted, none_taken, ?_⟩, ?_, ?_,
    congrArg (·.2.screen) acted, ?_, ?_, fun a b some_a some_b =>
    Session.commands_add covers direction some_a some_b⟩
  · intro i hi
    rw [Session.after_steps]
    exact congrArg Answer.stepped (last i hi)
  · rw [Session.after_steps]
    exact buffer
  · rw [buffer]
    exact Nat.eq_sub_of_add_eq (covers.iterate within).2.1
  · rw [buffer]
    exact (congrArg Buffer.depth (Buffer.depth_iterate_behindStep s.buffer taken)).symm
  · intro some_step
    obtain ⟨answer, restored⟩ := Session.command_back covers some_step within buffer
    have contents : back.2.buffer.contents = s.buffer.endRun.contents := by rw [restored]
    have modified : back.2.buffer.isModified = s.buffer.endRun.isModified := by rw [restored]
    exact ⟨answer, restored, contents, congrArg (·.journal.position) restored,
      congrArg (·.journal.currentVersion) restored, modified⟩

/-- Three steps, of which the last one, a group, is taken back: the text is that of the
save. -/
def savedBetween : Session Text :=
  (Session.opened [] ['x'] {}).after
    [.insert ⟨0, 0⟩ ['é'] 0, .endRun, .insert ⟨0, 2⟩ ['\n'] 1, .markSaved, .groupBegin,
      .delete ⟨1, 0⟩ 1 2, .insert ⟨1, 0⟩ ['y'] 3, .groupEnd, .step .undo]

/-- Of five steps back two are there, and two forth lead to the save again. Inside another
bracket the screen stays as it is. -/
theorem savedBetween_command :
    let t := (savedBetween.act (.command .undo 5)).value.2
    let inside : Session Text :=
      { savedBetween with buffer := { savedBetween.buffer with depth := ⟨2⟩ } }
    (∃ cursor, (savedBetween.act (.command .undo 5)).value.1 =
      .commanded { direction := .undo, requested := 5, applied := 2, exhausted := true,
                   cursor }) ∧
    t.contents = ['x'] ∧ t.buffer.isModified = true ∧
    t.screen = { dirty := false, redraws := 1, forced := 1 } ∧
    (t.act (.command .redo 2)).value.2.contents = ['é', '\n', 'x'] ∧
    (t.act (.command .redo 2)).value.2.buffer.isModified = false ∧
    (inside.act (.command .redo 0)).value.2.screen = {} ∧
    (inside.act (.command .redo 0)).value.2.contents = ['é', '\n', 'y'] ∧
    (savedBetween.after [.command .undo 1, .command .undo 4]).contents = t.contents := by
  intro t inside
  have native : savedBetween.buffer.Native :=
    Buffer.Native.after (s := Session.opened [] ['x'] {}) (.create _ _ _ _) (by decide)
  have left : savedBetween.buffer.journal.stepsLeft .undo = 2 := by decide +kernel
  have right : inside.buffer.journal.stepsLeft .redo = 1 := by decide +kernel
  have depth : savedBetween.buffer.depth.level = 0 := by decide +kernel
  have shown : savedBetween.screen = {} := by decide +kernel
  obtain ⟨⟨cursor, answer, -⟩, buffer, -, screen, -, back, add⟩ :=
    command_takes_steps savedBetween native .undo 5
  obtain ⟨-, buffer', -, screen', -⟩ :=
    command_takes_steps inside (native.displayed _ ⟨2⟩) .redo 0
  rw [left] at answer buffer back
  obtain ⟨-, -, contents, -, -, modified⟩ := back (by decide)
  rw [right] at buffer'
  rw [depth, shown] at screen
  have saved : savedBetween.contents = ['é', '\n', 'x'] ∧
      savedBetween.buffer.isModified = false := by decide +kernel
  refine ⟨⟨cursor, answer⟩, ?_, ?_, screen, contents.trans saved.1, modified.trans saved.2,
    screen', ?_, congrArg Buffer.contents (add 1 4 (by decide) (by decide))⟩
  · exact (congrArg Buffer.contents buffer).trans (by decide +kernel)
  · exact (congrArg Buffer.isModified buffer).trans (by decide +kernel)
  · exact (congrArg Buffer.contents buffer').trans (by decide +kernel)

end EditJournal
