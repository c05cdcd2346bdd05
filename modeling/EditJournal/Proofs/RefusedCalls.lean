/-
EditJournal.Proofs.RefusedCalls — a session on a storage that refuses calls.

`refused_calls_change_nothing` is the main result. It is about runs in which no step in
the history meets more than one refused call; which calls are refused is arbitrary. Such
a run does as the same run on a text, the actions left out that met a refused call
(`Session.served`): each of those answers the storage's error and changes nothing, so that
it can be repeated.

## How the proof goes

A session on a text is what a session on the faulty storage looks like without its
storage (`Session.plain`). An action that meets no refused call does to the one what it
does to the other (`act_mirrors`), and one that meets a refused call does nothing
(`act_of_refused`). For a step that takes a ledger of the text: by that its target leads
somewhere, so that what was replayed of it can be taken back.
-/
import EditJournal.Proofs.FaultyReplay
import EditJournal.Proofs.Runs

namespace EditJournal

open FaultyStorage (Mirrors)
open Ledger (Covers)

namespace Action

/-- Is it one step in the history? -/
def isStep : Action → Bool
  | .step _ => true
  | _ => false

/-- Does it ask the storage for anything? -/
def isStored : Action → Bool
  | .insert .. | .delete .. | .step _ | .command .. => true
  | _ => false

end Action

/-- The error that an action answered. -/
def Answer.error? : Answer → Option UndoError
  | .inserted (.error error) | .deleted (.error error) | .recorded (.error error)
  | .stepped (.error error) => some error
  | .commanded report => report.failure
  | _ => none

/-! ## Buffers -/

namespace Buffer

/-- The buffer with its text instead of the storage. -/
def plain (b : Buffer FaultyStorage) : Buffer Text :=
  { name := b.name, store := b.store.text, journal := b.journal, savedVersion := b.savedVersion
    depth := b.depth }

variable (b : Buffer FaultyStorage)

section Storage

variable {σ : Type} [Storage σ]

omit [Storage σ] in
theorem store_record (b : Buffer σ) (kind : EditKind) (place : Location) (text : Text)
    (now : Nat) :
    (b.record kind place text now).value.2.store = b.store := by
  simp only [Buffer.record, Narrated.value_bind]
  split <;> rfl

/-- A change makes one call, whatever is journaled of it. -/
theorem store_insert (b : Buffer σ) (place : Location) (text : Text) (now : Nat) :
    (b.insert place text now).value.2.store = (Storage.insert b.store place text).value.2 := by
  simp only [Buffer.insert, Narrated.value_bind]
  split
  · rfl
  · exact store_record _ _ _ _ _

theorem store_delete (b : Buffer σ) (place : Location) (length now : Nat) :
    (b.delete place length now).value.2.store =
      (Storage.delete b.store place length).value.2 := by
  simp only [Buffer.delete, Narrated.value_bind]
  split
  · rfl
  · exact store_record _ _ _ _ _

end Storage

theorem record_mirrors (kind : EditKind) (place : Location) (text : Text) (now : Nat) :
    b.store.Mirrors (·.2.store) (fun x => (x.1, x.2.plain))
      (b.record kind place text now).value (b.plain.record kind place text now).value := by
  simp only [Buffer.record, Buffer.plain, Narrated.value_bind]
  cases (b.journal.record kind place text now).value <;> exact .done rfl

theorem insert_mirrors (place : Location) (text : Text) (now : Nat) :
    b.store.Mirrors (·.2.store) (fun x => (x.1, x.2.plain)) (b.insert place text now).value
      (b.plain.insert place text now).value := by
  refine (b.store.insert_mirrors place text).bind ?_
  rintro ⟨result, t⟩
  cases result with
  | error cause => exact .done rfl
  | ok stop =>
    refine (record_mirrors { b with store := t } .insert place text now).bind ?_
    rintro ⟨status, c⟩
    exact .done rfl

theorem delete_mirrors (place : Location) (length now : Nat) :
    b.store.Mirrors (·.2.store) (fun x => (x.1, x.2.plain)) (b.delete place length now).value
      (b.plain.delete place length now).value := by
  refine (b.store.delete_mirrors place length).bind ?_
  rintro ⟨result, t⟩
  cases result with
  | error cause => exact .done rfl
  | ok removed =>
    refine (record_mirrors { b with store := t } .delete place removed now).bind ?_
    rintro ⟨status, c⟩
    exact .done rfl

theorem step_mirrors (direction : HistoryStep) :
    b.store.Mirrors (·.2.store) (fun x => (x.1, x.2.plain)) (b.step direction).value
      (b.plain.step direction).value := by
  refine (b.journal.step_mirrors direction b.store).bind ?_
  rintro ⟨cursor, k, t⟩
  exact .done rfl

end Buffer

/-! ## Actions -/

namespace Session

/-- The session with its text instead of the storage. -/
def plain (s : Session FaultyStorage) : Session Text :=
  { buffer := s.buffer.plain, screen := s.screen }

/-- How many refused calls an action meets. -/
def refused (s : Session FaultyStorage) (action : Action) : Nat :=
  s.buffer.store.refusedUntil (s.act action).value.2.buffer.store

/-- The actions of a run that meet no refused call. -/
def served (s : Session FaultyStorage) : List Action → List Action
  | [] => []
  | action :: rest =>
    if s.refused action = 0 then action :: (s.act action).value.2.served rest
    else (s.act action).value.2.served rest

/-- Does every step of a run in the history meet at most one refused call? -/
def sparesSteps (s : Session FaultyStorage) : List Action → Bool
  | [] => true
  | action :: rest =>
    (!action.isStep || s.refused action ≤ 1) && (s.act action).value.2.sparesSteps rest

variable {s : Session FaultyStorage} {action : Action} {ledger : Ledger}

theorem act_mirrors (s : Session FaultyStorage) (single : action.isCommand = false) :
    s.buffer.store.Mirrors (·.2.buffer.store) (fun x => (x.1, x.2.plain)) (s.act action).value
      (s.plain.act action).value := by
  cases action with
  | insert place text now =>
    refine (s.buffer.insert_mirrors place text now).bind ?_
    rintro ⟨stop, b⟩
    exact .done rfl
  | delete place length now =>
    refine (s.buffer.delete_mirrors place length now).bind ?_
    rintro ⟨removed, b⟩
    exact .done rfl
  | record kind place text now =>
    refine (s.buffer.record_mirrors kind place text now).bind ?_
    rintro ⟨status, b⟩
    exact .done rfl
  | step direction =>
    refine (s.buffer.step_mirrors direction).bind ?_
    rintro ⟨cursor, b⟩
    exact .done rfl
  | command direction count => simp [Action.isCommand] at single
  | endRun => exact .done rfl
  | groupBegin => exact .done rfl
  | groupEnd => exact .done rfl
  | markSaved => exact .done rfl
  | clearHistory => exact .done rfl

/-- **An action that meets no refused call does as on a text.** -/
theorem act_of_granted (single : action.isCommand = false) (none : s.refused action = 0) :
    ((s.act action).value.1, (s.act action).value.2.plain) = (s.plain.act action).value :=
  (s.act_mirrors single).same none

/-- What does not ask the storage is not refused. -/
theorem refused_of_not_stored (s : Session FaultyStorage) (h : action.isStored = false) :
    s.refused action = 0 := by
  have store : (s.act action).value.2.buffer.store = s.buffer.store := by
    cases action with
    | record kind place text now => exact s.buffer.store_record kind place text now
    | endRun => rfl
    | groupBegin => rfl
    | groupEnd => rfl
    | markSaved => rfl
    | clearHistory => rfl
    | _ => simp [Action.isStored] at h
  rw [refused, store, FaultyStorage.refusedUntil_self]

theorem refused_insert (s : Session FaultyStorage) (place : Location) (text : Text)
    (now : Nat) :
    s.refused (.insert place text now) =
      (s.buffer.store.refuses s.buffer.store.calls).toNat := by
  have store : (s.act (.insert place text now)).value.2.buffer.store = _ :=
    s.buffer.store_insert place text now
  rw [refused, store]
  exact s.buffer.store.refusedUntil_attempt (Text.insertTold · place text)

theorem refused_delete (s : Session FaultyStorage) (place : Location) (length now : Nat) :
    s.refused (.delete place length now) =
      (s.buffer.store.refuses s.buffer.store.calls).toNat := by
  have store : (s.act (.delete place length now)).value.2.buffer.store = _ :=
    s.buffer.store_delete place length now
  rw [refused, store]
  exact s.buffer.store.refusedUntil_attempt (Text.deleteTold · place length)

/-- **Of single actions, only changes and steps meet refused calls, and only steps more
than one.** -/
theorem refused_le_one (single : action.isCommand = false) (h : action.isStep = false) :
    s.refused action ≤ 1 := by
  cases action with
  | insert place text now =>
    rw [refused_insert]
    exact Bool.toNat_le _
  | delete place length now =>
    rw [refused_delete]
    exact Bool.toNat_le _
  | step direction => simp [Action.isStep] at h
  | command direction count => simp [Action.isCommand] at single
  | _ => exact Nat.le_trans (Nat.le_of_eq (refused_of_not_stored s rfl)) (Nat.zero_le 1)

/-- A refused change is answered with the storage's error. -/
theorem insert_of_refused {place : Location} {text : Text} {now : Nat}
    (one : s.refused (.insert place text now) = 1) :
    (∃ cause, (s.act (.insert place text now)).value.1 =
        .inserted (.error (.storage place cause))) ∧
      (s.act (.insert place text now)).value.2.plain = s.plain := by
  rw [refused_insert, Bool.toNat_eq_one] at one
  have called : (Storage.insert s.buffer.store place text).value = _ :=
    FaultyStorage.attempt_of_refused (Text.insertTold · place text) one
  have failed : (s.buffer.insert place text now).value =
      (.error (.storage place (.notCharBoundary s.buffer.store.calls)),
        { s.buffer with store := s.buffer.store.counted }) := by
    simp [Buffer.insert, called]
  constructor
  · exact ⟨.notCharBoundary s.buffer.store.calls, by simp [act, failed]⟩
  · simp [act, failed, plain, Buffer.plain, FaultyStorage.counted]

theorem delete_of_refused {place : Location} {length now : Nat}
    (one : s.refused (.delete place length now) = 1) :
    (∃ cause, (s.act (.delete place length now)).value.1 =
        .deleted (.error (.storage place cause))) ∧
      (s.act (.delete place length now)).value.2.plain = s.plain := by
  rw [refused_delete, Bool.toNat_eq_one] at one
  have called : (Storage.delete s.buffer.store place length).value = _ :=
    FaultyStorage.attempt_of_refused (Text.deleteTold · place length) one
  have failed : (s.buffer.delete place length now).value =
      (.error (.storage place (.notCharBoundary s.buffer.store.calls)),
        { s.buffer with store := s.buffer.store.counted }) := by
    simp [Buffer.delete, called]
  constructor
  · exact ⟨.notCharBoundary s.buffer.store.calls, by simp [act, failed]⟩
  · simp [act, failed, plain, Buffer.plain, FaultyStorage.counted]

theorem step_of_refused {direction : HistoryStep} (covers : ledger.Covers s.plain.buffer)
    (one : s.refused (.step direction) = 1) :
    (∃ place cause,
        (s.act (.step direction)).value.1 = .stepped (.error (.storage place cause))) ∧
      (s.act (.step direction)).value.2.plain = s.plain := by
  cases ht : s.buffer.journal.target? direction with
  | none =>
    have still : (s.act (.step direction)).value.2.buffer.store = s.buffer.store := by
      simp [act, Buffer.step, Journal.step, ht]
    rw [refused, still, FaultyStorage.refusedUntil_self] at one
    exact absurd one (by decide)
  | some target =>
    obtain ⟨index, entry⟩ := target
    -- the ledger knows where the target leads
    obtain ⟨place, cause, failed, rested, same⟩ :=
      Journal.step_of_refused ht (covers.explains.target_leads ht) one
    have idle : s.buffer.journal.replaying = false := covers.explains.idle
    have journal : (s.buffer.journal.step direction s.buffer.store).value.2.1 =
        s.buffer.journal := by
      rw [rested, ← idle]
    constructor
    · exact ⟨place, cause, by simp [act, Buffer.step, failed]⟩
    · simp [act, Buffer.step, plain, Buffer.plain, journal, same]

/-- **An action that meets one refused call answers the storage's error and changes
nothing.** -/
theorem act_of_refused (covers : ledger.Covers s.plain.buffer)
    (single : action.isCommand = false) (one : s.refused action = 1) :
    (∃ place cause, (s.act action).value.1.error? = some (.storage place cause)) ∧
      (s.act action).value.2.plain = s.plain := by
  cases action with
  | insert place text now =>
    obtain ⟨⟨cause, answer⟩, same⟩ := insert_of_refused one
    exact ⟨⟨place, cause, by rw [answer]; rfl⟩, same⟩
  | delete place length now =>
    obtain ⟨⟨cause, answer⟩, same⟩ := delete_of_refused one
    exact ⟨⟨place, cause, by rw [answer]; rfl⟩, same⟩
  | step direction =>
    obtain ⟨⟨place, cause, answer⟩, same⟩ := step_of_refused covers one
    exact ⟨⟨place, cause, by rw [answer]; rfl⟩, same⟩
  | command direction count => simp [Action.isCommand] at single
  | _ => exact absurd (one.symm.trans (refused_of_not_stored s rfl)) (by decide)

/-! ## Runs -/

theorem sparesSteps_append (s : Session FaultyStorage) (first second : List Action) :
    s.sparesSteps (first ++ second) =
      (s.sparesSteps first && (s.after first).sparesSteps second) := by
  induction first generalizing s with
  | nil => rfl
  | cons action rest ih => simp [sparesSteps, ih, Bool.and_assoc]

/-- In a run that spares its steps, every action meets one refused call or none. -/
theorem refused_cases {rest : List Action} (single : action.isCommand = false)
    (spared : s.sparesSteps (action :: rest) = true) :
    s.refused action = 0 ∨ s.refused action = 1 := by
  have le : s.refused action ≤ 1 := by
    cases h : action.isStep with
    | true =>
      rw [sparesSteps, Bool.and_eq_true] at spared
      simpa [h] using spared.1
    | false => exact refused_le_one single h
  omega

/-- **A run does as the run on a text of the actions that were not refused**, and a
ledger covers it. -/
theorem plain_after (covers : ledger.Covers s.plain.buffer) {actions : List Action}
    (own : ∀ action ∈ actions, action.isForeign = false)
    (single : ∀ action ∈ actions, action.isCommand = false)
    (spared : s.sparesSteps actions = true) :
    (s.after actions).plain = s.plain.after (s.served actions) ∧
      ∃ later : Ledger, later.Covers (s.after actions).plain.buffer := by
  induction actions generalizing s ledger with
  | nil => exact ⟨rfl, ledger, covers⟩
  | cons action rest ih =>
    rw [List.forall_mem_cons] at own single
    have spared' : (s.act action).value.2.sparesSteps rest = true := by
      rw [sparesSteps, Bool.and_eq_true] at spared
      exact spared.2
    rw [after_cons, served]
    rcases refused_cases single.1 spared with none | one
    · have same : (s.act action).value.2.plain = (s.plain.act action).value.2 :=
        congrArg Prod.snd (act_of_granted single.1 none)
      obtain ⟨later, carries⟩ := act_carries (s := s.plain) covers own.1
      have covers' : later.Covers (s.act action).value.2.plain.buffer := by
        rw [same]
        exact carries.covers
      rw [if_pos none, after_cons, ← same]
      exact ih covers' own.2 single.2 spared'
    · obtain ⟨-, same⟩ := act_of_refused covers single.1 one
      have covers' : ledger.Covers (s.act action).value.2.plain.buffer := by
        rw [same]
        exact covers
      rw [if_neg (by omega), ← same]
      exact ih covers' own.2 single.2 spared'

end Session

open Session (opened)

/-- **Refused calls change nothing.** Behind a run that spares its steps, the session is
as behind the run on a text of the actions that met no refused call. The next action does
as on a text, if it meets none; if it meets one, it answers the storage's error, text and
journal are as they were, and when it is repeated and meets none then, it does what it
would have done at first. -/
theorem refused_calls_change_nothing (name start : Text) (config : Config)
    (refusals : List Bool) (refuses : Nat → Bool) (actions : List Action) (action : Action)
    (own : ∀ a ∈ actions ++ [action], a.isForeign = false)
    (single : ∀ a ∈ actions ++ [action], a.isCommand = false)
    (spared : (opened name ({ text := start, refuses } : FaultyStorage) config
      refusals).sparesSteps (actions ++ [action]) = true) :
    let s : Session FaultyStorage := opened name { text := start, refuses } config refusals
    let here := s.after actions
    let there := (here.act action).value.2
    here.plain = (opened name start config refusals).after (s.served actions) ∧
    (here.refused action = 0 →
      ((here.act action).value.1, there.plain) = (here.plain.act action).value) ∧
    (here.refused action ≠ 0 →
      (∃ place cause, (here.act action).value.1.error? = some (.storage place cause)) ∧
      there.plain = here.plain ∧ there.buffer.journal.replaying = false ∧
      (there.refused action = 0 →
        ((there.act action).value.1, (there.act action).value.2.plain) =
          (here.plain.act action).value)) := by
  intro s here there
  rw [List.forall_mem_append] at own single
  rw [Session.sparesSteps_append, Bool.and_eq_true] at spared
  have fresh : Covers (fun _ => start) s.plain.buffer :=
    Session.opened_covers name start config refusals
  obtain ⟨behind, ledger, covers⟩ := Session.plain_after fresh own.1 single.1 spared.1
  have single' : action.isCommand = false := single.2 action (by simp)
  refine ⟨behind, Session.act_of_granted single', ?_⟩
  intro met
  have one : here.refused action = 1 :=
    (Session.refused_cases single' spared.2).resolve_left met
  obtain ⟨failed, same⟩ := Session.act_of_refused covers single' one
  refine ⟨failed, same, ?_, ?_⟩
  · have journal : there.buffer.journal = here.buffer.journal :=
      congrArg (fun t : Session Text => t.buffer.journal) same
    rw [journal]
    exact covers.explains.idle
  · intro none
    rw [← same]
    exact Session.act_of_granted single' none

/-- The first insertion is refused and repeated; then a group of three changes is
undone. -/
def refusedInGroup : List Action :=
  [.groupBegin, .insert ⟨0, 0⟩ ['x'] 0, .insert ⟨0, 0⟩ ['x'] 1, .insert ⟨0, 1⟩ ['y'] 2,
    .delete ⟨0, 2⟩ 1 3, .groupEnd]

/-- Undo puts the deleted character back and is refused to take `y` out, so that it is
taken out again. The second undo is granted. -/
theorem refusedInGroup_changes_nothing :
    let s : Session FaultyStorage :=
      opened [] { text := ['a', 'b'], refuses := fun n => n == 0 || n == 5 } {}
    let here := s.after refusedInGroup
    let there := (here.act (.step .undo)).value.2
    here.plain = (opened [] ['a', 'b'] {}).after
        [.groupBegin, .insert ⟨0, 0⟩ ['x'] 1, .insert ⟨0, 1⟩ ['y'] 2, .delete ⟨0, 2⟩ 1 3,
          .groupEnd] ∧
      here.refused (.step .undo) = 1 ∧ there.plain = here.plain ∧
        there.contents = ['x', 'y', 'b'] ∧
      (there.act (.step .undo)).value.2.plain = (here.plain.act (.step .undo)).value.2 ∧
      (there.act (.step .undo)).value.2.contents = ['a', 'b'] := by
  have own : ∀ a ∈ refusedInGroup ++ [.step .undo], a.isForeign = false := by decide
  have single : ∀ a ∈ refusedInGroup ++ [.step .undo], a.isCommand = false := by decide
  obtain ⟨served, -, refused⟩ :=
    refused_calls_change_nothing [] ['a', 'b'] {} [] (fun n => n == 0 || n == 5) refusedInGroup
      (.step .undo) own single (by decide +kernel)
  obtain ⟨-, same, -, repeated⟩ := refused (by decide +kernel)
  refine ⟨served, by decide +kernel, same, by decide +kernel, ?_, by decide +kernel⟩
  exact congrArg Prod.snd (repeated (by decide +kernel))

end EditJournal
