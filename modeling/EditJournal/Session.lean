/-
EditJournal.Session — a buffer and the screen that shows it, and what is done
to them, one action after the other.

An action is data: the clock reading is part of those that journal a change.
`Session.act` does one and gives its answer; `Session.run` does a list of
them, and doing two lists is doing the joined one (`after_append`).
-/
import EditJournal.Command

namespace EditJournal

/-- What is done to a buffer. -/
inductive Action where
  | insert (place : Location) (text : Text) (now : Nat)
  | delete (place : Location) (length : Nat) (now : Nat)
  /-- A change made elsewhere is journaled. -/
  | record (kind : EditKind) (place : Location) (text : Text) (now : Nat)
  /-- One step in the history. -/
  | step (direction : HistoryStep)
  /-- A number of steps, shown at once. -/
  | command (direction : HistoryStep) (count : Nat)
  | endRun
  | groupBegin
  | groupEnd
  | markSaved
  | clearHistory
  deriving DecidableEq, Repr

/-- What an action answers. -/
inductive Answer where
  /-- The place behind an insertion. -/
  | inserted (stop : Except UndoError Location)
  /-- What a deletion took out. -/
  | deleted (removed : Except UndoError Text)
  | recorded (status : Except UndoError RecordStatus)
  /-- Where a step left the cursor; nothing at the end of the history. -/
  | stepped (cursor : Except UndoError (Option Location))
  | commanded (report : CommandReport)
  /-- How many undo groups are open. -/
  | depth (groups : Nat)
  /-- Did a closing bracket have an opening one? -/
  | matched (found : Bool)
  | done

/-- A buffer, and what its screen was told. -/
structure Session (σ : Type) where
  buffer : Buffer σ
  screen : Screen := {}

namespace Session

variable {σ : Type} [Storage σ]

/-- A session on a new buffer, before anything is done. -/
def opened (name : Text) (store : σ) (config : Config) (refusals : List Bool := []) :
    Session σ :=
  { buffer := (Buffer.create name store config refusals).value }

/-- The text under edit. -/
def contents (s : Session σ) : Text := s.buffer.contents

/-- Does one thing. -/
def act (s : Session σ) : Action → Narrated (Answer × Session σ)
  | .insert place text now => do
    let (stop, buffer) ← s.buffer.insert place text now
    return (.inserted stop, { s with buffer })
  | .delete place length now => do
    let (removed, buffer) ← s.buffer.delete place length now
    return (.deleted removed, { s with buffer })
  | .record kind place text now => do
    let (status, buffer) ← s.buffer.record kind place text now
    return (.recorded status, { s with buffer })
  | .step direction => do
    let (cursor, buffer) ← s.buffer.step direction
    return (.stepped cursor, { s with buffer })
  | .command direction count => do
    let (report, buffer, screen) ← s.buffer.command direction count s.screen
    return (.commanded report, { buffer, screen })
  | .endRun => return (.done, { s with buffer := s.buffer.endRun })
  | .groupBegin => do
    let (depth, buffer) ← s.buffer.groupBegin
    return (.depth depth, { s with buffer })
  | .groupEnd => do
    let (found, buffer) ← s.buffer.groupEnd
    return (.matched found, { s with buffer })
  | .markSaved => do
    let buffer ← s.buffer.markSaved
    return (.done, { s with buffer })
  | .clearHistory => do
    let buffer ← s.buffer.clearHistory
    return (.done, { s with buffer })

/-- Does one thing after the other. -/
def run (s : Session σ) : List Action → Narrated (List Answer × Session σ)
  | [] => return ([], s)
  | action :: rest => do
    let (answer, s) ← s.act action
    let (answers, s) ← s.run rest
    return (answer :: answers, s)

/-- The session behind a list of actions. -/
def after (s : Session σ) (actions : List Action) : Session σ := (s.run actions).value.2

@[simp] theorem after_nil (s : Session σ) : s.after [] = s := rfl

@[simp] theorem after_cons (s : Session σ) (action : Action) (rest : List Action) :
    s.after (action :: rest) = (s.act action).value.2.after rest := rfl

/-- Doing two lists of actions is doing one after the other. -/
theorem after_append (s : Session σ) (first second : List Action) :
    s.after (first ++ second) = (s.after first).after second := by
  induction first generalizing s with
  | nil => rfl
  | cons action rest ih => simp [ih]

end Session

end EditJournal
