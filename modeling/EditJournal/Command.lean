/-
EditJournal.Command — undo and redo as the user asks for them: a number of
steps, in one display bracket, with a report.

The steps stop at the end of the history or at the first failure. A count of
0 asks for one step.
-/
import EditJournal.Buffer

namespace EditJournal

/-- What came of a command. -/
structure CommandReport where
  direction : HistoryStep
  requested : Nat
  applied : Nat := 0
  /-- Was the end of the history met? -/
  exhausted : Bool := false
  failure : Option UndoError := none
  cursor : Option Location := none
  deriving DecidableEq, Repr

namespace CommandReport

/-- Were all steps taken? -/
def succeeded (r : CommandReport) : Bool := !r.exhausted && r.failure.isNone

/-- What to tell the user when something was missing. -/
def message (r : CommandReport) : Option String :=
  match r.failure with
  | some error => some s!"{r.direction.capitalized} failed: {error.message}"
  | none => if r.exhausted then some s!"Nothing to {r.direction.verb}." else none

/-- The report in one line. -/
def display (r : CommandReport) : String := r.message.getD s!"{r.direction.verb} x{r.applied}"

end CommandReport

namespace Buffer

variable {σ : Type} [Storage σ]

/-- Takes up to `count` steps more. -/
def takeSteps (b : Buffer σ) (report : CommandReport) :
    Nat → Narrated (CommandReport × Buffer σ)
  | 0 => return (report, b)
  | count + 1 => do
    let (result, b) ← b.step report.direction
    match result with
    | .ok (some cursor) =>
      b.takeSteps { report with applied := report.applied + 1, cursor := some cursor } count
    | .ok none => return ({ report with exhausted := true }, b)
    | .error error => return ({ report with failure := some error }, b)

/-- Takes a number of steps in one display bracket, which publishes them at
once. -/
def command (b : Buffer σ) (direction : HistoryStep) (count : Nat) (screen : Screen) :
    Narrated (CommandReport × Buffer σ × Screen) := do
  let requested := max count 1
  let (scope, depth) ← EditScope.enter b.depth
  let (report, b) ← { b with depth }.takeSteps { direction, requested } requested
  let (_, depth, screen) ← scope.finish .commit b.depth screen
  .tell (.commandRun direction requested report.applied report.exhausted report.failure.isSome
    report.cursor)
  return (report, { b with depth }, screen)

end Buffer

end EditJournal
