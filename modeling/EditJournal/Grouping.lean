/-
EditJournal.Grouping — undo groups and the open typing run.

Brackets nest: the outermost opening one starts a group with a fresh number,
the outermost closing one ends it. The last change is kept as long as the
next one may join it; sealing forgets it.
-/
import EditJournal.Edit

namespace EditJournal

/-- What the journal remembers of the last change. -/
structure LastEdit where
  /-- Clock reading, in milliseconds. -/
  time : Nat
  kind : EditKind
  /-- Where the change left the cursor. -/
  stop : Location
  deriving DecidableEq, Repr

/-- What a closing bracket did. -/
inductive GroupEnd where
  | nested (depth : Nat)
  | closed (group : Nat)
  | unmatched
  deriving DecidableEq, Repr

structure Grouping where
  depth : Nat := 0
  /-- The open group. -/
  current : Option Nat := none
  /-- The number of the newest group. -/
  newest : Nat := 0
  last : Option LastEdit := none
  deriving DecidableEq, Repr

namespace Grouping

/-- The deepest nesting that is counted. -/
def depthLimit : Nat := 0xFFFFFFFF

/-- An opening bracket. -/
def begin (g : Grouping) : Grouping :=
  let opened :=
    if g.depth = 0 then
      { g with newest := g.newest + 1, current := some (g.newest + 1), last := none }
    else g
  { opened with depth := min (opened.depth + 1) depthLimit }

/-- A closing bracket. -/
def close (g : Grouping) : GroupEnd × Grouping :=
  match g.depth with
  | 0 => (.unmatched, g)
  | 1 =>
    let ended := { g with depth := 0, current := none, last := none }
    match g.current with
    | some group => (.closed group, ended)
    | none => (.unmatched, ended)
  | depth + 2 => (.nested (depth + 1), { g with depth := depth + 1 })

/-- Is the typing run over? -/
def isSealed (g : Grouping) : Bool := g.last.isNone

/-- Ends the typing run. -/
def endRun (g : Grouping) : Grouping := { g with last := none }

/-- Remembers a change as the last one. -/
def note (g : Grouping) (last : LastEdit) : Grouping := { g with last := some last }

/-- Keeps later groups from taking a number up to `group`. -/
def reserve (g : Grouping) (group : Nat) : Grouping := { g with newest := max g.newest group }

end Grouping

end EditJournal
