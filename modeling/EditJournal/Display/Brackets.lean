/-
EditJournal.Display.Brackets — display brackets: edits inside them are shown
at once, when the outermost one closes.

The depth counts open brackets. Closing the last one publishes: the screen is
marked dirty and redrawn with force. So does closing none at all, which is
told as a warning, and so does aborting, which closes all of them.

A scope is a bracket that cannot be forgotten: it is closed when it is left,
unless it was committed or aborted before.
-/
import EditJournal.Narrated

namespace EditJournal

/-- What the screen was told. -/
structure Screen where
  dirty : Bool := false
  redraws : Nat := 0
  forced : Nat := 0
  deriving DecidableEq, Repr

namespace Screen

def markDirty (s : Screen) : Screen := { s with dirty := true }

/-- A redraw leaves the screen clean. -/
def redraw (s : Screen) (force : Bool) : Screen :=
  { dirty := false
    redraws := s.redraws + 1
    forced := if force then s.forced + 1 else s.forced }

/-- Shows the edits: the screen is marked dirty and redrawn with force. -/
def publish (s : Screen) : Screen := s.markDirty.redraw true

end Screen

/-- How many display brackets are open. -/
structure EditDepth where
  level : Nat := 0
  deriving DecidableEq, Repr

namespace EditDepth

def isOpen (d : EditDepth) : Bool := 0 < d.level

/-- Opens a bracket; gives the depth. -/
def begin (d : EditDepth) : Narrated (Nat × EditDepth) := do
  let level := d.level + 1
  .tell (.bracketBegun level)
  return (level, ⟨level⟩)

/-- Closes a bracket; gives whether that published. -/
def commit (d : EditDepth) (screen : Screen) : Narrated (Bool × EditDepth × Screen) := do
  let closed : EditDepth := ⟨d.level - 1⟩
  if d.level = 0 then
    .tell .commitUnmatched
  if 1 < d.level then
    .tell (.commitNested closed.level)
    return (false, closed, screen)
  else
    .tell (.commitPublished d.level)
    return (true, closed, screen.publish)

/-- Closes all brackets and publishes. -/
def abort (d : EditDepth) (screen : Screen) : Narrated (EditDepth × Screen) := do
  .tell (.abortPublished d.level)
  return (⟨0⟩, screen.publish)

end EditDepth

/-- How a scope is ended. -/
inductive ScopeEnd where
  | commit
  | abort
  /-- It is left without either. -/
  | drop
  deriving DecidableEq, Repr

/-- A display bracket tied to a block. -/
structure EditScope where
  finished : Bool := false
  deriving DecidableEq, Repr

namespace EditScope

/-- Opens the bracket of a scope. -/
def enter (d : EditDepth) : Narrated (EditScope × EditDepth) := do
  let (_, d) ← d.begin
  return ({}, d)

def commit (_ : EditScope) (d : EditDepth) (screen : Screen) :
    Narrated (Bool × EditScope × EditDepth × Screen) := do
  let (published, d, screen) ← d.commit screen
  return (published, { finished := true }, d, screen)

def abort (_ : EditScope) (d : EditDepth) (screen : Screen) :
    Narrated (EditScope × EditDepth × Screen) := do
  let (d, screen) ← d.abort screen
  return ({ finished := true }, d, screen)

/-- Leaving the block commits what was neither committed nor aborted. -/
def leave (s : EditScope) (d : EditDepth) (screen : Screen) : Narrated (EditDepth × Screen) :=
  if s.finished then return (d, screen)
  else do
    let (_, d, screen) ← d.commit screen
    return (d, screen)

/-- Ends a scope and leaves its block; gives what a commit answered. -/
def finish (s : EditScope) (how : ScopeEnd) (d : EditDepth) (screen : Screen) :
    Narrated (Option Bool × EditDepth × Screen) :=
  match how with
  | .commit => do
    let (published, s, d, screen) ← s.commit d screen
    let (d, screen) ← s.leave d screen
    return (some published, d, screen)
  | .abort => do
    let (s, d, screen) ← s.abort d screen
    let (d, screen) ← s.leave d screen
    return (none, d, screen)
  | .drop => do
    let (d, screen) ← s.leave d screen
    return (none, d, screen)

end EditScope

end EditJournal
