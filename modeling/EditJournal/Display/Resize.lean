/-
EditJournal.Display.Resize — a resize request waits until no display bracket
is open.

Requests come at any moment, also from a signal while a take is under way. A
take is therefore three moments, each of which sees the gate as it then is:
it looks for a request, it looks at the depth, and it takes the request away.
`ResizeGate.take` is a take that nothing comes between.
-/
import EditJournal.Display.Brackets

namespace EditJournal

/-- The gate for resize requests. -/
structure ResizeGate where
  pending : Bool := false
  /-- Does the window-change signal make a request? -/
  listening : Bool := false
  deriving DecidableEq, Repr

/-- Where a take stands. -/
inductive Taking where
  | started
  /-- It saw a request. -/
  | requestSeen
  /-- Then it saw no bracket open. -/
  | depthClear
  | done (taken : Bool)
  deriving DecidableEq, Repr

namespace ResizeGate

/-- Asks for a resize. -/
def notify (g : ResizeGate) : ResizeGate := { g with pending := true }

/-- From now on the window-change signal asks for a resize. -/
def install (g : ResizeGate) : Narrated ResizeGate := do
  .tell .resizeHandlerInstalled
  return { g with listening := true }

/-- The window-change signal. -/
def signal (g : ResizeGate) : ResizeGate := if g.listening then g.notify else g

/-- The next moment of a take. -/
def advance (g : ResizeGate) (depth : EditDepth) : Taking → Narrated (Taking × ResizeGate)
  | .started => return (if g.pending then .requestSeen else .done false, g)
  | .requestSeen =>
    if depth.isOpen then do
      .tell (.resizeDeferred depth.level)
      return (.done false, g)
    else return (.depthClear, g)
  | .depthClear =>
    if g.pending then do
      .tell .resizeApplied
      return (.done true, { g with pending := false })
    else return (.done false, g)
  | .done taken => return (.done taken, g)

/-- A whole take: gives whether a request was taken. -/
def take (g : ResizeGate) (depth : EditDepth) : Narrated (Bool × ResizeGate) := do
  let (taking, g) ← g.advance depth .started
  let (taking, g) ← g.advance depth taking
  let (taking, g) ← g.advance depth taking
  return (taking == .done true, g)

end ResizeGate

end EditJournal
