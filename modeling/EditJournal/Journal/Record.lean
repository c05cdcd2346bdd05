/-
EditJournal.Journal.Record — taking a change into the journal.

A change drops the redo tail. Within an undo group it joins the group's
entry; outside, it joins the typing run if the rules allow that. Else it
starts an entry, for which the journal grows or, at its ceiling or where it
is refused to grow, drops the oldest one.
-/
import EditJournal.Journal.Basic

namespace EditJournal

/-- What became of a change. -/
inductive RecordStatus where
  /-- It started an entry. -/
  | appended
  /-- It joined the last entry. -/
  | merged
  /-- It started an entry, and the oldest one was dropped. -/
  | evicted
  /-- It started an entry that nothing joins, being too large. -/
  | oversized
  /-- A replay was going on. -/
  | suppressed
  /-- It changes nothing. -/
  | empty
  deriving DecidableEq, Repr

namespace Journal

/-- Drops the entries that could be redone. -/
def truncateRedo (j : Journal) : Narrated Journal :=
  if j.position < j.length then do
    let dropped := j.entries.drop j.position
    .tell (.redoDiscarded dropped.length)
    return { j with
      entries := j.entries.take j.position
      totalBytes := j.totalBytes - total Entry.size dropped }
  else return j

/-- Drops the oldest entry; its version becomes the base. -/
def evictOldest (j : Journal) : Narrated Journal :=
  match j.entries with
  | [] => return j
  | oldest :: rest => do
    .tell (.evicted oldest.version j.capacity)
    return { j with
      entries := rest
      position := j.position - 1
      totalBytes := j.totalBytes - oldest.size
      baseVersion := oldest.version }

/-- Doubles the capacity, up to the ceiling; gives whether that made room. It
does not at the ceiling, nor where the allocator refuses. -/
def grow (j : Journal) : Narrated (Bool × Journal) :=
  let asked := { j with refusals := j.refusals.tail }
  if j.config.ceiling ≤ j.capacity then return (false, j)
  else if j.refusals.headD false then do
    .tell (.growthRefused j.capacity)
    return (false, asked)
  else do
    let capacity := min (max (2 * j.capacity) (j.capacity + 1)) j.config.ceiling
    .tell (.grown j.capacity capacity)
    return (true, { asked with capacity })

/-- Makes room for one entry; gives whether the oldest one had to go. -/
def makeRoom (j : Journal) : Narrated (Bool × Journal) :=
  if j.length < j.capacity then return (false, j)
  else do
    let (grown, j) ← j.grow
    if grown then return (false, j)
    else do
      let j ← j.evictOldest
      return (true, j)

/-- Starts an entry with a change. -/
def append (j : Journal) (edit : Edit) (now : Nat) (group : Option Nat) (mergeable : Bool) :
    Narrated (RecordStatus × Journal) := do
  let (evicted, j) ← j.makeRoom
  let (version, j) := j.stamp
  let entry : Entry := { first := edit, timestamp := now, group, version, mergeable }
  let entries := j.entries ++ [entry]
  return (if evicted then .evicted else .appended,
    { j with entries, position := entries.length, totalBytes := j.totalBytes + entry.size })

/-- Puts a changed entry in the place of the last one, under a new version
and no longer as a save point. -/
def replaceTail (j : Journal) (tail changed : Entry) : Journal :=
  let (version, j) := j.stamp
  let changed := { changed with version, savePoint := false }
  { j with
    entries := j.entries.dropLast ++ [changed]
    totalBytes := j.totalBytes - tail.size + changed.size }

/-- Takes a change into an undo group: the first one starts its entry, the
others join it. -/
def recordGrouped (j : Journal) (edit : Edit) (group now : Nat) :
    Narrated (RecordStatus × Journal) :=
  match j.entries.getLast? with
  | some tail =>
    if tail.group = some group then
      return (.merged, j.replaceTail tail { tail.push edit with timestamp := now })
    else j.append edit now (some group) true
  | none => j.append edit now (some group) true

/-- How a change joins the typing run, if one is open. -/
def planJoin (j : Journal) (edit : Edit) (now : Nat) : Except Refusal (Splice × Entry) :=
  if j.grouping.isSealed then .error .sealed
  else
    match j.entries.getLast? with
    | none => .error .sealed
    | some tail => do
      let how ← Coalesce.plan j.config.rules tail edit.kind edit.place edit.payload now
      return (how, tail)

/-- Takes a change in outside any undo group. -/
def recordLoose (j : Journal) (edit : Edit) (now : Nat) : Narrated (RecordStatus × Journal) :=
  let bytes := edit.payload.byteLength
  if j.config.rules.maxEntryBytes < bytes then do
    .tell (.oversized bytes j.config.rules.maxEntryBytes)
    let (status, j) ← j.append edit now none false
    return (if status = .evicted then .evicted else .oversized, j)
  else
    match j.planJoin edit now with
    | .ok (how, tail) =>
      return (.merged, j.replaceTail tail
        (Coalesce.splice how tail edit.place edit.payload now))
    | .error refusal => do
      .tell (.entryStarted refusal edit.kind)
      j.append edit now none true

/-- Takes a change that was made at time `now` into the journal. -/
def record (j : Journal) (kind : EditKind) (place : Location) (text : Text) (now : Nat) :
    Narrated (Except UndoError (RecordStatus × Journal)) :=
  if j.replaying then do
    .tell (.recordSuppressed kind)
    return .ok (.suppressed, j)
  else if kind = .replace then return .error (.unsupportedKind kind)
  else if text = [] then return .ok (.empty, j)
  else do
    let j ← j.truncateRedo
    let edit : Edit := { kind, place, payload := text }
    let (status, j) ←
      match j.grouping.current with
      | some group => j.recordGrouped edit group now
      | none => j.recordLoose edit now
    let last : LastEdit := ⟨now, kind, edit.cursorAfter .redo⟩
    return .ok (status, { j with grouping := j.grouping.note last })

end Journal

end EditJournal
