/-
EditJournal.Journal.Basic — the undo journal: its entries, oldest first, and
a position among them.

The entries before the position can be undone, those from it on can be
redone. Versions name texts: the base version is the text before the first
entry, and each entry has the version of the text behind it. New versions are
counted up and never used twice.

The journal holds at most `Config.ceiling` entries; its capacity is how many
it holds before it next grows. Whether it gets the room it starts with, and
whether it may grow, is up to the allocator, whose coming answers are data
(`refusals`): what holds of a journal with any answers holds whatever the
allocator does.
-/
import EditJournal.Grouping
import EditJournal.Narrated
import EditJournal.Word

namespace EditJournal

/-- Limits of a journal. -/
structure Config where
  initialCapacity : Nat := 128
  maxEntries : Nat := 65536
  rules : MergeRules := {}
  deriving DecidableEq, Repr

namespace Config

/-- As many entries as can be counted in 64 bits. -/
def unlimited : Config := { maxEntries := Word.size - 1 }

/-- A journal keeps at least one entry. -/
def ceiling (c : Config) : Nat := max c.maxEntries 1

/-- What a new journal asks room for: the capacity of the limits, at least one
entry and at most the ceiling. -/
def firstCapacity (c : Config) : Nat := min (max c.initialCapacity 1) c.ceiling

theorem ceiling_pos (c : Config) : 0 < c.ceiling :=
  Nat.lt_of_lt_of_le Nat.zero_lt_one (Nat.le_max_right _ _)

theorem firstCapacity_pos (c : Config) : 0 < c.firstCapacity :=
  Nat.lt_min.mpr ⟨Nat.lt_of_lt_of_le Nat.zero_lt_one (Nat.le_max_right _ _), c.ceiling_pos⟩

theorem firstCapacity_le (c : Config) : c.firstCapacity ≤ c.ceiling := Nat.min_le_right _ _

end Config

/-- The undo journal of one text. -/
structure Journal where
  entries : List Entry := []
  position : Nat := 0
  capacity : Nat
  config : Config
  /-- The sizes of all entries, added up. -/
  totalBytes : Nat := 0
  baseVersion : Nat := 0
  nextVersion : Nat := 1
  grouping : Grouping := {}
  /-- Set while an entry is replayed; nothing is recorded then. -/
  replaying : Bool := false
  /-- Does the allocator refuse the next requests? It grants all those behind
  the last one. -/
  refusals : List Bool := []
  deriving DecidableEq, Repr

namespace Journal

/-- An entry takes this much of a reservation. -/
def reservedBytes : Nat := 64

/-- No reservation takes more bytes than this. -/
def reservationLimit : Nat := Word.half - 1

/-- Asks for room for so many entries. The allocator is not asked for more than can be
addressed; its answers to what follows come behind the outcome. -/
def reserve (wanted : Nat) (refusals : List Bool) : Except RoomRefusal Unit × List Bool :=
  if reservationLimit < wanted * reservedBytes then (.error .unaddressable, refusals)
  else if refusals.headD false then (.error .denied, refusals.tail)
  else (.ok (), refusals.tail)

/-- What a refused reservation falls back to. -/
def fallbackCapacity : Nat := 16

/-- An empty journal. It starts with the capacity asked for, or small when that
is not reserved. -/
def create (config : Config) (refusals : List Bool := []) : Narrated Journal := do
  let wanted := config.firstCapacity
  match reserve wanted refusals with
  | (.ok (), refusals) => return { capacity := wanted, config, refusals }
  | (.error cause, refusals) =>
    let fallback := min fallbackCapacity wanted
    .tell (.reservationRefused wanted fallback cause)
    return { capacity := fallback, config, refusals }

theorem reserve_subset (wanted : Nat) (refusals : List Bool) :
    (reserve wanted refusals).2 ⊆ refusals := by
  unfold reserve
  split
  · exact List.Subset.refl _
  · split <;> exact fun _ => List.mem_of_mem_tail

/-- Room is refused where it cannot be addressed, and where the allocator does not grant it. -/
theorem reserve_refused_iff {wanted : Nat} {refusals : List Bool} :
    (∃ cause, (reserve wanted refusals).1 = .error cause) ↔
      reservationLimit < wanted * reservedBytes ∨ refusals.headD false = true := by
  unfold reserve
  split
  · rename_i above
    exact iff_of_true ⟨_, rfl⟩ (Or.inl above)
  · rename_i within
    rw [or_iff_right within]
    split
    · rename_i denied
      exact iff_of_true ⟨_, rfl⟩ denied
    · rename_i granted
      exact iff_of_false (by simp) granted

/-- A new journal is empty. Its capacity depends on the limits, and on whether the
allocator grants what they ask for. -/
theorem create_eq (config : Config) (refusals : List Bool) :
    (∃ rest, reserve config.firstCapacity refusals = (.ok (), rest) ∧
      Journal.create config refusals =
        ⟨{ capacity := config.firstCapacity, config, refusals := rest }, []⟩) ∨
    ∃ cause rest, reserve config.firstCapacity refusals = (.error cause, rest) ∧
      Journal.create config refusals =
        ⟨{ capacity := min fallbackCapacity config.firstCapacity, config, refusals := rest },
          [⟨.reservationRefused config.firstCapacity
            (min fallbackCapacity config.firstCapacity) cause, none⟩]⟩ := by
  rcases reserved : reserve config.firstCapacity refusals with ⟨cause | ⟨⟨⟩⟩, rest⟩
  · exact Or.inr ⟨cause, rest, rfl, by unfold create; simp only [reserved]; rfl⟩
  · exact Or.inl ⟨rest, rfl, by unfold create; simp only [reserved]; rfl⟩

theorem value_create (config : Config) (refusals : List Bool) :
    ∃ capacity rest, rest ⊆ refusals ∧
      (Journal.create config refusals).value = { capacity, config, refusals := rest } := by
  have kept := reserve_subset config.firstCapacity refusals
  rcases create_eq config refusals with ⟨rest, reserved, new⟩ | ⟨cause, rest, reserved, new⟩
  · rw [reserved] at kept
    exact ⟨_, rest, kept, by rw [new]⟩
  · rw [reserved] at kept
    exact ⟨_, rest, kept, by rw [new]⟩

/-! ## Queries -/

def length (j : Journal) : Nat := j.entries.length

def canUndo (j : Journal) : Bool := 0 < j.position

def canRedo (j : Journal) : Bool := j.position < j.length

/-- The version of the text at the position. -/
def currentVersion (j : Journal) : Nat :=
  match j.position with
  | 0 => j.baseVersion
  | n + 1 => ((j.entries[n]?).map (·.version)).getD j.baseVersion

/-! ## Counters -/

/-- The next version and the newest group are words. Whoever counts past the last word
stops there, so that no journal is seen whose counters do not fit. -/
def CountersFit (j : Journal) : Prop :=
  j.nextVersion < Word.size ∧ j.grouping.newest < Word.size

instance (j : Journal) : Decidable j.CountersFit := inferInstanceAs (Decidable (_ ∧ _))

/-! ## Grouping and save points -/

/-- Takes the next version. -/
def stamp (j : Journal) : Nat × Journal :=
  (j.nextVersion, { j with nextVersion := j.nextVersion + 1 })

/-- Ends the typing run. -/
def endRun (j : Journal) : Journal := { j with grouping := j.grouping.endRun }

/-- Opens an undo group, or nests in the open one; gives the depth. -/
def groupBegin (j : Journal) : Narrated (Nat × Journal) := do
  let grouping := j.grouping.begin
  .tell (.groupBegun grouping.depth)
  return (grouping.depth, { j with grouping })

/-- Closes the innermost group; gives whether there was one. -/
def groupEnd (j : Journal) : Narrated (Bool × Journal) := do
  let (result, grouping) := j.grouping.close
  let j := { j with grouping }
  match result with
  | .unmatched =>
    .tell (.groupEndUnmatched j.position)
    return (false, j)
  | .nested depth =>
    .tell (.groupEndNested depth)
    return (true, j)
  | .closed group =>
    .tell (.groupClosed group)
    return (true, j)

/-- Makes the entry before the position the only save point; gives the
version of the text. -/
def markSaved (j : Journal) : Narrated (Nat × Journal) := do
  let entries := j.entries.mapIdx fun i e => { e with savePoint := i + 1 == j.position }
  let j := { j with entries }
  .tell (.savePointMarked j.currentVersion j.position)
  return (j.currentVersion, j)

/-- Forgets all entries. The text gets a new version. -/
def clear (j : Journal) : Narrated Journal := do
  let (version, j) := j.stamp
  let j :=
    { j with entries := [], position := 0, totalBytes := 0, baseVersion := version }.endRun
  .tell (.cleared version)
  return j

end Journal

end EditJournal
