/-
EditJournal.Policy.Basic — the limits of a journal as a user sets them, the
problems they may have, and their summary on one line.
-/
import EditJournal.Journal.Basic

namespace EditJournal

/-- Limits of a journal as a user sets them. What is not set is as in a
journal that nobody set up. -/
structure Policy where
  initialCapacity : Nat := ({} : Config).initialCapacity
  maxEntries : Nat := ({} : Config).maxEntries
  maxEntryBytes : Nat := ({} : MergeRules).maxEntryBytes
  windowMs : Nat := ({} : MergeRules).windowMs
  acrossWords : Bool := ({} : MergeRules).acrossWords
  deriving DecidableEq, Repr

namespace Policy

/-- The journal's limits under the policy. -/
def toConfig (p : Policy) : Config :=
  { initialCapacity := p.initialCapacity
    maxEntries := p.maxEntries
    rules :=
      { windowMs := p.windowMs, maxEntryBytes := p.maxEntryBytes,
        acrossWords := p.acrossWords } }

/-! ## Problems -/

/-- A journal may not start larger than this. -/
def maxInitialCapacity : Nat := 1048576

/-- What makes a policy useless. -/
inductive Problem where
  | noCapacity
  | noEntries
  | capacityTooLarge (capacity : Nat)
  | capacityAboveEntries (capacity entries : Nat)
  | noEntryBytes
  | noWindow
  deriving DecidableEq, Repr

def Problem.message : Problem → String
  | noCapacity => "initial_capacity must be > 0"
  | noEntries => "max_entries must be > 0"
  | capacityTooLarge capacity =>
    s!"initial_capacity ({capacity}) must not exceed {maxInitialCapacity}"
  | capacityAboveEntries capacity entries =>
    s!"initial_capacity ({capacity}) must not exceed max_entries ({entries})"
  | noEntryBytes => "max_entry_bytes must be > 0"
  | noWindow => "coalesce_window_ms must be > 0"

/-- All problems of a policy, in a fixed order. -/
def problems (p : Policy) : List Problem :=
  (if p.initialCapacity = 0 then [.noCapacity] else []) ++
  (if p.maxEntries = 0 then [.noEntries] else []) ++
  (if maxInitialCapacity < p.initialCapacity then
    [.capacityTooLarge p.initialCapacity] else []) ++
  (if p.maxEntries < p.initialCapacity then
    [.capacityAboveEntries p.initialCapacity p.maxEntries] else []) ++
  (if p.maxEntryBytes = 0 then [.noEntryBytes] else []) ++
  (if p.windowMs = 0 then [.noWindow] else [])

/-- Why there is no policy. -/
inductive Error where
  /-- The file could not be read, or is not text. -/
  | io
  | toml
  | json
  | invalid (problems : List Problem)
  deriving DecidableEq, Repr

def Error.message : Error → String
  | io => "I/O error"
  | toml => "undo policy TOML"
  | json => "undo policy JSON"
  | invalid problems =>
    "invalid undo policy: " ++ "; ".intercalate (problems.map Problem.message)

/-- The policy, if it has no problems. -/
def validated (p : Policy) : Except Error Policy :=
  match p.problems with
  | [] => .ok p
  | problems => .error (.invalid problems)

/-! ## Summary -/

/-- The names of the limits, in order. -/
def names : List String :=
  ["initial_capacity", "max_entries", "max_entry_bytes", "coalesce_window_ms",
    "merge_across_words"]

/-- The policy on one line. The line is put together from its pieces: no printer
decides on a name, a separator or the form of a number. -/
def summary (p : Policy) : Text :=
  "\x7b\"schema\":\"undo-policy-v1\",\"initial_capacity\":".toList ++
    Nat.toDigits 10 p.initialCapacity ++ ",\"max_entries\":".toList ++
    Nat.toDigits 10 p.maxEntries ++ ",\"max_entry_bytes\":".toList ++
    Nat.toDigits 10 p.maxEntryBytes ++ ",\"coalesce_window_ms\":".toList ++
    Nat.toDigits 10 p.windowMs ++ ",\"merge_across_words\":".toList ++
    (if p.acrossWords then "true" else "false").toList ++ ['}']

end Policy

end EditJournal
