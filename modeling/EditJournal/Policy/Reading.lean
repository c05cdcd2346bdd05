/-
EditJournal.Policy.Reading — a policy from JSON or TOML.

Both name the limits alike. A limit that is left out has its usual value, and
what is not a limit is skipped. In JSON the limits may also stand in an array,
in order.
-/
import EditJournal.Policy.Basic
import EditJournal.Json.Reader
import EditJournal.Toml.Reader
import EditJournal.Files.Directory

namespace EditJournal.Policy

/-- The policy that a JSON value is. -/
def ofJson? (v : Json) : Option Policy := do
  let usual : Policy := {}
  match ← v.members? names with
  | [initialCapacity, maxEntries, maxEntryBytes, windowMs, acrossWords] =>
    let initialCapacity ← Json.withDefault? usual.initialCapacity Json.nat? initialCapacity
    let maxEntries ← Json.withDefault? usual.maxEntries Json.nat? maxEntries
    let maxEntryBytes ← Json.withDefault? usual.maxEntryBytes Json.nat? maxEntryBytes
    let windowMs ← Json.withDefault? usual.windowMs Json.nat? windowMs
    let acrossWords ← Json.withDefault? usual.acrossWords Json.bool? acrossWords
    return { initialCapacity, maxEntries, maxEntryBytes, windowMs, acrossWords }
  | _ => none

/-- A count: an integer that is not negative. -/
def countOfToml? : Toml → Option Nat
  | .integer n => n.toNat?
  | _ => none

def flagOfToml? : Toml → Option Bool
  | .boolean b => some b
  | _ => none

/-- A limit of a TOML table, or its usual value. -/
def tomlMember? {α : Type} (usual : α) (f : Toml → Option α) (root : Toml.Members)
    (name : String) : Option α :=
  match root.get? name.toList with
  | none => some usual
  | some v => f v

/-- The policy that a TOML table is. -/
def ofToml? (root : Toml.Members) : Option Policy := do
  let usual : Policy := {}
  let initialCapacity ← tomlMember? usual.initialCapacity countOfToml? root "initial_capacity"
  let maxEntries ← tomlMember? usual.maxEntries countOfToml? root "max_entries"
  let maxEntryBytes ← tomlMember? usual.maxEntryBytes countOfToml? root "max_entry_bytes"
  let windowMs ← tomlMember? usual.windowMs countOfToml? root "coalesce_window_ms"
  let acrossWords ← tomlMember? usual.acrossWords flagOfToml? root "merge_across_words"
  return { initialCapacity, maxEntries, maxEntryBytes, windowMs, acrossWords }

/-- The written forms of a policy. -/
inductive Format where
  | json
  | toml
  deriving DecidableEq, Repr

/-- The policy that a text is. -/
def parse (format : Format) (s : Text) : Except Error Policy :=
  match format with
  | .json =>
    match (Json.parse? s).bind ofJson? with
    | some p => .ok p
    | none => .error .json
  | .toml =>
    match (Toml.parse? s).bind ofToml? with
    | some p => .ok p
    | none => .error .toml

/-- The policy that a file holds. -/
def load (format : Format) (d : Directory) (path : Path) : Except Error Policy :=
  match d.readText? path with
  | some s => parse format s
  | none => .error .io

end EditJournal.Policy
