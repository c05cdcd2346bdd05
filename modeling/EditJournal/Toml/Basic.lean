/-
EditJournal.Toml.Basic — TOML values and the rules by which a document's
tables come together.

A table is made by a header, on the way to the table of a header, by a dotted
key, or in braces. Which of these it was decides who may still add to it:

* a header may open a table that was only on the way to another one, once;
* a dotted key may pass and make tables of its kind, and pass those on the
  way to a header, but it may only add to the former;
* a table in braces is complete.

An array of tables is entered at its last table.
-/
import EditJournal.Text.Basic

namespace EditJournal

/-- How a table came to be. -/
inductive TableOrigin where
  | header
  | implied
  | dotted
  | braces
  deriving DecidableEq, Repr

/-- A TOML value. Floats and moments in time are kept as written. -/
inductive Toml where
  | string (text : Text)
  | integer (n : Int)
  | float (lexeme : Text)
  | boolean (b : Bool)
  | moment (lexeme : Text)
  | array (elements : List Toml)
  | table (origin : TableOrigin) (members : List (Text × Toml))
  | tables (each : List (List (Text × Toml)))

namespace Toml

/-- The members of a table, in order; no name twice. -/
abbrev Members := List (Text × Toml)

namespace Members

def get? (ms : Members) (key : Text) : Option Toml := (ms.find? (·.1 == key)).map (·.2)

/-- Changes the value of a key that is there. -/
def set (ms : Members) (key : Text) (value : Toml) : Members :=
  ms.map fun m => if m.1 = key then (key, value) else m

/-- Changes the members of the table that a key leads to. A key that is not
there makes a table of origin `fresh`; a table may be passed if `passable`
says so of its origin. -/
def within (fresh : TableOrigin) (passable : TableOrigin → Bool) (key : Text)
    (change : TableOrigin → Members → Option Members) (ms : Members) : Option Members :=
  match ms.get? key with
  | none => (change fresh []).map fun inner => ms ++ [(key, .table fresh inner)]
  | some (.table origin inner) =>
    if passable origin then
      (change origin inner).map fun inner => ms.set key (.table origin inner)
    else none
  | some (.tables each) =>
    match each.getLast? with
    | some last =>
      (change .header last).map fun inner => ms.set key (.tables (each.dropLast ++ [inner]))
    | none => none
  | some _ => none

/-- Changes the members of the table at the end of a path. -/
def withinPath (fresh : TableOrigin) (passable : TableOrigin → Bool)
    (change : TableOrigin → Members → Option Members) :
    List Text → TableOrigin → Members → Option Members
  | [], origin, ms => change origin ms
  | key :: path, _, ms => ms.within fresh passable key (withinPath fresh passable change path)

/-- Adds a value under a dotted key. -/
def add (path : List Text) (key : Text) (value : Toml) (ms : Members) : Option Members :=
  let put (origin : TableOrigin) (inner : Members) : Option Members :=
    if (path ≠ [] ∧ origin ≠ .dotted) ∨ (inner.get? key).isSome then none
    else some (inner ++ [(key, value)])
  withinPath .dotted (fun origin => origin = .implied || origin = .dotted) put path .header ms

/-- May a header pass the table? -/
def headerPasses (origin : TableOrigin) : Bool := origin ≠ .braces

/-- Opens the table of a header. -/
def openTable (path : List Text) (key : Text) (ms : Members) : Option Members :=
  let enter (_ : TableOrigin) (inner : Members) : Option Members :=
    match inner.get? key with
    | none => some (inner ++ [(key, .table .header [])])
    | some (.table .implied members) => some (inner.set key (.table .header members))
    | some _ => none
  withinPath .implied headerPasses enter path .header ms

/-- Opens the next table of an array of tables. -/
def openNext (path : List Text) (key : Text) (ms : Members) : Option Members :=
  let enter (_ : TableOrigin) (inner : Members) : Option Members :=
    match inner.get? key with
    | none => some (inner ++ [(key, .tables [[]])])
    | some (.tables each) => some (inner.set key (.tables (each ++ [[]])))
    | some _ => none
  withinPath .implied headerPasses enter path .header ms

/-- Adds a value under a dotted key to the table that a header opened. -/
def addBelow (header path : List Text) (key : Text) (value : Toml) (ms : Members) :
    Option Members :=
  withinPath .implied headerPasses (fun _ => add path key value) header .header ms

end Members

end Toml

end EditJournal
