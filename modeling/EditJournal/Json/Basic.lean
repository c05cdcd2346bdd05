/-
EditJournal.Json.Basic — JSON values as they are written.

Numbers and strings are kept as they stand in the text: a reader that skips a
member asks only that it is well formed, so that a number too large for any
type, or half of a surrogate pair, does no harm until someone wants its
value. `Json.nat?` and `Json.text?` are where it is wanted.
-/
import EditJournal.Json.Literal
import EditJournal.Word

namespace EditJournal

/-- A JSON value; numbers and strings as written, members in order. -/
inductive Json where
  | null
  | bool (b : Bool)
  | number (lexeme : Text)
  | string (raw : Text)
  | array (elements : List Json)
  | object (members : List (Text × Json))

namespace Json

/-! ## Writing -/

def ofNat (n : Nat) : Json := number (Nat.toDigits 10 n)

def ofText (t : Text) : Json := string (Literal.escape t)

def ofOption {α : Type} (f : α → Json) : Option α → Json
  | none => null
  | some a => f a

/-- A record: its members under their names, in order. -/
def record (members : List (String × Json)) : Json :=
  object (members.map fun (name, value) => (Literal.escape name.toList, value))

/-! ## Reading -/

/-- A number without sign, fraction and exponent that fits in a word. -/
def nat? : Json → Option Nat
  | number lexeme =>
    if lexeme.all Char.isDigit then
      let n := Nat.ofDigitChars 10 lexeme 0
      if n < Word.size then some n else none
    else none
  | _ => none

def bool? : Json → Option Bool
  | bool b => some b
  | _ => none

def text? : Json → Option Text
  | string raw => Literal.unescape? raw
  | _ => none

def list? {α : Type} (f : Json → Option α) : Json → Option (List α)
  | array elements => elements.mapM f
  | _ => none

/-- One word of a list: as a string, or as an object that has only that
member, with the value null. -/
def word? {α : Type} (words : List (String × α)) (v : Json) : Option α := do
  let name ← match v with
    | string raw => Literal.unescape? raw
    | object [(raw, null)] => Literal.unescape? raw
    | _ => none
  (words.find? (·.1.toList == name)).map (·.2)

/-- The members of a record, by name and in the order of the names. An
object may leave members out and have others, but none of these twice; an
array has them in order. -/
def members? (names : List String) (v : Json) : Option (List (Option Json)) :=
  match v with
  | array elements =>
    if elements.length ≤ names.length then
      some (elements.map some ++ List.replicate (names.length - elements.length) none)
    else none
  | object members => do
    let named ← members.mapM fun (raw, value) => (Literal.unescape? raw).map (·, value)
    names.mapM fun name =>
      match named.filter (·.1 == name.toList) with
      | [] => some none
      | [(_, value)] => some (some value)
      | _ => none
  | _ => none

/-- As `members?`, where an array must have all members. -/
def fullMembers? (names : List String) (v : Json) : Option (List (Option Json)) :=
  match v with
  | array elements => if elements.length = names.length then members? names v else none
  | _ => members? names v

/-- A member that must be there. -/
def required? {α : Type} (f : Json → Option α) : Option Json → Option α
  | some v => f v
  | none => none

/-- A member that may be left out, or be null. -/
def optional? {α : Type} (f : Json → Option α) : Option Json → Option (Option α)
  | none => some none
  | some null => some none
  | some v => (f v).map some

/-- A member that has a value when it is left out. -/
def withDefault? {α : Type} (default : α) (f : Json → Option α) : Option Json → Option α
  | none => some default
  | some v => f v

end Json

end EditJournal
