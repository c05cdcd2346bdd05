/-
EditJournal.Text.Splice — resolving a place in a text, and cutting the text
there: insertion, removal and reading of a byte range.

## Lines

`Text.lines` cuts a text at its line feeds. A text with `n` of them has
`n + 1` lines, the last of which may be empty.

## Resolving

`Text.splitAt` gives the text before and after a place. A place is refused,
with the first cause that applies: its line is past the last one, its offset
is past the end of its line, or its byte is inside a character. Insertion and
removal are cuts put together again, so a change never splits a character.
-/
import EditJournal.Text.Location

namespace EditJournal

/-- Why a place or a byte range of a text was refused. -/
inductive TextError where
  | lineOutOfBounds (line lines : Nat)
  | offsetOutOfBounds (place : Location) (lineLength : Nat)
  | rangeOutOfBounds (place : Location) (length available : Nat)
  | notCharBoundary (byte : Nat)
  deriving DecidableEq, Repr

namespace TextError

/-- The wording of a refusal; lines are counted from 1 in it. -/
def message : TextError → String
  | lineOutOfBounds line lines => s!"line {line + 1} out of bounds ({lines} lines)"
  | offsetOutOfBounds place lineLength =>
    s!"offset {place.display} out of bounds (line length {lineLength})"
  | rangeOutOfBounds place length available =>
    s!"{length} bytes at {place.display} exceed the {available} available"
  | notCharBoundary byte => s!"byte {byte} is not on a character boundary"

end TextError

namespace Text

/-! ## Lines -/

/-- Puts a character in front of the first line. -/
def consLine (c : Char) : List Text → List Text
  | [] => [[c]]
  | first :: rest => (c :: first) :: rest

/-- The lines of a text, without the line feeds between them. -/
def lines (t : Text) : List Text :=
  t.foldr (fun c ls => if c = '\n' then [] :: ls else consLine c ls) [[]]

def lineCount (t : Text) : Nat := (lines t).length

/-- The bytes of a line, or nothing past the last line. -/
def lineLength? (t : Text) (line : Nat) : Option Nat := (lines t)[line]?.map byteLength

/-- The byte at which a line starts: each line before it takes its bytes and
a line feed. -/
def lineStart (t : Text) (line : Nat) : Nat :=
  total (byteLength · + 1) ((lines t).take line)

/-! ## Resolving a place -/

/-- The byte that a place names, inside a character or not. -/
def byteOf (t : Text) (place : Location) : Except TextError Nat :=
  match lineLength? t place.line with
  | none => .error (.lineOutOfBounds place.line (lineCount t))
  | some length =>
    if length < place.offset then .error (.offsetOutOfBounds place length)
    else .ok (lineStart t place.line + place.offset)

/-- The text before a place and the text from it on. -/
def splitAt (t : Text) (place : Location) : Except TextError (Text × Text) := do
  let byte ← byteOf t place
  match splitAtByte? t byte with
  | some parts => .ok parts
  | none => .error (.notCharBoundary byte)

/-- The character boundary that a place names, as a byte. -/
def byteIndex (t : Text) (place : Location) : Except TextError Nat :=
  (splitAt t place).map (byteLength ·.1)

/-- The walk behind `locationOf?`: `place` is the start of what is left. -/
def locationFrom (place : Location) : Text → Nat → Option Location
  | [], 0 => some place
  | [], _ + 1 => none
  | c :: rest, n =>
    if n < c.utf8Size then some ⟨place.line, place.offset + n⟩
    else locationFrom (place.step c) rest (n - c.utf8Size)

/-- The place of a byte of the text, or of its end. A byte inside a
character has a place too, which `byteIndex` refuses. -/
def locationOf? (t : Text) (byte : Nat) : Option Location := locationFrom .origin t byte

/-! ## Changing and reading -/

/-- Puts `new` in at a place; gives the place after it and the new text. -/
def insertAt (t : Text) (place : Location) (new : Text) :
    Except TextError (Location × Text) := do
  let (before, after) ← splitAt t place
  .ok (place.advance new, before ++ new ++ after)

/-- The text before a range, the range, and the text after it. -/
def cut (t : Text) (place : Location) (length : Nat) :
    Except TextError (Text × Text × Text) := do
  let (before, after) ← splitAt t place
  if byteLength after < length then
    .error (.rangeOutOfBounds place length (byteLength after))
  else
    match splitAtByte? after length with
    | some (range, rest) => .ok (before, range, rest)
    | none => .error (.notCharBoundary (byteLength before + length))

/-- Takes a range out; gives what was there and the new text. -/
def deleteAt (t : Text) (place : Location) (length : Nat) :
    Except TextError (Text × Text) := do
  let (before, range, rest) ← cut t place length
  .ok (range, before ++ rest)

/-- What a range holds. -/
def readAt (t : Text) (place : Location) (length : Nat) : Except TextError Text := do
  let (_, range, _) ← cut t place length
  .ok range

/-- A line read as the byte range it takes. -/
def lineText? (t : Text) (line : Nat) : Option Text := do
  let length ← lineLength? t line
  (readAt t ⟨line, 0⟩ length).toOption

end Text

end EditJournal
