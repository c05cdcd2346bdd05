/-
EditJournal.Storage — what a journal needs of the thing that holds the text:
its contents, insertion at a place, and removal of a byte range.

Two kinds are given. A `Text` is a storage that refuses only bad places. A
`FaultyStorage` is a text that moreover refuses chosen calls, which is what
rollback is there for.
-/
import EditJournal.Narrated

namespace EditJournal

/-- Something that holds a text. A call gives what came of it and the storage
after it; a storage may refuse any call. -/
class Storage (σ : Type) where
  contents : σ → Text
  insert : σ → Location → Text → Narrated (Except TextError Location × σ)
  delete : σ → Location → Nat → Narrated (Except TextError Text × σ)

namespace Text

/-- Insertion into a text, told when it happened. -/
def insertTold (t : Text) (place : Location) (new : Text) :
    Narrated (Except TextError Location × Text) :=
  match t.insertAt place new with
  | .ok (stop, changed) => do
    .tell (.inserted place new.byteLength)
    return (.ok stop, changed)
  | .error cause => return (.error cause, t)

/-- Removal from a text, told when it happened. -/
def deleteTold (t : Text) (place : Location) (length : Nat) :
    Narrated (Except TextError Text × Text) :=
  match t.deleteAt place length with
  | .ok (removed, changed) => do
    .tell (.deleted place length)
    return (.ok removed, changed)
  | .error cause => return (.error cause, t)

instance : Storage Text where
  contents := id
  insert := insertTold
  delete := deleteTold

end Text

/-- A text whose insertions and removals are counted, from 0 and refused ones
included, and refused when their number is to be. -/
structure FaultyStorage where
  text : Text
  calls : Nat := 0
  refuses : Nat → Bool

namespace FaultyStorage

/-- A refused call changes nothing but the count. -/
def attempt {α : Type} (s : FaultyStorage)
    (call : Text → Narrated (Except TextError α × Text)) :
    Narrated (Except TextError α × FaultyStorage) :=
  let counted := { s with calls := s.calls + 1 }
  if s.refuses s.calls then return (.error (.notCharBoundary s.calls), counted)
  else do
    let (result, text) ← call s.text
    return (result, { counted with text })

instance : Storage FaultyStorage where
  contents := text
  insert s place new := s.attempt (Text.insertTold · place new)
  delete s place length := s.attempt (Text.deleteTold · place length)

end FaultyStorage

end EditJournal
