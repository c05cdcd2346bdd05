/-
EditJournal.Text.Basic — a text is a list of characters, measured in the
bytes of its UTF-8 form.

* `Text.byteLength` is that measure; it is additive (`byteLength_append`).
* `Text.splitAtByte?` cuts a text at a byte, and refuses a byte that falls
  inside a character or past the end. `splitAtByte?_eq_some_iff` says the
  whole of it: the two parts are the text, and the first has that length.
-/
import EditJournal.Total

namespace EditJournal

/-- A text: its characters in order. -/
abbrev Text := List Char

namespace Text

/-- The bytes of a text's UTF-8 form. -/
def bytes (t : Text) : List UInt8 := t.flatMap String.utf8EncodeChar

/-- How many bytes a text takes in UTF-8. -/
def byteLength (t : Text) : Nat := total Char.utf8Size t

@[simp] theorem byteLength_nil : byteLength [] = 0 := rfl

@[simp] theorem byteLength_cons (c : Char) (t : Text) :
    byteLength (c :: t) = c.utf8Size + byteLength t := by
  simp [byteLength]

@[simp] theorem byteLength_append (s t : Text) :
    byteLength (s ++ t) = byteLength s + byteLength t := by
  simp [byteLength]

@[simp] theorem byteLength_reverse (t : Text) : byteLength t.reverse = byteLength t := by
  simp [byteLength]

/-- Only the empty text takes no byte. -/
theorem byteLength_eq_zero_iff (t : Text) : byteLength t = 0 ↔ t = [] := by
  cases t with
  | nil => simp
  | cons c t => have := c.utf8Size_pos; simp; omega

/-- The walk behind `splitAtByte?`: `front` holds the characters passed,
newest first. -/
def splitAtByteFrom (front : List Char) : Text → Nat → Option (Text × Text)
  | rest, 0 => some (front.reverse, rest)
  | [], _ + 1 => none
  | c :: rest, n + 1 =>
    if c.utf8Size ≤ n + 1 then splitAtByteFrom (c :: front) rest (n + 1 - c.utf8Size) else none

/-- The text before byte `n` and the text from it on, or nothing where `n`
is inside a character or past the end. -/
def splitAtByte? (t : Text) (n : Nat) : Option (Text × Text) := splitAtByteFrom [] t n

theorem splitAtByteFrom_eq_some_iff (t : Text) (front : List Char) (n : Nat) (a b : Text) :
    splitAtByteFrom front t n = some (a, b) ↔
      ∃ m, a = front.reverse ++ m ∧ t = m ++ b ∧ byteLength m = n := by
  induction t generalizing front n with
  | nil =>
    cases n with
    | zero =>
      simp only [splitAtByteFrom, Option.some.injEq, Prod.mk.injEq]
      constructor
      · rintro ⟨rfl, rfl⟩; exact ⟨[], by simp⟩
      · rintro ⟨m, rfl, hm, h⟩
        obtain rfl := (byteLength_eq_zero_iff m).mp h
        simp_all
    | succ n =>
      simp only [splitAtByteFrom, reduceCtorEq, false_iff, not_exists, not_and]
      rintro m rfl hm
      obtain ⟨rfl, -⟩ : m = [] ∧ b = [] := by simpa using hm.symm
      simp
  | cons c t ih =>
    cases n with
    | zero =>
      simp only [splitAtByteFrom, Option.some.injEq, Prod.mk.injEq]
      constructor
      · rintro ⟨rfl, rfl⟩; exact ⟨[], by simp⟩
      · rintro ⟨m, rfl, hm, h⟩
        obtain rfl := (byteLength_eq_zero_iff m).mp h
        simp_all
    | succ n =>
      have hc := c.utf8Size_pos
      simp only [splitAtByteFrom]
      split
      · next hle =>
        rw [ih]
        constructor
        · rintro ⟨m, rfl, rfl, h⟩
          exact ⟨c :: m, by simp, by simp, by simp; omega⟩
        · rintro ⟨m, rfl, hm, h⟩
          cases m with
          | nil => simp at h
          | cons d m =>
            simp only [List.cons_append, List.cons.injEq] at hm
            obtain ⟨rfl, rfl⟩ := hm
            exact ⟨m, by simp, rfl, by simp at h; omega⟩
      · next hle =>
        simp only [reduceCtorEq, false_iff, not_exists, not_and]
        rintro m rfl hm
        cases m with
        | nil => simp
        | cons d m =>
          simp only [List.cons_append, List.cons.injEq] at hm
          obtain ⟨rfl, -⟩ := hm
          simp; omega

/-- Cutting at a byte gives the two parts of the text whose first part has
that many bytes, and nothing else. -/
theorem splitAtByte?_eq_some_iff (t : Text) (n : Nat) (a b : Text) :
    splitAtByte? t n = some (a, b) ↔ t = a ++ b ∧ byteLength a = n := by
  rw [splitAtByte?, splitAtByteFrom_eq_some_iff]
  simp

end Text

end EditJournal
