/-
EditJournal.Json.Reader — reading a JSON text.

The text is one value with blanks around it; nothing else may stand before or
behind it. Each reader takes the front of a text and gives what it read with
the rest. Values nest, so the readers of values, elements and members call
each other; `fuel` bounds how often, and twice the length of the text is
enough, for each call passes a character.
-/
import EditJournal.Json.Basic

namespace EditJournal.Json.Reader

/-- Space, tab, line feed and carriage return. -/
def isBlank (c : Char) : Bool := c == ' ' || c == '\t' || c == '\n' || c == '\r'

def skipBlanks (s : Text) : Text := s.dropWhile isBlank

/-- Takes a word off the front. -/
def word? : List Char → Text → Option Text
  | [], s => some s
  | c :: word, d :: s => if c = d then word? word s else none
  | _ :: _, [] => none

/-! ## Strings -/

/-- Reads up to the closing quote; `done` holds the literal read, newest
first. Controls may not stand in it, and escapes must be known ones; what
they stand for is not looked at. -/
def rawFrom? (done : List Char) : Text → Option (Text × Text)
  | [] => none
  | '"' :: rest => some (done.reverse, rest)
  | '\\' :: 'u' :: a :: b :: c :: d :: rest =>
    match Literal.hexUnit? a b c d with
    | some _ => rawFrom? (d :: c :: b :: a :: 'u' :: '\\' :: done) rest
    | none => none
  | '\\' :: c :: rest =>
    match Literal.shortEscape? c with
    | some _ => rawFrom? (c :: '\\' :: done) rest
    | none => none
  | c :: rest => if c = '\\' ∨ c.toNat < 0x20 then none else rawFrom? (c :: done) rest

/-- A string literal, quotes not included. -/
def raw? : Text → Option (Text × Text)
  | '"' :: rest => rawFrom? [] rest
  | _ => none

/-! ## Numbers -/

def digits (s : Text) : Text × Text := (s.takeWhile Char.isDigit, s.dropWhile Char.isDigit)

/-- One digit at least. -/
def someDigits? (s : Text) : Option (Text × Text) :=
  match digits s with
  | ([], _) => none
  | (ds, rest) => some (ds, rest)

/-- An optional sign out of some. -/
def sign (signs : List Char) : Text → Text × Text
  | c :: rest => if c ∈ signs then ([c], rest) else ([], c :: rest)
  | [] => ([], [])

/-- Digits without a needless zero in front. -/
def whole? (s : Text) : Option (Text × Text) := do
  let (ds, rest) ← someDigits? s
  if ds.head? = some '0' ∧ ds.length ≠ 1 then none else some (ds, rest)

/-- A point and digits, or nothing. -/
def fraction? : Text → Option (Text × Text)
  | '.' :: s => do
    let (ds, rest) ← someDigits? s
    return ('.' :: ds, rest)
  | s => some ([], s)

/-- An exponent mark, a sign if there is one and digits, or nothing. -/
def exponent? : Text → Option (Text × Text)
  | c :: s =>
    if c = 'e' ∨ c = 'E' then do
      let (sg, s) := sign ['+', '-'] s
      let (ds, rest) ← someDigits? s
      return (c :: (sg ++ ds), rest)
    else some ([], c :: s)
  | [] => some ([], [])

/-- A number as written. -/
def number? (s : Text) : Option (Text × Text) := do
  let (sg, s) := sign ['-'] s
  let (ds, s) ← whole? s
  let (fs, s) ← fraction? s
  let (es, s) ← exponent? s
  return (sg ++ ds ++ fs ++ es, s)

/-! ## Values -/

mutual

/-- A value at the front of a text. -/
def value? (fuel : Nat) (s : Text) : Option (Json × Text) :=
  match fuel with
  | 0 => none
  | fuel + 1 =>
    match s with
    | [] => none
    | '"' :: rest => (rawFrom? [] rest).map fun (raw, rest) => (.string raw, rest)
    | '[' :: rest =>
      match skipBlanks rest with
      | ']' :: rest => some (.array [], rest)
      | rest => (elements? fuel rest).map fun (vs, rest) => (.array vs, rest)
    | '{' :: rest =>
      match skipBlanks rest with
      | '}' :: rest => some (.object [], rest)
      | rest => (members? fuel rest).map fun (ms, rest) => (.object ms, rest)
    | 'n' :: rest => (word? ['u', 'l', 'l'] rest).map (.null, ·)
    | 't' :: rest => (word? ['r', 'u', 'e'] rest).map (.bool true, ·)
    | 'f' :: rest => (word? ['a', 'l', 's', 'e'] rest).map (.bool false, ·)
    | s => (number? s).map fun (lexeme, rest) => (.number lexeme, rest)

/-- Elements up to the closing bracket. -/
def elements? (fuel : Nat) (s : Text) : Option (List Json × Text) :=
  match fuel with
  | 0 => none
  | fuel + 1 =>
    match value? fuel s with
    | none => none
    | some (v, rest) =>
      match skipBlanks rest with
      | ']' :: rest => some ([v], rest)
      | ',' :: rest => (elements? fuel (skipBlanks rest)).map fun (vs, rest) => (v :: vs, rest)
      | _ => none

/-- Members up to the closing brace. -/
def members? (fuel : Nat) (s : Text) : Option (List (Text × Json) × Text) :=
  match fuel with
  | 0 => none
  | fuel + 1 =>
    match raw? s with
    | none => none
    | some (name, rest) =>
      match skipBlanks rest with
      | ':' :: rest =>
        match value? fuel (skipBlanks rest) with
        | none => none
        | some (v, rest) =>
          match skipBlanks rest with
          | '}' :: rest => some ([(name, v)], rest)
          | ',' :: rest =>
            (members? fuel (skipBlanks rest)).map fun (ms, rest) => ((name, v) :: ms, rest)
          | _ => none
      | _ => none

end

/-- A quote begins a string. -/
theorem value?_quote (fuel : Nat) (rest : Text) :
    value? (fuel + 1) ('"' :: rest) =
      (rawFrom? [] rest).map fun (raw, rest) => (.string raw, rest) := by
  rw [value?]

end EditJournal.Json.Reader

namespace EditJournal.Json

open Reader

/-- The value that a text is written form of. -/
def parse? (s : Text) : Option Json :=
  match value? (2 * s.length + 2) (skipBlanks s) with
  | some (v, rest) => if skipBlanks rest = [] then some v else none
  | none => none

end EditJournal.Json
