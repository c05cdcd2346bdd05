/-
EditJournal.Toml.Lexeme — the words of a TOML document: blanks, comments,
strings, keys, numbers and moments in time.

Each reader takes the front of a text and gives what it read with the rest,
or nothing where the text does not start so. Controls other than the tab
stand nowhere, and a carriage return only before a line feed.
-/
import EditJournal.Toml.Basic
import EditJournal.Json.Literal
import EditJournal.Word

namespace EditJournal.Toml

open Json.Literal (hexValue? hexUnit?)

/-! ## Blanks, comments and line ends -/

def isBlank (c : Char) : Bool := c == ' ' || c == '\t'

def skipBlanks (s : Text) : Text := s.dropWhile isBlank

/-- Any character but a control; the tab is allowed. -/
def isVisible (c : Char) : Bool :=
  c == '\t' || (0x20 ≤ c.toNat && c.toNat ≤ 0x7E) || 0x80 ≤ c.toNat

/-- A line break, or the end of the text. -/
def lineEnd? : Text → Option Text
  | [] => some []
  | '\n' :: rest => some rest
  | '\r' :: '\n' :: rest => some rest
  | _ => none

/-- What may follow on a line: blanks and a comment. -/
def trailing? (s : Text) : Option Text :=
  match skipBlanks s with
  | '#' :: rest => lineEnd? (rest.dropWhile isVisible)
  | rest => lineEnd? rest

/-- Blanks, comments and line breaks between the elements of an array;
`comment` holds within a comment. -/
def skipLinesFrom (comment : Bool) : Text → Option Text
  | [] => some []
  | '\n' :: rest => skipLinesFrom false rest
  | '\r' :: '\n' :: rest => skipLinesFrom false rest
  | c :: rest =>
    if comment then
      if isVisible c then skipLinesFrom true rest else none
    else if isBlank c then skipLinesFrom false rest
    else if c = '#' then skipLinesFrom true rest
    else some (c :: rest)

def skipLines (s : Text) : Option Text := skipLinesFrom false s

/-! ## Strings -/

/-- The character of a code point; surrogates and numbers above the last code
point have none. -/
def scalar? (n : Nat) : Option Char :=
  if n < 0xD800 ∨ (0xE000 ≤ n ∧ n < 0x110000) then some (Char.ofNat n) else none

/-- The character behind a short escape. -/
def shortEscape? : Char → Option Char
  | 'b' => some '\x08'
  | 't' => some '\t'
  | 'n' => some '\n'
  | 'f' => some '\x0c'
  | 'r' => some '\r'
  | '"' => some '"'
  | '\\' => some '\\'
  | _ => none

/-- The character of four hexadecimal digits. -/
def shortScalar? (a b c d : Char) : Option Char := do scalar? (← hexUnit? a b c d)

/-- The character of eight hexadecimal digits. -/
def longScalar? (a b c d e f g h : Char) : Option Char := do
  let high ← hexUnit? a b c d
  let low ← hexUnit? e f g h
  scalar? (high * 0x10000 + low)

/-- A string in double quotes on one line, up to its closing quote. -/
def basicFrom (done : List Char) : Text → Option (Text × Text)
  | [] => none
  | '"' :: rest => some (done.reverse, rest)
  | '\\' :: 'u' :: a :: b :: c :: d :: rest =>
    match shortScalar? a b c d with
    | some x => basicFrom (x :: done) rest
    | none => none
  | '\\' :: 'U' :: a :: b :: c :: d :: e :: f :: g :: h :: rest =>
    match longScalar? a b c d e f g h with
    | some x => basicFrom (x :: done) rest
    | none => none
  | '\\' :: c :: rest =>
    match shortEscape? c with
    | some x => basicFrom (x :: done) rest
    | none => none
  | c :: rest => if c ≠ '\\' ∧ isVisible c then basicFrom (c :: done) rest else none

/-- Where a string of many lines is: in its text, behind a backslash that
must be the last on its line, or in the blanks that such a backslash takes
away. -/
inductive Stretch where
  | text
  | gap
  | trim
  deriving DecidableEq, Repr

/-- A string in three double quotes, up to the closing ones; up to two more
quotes belong to it. -/
def manyBasicFrom (mode : Stretch) (done : List Char) : Text → Option (Text × Text)
  | [] => none
  | '\n' :: rest =>
    if mode = .text then manyBasicFrom .text ('\n' :: done) rest
    else manyBasicFrom .trim done rest
  | '\r' :: '\n' :: rest =>
    if mode = .text then manyBasicFrom .text ('\n' :: done) rest
    else manyBasicFrom .trim done rest
  | '"' :: '"' :: '"' :: '"' :: '"' :: rest =>
    if mode = .gap then none else some (('"' :: '"' :: done).reverse, rest)
  | '"' :: '"' :: '"' :: '"' :: rest =>
    if mode = .gap then none else some (('"' :: done).reverse, rest)
  | '"' :: '"' :: '"' :: rest => if mode = .gap then none else some (done.reverse, rest)
  | '\\' :: 'u' :: a :: b :: c :: d :: rest =>
    match shortScalar? a b c d with
    | some x => if mode = .gap then none else manyBasicFrom .text (x :: done) rest
    | none => none
  | '\\' :: 'U' :: a :: b :: c :: d :: e :: f :: g :: h :: rest =>
    match longScalar? a b c d e f g h with
    | some x => if mode = .gap then none else manyBasicFrom .text (x :: done) rest
    | none => none
  | '\\' :: '\n' :: rest => if mode = .gap then none else manyBasicFrom .trim done rest
  | '\\' :: '\r' :: '\n' :: rest => if mode = .gap then none else manyBasicFrom .trim done rest
  | '\\' :: c :: rest =>
    if mode = .gap then none
    else if isBlank c then manyBasicFrom .gap done rest
    else
      match shortEscape? c with
      | some x => manyBasicFrom .text (x :: done) rest
      | none => none
  | c :: rest =>
    if isBlank c ∧ mode ≠ .text then manyBasicFrom mode done rest
    else if mode ≠ .gap ∧ c ≠ '\\' ∧ isVisible c then manyBasicFrom .text (c :: done) rest
    else none

/-- A string in single quotes on one line, up to its closing quote. -/
def literalFrom (done : List Char) : Text → Option (Text × Text)
  | [] => none
  | '\x27' :: rest => some (done.reverse, rest)
  | c :: rest => if isVisible c then literalFrom (c :: done) rest else none

/-- A string in three single quotes, up to the closing ones; up to two more
quotes belong to it. -/
def manyLiteralFrom (done : List Char) : Text → Option (Text × Text)
  | [] => none
  | '\n' :: rest => manyLiteralFrom ('\n' :: done) rest
  | '\r' :: '\n' :: rest => manyLiteralFrom ('\n' :: done) rest
  | '\x27' :: '\x27' :: '\x27' :: '\x27' :: '\x27' :: rest =>
    some (('\x27' :: '\x27' :: done).reverse, rest)
  | '\x27' :: '\x27' :: '\x27' :: '\x27' :: rest => some (('\x27' :: done).reverse, rest)
  | '\x27' :: '\x27' :: '\x27' :: rest => some (done.reverse, rest)
  | c :: rest => if isVisible c then manyLiteralFrom (c :: done) rest else none

/-- A line break right behind three opening quotes is not part of the
string. -/
def skipFirstBreak : Text → Text
  | '\n' :: rest => rest
  | '\r' :: '\n' :: rest => rest
  | s => s

/-- A string of any of the four forms. -/
def string? : Text → Option (Text × Text)
  | '"' :: '"' :: '"' :: rest => manyBasicFrom .text [] (skipFirstBreak rest)
  | '"' :: rest => basicFrom [] rest
  | '\x27' :: '\x27' :: '\x27' :: rest => manyLiteralFrom [] (skipFirstBreak rest)
  | '\x27' :: rest => literalFrom [] rest
  | _ => none

/-! ## Keys -/

/-- Characters of a key without quotes. -/
def isBare (c : Char) : Bool := c.isAlphanum || c == '-' || c == '_'

/-- One part of a key. -/
def keyPart? : Text → Option (Text × Text)
  | '"' :: rest => basicFrom [] rest
  | '\x27' :: rest => literalFrom [] rest
  | s =>
    match s.takeWhile isBare with
    | [] => none
    | name => some (name, s.dropWhile isBare)

/-- Values, and the parts of a key, nest less deep than this. -/
def nestingLimit : Nat := 80

/-- A key: parts with dots between them and blanks around them, at most
`parts` of them. -/
def keyParts? (parts : Nat) (s : Text) : Option (List Text × Text) :=
  match parts with
  | 0 => none
  | parts + 1 =>
    match keyPart? (skipBlanks s) with
    | none => none
    | some (name, rest) =>
      match skipBlanks rest with
      | '.' :: rest => (keyParts? parts rest).map fun (names, rest) => (name :: names, rest)
      | rest => some ([name], rest)

/-- A key, as the path to its table and its last part. -/
def key? (s : Text) : Option (List Text × Text × Text) := do
  let (names, rest) ← keyParts? (nestingLimit - 1) s
  let name ← names.getLast?
  return (names.dropLast, name, rest)

/-! ## Numbers -/

/-- Digits with single underscores between them; `done` holds the digits
read, newest first. -/
def digitsFrom (isDigit : Char → Bool) (done : List Char) : Text → Text × Text
  | [] => (done.reverse, [])
  | '_' :: c :: rest =>
    if isDigit c ∧ done ≠ [] then digitsFrom isDigit (c :: done) rest
    else (done.reverse, '_' :: c :: rest)
  | c :: rest =>
    if isDigit c then digitsFrom isDigit (c :: done) rest else (done.reverse, c :: rest)

/-- One digit at least. -/
def digits? (isDigit : Char → Bool) (s : Text) : Option (Text × Text) :=
  match digitsFrom isDigit [] s with
  | ([], _) => none
  | (ds, rest) => some (ds, rest)

/-- A sign, if there is one: is it a minus? -/
def sign : Text → Bool × Text
  | '+' :: rest => (false, rest)
  | '-' :: rest => (true, rest)
  | s => (false, s)

/-- Decimal digits without a needless zero in front. -/
def whole? : Text → Option (Text × Text)
  | '0' :: rest => some (['0'], rest)
  | s => digits? Char.isDigit s

/-- Integers are held in 64 bits. -/
def signed? (negative : Bool) (n : Nat) : Option Int :=
  if negative then if n ≤ Word.half then some (-n) else none
  else if n < Word.half then some n else none

/-- The value of digits in a base. -/
def valueOf (base : Nat) (ds : Text) : Nat :=
  ds.foldl (fun n c => n * base + (hexValue? c).getD 0) 0

/-- The digits of a base behind its mark. -/
def based? (base : Nat) (s : Text) : Option (Int × Text) := do
  let (ds, rest) ← digits? (fun c => (hexValue? c).any (· < base)) s
  return (← signed? false (valueOf base ds), rest)

/-- An integer, decimal or with the mark of another base. -/
def integer? : Text → Option (Int × Text)
  | '0' :: 'x' :: rest => based? 16 rest
  | '0' :: 'o' :: rest => based? 8 rest
  | '0' :: 'b' :: rest => based? 2 rest
  | s => do
    let (negative, s) := sign s
    let (ds, rest) ← whole? s
    return (← signed? negative (valueOf 10 ds), rest)

/-- Does `m` times ten to the `e` round to infinity as a 64-bit float? It does
from half way between the greatest float and the next power of two on. -/
def overflows (m : Nat) (e : Int) : Bool :=
  let size : Int := (Nat.toDigits 10 m).length + e
  let bound := Nat.pow 2 1024 - Nat.pow 2 970
  if m = 0 ∨ size < 309 then false
  else if 309 < size then true
  else bound * Nat.pow 10 (-e).toNat ≤ m * Nat.pow 10 e.toNat

/-- A point and digits, or nothing. -/
def fraction? : Text → Option (Text × Text)
  | '.' :: s => digits? Char.isDigit s
  | s => some ([], s)

/-- An exponent, or nothing. -/
def exponent? : Text → Option (Option Int × Text)
  | c :: s =>
    if c = 'e' ∨ c = 'E' then do
      let (negative, s) := sign s
      let (ds, rest) ← digits? Char.isDigit s
      let n : Int := valueOf 10 ds
      return (some (if negative then -n else n), rest)
    else some (none, c :: s)
  | [] => some (none, [])

/-- Infinity and not-a-number, without sign. -/
def special? : Text → Option Text
  | 'i' :: 'n' :: 'f' :: rest => some rest
  | 'n' :: 'a' :: 'n' :: rest => some rest
  | _ => none

/-- A float: an integer with a fraction, an exponent or both. One that would
be read as positive infinity is refused. -/
def float? (s : Text) : Option Text := do
  let (negative, unsigned) := sign s
  match special? unsigned with
  | some rest => some rest
  | none =>
    let (ds, s) ← whole? unsigned
    let (fs, s) ← fraction? s
    let (e, rest) ← exponent? s
    if fs = [] ∧ e = none then none
    else if !negative && overflows (valueOf 10 (ds ++ fs)) (e.getD 0 - fs.length) then none
    else some rest

/-! ## Moments in time -/

/-- Exactly `count` digits, as a number. -/
def fixed? (count : Nat) (s : Text) : Option (Nat × Text) :=
  let ds := s.take count
  if ds.length = count ∧ ds.all Char.isDigit then some (valueOf 10 ds, s.drop count) else none

/-- A two-digit number within bounds. -/
def twoDigits? (low high : Nat) (s : Text) : Option (Nat × Text) := do
  let (n, rest) ← fixed? 2 s
  if low ≤ n ∧ n ≤ high then some (n, rest) else none

/-- A certain character. -/
def mark? (c : Char) : Text → Option Text
  | d :: rest => if d = c then some rest else none
  | [] => none

def daysIn (year month : Nat) : Nat :=
  if month = 2 then
    if year % 4 = 0 ∧ (year % 100 ≠ 0 ∨ year % 400 = 0) then 29 else 28
  else if month = 4 ∨ month = 6 ∨ month = 9 ∨ month = 11 then 30
  else 31

/-- A day of the calendar. -/
def date? (s : Text) : Option Text := do
  let (year, s) ← fixed? 4 s
  let s ← mark? '-' s
  let (month, s) ← twoDigits? 1 12 s
  let s ← mark? '-' s
  let (_, rest) ← twoDigits? 1 (daysIn year month) s
  return rest

/-- A time of day, to the second or finer. A leap second is allowed. -/
def time? (s : Text) : Option Text := do
  let (_, s) ← twoDigits? 0 23 s
  let s ← mark? ':' s
  let (_, s) ← twoDigits? 0 59 s
  let s ← mark? ':' s
  let (_, s) ← twoDigits? 0 60 s
  match s with
  | '.' :: c :: rest => if c.isDigit then some (rest.dropWhile Char.isDigit) else some s
  | _ => some s

/-- The distance from universal time, if one is given. -/
def offset? : Text → Option Text
  | c :: s =>
    if c = 'Z' ∨ c = 'z' then some s
    else if c = '+' ∨ c = '-' then do
      let (_, s) ← twoDigits? 0 23 s
      let s ← mark? ':' s
      let (_, rest) ← twoDigits? 0 59 s
      return rest
    else some (c :: s)
  | [] => some []

/-- A day, a time of day, or both with or without an offset. -/
def moment? (s : Text) : Option Text :=
  match date? s with
  | none => time? s
  | some rest =>
    match rest with
    | c :: late =>
      if c = 'T' ∨ c = 't' ∨ c = ' ' then
        match time? late with
        | some later => offset? later
        | none => some rest
      else some rest
    | [] => some []

/-- What was read of a text, given what is left. -/
def consumed (s rest : Text) : Text := s.take (s.length - rest.length)

end EditJournal.Toml
