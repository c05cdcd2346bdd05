/-
EditJournal.Json.Literal — what stands between the quotes of a JSON string.

`escape` writes a text: the quote, the backslash and controls are escaped,
everything else stands as it is. `unescape?` reads any form, and refuses what
names no character: half of a surrogate pair.
-/
import EditJournal.Text.Basic

namespace EditJournal.Json.Literal

/-! ## Writing -/

/-- A control without a short escape. -/
def unicodeEscape (c : Char) : Text :=
  ['\\', 'u', '0', '0', (c.toNat / 16).digitChar, (c.toNat % 16).digitChar]

def escapeChar (c : Char) : Text :=
  match c with
  | '"' => ['\\', '"']
  | '\\' => ['\\', '\\']
  | '\x08' => ['\\', 'b']
  | '\x0c' => ['\\', 'f']
  | '\n' => ['\\', 'n']
  | '\r' => ['\\', 'r']
  | '\t' => ['\\', 't']
  | c => if c.toNat < 0x20 then unicodeEscape c else [c]

def escape (t : Text) : Text := t.flatMap escapeChar

/-! ## Reading -/

/-- The value of a hexadecimal digit, in either case. -/
def hexValue? (c : Char) : Option Nat :=
  if '0' ≤ c ∧ c ≤ '9' then some (c.toNat - 48)
  else if 'a' ≤ c ∧ c ≤ 'f' then some (c.toNat - 87)
  else if 'A' ≤ c ∧ c ≤ 'F' then some (c.toNat - 55)
  else none

/-- The value of four hexadecimal digits. -/
def hexUnit? (a b c d : Char) : Option Nat := do
  let a ← hexValue? a
  let b ← hexValue? b
  let c ← hexValue? c
  let d ← hexValue? d
  return ((a * 16 + b) * 16 + c) * 16 + d

/-- The character behind a short escape. -/
def shortEscape? : Char → Option Char
  | '"' => some '"'
  | '\\' => some '\\'
  | '/' => some '/'
  | 'b' => some '\x08'
  | 'f' => some '\x0c'
  | 'n' => some '\n'
  | 'r' => some '\r'
  | 't' => some '\t'
  | _ => none

def isHighSurrogate (unit : Nat) : Bool := 0xD800 ≤ unit && unit < 0xDC00

def isLowSurrogate (unit : Nat) : Bool := 0xDC00 ≤ unit && unit < 0xE000

/-- A character that stands for itself or behind a short escape, or a UTF-16
unit behind `\u`. -/
inductive Code where
  | char (c : Char)
  | unit (n : Nat)
  deriving DecidableEq, Repr

/-- Takes escapes apart; `done` holds what was read, newest first. -/
def codesFrom? (done : List Code) : Text → Option (List Code)
  | [] => some done.reverse
  | '\\' :: 'u' :: a :: b :: c :: d :: rest =>
    match hexUnit? a b c d with
    | some n => codesFrom? (.unit n :: done) rest
    | none => none
  | '\\' :: c :: rest =>
    match shortEscape? c with
    | some c => codesFrom? (.char c :: done) rest
    | none => none
  | ['\\'] => none
  | c :: rest => codesFrom? (.char c :: done) rest

/-- Puts surrogate pairs together; `done` holds the characters, newest first.
A unit that is half of a pair without the other half names nothing. -/
def charsFrom? (done : List Char) : List Code → Option Text
  | [] => some done.reverse
  | .char c :: rest => charsFrom? (c :: done) rest
  | .unit high :: .unit low :: rest =>
    if isHighSurrogate high then
      if isLowSurrogate low then
        charsFrom?
          (Char.ofNat (0x10000 + (high - 0xD800) * 0x400 + (low - 0xDC00)) :: done) rest
      else none
    else if isLowSurrogate high then none
    else charsFrom? (Char.ofNat high :: done) (.unit low :: rest)
  | .unit n :: rest =>
    if isHighSurrogate n || isLowSurrogate n then none
    else charsFrom? (Char.ofNat n :: done) rest

/-- The text that a literal stands for. -/
def unescape? (raw : Text) : Option Text := do charsFrom? [] (← codesFrom? [] raw)

end EditJournal.Json.Literal
