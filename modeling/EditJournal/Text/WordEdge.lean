/-
EditJournal.Text.WordEdge — does a text begin or end with white space, as a
reader sees it?

A reader sees clusters, not characters: a space that carries a combining
mark is not blank. No white character joins another except CR LF, whose two
characters are both white, so a cluster is blank exactly when it is a white
control character, or another white character with nothing attached: no mark
behind it, and no sign in front that joins it.
-/
import EditJournal.Text.Basic
import EditJournal.Text.CharTables

namespace EditJournal.Text

/-- The property White_Space. -/
def isWhite (c : Char) : Bool :=
  let n := c.toNat
  (9 ≤ n && n ≤ 13) || n == 0x20 || n == 0x85 || n == 0xA0 || n == 0x1680 ||
    (0x2000 ≤ n && n ≤ 0x200A) || n == 0x2028 || n == 0x2029 || n == 0x202F || n == 0x205F ||
    n == 0x3000

/-- White characters that nothing attaches to: controls and the two Unicode
line separators. -/
def isWhiteControl (c : Char) : Bool :=
  let n := c.toNat
  (9 ≤ n && n ≤ 13) || n == 0x85 || n == 0x2028 || n == 0x2029

/-- Does the character join the one before it? No ASCII character does. -/
def attaches (c : Char) : Bool := 0x300 ≤ c.toNat && CharTables.covers CharTables.attaching c

/-- Does the character join the one after it? No ASCII character does. -/
def leads (c : Char) : Bool := 0x300 ≤ c.toNat && CharTables.covers CharTables.leading c

/-- Is the first cluster blank? The empty text has none. -/
def startsBlank : Text → Bool
  | [] => false
  | [c] => isWhite c
  | c :: d :: _ => isWhite c && (isWhiteControl c || !attaches d)

/-- Is the last cluster blank? The empty text has none. -/
def endsBlank (t : Text) : Bool :=
  match t.reverse with
  | [] => false
  | [c] => isWhite c
  | c :: b :: _ => isWhite c && (isWhiteControl c || !leads b)

end EditJournal.Text
