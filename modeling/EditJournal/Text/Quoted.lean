/-
EditJournal.Text.Quoted — a text between double quotes, with everything
shown that a reader could not see or could mistake.

The quote, the backslash and four controls have short escapes; any other
character that has no visible form, or that would attach to the one before
it, is written as its code point in braces.
-/
import EditJournal.Text.Basic
import EditJournal.Text.CharTables

namespace EditJournal.Text

/-- A code point in braces, in lower-case hexadecimal. -/
def codePointEscape (c : Char) : Text :=
  '\\' :: 'u' :: '{' :: (Nat.toDigits 16 c.toNat ++ ['}'])

/-- Is the character shown as itself? Every visible ASCII character is. -/
def isPlain (c : Char) : Bool :=
  if c.toNat < 0x7F then 0x20 ≤ c.toNat
  else !CharTables.covers CharTables.extending c && !CharTables.covers CharTables.unprintable c

/-- One character of a quoted text. -/
def quoteChar (c : Char) : Text :=
  match c with
  | '\x00' => ['\\', '0']
  | '\t' => ['\\', 't']
  | '\r' => ['\\', 'r']
  | '\n' => ['\\', 'n']
  | '"' => ['\\', '"']
  | '\\' => ['\\', '\\']
  | c => if isPlain c then [c] else codePointEscape c

/-- The text in quotes. -/
def quoted (t : Text) : String := String.ofList ('"' :: (t.flatMap quoteChar ++ ['"']))

end EditJournal.Text
