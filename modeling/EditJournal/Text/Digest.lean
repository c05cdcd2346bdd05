/-
EditJournal.Text.Digest — the FNV-1a digest of a text, in 64 bits, written
as sixteen hexadecimal digits.
-/
import EditJournal.Text.Basic

namespace EditJournal.Text

/-- The value of the digest of no bytes. -/
def digestBasis : UInt64 := 0xcbf29ce484222325

/-- The odd factor of each step, so that a step can be undone. -/
def digestFactor : UInt64 := 0x100000001b3

/-- One byte goes in: it is mixed into the low bits, which the factor then
spreads. -/
def digestStep (h : UInt64) (byte : UInt8) : UInt64 := (h ^^^ byte.toUInt64) * digestFactor

/-- The digest as a word. -/
def digestWord (t : Text) : UInt64 := (bytes t).foldl digestStep digestBasis

/-- The last `count` hexadecimal digits of `n`, most significant first. -/
def hexDigits : Nat → Nat → List Char
  | 0, _ => []
  | count + 1, n => hexDigits count (n / 16) ++ [(n % 16).digitChar]

/-- The digest as text: sixteen hexadecimal digits. -/
def digest (t : Text) : Text := hexDigits 16 (digestWord t).toNat

end EditJournal.Text
