/-
EditJournal.Clock — a clock that is set by hand. It counts milliseconds in a
64-bit word, so that advancing it past the end starts again from 0.
-/
import EditJournal.Diagnostic
import EditJournal.Word

namespace EditJournal

structure ManualClock where
  now : Nat := 0
  deriving DecidableEq, Repr

namespace ManualClock

def advance (c : ManualClock) (ms : Nat) : ManualClock := ⟨(c.now + ms) % Word.size⟩

def set (_ : ManualClock) (ms : Nat) : ManualClock := ⟨ms⟩

/-- The clock as a diagnostic text. -/
def describe (c : ManualClock) : String :=
  Diagnostic.record "ManualClock" [("now_ms", toString c.now)]

end ManualClock

end EditJournal
