/-
EditJournal.Word — the bounds of 64-bit words.

Numbers are counted without bound in this library. Where the width of a word
shows, as the greatest number that a file can hold, where a clock starts again, or
where a journal or a place can count no further, it is one of these two.
-/

namespace EditJournal.Word

/-- How many values a word has: two to the 64. -/
def size : Nat := 0x10000000000000000

/-- How many of them are not negative in a word with a sign: two to the 63. -/
def half : Nat := 0x8000000000000000

/-- Half of the values, twice, are all of them. -/
theorem half_add_half : half + half = size := rfl

end EditJournal.Word
