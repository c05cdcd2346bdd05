/-
EditJournal.Diagnostic — a value as a text for whoever looks into the
program: its type's name, and its fields in braces.
-/

namespace EditJournal.Diagnostic

/-- A name, and named values in braces behind it. -/
def record (name : String) (fields : List (String × String)) : String :=
  let field (f : String × String) : String := f.1 ++ ": " ++ f.2
  name ++ " \x7b " ++ ", ".intercalate (fields.map field) ++ " \x7d"

end EditJournal.Diagnostic
