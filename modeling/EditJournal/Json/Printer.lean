/-
EditJournal.Json.Printer — writing a JSON value, on one line without blanks
(`compact`), or on many (`pretty`): each element and member on a line of its
own, two spaces deeper than its brackets.
-/
import EditJournal.Json.Basic

namespace EditJournal.Json

/-- A string in its quotes. -/
def quoted (raw : Text) : Text := '"' :: (raw ++ ['"'])

/-! ## On one line -/

mutual

/-- A value without blanks. -/
def compact : Json → Text
  | null => ['n', 'u', 'l', 'l']
  | bool true => ['t', 'r', 'u', 'e']
  | bool false => ['f', 'a', 'l', 's', 'e']
  | number lexeme => lexeme
  | string raw => quoted raw
  | array [] => ['[', ']']
  | array (v :: vs) => '[' :: compact v ++ compactElements vs ++ [']']
  | object [] => ['{', '}']
  | object (m :: ms) => '{' :: compactMember m ++ compactMembers ms ++ ['}']

/-- Further elements, each behind a comma. -/
def compactElements : List Json → Text
  | [] => []
  | v :: vs => ',' :: compact v ++ compactElements vs

/-- A name and its value. -/
def compactMember : Text × Json → Text
  | (name, v) => quoted name ++ ':' :: compact v

/-- Further members, each behind a comma. -/
def compactMembers : List (Text × Json) → Text
  | [] => []
  | m :: ms => ',' :: compactMember m ++ compactMembers ms

end

/-! ## On many lines -/

/-- A line break, and the blanks in front of a line that is `depth` brackets
deep. -/
def newLine (depth : Nat) : Text := '\n' :: List.replicate (2 * depth) ' '

mutual

/-- A value that stands in brackets `depth` deep. -/
def pretty (depth : Nat) : Json → Text
  | null => ['n', 'u', 'l', 'l']
  | bool true => ['t', 'r', 'u', 'e']
  | bool false => ['f', 'a', 'l', 's', 'e']
  | number lexeme => lexeme
  | string raw => quoted raw
  | array [] => ['[', ']']
  | array (v :: vs) =>
    '[' :: newLine (depth + 1) ++ pretty (depth + 1) v ++ prettyElements (depth + 1) vs ++
      newLine depth ++ [']']
  | object [] => ['{', '}']
  | object (m :: ms) =>
    '{' :: newLine (depth + 1) ++ prettyMember (depth + 1) m ++ prettyMembers (depth + 1) ms ++
      newLine depth ++ ['}']

/-- Further elements, each on its line and behind a comma. -/
def prettyElements (depth : Nat) : List Json → Text
  | [] => []
  | v :: vs => ',' :: newLine depth ++ pretty depth v ++ prettyElements depth vs

/-- A name and its value. -/
def prettyMember (depth : Nat) : Text × Json → Text
  | (name, v) => quoted name ++ [':', ' '] ++ pretty depth v

/-- Further members, each on its line and behind a comma. -/
def prettyMembers (depth : Nat) : List (Text × Json) → Text
  | [] => []
  | m :: ms => ',' :: newLine depth ++ prettyMember depth m ++ prettyMembers depth ms

end

end EditJournal.Json
