/-
EditJournal.Toml.Reader — reading a TOML document.

A document is lines: blank, a comment, a table header, or a key with its
value. Values nest; `depth` counts the brackets around one, and `fuel` bounds
how often the readers call each other, for which twice the length of the text
is enough.
-/
import EditJournal.Toml.Lexeme

namespace EditJournal.Toml

namespace Reader

/-- A number or a moment in time. -/
def scalarNumber? (s : Text) : Option (Toml × Text) :=
  match moment? s with
  | some rest => some (.moment (consumed s rest), rest)
  | none =>
    match float? s with
    | some rest => some (.float (consumed s rest), rest)
    | none => (integer? s).map fun (n, rest) => (.integer n, rest)

mutual

/-- A value at the front of a text, inside `depth` brackets. -/
def value? (fuel depth : Nat) (s : Text) : Option (Toml × Text) :=
  match fuel with
  | 0 => none
  | fuel + 1 =>
    match s with
    | [] => none
    | '"' :: rest => (string? ('"' :: rest)).map fun (t, rest) => (.string t, rest)
    | '\x27' :: rest => (string? ('\x27' :: rest)).map fun (t, rest) => (.string t, rest)
    | '[' :: rest =>
      if depth + 1 < nestingLimit then
        (elements? fuel (depth + 1) rest).map fun (vs, rest) => (.array vs, rest)
      else none
    | '{' :: rest =>
      if depth + 1 < nestingLimit then
        match skipBlanks rest with
        | '}' :: rest => some (.table .braces [], rest)
        | rest =>
          (members? fuel (depth + 1) [] rest).map fun (ms, rest) => (.table .braces ms, rest)
      else none
    | 't' :: 'r' :: 'u' :: 'e' :: rest => some (.boolean true, rest)
    | 'f' :: 'a' :: 'l' :: 's' :: 'e' :: rest => some (.boolean false, rest)
    | s => scalarNumber? s

/-- Elements up to the closing bracket; a comma may follow the last one. -/
def elements? (fuel depth : Nat) (s : Text) : Option (List Toml × Text) :=
  match fuel with
  | 0 => none
  | fuel + 1 =>
    match skipLines s with
    | none => none
    | some (']' :: rest) => some ([], rest)
    | some s =>
      match value? fuel depth s with
      | none => none
      | some (v, rest) =>
        match skipLines rest with
        | some (']' :: rest) => some ([v], rest)
        | some (',' :: rest) =>
          (elements? fuel depth rest).map fun (vs, rest) => (v :: vs, rest)
        | _ => none

/-- Members up to the closing brace, on one line; `done` holds those before
them. -/
def members? (fuel depth : Nat) (done : Members) (s : Text) : Option (Members × Text) :=
  match fuel with
  | 0 => none
  | fuel + 1 =>
    match key? s with
    | some (path, name, '=' :: rest) =>
      match value? fuel depth (skipBlanks rest) with
      | none => none
      | some (v, rest) =>
        match done.add path name v with
        | none => none
        | some done =>
          match skipBlanks rest with
          | '}' :: rest => some (done, rest)
          | ',' :: rest => members? fuel depth done rest
          | _ => none
    | _ => none

end

/-- A header and what may follow it on its line; `close` is what ends it. -/
def header? (close : List Char) (s : Text) : Option (List Text × Text × Text) := do
  let (path, name, rest) ← key? s
  if close.isPrefixOf rest then
    return (path, name, ← trailing? (rest.drop close.length))
  else none

/-- The rest of a document, whose last header was `header`. -/
def lines? (fuel : Nat) (header : List Text) (root : Members) (s : Text) : Option Members :=
  match fuel with
  | 0 => none
  | fuel + 1 =>
    match skipBlanks s with
    | [] => some root
    | '\n' :: rest => lines? fuel header root rest
    | '\r' :: '\n' :: rest => lines? fuel header root rest
    | '#' :: rest => do
      let rest ← lineEnd? (rest.dropWhile isVisible)
      lines? fuel header root rest
    | '[' :: '[' :: rest => do
      let (path, name, rest) ← header? [']', ']'] rest
      let root ← root.openNext path name
      lines? fuel (path ++ [name]) root rest
    | '[' :: rest => do
      let (path, name, rest) ← header? [']'] rest
      let root ← root.openTable path name
      lines? fuel (path ++ [name]) root rest
    | s =>
      match key? s with
      | some (path, name, '=' :: rest) => do
        let (v, rest) ← value? (2 * s.length + 2) 0 (skipBlanks rest)
        let rest ← trailing? rest
        let root ← root.addBelow header path name v
        lines? fuel header root rest
      | _ => none

end Reader

/-- The root table that a document is written form of. A byte order mark may
stand in front. -/
def parse? (s : Text) : Option Members :=
  let s := match s with
    | '\ufeff' :: rest => rest
    | s => s
  Reader.lines? (s.length + 1) [] [] s

end EditJournal.Toml
