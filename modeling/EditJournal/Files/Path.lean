/-
EditJournal.Files.Path — a path as it is written, and the address of what it
leads to.

A written path keeps its empty names and its dots. They name no node, but what
stands before them has to be a directory, so that `a/` never leads to a file.
Where a path leads is for a directory tree to say; an address is its answer.
-/
import EditJournal.Text.Basic

namespace EditJournal

/-- The names between the slashes of a written path. -/
abbrev Path := List Text

/-- The names on the way down to a node, outermost first. -/
abbrev Address := List Text

namespace Path

/-- The name of the directory above. -/
def wayUp : Text := ['.', '.']

/-- Does a name stand for the directory it is asked in? -/
def staysHere (name : Text) : Bool := name = [] || name = ['.']

/-- The longest name a node can have, in bytes. -/
def maxNameLength : Nat := 255

/-- Can a node have the name? -/
def isNodeName (name : Text) : Bool :=
  name.byteLength ≤ maxNameLength && !name.contains '\x00'

/-- Cuts a written path at its slashes. -/
def ofText (t : Text) : Path :=
  t.foldr
    (fun c names =>
      if c = '/' then [] :: names
      else
        match names with
        | [] => [[c]]
        | first :: rest => (c :: first) :: rest)
    [[]]

/-- The path in writing. -/
def toText (p : Path) : Text := ['/'].intercalate p

/-- The path without the names at its end that name no node. -/
def trimmed (p : Path) : Path := (p.reverse.dropWhile staysHere).reverse

/-- A name without its last dot and what follows it. A dot in front does not
count, for it marks a hidden file. -/
def stem (name : Text) : Text :=
  match name.reverse.dropWhile (· ≠ '.') with
  | [] => name
  | _ :: front => if front = [] then name else front.reverse

/-- The path with the extension of its last name replaced, or added.

The old extension is cut off behind its dot before the new one is put on. What
this leaves of a name like `..a` is the way up, which takes no extension. -/
def withExtension (p : Path) (extension : Text) : Path :=
  match p.trimmed.getLast? with
  | none => p
  | some name =>
    if name = wayUp then p
    else if stem name = ['.'] ∧ p.trimmed = p then p.dropLast ++ [wayUp]
    else p.trimmed.dropLast ++ [stem name ++ '.' :: extension]

end Path

namespace Address

/-- Does an address lead up only? The empty one does: it stays at the tree. -/
def isAbove (a : Address) : Bool := a.all (· = Path.wayUp)

/-- The directory above. Above the tree there is always one more. -/
def parent (a : Address) : Address := if a.isAbove then Path.wayUp :: a else a.dropLast

end Address

end EditJournal
