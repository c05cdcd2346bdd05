/-
EditJournal.Files.Directory — a directory tree, as a value.

A written path is followed name by name; every name but the last has to lead
to a directory. Writing and renaming happen whole or not at all: they need the
directory that is to hold the file, and refuse to replace a directory. Since
they leave the directories as they are, paths lead afterwards where they led
before (`address?_put_file`).
-/
import EditJournal.Files.Path

namespace EditJournal

/-- What stands at an address. -/
inductive Node where
  | file (content : ByteArray)
  | directory

/-- A directory tree: what stands under it, by address. -/
structure Directory where
  nodes : List (Address × Node) := []

namespace Directory

/-- What stands at an address. The tree itself and what is above it are
directories. -/
def find? (d : Directory) (a : Address) : Option Node :=
  if a.isAbove then some .directory else (d.nodes.find? (·.1 == a)).map (·.2)

def isDirectory (d : Directory) (a : Address) : Bool :=
  match d.find? a with
  | some .directory => true
  | _ => false

/-- Takes away what stands at an address. -/
def remove (d : Directory) (a : Address) : Directory := ⟨d.nodes.filter (·.1 != a)⟩

/-- Puts a node at an address. -/
def put (d : Directory) (a : Address) (node : Node) : Directory :=
  ⟨(a, node) :: (d.remove a).nodes⟩

/-- Where a name leads from an address. -/
def enter? (d : Directory) (a : Address) (name : Text) : Option Address :=
  if !d.isDirectory a then none
  else if Path.staysHere name then some a
  else if name = Path.wayUp then some a.parent
  else if Path.isNodeName name then some (a ++ [name])
  else none

/-- Where a path leads. Something need not stand there, if the directory is
there that would hold it. -/
def address? (d : Directory) (p : Path) : Option Address := p.foldlM d.enter? []

/-- What a path leads to. -/
def node? (d : Directory) (p : Path) : Option Node := (d.address? p).bind d.find?

/-- The bytes of a file. -/
def read? (d : Directory) (p : Path) : Option ByteArray :=
  match d.node? p with
  | some (.file content) => some content
  | _ => none

/-- The text of a file, if its bytes are UTF-8. -/
def readText? (d : Directory) (p : Path) : Option Text := do
  let content ← d.read? p
  return (← content.utf8Decode?).toList

/-- Where a path leads, if a file may stand there. -/
def place? (d : Directory) (p : Path) : Option Address :=
  (d.address? p).filter fun a => !d.isDirectory a

/-- Writes a file, new or in place of another one. -/
def write? (d : Directory) (p : Path) (content : ByteArray) : Option Directory := do
  return d.put (← d.place? p) (.file content)

/-- Writes a text as UTF-8. -/
def writeText? (d : Directory) (p : Path) (t : Text) : Option Directory :=
  d.write? p (String.ofList t).toByteArray

/-- Moves a file, to a new place or over another file. -/
def rename? (d : Directory) (source target : Path) : Option Directory := do
  let content ← d.read? source
  return (d.remove (← d.place? source)).put (← d.place? target) (.file content)

/-- Makes a directory. -/
def makeDirectory? (d : Directory) (p : Path) : Option Directory := do
  let a ← d.address? p
  if (d.find? a).isNone then some (d.put a .directory) else none

/-- The names in the tree itself. -/
def names (d : Directory) : List Text :=
  d.nodes.filterMap fun (a, _) =>
    match a with
    | [name] => some name
    | _ => none

/-! ## What writing a file leaves as it was -/

theorem find?_remove_of_ne {d : Directory} {a b : Address} (h : b ≠ a) :
    (d.remove a).find? b = d.find? b := by
  have same : (fun x : Address × Node => decide ((x.1 != a) = true ∧ (x.1 == b) = true)) =
      fun x => x.1 == b := by
    funext x
    by_cases hx : x.1 = b <;> simp_all
  simp only [find?, remove, List.find?_filter, same]

theorem find?_put_of_ne {d : Directory} {a b : Address} {node : Node} (h : b ≠ a) :
    (d.put a node).find? b = d.find? b := by
  have other : (a == b) = false := by simpa using fun e : a = b => h e.symm
  rw [← find?_remove_of_ne (d := d) h]
  simp only [find?, put, List.find?_cons, other]

theorem find?_put_self {d : Directory} {a : Address} {node : Node} (h : a.isAbove = false) :
    (d.put a node).find? a = some node := by
  simp [find?, put, h]

/-- A file in a place for files changes no directory. -/
theorem isDirectory_put_file {d : Directory} {a : Address} {content : ByteArray}
    (h : d.isDirectory a = false) (b : Address) :
    (d.put a (.file content)).isDirectory b = d.isDirectory b := by
  by_cases hb : b = a
  · subst hb
    have below : b.isAbove = false := by
      cases hb : b.isAbove
      · rfl
      · simp [isDirectory, find?, hb] at h
    rw [h]
    simp [isDirectory, find?_put_self below]
  · simp [isDirectory, find?_put_of_ne hb]

/-- Beside a new file, paths lead where they led. -/
theorem address?_put_file {d : Directory} {a : Address} {content : ByteArray}
    (h : d.isDirectory a = false) (p : Path) :
    (d.put a (.file content)).address? p = d.address? p := by
  have enter : (d.put a (.file content)).enter? = d.enter? := by
    funext b name
    simp [enter?, isDirectory_put_file h]
  rw [address?, address?, enter]

end Directory

end EditJournal
