/-
EditJournal.Files.Disk — what saving needs of the thing that holds a directory
tree: writing a file, and moving one.

Two kinds are given. A `Directory` is a disk that refuses only what its tree
does not allow. A `FaultyDisk` is a tree that moreover refuses chosen calls, for
reasons that do not show in it. A refused call has no effect on the tree.
-/
import EditJournal.Files.Directory

namespace EditJournal

/-- Something that holds a directory tree. A call gives whether it was done and
the disk after it; a disk may refuse any call. -/
class Disk (δ : Type) where
  tree : δ → Directory
  write : δ → Path → Text → Bool × δ
  rename : δ → Path → Path → Bool × δ

namespace Directory

/-- The tree that a call leads to, or the tree as it was. -/
def orKept (d : Directory) : Option Directory → Bool × Directory
  | some changed => (true, changed)
  | none => (false, d)

instance : Disk Directory where
  tree := id
  write d path text := d.orKept (d.writeText? path text)
  rename d source target := d.orKept (d.rename? source target)

variable {d d' : Directory} {changed : Option Directory}

theorem orKept_eq_true_iff : d.orKept changed = (true, d') ↔ changed = some d' := by
  cases changed <;> simp [orKept]

theorem orKept_eq_false_iff : d.orKept changed = (false, d') ↔ changed = none ∧ d = d' := by
  cases changed <;> simp [orKept]

end Directory

/-- A tree whose calls are counted, from 0 and refused ones included, and refused
when their number is to be. -/
structure FaultyDisk where
  tree : Directory
  calls : Nat := 0
  refuses : Nat → Bool

namespace FaultyDisk

/-- A refused call changes nothing but the count. -/
def attempt (d : FaultyDisk) (call : Directory → Bool × Directory) : Bool × FaultyDisk :=
  let counted := { d with calls := d.calls + 1 }
  if d.refuses d.calls then (false, counted)
  else
    let (done, tree) := call d.tree
    (done, { counted with tree })

instance : Disk FaultyDisk where
  tree := tree
  write d path text := d.attempt (Disk.write · path text)
  rename d source target := d.attempt (Disk.rename · source target)

variable {d d' : FaultyDisk}

/-- A call that is not refused is made on the tree. -/
theorem attempt_of_granted (granted : d.refuses d.calls = false)
    (call : Directory → Bool × Directory) :
    d.attempt call =
      ((call d.tree).1, { d with calls := d.calls + 1, tree := (call d.tree).2 }) := by
  simp [attempt, granted]

theorem attempt_of_refused (refused : d.refuses d.calls = true)
    (call : Directory → Bool × Directory) :
    d.attempt call = (false, { d with calls := d.calls + 1 }) := by
  simp [attempt, refused]

/-- What is done was not refused, and is done to the tree. -/
theorem attempt_eq_true_iff {call : Directory → Bool × Directory} :
    d.attempt call = (true, d') ↔ d.refuses d.calls = false ∧
      ∃ tree, call d.tree = (true, tree) ∧ d' = { d with calls := d.calls + 1, tree } := by
  cases answer : d.refuses d.calls with
  | true => simp [attempt_of_refused answer]
  | false =>
    rw [attempt_of_granted answer]
    rcases call d.tree with ⟨done, tree⟩
    simp [eq_comm (b := d'), and_assoc]

/-- What is not done leaves the tree, where the call itself does. -/
theorem tree_of_attempt {call : Directory → Bool × Directory}
    (keeps : ∀ tree, call d.tree = (false, tree) → tree = d.tree)
    (h : d.attempt call = (false, d')) : d'.tree = d.tree := by
  cases answer : d.refuses d.calls with
  | true =>
    rw [attempt_of_refused answer] at h
    rw [← (Prod.mk.inj h).2]
  | false =>
    rw [attempt_of_granted answer] at h
    obtain ⟨failed, rfl⟩ := Prod.mk.inj h
    exact keeps _ (Prod.ext failed rfl)

variable {path source target : Path} {text : Text}

theorem write_eq_true_iff : Disk.write d path text = (true, d') ↔ d.refuses d.calls = false ∧
    ∃ tree, d.tree.writeText? path text = some tree ∧
      d' = { d with calls := d.calls + 1, tree } := by
  refine attempt_eq_true_iff.trans (and_congr_right fun _ => exists_congr fun tree => ?_)
  exact and_congr_left fun _ => Directory.orKept_eq_true_iff

theorem rename_eq_true_iff :
    Disk.rename d source target = (true, d') ↔ d.refuses d.calls = false ∧
      ∃ tree, d.tree.rename? source target = some tree ∧
        d' = { d with calls := d.calls + 1, tree } := by
  refine attempt_eq_true_iff.trans (and_congr_right fun _ => exists_congr fun tree => ?_)
  exact and_congr_left fun _ => Directory.orKept_eq_true_iff

/-- A write that is not done changes nothing. -/
theorem tree_of_write (h : Disk.write d path text = (false, d')) : d'.tree = d.tree :=
  tree_of_attempt (fun _ failed => (Directory.orKept_eq_false_iff.mp failed).2.symm) h

/-- Nor does a move that is not done. -/
theorem tree_of_rename (h : Disk.rename d source target = (false, d')) : d'.tree = d.tree :=
  tree_of_attempt (fun _ failed => (Directory.orKept_eq_false_iff.mp failed).2.symm) h

end FaultyDisk

end EditJournal
