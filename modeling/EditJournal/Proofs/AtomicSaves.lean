/-
EditJournal.Proofs.AtomicSaves — a save takes place whole or not at all.

* `Path.fileName?` — the name of the file that a path leads to.
* `Directory.address?_ne_temporary` — a path with a file name and its temporary one
  never lead to the same place, whatever the name is.
* `Directory.SameBut` — what a call on a tree leaves as it was.

`save_is_atomic` is the main result, for every disk, whichever calls it refuses: behind a
failure the path leads to what it led to before, and loading from it gives the same; behind
a success it leads to the whole new file, and the temporary one is gone. Nothing else
changes.

## How the proof goes

Both paths go through the same directory, and their last names differ: the temporary
name is the stem of the name with `.undo.tmp` behind it, while what stands behind a stem
in its name has no second dot. So the first call changes nothing that the path leads to,
and the second moves a file between two different places.
-/
import EditJournal.Proofs.RefusedFiles
import Mathlib.Data.List.DropRight

namespace EditJournal

/-! ## Names -/

namespace Path

/-- The name of the file that a path leads to: the last one that does not stand for the
directory it is asked in, unless it leads up. -/
def fileName? (p : Path) : Option Text := p.trimmed.getLast?.filter (· ≠ wayUp)

theorem trimmed_eq_rdropWhile (p : Path) : p.trimmed = p.rdropWhile staysHere := rfl

/-- A path with a file name: the directory, the name, and names that stay there. -/
theorem fileName?_eq_some_iff {p : Path} {name : Text} :
    p.fileName? = some name ↔ p.trimmed = p.trimmed.dropLast ++ [name] ∧ name ≠ wayUp := by
  rw [fileName?, Option.filter_eq_some_iff, List.getLast?_eq_some_iff, decide_eq_true_iff]
  refine and_congr_left fun _ => ⟨?_, fun h => ⟨_, h⟩⟩
  rintro ⟨front, h⟩
  rw [h, List.dropLast_concat]

theorem staysHere_of_fileName? {p : Path} {name : Text} (h : p.fileName? = some name) :
    staysHere name = false := by
  obtain ⟨trimmed, -⟩ := fileName?_eq_some_iff.mp h
  have nonempty : p.rdropWhile staysHere ≠ [] := by
    rw [← trimmed_eq_rdropWhile, trimmed]
    simp
  have last := List.rdropWhile_last_not staysHere p nonempty
  simpa [← trimmed_eq_rdropWhile, List.getLast_congr _ _ trimmed] using last

/-- A name is its stem, or what stands behind the stem has one dot, in front. -/
theorem stem_cases (name : Text) :
    stem name = name ∨
      ∃ extension, '.' ∉ extension ∧ name = stem name ++ '.' :: extension := by
  have parts := List.takeWhile_append_dropWhile (p := (· ≠ '.')) (l := name.reverse)
  have stop := List.head?_dropWhile_not (· ≠ '.') name.reverse
  unfold stem
  split
  · exact Or.inl rfl
  · rename_i dot front behind
    split
    · exact Or.inl rfl
    · rw [behind] at parts stop
      obtain rfl : dot = '.' := by simpa using stop
      refine Or.inr ⟨(name.reverse.takeWhile (· ≠ '.')).reverse, fun dotted => ?_, ?_⟩
      · simpa using List.mem_takeWhile_imp (List.mem_reverse.mp dotted)
      · simpa using (congrArg List.reverse parts).symm

/-- No name is the temporary one made of it. -/
theorem stem_append_ne (name : Text) :
    stem name ++ '.' :: JournalFile.temporaryExtension ≠ name := by
  intro same
  rcases stem_cases name with whole | ⟨extension, plain, parts⟩
  · have lengths := congrArg List.length (same.trans whole.symm)
    simp at lengths
  · have behind := List.append_cancel_left (same.trans parts)
    obtain rfl : JournalFile.temporaryExtension = extension := by simpa using behind
    exact plain (by decide)

theorem staysHere_temporary (name : Text) :
    staysHere (stem name ++ '.' :: JournalFile.temporaryExtension) = false ∧
      stem name ++ '.' :: JournalFile.temporaryExtension ≠ wayUp := by
  have long : 2 < (stem name ++ '.' :: JournalFile.temporaryExtension).length := by
    rw [List.length_append]
    exact Nat.lt_of_lt_of_le (by decide) (Nat.le_add_left _ _)
  generalize stem name ++ '.' :: JournalFile.temporaryExtension = temporary at long
  refine ⟨?_, ?_⟩
  · rw [staysHere, Bool.or_eq_false_iff, decide_eq_false_iff_not, decide_eq_false_iff_not]
    exact ⟨by rintro rfl; simp at long, by rintro rfl; simp at long⟩
  · rintro rfl
    simp [wayUp] at long

end Path

/-- The directory above is not a node in it. -/
theorem Address.parent_ne_append (a : Address) {name : Text} (h : name ≠ Path.wayUp) :
    a.parent ≠ a ++ [name] := by
  unfold Address.parent
  split
  · rename_i above
    intro same
    have member : name ∈ Path.wayUp :: a := by simp [same]
    rcases List.mem_cons.mp member with rfl | member
    · exact h rfl
    · exact h (by simpa using List.all_eq_true.mp above name member)
  · intro same
    have lengths := congrArg List.length same
    simp at lengths

/-! ## Where the two paths lead -/

namespace Directory

variable {d : Directory}

theorem enter?_of_staysHere {a b : Address} {name : Text} (stays : Path.staysHere name = true)
    (h : d.enter? a name = some b) : b = a := by
  unfold enter? at h
  split at h
  · simp at h
  · simpa [stays, eq_comm] using h

/-- A name of a node leads to it, in the directory it is asked in. -/
theorem enter?_of_goes {a b : Address} {name : Text} (goes : Path.staysHere name = false)
    (down : name ≠ Path.wayUp) (h : d.enter? a name = some b) : b = a ++ [name] := by
  unfold enter? at h
  split at h
  · simp at h
  · simp only [goes, Bool.false_eq_true, if_false] at h
    split at h
    · simpa [eq_comm] using h
    · simp at h

theorem enter?_wayUp {a b : Address} (h : d.enter? a Path.wayUp = some b) : b = a.parent := by
  unfold enter? at h
  split at h
  · simp at h
  · rw [if_neg (by decide), if_pos rfl] at h
    exact (Option.some.inj h).symm

theorem address?_append (p q : Path) :
    d.address? (p ++ q) = (d.address? p).bind fun a => q.foldlM d.enter? a :=
  List.foldlM_append

theorem address?_concat_eq_some_iff {p : Path} {name : Text} {a : Address} :
    d.address? (p ++ [name]) = some a ↔
      ∃ b, d.address? p = some b ∧ d.enter? b name = some a := by
  simp [address?_append, Option.bind_eq_some_iff]

/-- Names that stay in the directory they are asked in add nothing to a path. -/
theorem address?_trimmed {p : Path} {a : Address} (h : d.address? p = some a) :
    d.address? p.trimmed = some a := by
  induction p using List.reverseRecOn with
  | nil => exact h
  | append_singleton front name ih =>
    cases stays : Path.staysHere name with
    | true =>
      obtain ⟨b, hfront, hname⟩ := address?_concat_eq_some_iff.mp h
      obtain rfl := enter?_of_staysHere stays hname
      rw [Path.trimmed_eq_rdropWhile, List.rdropWhile_concat_pos _ _ _ stays]
      exact ih hfront
    | false =>
      rw [Path.trimmed_eq_rdropWhile, List.rdropWhile_concat_neg _ _ _ (by simp [stays])]
      exact h

/-- A path with a file name leads to a node of that name, in the directory that the names
before it lead to. -/
theorem address?_of_fileName? {p : Path} {name : Text} (named : p.fileName? = some name)
    {a : Address} (h : d.address? p = some a) :
    ∃ b, d.address? p.trimmed.dropLast = some b ∧ a = b ++ [name] := by
  obtain ⟨trimmed, down⟩ := Path.fileName?_eq_some_iff.mp named
  have whole := address?_trimmed h
  rw [trimmed] at whole
  obtain ⟨b, front, enters⟩ := address?_concat_eq_some_iff.mp whole
  exact ⟨b, front, enter?_of_goes (Path.staysHere_of_fileName? named) down enters⟩

/-- So does its temporary path, in the same directory, or it leads up from there. -/
theorem address?_temporary {p : Path} {name : Text} (named : p.fileName? = some name)
    {a : Address} (h : d.address? (p.withExtension JournalFile.temporaryExtension) = some a) :
    ∃ b, d.address? p.trimmed.dropLast = some b ∧
      (a = b.parent ∨ a = b ++ [Path.stem name ++ '.' :: JournalFile.temporaryExtension]) := by
  obtain ⟨trimmed, down⟩ := Path.fileName?_eq_some_iff.mp named
  have last : p.trimmed.getLast? = some name := by
    rw [trimmed]
    simp
  rw [Path.withExtension, last] at h
  simp only [if_neg down] at h
  split at h
  · rename_i dotted
    rw [← dotted.2] at h
    obtain ⟨b, front, enters⟩ := address?_concat_eq_some_iff.mp h
    exact ⟨b, front, Or.inl (enter?_wayUp enters)⟩
  · obtain ⟨goes, below⟩ := Path.staysHere_temporary name
    obtain ⟨b, front, enters⟩ := address?_concat_eq_some_iff.mp h
    exact ⟨b, front, Or.inr (enter?_of_goes goes below enters)⟩

/-- **A path and its temporary one never lead to the same place.** -/
theorem address?_ne_temporary {p : Path} {name : Text} (named : p.fileName? = some name)
    {a b : Address} (target : d.address? p = some a)
    (temporary : d.address? (p.withExtension JournalFile.temporaryExtension) = some b) :
    a ≠ b := by
  obtain ⟨-, down⟩ := Path.fileName?_eq_some_iff.mp named
  obtain ⟨c, front, rfl⟩ := address?_of_fileName? named target
  obtain ⟨c', front', place⟩ := address?_temporary named temporary
  obtain rfl : c = c' := Option.some.inj (front.symm.trans front')
  rcases place with rfl | rfl
  · exact (c.parent_ne_append down).symm
  · intro same
    have names := List.append_cancel_left same
    exact Path.stem_append_ne name (List.singleton_inj.mp names).symm

/-! ## What a call leaves as it was -/

/-- Paths lead where they led, and what stands where none of `paths` leads is the same. -/
structure SameBut (d : Directory) (paths : List Path) (d' : Directory) : Prop where
  address (p : Path) : d'.address? p = d.address? p
  find (a : Address) (beside : ∀ p ∈ paths, d.address? p ≠ some a) : d'.find? a = d.find? a

namespace SameBut

variable {d' d'' : Directory} {paths : List Path}

theorem refl (d : Directory) (paths : List Path) : d.SameBut paths d :=
  ⟨fun _ => rfl, fun _ _ => rfl⟩

theorem mono {more : List Path} (h : d.SameBut paths d') (sub : paths ⊆ more) :
    d.SameBut more d' :=
  ⟨h.address, fun a beside => h.find a fun p hp => beside p (sub hp)⟩

theorem trans (first : d.SameBut paths d') (second : d'.SameBut paths d'') :
    d.SameBut paths d'' := by
  refine ⟨fun p => (second.address p).trans (first.address p), fun a beside => ?_⟩
  have beside' : ∀ p ∈ paths, d'.address? p ≠ some a := by
    intro p hp
    rw [first.address p]
    exact beside p hp
  exact (second.find a beside').trans (first.find a beside)

/-- A path that leads elsewhere leads to what it led to. -/
theorem node?_eq (h : d.SameBut paths d') {p : Path}
    (beside : ∀ a, d.address? p = some a → ∀ q ∈ paths, d.address? q ≠ some a) :
    d'.node? p = d.node? p := by
  unfold node?
  rw [h.address p]
  cases leads : d.address? p with
  | none => rfl
  | some a => exact h.find a (beside a leads)

end SameBut

variable {d' : Directory}

/-- Writing a file changes what its path leads to. -/
theorem sameBut_write {p : Path} {t : Text} (h : d.writeText? p t = some d') :
    d.SameBut [p] d' := by
  obtain ⟨a, leads, free, rfl⟩ := writeText?_eq_some_iff.mp h
  refine ⟨address?_put_file free, fun b beside => find?_put_of_ne ?_⟩
  rintro rfl
  exact beside p (List.mem_singleton.mpr rfl) leads

/-- Moving a file changes what its old and its new path lead to. -/
theorem sameBut_rename {source target : Path} (h : d.rename? source target = some d') :
    d.SameBut [source, target] d' := by
  obtain ⟨content, -, a, from_a, free, b, to_b, free', rfl⟩ := rename?_eq_some_iff.mp h
  refine ⟨fun p => ?_, fun c beside => ?_⟩
  · rw [address?_put_file ((isDirectory_remove free b).trans free'), address?_remove free]
  · have apart : c ≠ a := by
      rintro rfl
      exact beside source (by simp) from_a
    have apart' : c ≠ b := by
      rintro rfl
      exact beside target (by simp) to_b
    rw [find?_put_of_ne apart', find?_remove_of_ne apart]

/-- A file that was moved to another place is gone from the old one. -/
theorem node?_source_of_rename {source target : Path} (h : d.rename? source target = some d')
    (apart : ∀ a b, d.address? source = some a → d.address? target = some b → a ≠ b) :
    d'.node? source = none := by
  have paths := (sameBut_rename h).address source
  obtain ⟨content, -, a, from_a, free, b, to_b, free', rfl⟩ := rename?_eq_some_iff.mp h
  rw [node?, paths, from_a, Option.bind_some, find?_put_of_ne (apart a b from_a to_b),
    find?_remove_self (isAbove_of_isDirectory free)]

end Directory

open JournalFile (temporaryExtension)

/-- Finding a file reads what the path leads to, and nothing else. -/
theorem JournalFile.load_congr {d d' : Directory} {path : Path}
    (same : d'.node? path = d.node? path) : load d' path = load d path := by
  simp only [load, Directory.readText?, Directory.read?, same]

theorem Journal.load_congr {d d' : Directory} {path : Path}
    (same : d'.node? path = d.node? path) (k : Journal) (text : Text) :
    k.load text path d' = k.load text path d := by
  rw [load, load, JournalFile.load_congr same]

section Saves

variable (j : Journal) (contents : Text) (savedVersion savedAt : Nat) (path : Path)
  (d : FaultyDisk)

/-- What a save leaves of the tree: nothing is written; or the temporary file is; or it
takes the place of the old one too, and that alone is a success. -/
theorem Journal.save_tree_cases :
    let text := (JournalFile.ofJournal j contents savedVersion savedAt).print
    let temporary := path.withExtension temporaryExtension
    let saved := (j.save contents savedVersion savedAt path d).value
    (saved.1 = .error .io ∧ saved.2.tree = d.tree) ∨
    ∃ written, d.tree.writeText? temporary text = some written ∧
      ((saved.1 = .error .io ∧ saved.2.tree = written) ∨
        (saved.1 = .ok () ∧ written.rename? temporary path = some saved.2.tree)) := by
  intro text temporary saved
  rcases j.save_cases contents savedVersion savedAt path d with
    ⟨kept, unwritten, came⟩ | ⟨next, write, ended⟩
  · rw [show saved = _ from congrArg Narrated.value came]
    exact Or.inl ⟨rfl, FaultyDisk.tree_of_write unwritten⟩
  obtain ⟨-, written, writes, rfl⟩ := FaultyDisk.write_eq_true_iff.mp write
  refine Or.inr ⟨written, writes, ?_⟩
  rcases ended with ⟨kept, unmoved, came⟩ | ⟨after, move, came⟩
  · rw [show saved = _ from congrArg Narrated.value came]
    exact Or.inl ⟨rfl, FaultyDisk.tree_of_rename unmoved⟩
  · rw [show saved = _ from congrArg Narrated.value came]
    obtain ⟨-, moved, moves, rfl⟩ := FaultyDisk.rename_eq_true_iff.mp move
    exact Or.inr ⟨rfl, moves⟩

/-- A save is a success exactly if both calls are granted, and the tree allows them. -/
theorem Journal.save_eq_ok_iff :
    (j.save contents savedVersion savedAt path d).value.1 = .ok () ↔
      (d.refuses d.calls = false ∧ d.refuses (d.calls + 1) = false) ∧
        ∃ written moved,
          d.tree.writeText? (path.withExtension temporaryExtension)
            (JournalFile.ofJournal j contents savedVersion savedAt).print = some written ∧
          written.rename? (path.withExtension temporaryExtension) path = some moved := by
  constructor
  · intro success
    rcases j.save_cases contents savedVersion savedAt path d with
      ⟨kept, -, came⟩ | ⟨next, write, ⟨kept, -, came⟩ | ⟨after, move, came⟩⟩
    · simp [came] at success
    · simp [came] at success
    · obtain ⟨granted, written, writes, rfl⟩ := FaultyDisk.write_eq_true_iff.mp write
      obtain ⟨granted', moved, moves, -⟩ := FaultyDisk.rename_eq_true_iff.mp move
      exact ⟨⟨granted, granted'⟩, written, moved, writes, moves⟩
  · rintro ⟨⟨granted, granted'⟩, written, moved, writes, moves⟩
    have write := FaultyDisk.write_eq_true_iff.mpr ⟨granted, written, writes, rfl⟩
    have move := (FaultyDisk.rename_eq_true_iff
        (d := { d with calls := d.calls + 1, tree := written })).mpr
      ⟨granted', moved, moves, rfl⟩
    simp only [Journal.save, write, move]
    rfl

end Saves

/-- **A save takes place whole or not at all**, whatever journal is saved on whatever disk,
and whichever calls the disk refuses. Behind a failure the path leads to what it led to, and
loading from it is as before; behind a success it leads to the whole new file, and the
temporary one is gone. Nothing changes but what these two paths lead to. It is a success
exactly if both calls are granted, and the tree allows them. -/
theorem save_is_atomic (j : Journal) (contents : Text) (savedVersion savedAt : Nat)
    (path : Path) (name : Text) (d : FaultyDisk) (named : path.fileName? = some name) :
    let temporary := path.withExtension temporaryExtension
    let text := (JournalFile.ofJournal j contents savedVersion savedAt).print
    let saved := (j.save contents savedVersion savedAt path d).value
    (∀ error, saved.1 = .error error → saved.2.tree.node? path = d.tree.node? path ∧
      ∀ (k : Journal) (t : Text), k.load t path saved.2.tree = k.load t path d.tree) ∧
    (saved.1 = .ok () →
      saved.2.tree.readText? path = some text ∧ saved.2.tree.node? temporary = none) ∧
    d.tree.SameBut [path, temporary] saved.2.tree ∧
    (saved.1 = .ok () ↔ (d.refuses d.calls = false ∧ d.refuses (d.calls + 1) = false) ∧
      ∃ written moved, d.tree.writeText? temporary text = some written ∧
        written.rename? temporary path = some moved) := by
  intro temporary text saved
  have success := j.save_eq_ok_iff contents savedVersion savedAt path d
  rcases j.save_tree_cases contents savedVersion savedAt path d with
    ⟨failed, kept⟩ | ⟨written, write, ended⟩
  · have stands : saved.2.tree.node? path = d.tree.node? path := by rw [kept]
    refine ⟨fun _ _ => ⟨stands, Journal.load_congr stands⟩,
      fun done => absurd (failed.symm.trans done) (by simp), ?_, success⟩
    rw [kept]
    exact .refl _ _
  have wrote : d.tree.SameBut [temporary] written := Directory.sameBut_write write
  have beside : d.tree.SameBut [path, temporary] written := wrote.mono (by simp)
  rcases ended with ⟨failed, kept⟩ | ⟨done, move⟩
  · have stands : saved.2.tree.node? path = d.tree.node? path := by
      rw [kept]
      refine wrote.node?_eq fun a target q hq => ?_
      rw [List.mem_singleton.mp hq]
      intro same
      exact Directory.address?_ne_temporary named target same rfl
    refine ⟨fun _ _ => ⟨stands, Journal.load_congr stands⟩,
      fun done => absurd (failed.symm.trans done) (by simp), ?_, success⟩
    rw [kept]
    exact beside
  · have moved : written.SameBut [path, temporary] saved.2.tree :=
      (Directory.sameBut_rename move).mono (by simp [temporary])
    obtain ⟨content, -, read⟩ := Directory.readText?_rename write move
    have gone : saved.2.tree.node? temporary = none :=
      Directory.node?_source_of_rename move fun a b source target same =>
        Directory.address?_ne_temporary named target source same.symm
    exact ⟨fun _ failed => absurd (done.symm.trans failed) (by simp), fun _ => ⟨read, gone⟩,
      beside.trans moved, success⟩

/-- An empty journal is saved over the file with gaps. Where the temporary file is not moved,
it stays, and the old file is loaded; where both calls are granted, the new one is read. -/
theorem gappedFile_is_replaced :
    let w : Journal := { capacity := 1, config := {} }
    let temporary : Path := [['j', '.', 'u', 'n', 'd', 'o', '.', 't', 'm', 'p']]
    let disk (refused : Nat) : FaultyDisk :=
      { tree := gappedFile.onDisk, refuses := (· == refused) }
    let stopped := (w.save ['b'] 0 0 [['j']] (disk 1)).value
    let saved := (w.save ['b'] 0 0 [['j']] (disk 2)).value
    stopped.1 = .error .io ∧ (stopped.2.tree.node? temporary).isSome ∧
      JournalFile.load stopped.2.tree [['j']] = .ok (some gappedFile) ∧
      saved.1 = .ok () ∧
      saved.2.tree.readText? [['j']] = some (JournalFile.ofJournal w ['b'] 0 0).print ∧
      saved.2.tree.node? temporary = none := by
  intro w temporary disk stopped saved
  have found := JournalFile.load_onDisk (f := gappedFile) (by decide) (by decide)
  obtain ⟨kept, -, -, -⟩ := save_is_atomic w ['b'] 0 0 [['j']] ['j'] (disk 1) rfl
  obtain ⟨-, replaced, -, -⟩ := save_is_atomic w ['b'] 0 0 [['j']] ['j'] (disk 2) rfl
  obtain ⟨same, -⟩ := kept .io rfl
  exact ⟨rfl, rfl, (JournalFile.load_congr same).trans found, rfl, replaced rfl⟩

end EditJournal
