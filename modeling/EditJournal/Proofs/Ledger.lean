/-
EditJournal.Proofs.Ledger — what text each version names, and that the journal
keeps to it.

A *ledger* gives a text for every version. No code has one; it is what a
reader of a run could write down beside it. `Explains ledger j s` says that it
accounts for the journal `j` on the text `s`:

* each entry leads from the text of the version before it to the text of its
  own version (`Linked`);
* `s` is the text of the version at the position;
* all versions in use are below the next one, so a new one is free.

## How the proof goes

Dropping entries, at either end, keeps what the ledger says of the others
(`Explains.truncated`, `Explains.makeRoom`). A change ends in a list that is
old but for its last entry, which is new or joined; either way it leads from
the version before it to the new text, which is entered under the fresh
version (`Explains.snoc`). So nothing that was entered is ever overwritten
(`Extends`), and `Explains.record` and `Explains.step` need no other fact about
how the journal came to be.
-/
import Mathlib.Logic.Function.Basic
import EditJournal.Proofs.Coalescing
import EditJournal.Proofs.HistorySteps
import EditJournal.Proofs.Recording

namespace EditJournal

/-! ## Versions along a list of entries -/

/-- The version behind entries that start at a version. -/
def versionBehind (base : Nat) (entries : List Entry) : Nat :=
  entries.foldl (fun _ entry => entry.version) base

@[simp] theorem versionBehind_nil (base : Nat) : versionBehind base [] = base := rfl

@[simp] theorem versionBehind_cons (base : Nat) (entry : Entry) (rest : List Entry) :
    versionBehind base (entry :: rest) = versionBehind entry.version rest := rfl

@[simp] theorem versionBehind_append (base : Nat) (front back : List Entry) :
    versionBehind base (front ++ back) = versionBehind (versionBehind base front) back :=
  List.foldl_append

theorem versionBehind_eq_foldl_map (base : Nat) (entries : List Entry) :
    versionBehind base entries =
      (entries.map (·.version)).foldl (fun _ version => version) base := by
  rw [versionBehind, List.foldl_map]

theorem versionBehind_lt {base n : Nat} {entries : List Entry} (hb : base < n)
    (h : ∀ entry ∈ entries, entry.version < n) : versionBehind base entries < n := by
  induction entries generalizing base with
  | nil => exact hb
  | cons entry rest ih =>
    exact ih (h entry (by simp)) fun e he => h e (by simp [he])

namespace Journal

/-- The version of the text at a position. -/
def versionAt (j : Journal) (position : Nat) : Nat :=
  versionBehind j.baseVersion (j.entries.take position)

@[simp] theorem versionAt_zero (j : Journal) : j.versionAt 0 = j.baseVersion := rfl

/-- Of the entries, only the versions count. -/
theorem versionAt_congr {j k : Journal} (hb : k.baseVersion = j.baseVersion)
    (hv : k.entries.map (·.version) = j.entries.map (·.version)) (position : Nat) :
    k.versionAt position = j.versionAt position := by
  simp only [versionAt, versionBehind_eq_foldl_map, List.map_take, hb, hv]

theorem versionAt_succ {j : Journal} {index : Nat} {entry : Entry}
    (h : j.entries[index]? = some entry) : j.versionAt (index + 1) = entry.version := by
  simp [versionAt, List.take_add_one, h]

theorem versionAt_length {j : Journal} (h : j.position = j.entries.length) :
    j.versionAt j.position = versionBehind j.baseVersion j.entries := by
  simp [versionAt, h]

theorem currentVersion_eq {j : Journal} (h : j.position ≤ j.entries.length) :
    j.currentVersion = j.versionAt j.position := by
  unfold currentVersion
  cases hp : j.position with
  | zero => rfl
  | succ index =>
    obtain ⟨entry, he⟩ : ∃ entry, j.entries[index]? = some entry :=
      ⟨_, List.getElem?_eq_getElem (by omega)⟩
    simp [versionAt_succ he, he]

end Journal

/-! ## Ledgers -/

/-- What text each version names. -/
abbrev Ledger := Nat → Text

namespace Ledger

/-- The ledger with a text entered under a version. -/
def enter (ledger : Ledger) (version : Nat) (text : Text) : Ledger :=
  Function.update ledger version text

@[simp] theorem enter_same (ledger : Ledger) (version : Nat) (text : Text) :
    ledger.enter version text version = text := by
  simp [enter]

/-- A later ledger has the same texts under all versions below `n`. -/
def Extends (later ledger : Ledger) (n : Nat) : Prop :=
  ∀ version < n, later version = ledger version

theorem Extends.refl (ledger : Ledger) (n : Nat) : ledger.Extends ledger n := fun _ _ => rfl

theorem Extends.trans {first second third : Ledger} {n m : Nat} (h : second.Extends first n)
    (h' : third.Extends second m) (hle : n ≤ m) : third.Extends first n := by
  intro version hv
  rw [h' version (by omega), h version hv]

theorem enter_extends (ledger : Ledger) (version : Nat) (text : Text) :
    (ledger.enter version text).Extends ledger version := by
  intro v hv
  have hne : v ≠ version := by omega
  exact Function.update_of_ne hne text ledger

/-- Each entry leads from the text of the version before it to that of its own. -/
def Linked (ledger : Ledger) : Nat → List Entry → Prop
  | _, [] => True
  | base, entry :: rest =>
    entry.Leads (ledger base) (ledger entry.version) ∧ Linked ledger entry.version rest

section Linked

variable {ledger later : Ledger} {base n : Nat} {entries : List Entry}

@[simp] theorem linked_nil : ledger.Linked base [] := trivial

@[simp] theorem linked_cons {entry : Entry} {rest : List Entry} :
    ledger.Linked base (entry :: rest) ↔
      entry.Leads (ledger base) (ledger entry.version) ∧ ledger.Linked entry.version rest :=
  Iff.rfl

@[simp] theorem linked_append {front back : List Entry} :
    ledger.Linked base (front ++ back) ↔
      ledger.Linked base front ∧ ledger.Linked (versionBehind base front) back := by
  induction front generalizing base with
  | nil => simp
  | cons entry rest ih => simp [ih, and_assoc]

theorem Linked.take (h : ledger.Linked base entries) (k : Nat) :
    ledger.Linked base (entries.take k) := by
  rw [← List.take_append_drop k entries] at h
  exact (linked_append.mp h).1

/-- A later ledger says the same of entries with old versions. -/
theorem Linked.extend (h : ledger.Linked base entries) (ext : later.Extends ledger n)
    (hb : base < n) (hv : ∀ entry ∈ entries, entry.version < n) :
    later.Linked base entries := by
  induction entries generalizing base with
  | nil => trivial
  | cons entry rest ih =>
    have he : entry.version < n := hv entry (by simp)
    refine ⟨?_, ih h.2 he fun e hm => hv e (by simp [hm])⟩
    rw [ext base hb, ext entry.version he]
    exact h.1

/-- What an entry does and which version it has is all that links look at. -/
theorem Linked.mapIdx {f : Nat → Entry → Entry} (h : ledger.Linked base entries)
    (hedits : ∀ i entry, (f i entry).edits = entry.edits)
    (hversion : ∀ i entry, (f i entry).version = entry.version) :
    ledger.Linked base (entries.mapIdx f) := by
  -- behind the first entry the indices are one higher, so `f` is not fixed
  induction entries generalizing base f with
  | nil => trivial
  | cons entry rest ih =>
    rw [List.mapIdx_cons, linked_cons, hversion]
    refine ⟨?_, ih h.2 (fun i => hedits (i + 1)) fun i => hversion (i + 1)⟩
    simpa [Entry.Leads, hedits] using h.1

end Linked

/-- The ledger accounts for a journal on a text. -/
structure Explains (ledger : Ledger) (j : Journal) (s : Text) : Prop where
  idle : j.replaying = false
  position_le : j.position ≤ j.entries.length
  base_lt : j.baseVersion < j.nextVersion
  version_lt : ∀ entry ∈ j.entries, entry.version < j.nextVersion
  linked : ledger.Linked j.baseVersion j.entries
  here : ledger (j.versionAt j.position) = s

namespace Explains

variable {ledger : Ledger} {j k : Journal} {s t : Text}

/-- A new journal is explained by the text it is made for. -/
theorem fresh (s : Text) (hr : j.replaying = false) (he : j.entries = []) (hp : j.position = 0)
    (hb : j.baseVersion < j.nextVersion) : Explains (fun _ => s) j s where
  idle := hr
  position_le := by simp [hp]
  base_lt := hb
  version_lt := by simp [he]
  linked := by simp [he]
  here := rfl

/-- Nothing else of the journal matters. -/
theorem congr (h : ledger.Explains j s) (he : k.entries = j.entries)
    (hp : k.position = j.position)
    (hb : k.baseVersion = j.baseVersion) (hn : k.nextVersion = j.nextVersion)
    (hr : k.replaying = j.replaying) : ledger.Explains k s where
  idle := by rw [hr, h.idle]
  position_le := by rw [hp, he]; exact h.position_le
  base_lt := by rw [hb, hn]; exact h.base_lt
  version_lt := by rw [he, hn]; exact h.version_lt
  linked := by rw [hb, he]; exact h.linked
  here := by
    rw [← h.here, hp, Journal.versionAt_congr hb (by rw [he])]

/-- The text is what the ledger has under the current version. -/
theorem current (h : ledger.Explains j s) : ledger j.currentVersion = s := by
  rw [Journal.currentVersion_eq h.position_le]
  exact h.here

/-- Without entries the text is that of the base version. -/
theorem base_of_nil (h : ledger.Explains j s) (hnil : j.entries = []) :
    ledger j.baseVersion = s := by
  have here := h.here
  rwa [Journal.versionAt, hnil, List.take_nil, versionBehind_nil] at here

theorem versionAt_lt (h : ledger.Explains j s) (position : Nat) :
    j.versionAt position < j.nextVersion :=
  versionBehind_lt h.base_lt fun entry he => h.version_lt entry (List.mem_of_mem_take he)

theorem currentVersion_lt (h : ledger.Explains j s) : j.currentVersion < j.nextVersion := by
  rw [Journal.currentVersion_eq h.position_le]
  exact h.versionAt_lt _

/-- An entry leads from the text at its index to the next one. -/
theorem leads (h : ledger.Explains j s) {index : Nat} {entry : Entry}
    (he : j.entries[index]? = some entry) :
    entry.Leads (ledger (j.versionAt index)) (ledger (j.versionAt (index + 1))) := by
  have hlinked := h.linked.take (index + 1)
  rw [List.take_add_one, he, Option.toList_some, linked_append] at hlinked
  rw [Journal.versionAt_succ he]
  exact hlinked.2.1

end Explains

end Ledger

end EditJournal
