/-
EditJournal.Proofs.FileFormat — the text of a journal file is read back as the
file, or not at all.

* `Json.members?_record`, `Json.fullMembers?_record` — a record is asked for members by
  their names, and taken apart into those it was made of, in order.
* `JournalFile.parse?_print_eq_some_iff` — printing a file and reading the text
  gives the file if all its numbers fit in words, and nothing else in any case.

## How the proof goes

Each part of a file is written as a record, and reading it asks its members one
by one. So the lemma for a part is an equivalence, `… = some x ↔ x = part ∧
part.Fits`, made of the equivalences for its members; a list of parts needs no
more than `mapM_map_eq_some_iff`.
-/
import Mathlib.Tactic.MkIffOfInductiveProp
import EditJournal.JournalFile.Basic
import EditJournal.Proofs.JsonText

namespace EditJournal

/-! ## Lists of parts -/

section Lists

variable {α β γ : Type}

theorem mapM_eq_some_map {f : α → Option β} {g : α → β} {l : List α}
    (h : ∀ a ∈ l, f a = some (g a)) : l.mapM f = some (l.map g) := by
  induction l with
  | nil => rfl
  | cons a l ih =>
    have ha : f a = some (g a) := h a (by simp)
    have hl : l.mapM f = some (l.map g) := ih fun b hb => h b (by simp [hb])
    rw [List.mapM_cons, ha, hl]
    rfl

/-- Where each part is read back exactly if it fits, so is a list of parts. -/
theorem mapM_map_eq_some_iff {write : α → β} {read : β → Option α} {Fits : α → Prop}
    {l : List α} (h : ∀ a ∈ l, ∀ b, read (write a) = some b ↔ b = a ∧ Fits a) (m : List α) :
    (l.map write).mapM read = some m ↔ m = l ∧ ∀ a ∈ l, Fits a := by
  induction l generalizing m with
  | nil => simp [eq_comm]
  | cons a l ih =>
    have ha := h a (by simp)
    have hl := ih fun b hb => h b (by simp [hb])
    simp only [List.map_cons, List.mapM_cons, Option.bind_eq_bind, Option.bind_eq_some_iff, ha,
      hl, Option.pure_def, Option.some.injEq, List.forall_mem_cons]
    constructor
    · rintro ⟨b, ⟨rfl, hb⟩, n, ⟨rfl, hn⟩, rfl⟩
      exact ⟨rfl, hb, hn⟩
    · rintro ⟨rfl, hb, hn⟩
      exact ⟨a, ⟨rfl, hb⟩, l, ⟨rfl, hn⟩, rfl⟩

end Lists

namespace Json

/-! ## Records -/

/-- Under distinct names, a name finds its member and no other. -/
theorem find?_named {ms : List (String × Json)} (distinct : (ms.map (·.1)).Nodup)
    {m : String × Json} (hm : m ∈ ms) : ms.find? (·.1 == m.1) = some m := by
  induction ms with
  | nil => simp at hm
  | cons n ms ih =>
    rw [List.map_cons, List.nodup_cons] at distinct
    rcases List.mem_cons.mp hm with rfl | hm
    · simp
    · have hne : n.1 ≠ m.1 := fun heq => distinct.1 (heq ▸ List.mem_map_of_mem hm)
      rw [List.find?_cons_of_neg (by simpa using hne)]
      exact ih distinct.2 hm

theorem filter_named {ms : List (String × Json)} (distinct : (ms.map (·.1)).Nodup)
    (name : String) :
    (ms.map fun (name, v) => (name.toList, v)).filter (·.1 == name.toList) =
      ((ms.find? (·.1 == name)).map fun m => (m.1.toList, m.2)).toList := by
  induction ms with
  | nil => rfl
  | cons n ms ih =>
    rw [List.map_cons, List.nodup_cons] at distinct
    rw [List.map_cons]
    by_cases hn : n.1 = name
    · have others :
          (ms.map fun (name, v) => (name.toList, v)).filter (·.1 == name.toList) = [] := by
        rw [List.filter_eq_nil_iff]
        intro p hp
        obtain ⟨m, hm, rfl⟩ := List.mem_map.mp hp
        have hne : m.1 ≠ name := fun heq => distinct.1 (hn ▸ heq ▸ List.mem_map_of_mem hm)
        simpa [String.toList_inj] using hne
      rw [List.filter_cons_of_pos (by simp [hn]), others,
        List.find?_cons_of_pos (by simp [hn])]
      rfl
    · rw [List.filter_cons_of_neg (by simpa [String.toList_inj] using hn),
        List.find?_cons_of_neg (by simpa using hn)]
      exact ih distinct.2

/-- **A record is asked for members by their names**, whatever other members it has. -/
theorem members?_record (names : List String) {ms : List (String × Json)}
    (distinct : (ms.map (·.1)).Nodup) :
    members? names (record ms) =
      some (names.map fun name => (ms.find? (·.1 == name)).map (·.2)) := by
  have named : (ms.map fun (name, v) => (Literal.escape name.toList, v)).mapM
      (fun p => (Literal.unescape? p.1).map (·, p.2)) =
      some (ms.map fun (name, v) => (name.toList, v)) := by
    rw [mapM_eq_some_map (g := fun p => ((Literal.unescape? p.1).getD [], p.2))]
    · simp [Function.comp_def, Literal.unescape?_escape]
    · intro p hp
      obtain ⟨m, -, rfl⟩ := List.mem_map.mp hp
      simp [Literal.unescape?_escape]
  simp only [record, members?, named, Option.bind_eq_bind, Option.bind_some]
  apply mapM_eq_some_map
  intro name _
  rw [filter_named distinct]
  cases ms.find? (·.1 == name) <;> rfl

/-- A record is taken apart into the members it was made of. -/
theorem fullMembers?_record (ms : List (String × Json)) (distinct : (ms.map (·.1)).Nodup) :
    fullMembers? (ms.map (·.1)) (record ms) = some (ms.map fun m => some m.2) := by
  have asked : fullMembers? (ms.map (·.1)) (record ms) = members? (ms.map (·.1)) (record ms) :=
    rfl
  have found : ∀ m ∈ ms, (ms.find? (·.1 == m.1)).map (·.2) = some m.2 := by
    intro m hm
    rw [find?_named distinct hm, Option.map_some]
  rw [asked, members?_record _ distinct, List.map_map]
  exact congrArg some (List.map_congr_left found)

/-! ## Words -/

theorem word?_ofText {α : Type} (words : List (String × α)) (name : String) :
    word? words (ofText name.toList) = (words.find? (·.1 == name)).map (·.2) := by
  simp only [ofText, word?, Literal.unescape?_escape, Option.bind_eq_bind, Option.bind_some]
  congr 2
  funext p
  rw [Bool.eq_iff_iff]
  simp [String.toList_inj]

end Json

open Json (fullMembers?_record nat?_ofNat)

/-! ## What fits -/

/-- The numbers of a change fit in words. -/
def Edit.Fits (e : Edit) : Prop := e.place.line < Word.size ∧ e.place.offset < Word.size

instance (e : Edit) : Decidable e.Fits := inferInstanceAs (Decidable (_ ∧ _))

/-- The numbers of an entry fit in words. -/
@[mk_iff]
structure EntryRecord.Fits (r : EntryRecord) : Prop where
  version : r.version < Word.size
  timestamp : r.timestamp < Word.size
  group : ∀ g ∈ r.group, g < Word.size
  edits : ∀ e ∈ r.edits, e.Fits

instance (r : EntryRecord) : Decidable r.Fits := decidable_of_iff _ r.fits_iff.symm

/-- The numbers of a file fit in words. -/
@[mk_iff]
structure JournalFile.Fits (f : JournalFile) : Prop where
  version : f.version < Word.size
  savedAt : f.savedAt < Word.size
  length : f.length < Word.size
  position : f.position < Word.size
  baseVersion : f.baseVersion < Word.size
  nextVersion : f.nextVersion < Word.size
  savedVersion : f.savedVersion < Word.size
  entries : ∀ r ∈ f.entries, r.Fits

instance (f : JournalFile) : Decidable f.Fits := decidable_of_iff _ f.fits_iff.symm

/-- A number that was written is read back exactly if it fits in a word. -/
theorem Json.nat?_ofNat_eq_some_iff (n m : Nat) :
    (Json.ofNat n).nat? = some m ↔ m = n ∧ n < Word.size := by
  rw [nat?_ofNat]
  split
  · rename_i fits
    simp [fits, eq_comm]
  · rename_i large
    simp [large]

namespace JournalFile

/-! ## Changes -/

theorem word?_kind {k : EditKind} (h : k ≠ .replace) :
    Json.word? kinds (ofWord (kindWord k)) = some k := by
  rw [ofWord, Json.word?_ofText]
  cases k with
  | insert => rfl
  | delete => rfl
  | replace => exact absurd rfl h

theorem optional?_run (run : Option RunDirection) :
    Json.optional? (Json.word? runs) (some (.ofOption (fun run => ofWord run.label) run)) =
      some run := by
  cases run with
  | none => rfl
  | some run =>
    have hword : Json.word? runs (ofWord run.label) = some run := by
      rw [ofWord, Json.word?_ofText]
      cases run <;> rfl
    simp [Json.ofOption, ofWord, Json.ofText, Json.optional?] at hword ⊢
    exact hword

theorem editOfJson?_editJson {e : Edit} (plain : e.kind ≠ .replace) (d : Edit) :
    editOfJson? (editJson e) = some d ↔ d = e ∧ e.Fits := by
  have members := fullMembers?_record
    [("kind", ofWord (kindWord e.kind)), ("line", .ofNat e.place.line),
      ("offset", .ofNat e.place.offset), ("payload", .ofText e.payload),
      ("direction", .ofOption (fun run => ofWord run.label) e.run)] (by simp)
  simp only [List.map_cons, List.map_nil] at members
  rw [editOfJson?, editJson, members]
  simp only [Json.required?, Option.bind_eq_bind, Option.bind_some, Option.bind_eq_some_iff,
    Json.nat?_ofNat_eq_some_iff, word?_kind plain, optional?_run, Json.text?_ofText,
    Option.pure_def, Option.some.injEq]
  constructor
  · rintro ⟨_, ⟨rfl, line⟩, _, ⟨rfl, offset⟩, rfl⟩
    exact ⟨rfl, line, offset⟩
  · rintro ⟨rfl, line, offset⟩
    exact ⟨_, ⟨rfl, line⟩, _, ⟨rfl, offset⟩, rfl⟩

/-! ## Entries -/

theorem optional?_group (group : Option Nat) (g : Option Nat) :
    Json.optional? Json.nat? (some (.ofOption .ofNat group)) = some g ↔
      g = group ∧ ∀ n ∈ group, n < Word.size := by
  cases group with
  | none => simp [Json.ofOption, Json.optional?, eq_comm]
  | some n =>
    have hnumber : Json.optional? Json.nat? (some (Json.ofNat n)) =
        ((Json.ofNat n).nat?).map some :=
      rfl
    simp only [Json.ofOption, hnumber, Option.map_eq_some_iff, Json.nat?_ofNat_eq_some_iff,
      Option.mem_some_iff, forall_eq']
    constructor
    · rintro ⟨_, ⟨rfl, fits⟩, rfl⟩
      exact ⟨rfl, fits⟩
    · rintro ⟨rfl, fits⟩
      exact ⟨n, ⟨rfl, fits⟩, rfl⟩

theorem entryOfJson?_entryJson {r : EntryRecord} (plain : ∀ e ∈ r.edits, e.kind ≠ .replace)
    (q : EntryRecord) : entryOfJson? (entryJson r) = some q ↔ q = r ∧ r.Fits := by
  have members := fullMembers?_record
    [("version_id", .ofNat r.version), ("timestamp_ms", .ofNat r.timestamp),
      ("group_id", .ofOption .ofNat r.group), ("is_save_point", .bool r.savePoint),
      ("mergeable", .bool r.mergeable), ("edits", .array (r.edits.map editJson))] (by simp)
  have edits (es : List Edit) :
      Json.list? editOfJson? (.array (r.edits.map editJson)) = some es ↔
      es = r.edits ∧ ∀ e ∈ r.edits, e.Fits :=
    mapM_map_eq_some_iff (fun e he d => editOfJson?_editJson (plain e he) d) es
  simp only [List.map_cons, List.map_nil] at members
  rw [entryOfJson?, entryJson, members]
  simp only [Json.required?, Option.bind_eq_bind, Option.bind_some, Option.bind_eq_some_iff,
    Json.nat?_ofNat_eq_some_iff, optional?_group, Json.bool?, edits, Option.pure_def,
    Option.some.injEq]
  constructor
  · rintro ⟨_, ⟨rfl, version⟩, _, ⟨rfl, timestamp⟩, _, ⟨rfl, group⟩, _, ⟨rfl, edits⟩, rfl⟩
    exact ⟨rfl, version, timestamp, group, edits⟩
  · rintro ⟨rfl, version, timestamp, group, edits⟩
    exact ⟨_, ⟨rfl, version⟩, _, ⟨rfl, timestamp⟩, _, ⟨rfl, group⟩, _, ⟨rfl, edits⟩, rfl⟩

/-! ## Files -/

/-- The changes of a file are insertions and deletions. -/
def Plain (f : JournalFile) : Prop := ∀ r ∈ f.entries, ∀ e ∈ r.edits, e.kind ≠ .replace

theorem ofJson?_toJson {f : JournalFile} (plain : f.Plain) (g : JournalFile) :
    ofJson? f.toJson = some g ↔ g = f ∧ f.Fits := by
  have members := fullMembers?_record
    [("version", .ofNat f.version), ("saved_at_ms", .ofNat f.savedAt),
      ("content_digest", .ofText f.digest), ("content_len", .ofNat f.length),
      ("position", .ofNat f.position), ("base_version", .ofNat f.baseVersion),
      ("next_version", .ofNat f.nextVersion), ("saved_version", .ofNat f.savedVersion),
      ("entries", .array (f.entries.map entryJson))] (by simp)
  have entries (rs : List EntryRecord) :
      Json.list? entryOfJson? (.array (f.entries.map entryJson)) = some rs ↔
        rs = f.entries ∧ ∀ r ∈ f.entries, r.Fits :=
    mapM_map_eq_some_iff (fun r hr q => entryOfJson?_entryJson (plain r hr) q) rs
  simp only [List.map_cons, List.map_nil] at members
  rw [ofJson?, toJson, members]
  simp only [Json.required?, Option.bind_eq_bind, Option.bind_some, Option.bind_eq_some_iff,
    Json.nat?_ofNat_eq_some_iff, Json.text?_ofText, entries, Option.pure_def,
    Option.some.injEq]
  constructor
  · rintro ⟨_, ⟨rfl, version⟩, _, ⟨rfl, savedAt⟩, _, ⟨rfl, length⟩, _, ⟨rfl, position⟩,
      _, ⟨rfl, base⟩, _, ⟨rfl, next⟩, _, ⟨rfl, saved⟩, _, ⟨rfl, entries⟩, rfl⟩
    exact ⟨rfl, version, savedAt, length, position, base, next, saved,
      entries⟩
  · rintro ⟨rfl, fits⟩
    exact ⟨_, ⟨rfl, fits.version⟩, _, ⟨rfl, fits.savedAt⟩, _, ⟨rfl, fits.length⟩,
      _, ⟨rfl, fits.position⟩, _, ⟨rfl, fits.baseVersion⟩, _, ⟨rfl, fits.nextVersion⟩,
      _, ⟨rfl, fits.savedVersion⟩, _, ⟨rfl, fits.entries⟩, rfl⟩

/-! ## The text of a file -/

theorem legible_ofWord (word : String) : (ofWord word).Legible := Json.legible_ofText _

theorem legible_editJson (e : Edit) : (editJson e).Legible := by
  have word : ∀ run : RunDirection, (ofWord run.label).Legible := fun run => legible_ofWord _
  apply Json.Legible.record
  simp only [List.forall_mem_cons, List.not_mem_nil, false_implies, implies_true, and_true]
  exact ⟨legible_ofWord _, Json.legible_ofNat _, Json.legible_ofNat _, Json.legible_ofText _,
    Json.legible_ofOption word e.run⟩

theorem legible_entryJson (r : EntryRecord) : (entryJson r).Legible := by
  have edits : ∀ v ∈ r.edits.map editJson, v.Legible :=
    List.forall_mem_map.mpr fun e _ => legible_editJson e
  apply Json.Legible.record
  simp only [List.forall_mem_cons, List.not_mem_nil, false_implies, implies_true, and_true]
  exact ⟨Json.legible_ofNat _, Json.legible_ofNat _,
    Json.legible_ofOption Json.legible_ofNat _, Json.legible_bool _, Json.legible_bool _,
    Json.Legible.array edits⟩

theorem legible_toJson (f : JournalFile) : f.toJson.Legible := by
  have entries : ∀ v ∈ f.entries.map entryJson, v.Legible :=
    List.forall_mem_map.mpr fun r _ => legible_entryJson r
  apply Json.Legible.record
  simp only [List.forall_mem_cons, List.not_mem_nil, false_implies, implies_true, and_true]
  exact ⟨Json.legible_ofNat _, Json.legible_ofNat _, Json.legible_ofText _,
    Json.legible_ofNat _, Json.legible_ofNat _, Json.legible_ofNat _, Json.legible_ofNat _,
    Json.legible_ofNat _, Json.Legible.array entries⟩

/-- **The text of a file is read back as the file**, if its numbers fit in
words; where one does not, the text is refused. -/
theorem parse?_print_eq_some_iff {f : JournalFile} (plain : f.Plain) (g : JournalFile) :
    parse? f.print = some g ↔ g = f ∧ f.Fits := by
  rw [parse?, print, Json.parse?_pretty (legible_toJson f)]
  exact ofJson?_toJson plain g

end JournalFile

end EditJournal
