/-
EditJournal.Proofs.Lifetimes — what holds of a journal as long as it lives.

* `Journal.Later j k` — the journal `k` comes about from `j` by requests, on any
  storages, and by loading files that journals wrote.
* `Journal.Reachable` — the journals that come about in this way where the files may
  be any, written by a journal or not.
* `Journal.InOrder config j` — position, length, capacity and ceiling bound each
  other in this order, the bytes are those of the entries, the versions rise, and
  nothing is being replayed.
* `Journal.DropsNone j status notes l` — a change evicts no entry.

`journal_stays_in_order` is the main result: a journal that comes about from a new one
is in order, its capacity never shrinks, and where the allocator refuses nothing a
change evicts only at the ceiling.

## How the proof goes

`Later.keeps` carries three things along: `Sound`, `Rising`, and `Outgrows`, that the
limits stay and the capacity does not shrink. The versions of a journal that took a
file over rise because those of the journal that wrote the file did, so the induction
is on how both came about.
-/
import EditJournal.Proofs.Evictions
import EditJournal.Proofs.Reachable
import EditJournal.Proofs.RisingVersions

namespace EditJournal

namespace Journal

/-! ## Capacity -/

/-- The limits of `j` are still those of `k`, whose capacity is no smaller. -/
structure Outgrows (j k : Journal) : Prop where
  config : k.config = j.config
  refusals : ∀ refused ∈ k.refusals, refused ∈ j.refusals
  capacity : j.capacity ≤ k.capacity

section Capacity

variable {j k l : Journal} {edit : Edit} {now : Nat} {status : RecordStatus}

theorem Outgrows.refl (j : Journal) : j.Outgrows j := ⟨rfl, fun _ h => h, Nat.le_refl _⟩

theorem Outgrows.trans (h : j.Outgrows k) (h' : k.Outgrows l) : j.Outgrows l where
  config := h'.config.trans h.config
  refusals refused hr := h.refusals refused (h'.refusals refused hr)
  capacity := Nat.le_trans h.capacity h'.capacity

theorem withoutOldest_capacity (j : Journal) : j.withoutOldest.capacity = j.capacity := by
  unfold withoutOldest
  split <;> rfl

/-- Making room may double the capacity; dropping the oldest entry leaves it. -/
theorem outgrows_makeRoom (j : Journal) : j.Outgrows j.makeRoom.value.2 := by
  refine ⟨j.roomMade.config, j.roomMade.refusals, ?_⟩
  rcases j.makeRoom_cases with ⟨-, hv⟩ | ⟨-, more, -, hv⟩ | ⟨-, -, hv, -⟩ | ⟨-, -, -, hv, -⟩
  · exact Nat.le_of_eq (by rw [hv])
  · rw [hv]
    exact Nat.le_of_lt (Sound.lt_doubledCapacity more).1
  · rw [hv]
    exact Nat.le_of_eq j.withoutOldest_capacity.symm
  · rw [hv]
    exact Nat.le_of_eq j.asked.withoutOldest_capacity.symm

theorem Takes.outgrows (takes : j.Takes edit now status k) : j.Outgrows k := by
  cases takes with
  | nothing empty => exact .refl j
  | joined tail changed nonempty last joins => exact ⟨rfl, fun _ h => h, Nat.le_refl _⟩
  | started group mergeable nonempty starts =>
    have room := j.truncated.outgrows_makeRoom
    exact ⟨room.config, room.refusals, room.capacity⟩

/-- No request shrinks a journal. -/
theorem outgrows_serve {σ : Type} [Storage σ] (j : Journal) (request : Request σ) :
    j.Outgrows (j.serve request) := by
  cases request with
  | record kind place text now =>
    rcases j.serve_record_cases σ kind place text now with ⟨same, -⟩ | ⟨status, -, -, -, takes⟩
    · rw [same]
      exact .refl j
    · exact takes.outgrows
  | step direction storage =>
    rcases j.serve_step_cases direction storage with same | idle | ⟨index, entry, -, moved⟩
    · rw [same]
      exact .refl j
    · rw [idle]
      exact ⟨rfl, fun _ h => h, Nat.le_refl _⟩
    · rw [moved]
      exact ⟨rfl, fun _ h => h, Nat.le_refl _⟩
  | groupEnd =>
    rw [serve_groupEnd]
    exact ⟨rfl, fun _ h => h, Nat.le_refl _⟩
  | endRun => exact ⟨rfl, fun _ h => h, Nat.le_refl _⟩
  | groupBegin => exact ⟨rfl, fun _ h => h, Nat.le_refl _⟩
  | markSaved => exact ⟨rfl, fun _ h => h, Nat.le_refl _⟩
  | clear => exact ⟨rfl, fun _ h => h, Nat.le_refl _⟩

/-- The capacity grows to what is kept of the history, up to the ceiling, under which
it was before. -/
theorem outgrows_restore (h : j.Sound) (entries : List Entry) (position base next : Nat) :
    j.Outgrows (j.restore entries position base next).value := by
  rw [value_restore]
  exact ⟨rfl, fun _ h => h, Nat.le_min.mpr ⟨Nat.le_max_left _ _, h.capacity_le⟩⟩

end Capacity

/-- A request breaks no sound journal. -/
theorem Sound.serve {σ : Type} [Storage σ] {j : Journal} (h : j.Sound) (request : Request σ) :
    (j.serve request).Sound := by
  cases request with
  | record kind place text now =>
    rcases j.serve_record_cases σ kind place text now with ⟨same, -⟩ | ⟨status, hv, -, -, -⟩
    · rw [same]
      exact h
    · exact h.record hv
  | step direction storage =>
    rcases j.serve_step_cases direction storage with same | idle |
        ⟨index, entry, target, moved⟩
    · rw [same]
      exact h
    · rw [idle]
      exact { h with idle := rfl }
    · rw [moved]
      exact h.stepped target
  | endRun => exact Moves.endRun.sound h
  | groupBegin => exact Moves.groupBegin.sound h
  | groupEnd =>
    rw [serve_groupEnd]
    exact Moves.groupEnd.sound h
  | markSaved => exact h.markSaved
  | clear => exact h.clear

/-! ## Files of other journals -/

/-- The journal behind loading a file. One that is refused, or that is not there,
leaves it as it is. -/
def loaded (j : Journal) (contents : Text) (path : Path) (d : Directory) : Journal :=
  match (j.load contents path d).value with
  | .ok (some (_, l)) => l
  | _ => j

theorem loaded_cases (j : Journal) (contents : Text) (path : Path) (d : Directory) :
    j.loaded contents path d = j ∨
      ∃ version, (j.load contents path d).value =
        .ok (some (version, j.loaded contents path d)) := by
  unfold loaded
  split
  · rename_i version l accepted
    exact Or.inr ⟨version, accepted⟩
  · exact Or.inl rfl

theorem loaded_of_accepted {j l : Journal} {contents : Text} {path : Path} {d : Directory}
    {version : Nat} (accepted : (j.load contents path d).value = .ok (some (version, l))) :
    j.loaded contents path d = l := by
  rw [loaded, accepted]

section Written

variable {j w l : Journal} {contents text : Text} {savedVersion savedAt version : Nat}
  {place path : Path} {disk disk' d : Directory}

/-- What is taken over where the text of another journal's file is read: that journal's
entries, with the saved version that was written beside them. -/
theorem load_written (plain : w.Plain)
    (saved : (w.save contents savedVersion savedAt place disk).value = (.ok (), disk'))
    (kept : d.readText? path = disk'.readText? place)
    (accepted : (j.load text path d).value = .ok (some (version, l))) :
    version = savedVersion ∧ Ascending w.nextVersion w.baseVersion w.entries ∧
      l = (j.restore w.entries w.position w.baseVersion w.nextVersion).value := by
  obtain ⟨file, entries, found, suits, rfl, rfl⟩ := load_eq_ok_some_iff.mp accepted
  obtain ⟨t, read, parsed⟩ := JournalFile.load_eq_ok_some_iff.mp found
  have there : JournalFile.load disk' place = .ok (some file) :=
    JournalFile.load_eq_ok_some_iff.mpr ⟨t, kept ▸ read, parsed⟩
  obtain ⟨same, -⟩ := (load_eq_ok_iff_of_save plain saved _).mp there
  obtain rfl := Option.some.inj same
  obtain ⟨rfl, -, ascending⟩ :=
    (JournalFile.check_ofJournal_eq_ok_iff w contents savedVersion savedAt entries).mp
      suits.checked
  exact ⟨rfl, ascending, rfl⟩

end Written

/-! ## How a journal comes about -/

/-- The journal `k` comes about from `j`: by requests, on any storages, and by loading
files with any texts. The files were written by journals that came about from new ones,
for any texts, and were not changed since. -/
inductive Later : Journal → Journal → Prop
  | now (j : Journal) : Later j j
  | serve {σ : Type} [Storage σ] {j k : Journal} (request : Request σ) (before : Later j k) :
      Later j (k.serve request)
  | load {j k w : Journal} {config : Config} {refusals : List Bool} {contents : Text}
      {savedVersion savedAt : Nat} {place : Path} {disk disk' : Directory} (text : Text)
      (path : Path) (d : Directory) (writer : Later (Journal.create config refusals).value w)
      (saved : (w.save contents savedVersion savedAt place disk).value = (.ok (), disk'))
      (kept : d.readText? path = disk'.readText? place) (before : Later j k) :
      Later j (k.loaded text path d)

theorem rising_create (config : Config) (refusals : List Bool) :
    (Journal.create config refusals).value.Rising := by
  obtain ⟨capacity, rest, -, hv⟩ := value_create config refusals
  rw [hv]
  exact ⟨Nat.zero_lt_one, ascending_nil⟩

/-- **What no call breaks, no life does.** -/
theorem Later.keeps {j k : Journal} (later : j.Later k) (sound : j.Sound) (rising : j.Rising) :
    k.Sound ∧ k.Rising ∧ j.Outgrows k := by
  induction later with
  | now j => exact ⟨sound, rising, .refl j⟩
  | serve request before ih =>
    obtain ⟨sound, rising, outgrows⟩ := ih sound rising
    exact ⟨sound.serve request, rising.serves (serves_serve _ request),
      outgrows.trans (outgrows_serve _ request)⟩
  | @load j k w config refusals _ _ _ _ _ _ text path d writer saved kept before ihw ih =>
    obtain ⟨sound, rising, outgrows⟩ := ih sound rising
    rcases k.loaded_cases text path d with same | ⟨version, accepted⟩
    · rw [same]
      exact ⟨sound, rising, outgrows⟩
    · obtain ⟨wsound, wrising, -⟩ :=
        ihw (sound_create config refusals) (rising_create config refusals)
      obtain ⟨-, ascending, taken⟩ := load_written wsound.plain saved kept accepted
      have next : w.baseVersion < max w.nextVersion k.nextVersion :=
        Nat.lt_of_lt_of_le wrising.base_lt (Nat.le_max_left _ _)
      refine ⟨sound.load accepted, ?_, ?_⟩
      · rw [taken]
        exact (rising_restore_iff k ascending w.position).mpr next
      · rw [taken]
        exact outgrows.trans (outgrows_restore sound _ _ _ _)

theorem Later.serveAll {σ : Type} [Storage σ] {j k : Journal} (later : j.Later k)
    (requests : List (Request σ)) : j.Later (k.serveAll requests) :=
  serveAll_invariant (P := j.Later) (fun _ request before => .serve request before)
    later requests

/-! ## Any files -/

/-- The journals that come about: by requests, on any storages, and by loading any
files, with any texts. -/
inductive Reachable : Journal → Prop
  | create (config : Config) (refusals : List Bool) :
      Reachable (Journal.create config refusals).value
  | serve {σ : Type} [Storage σ] {j : Journal} (request : Request σ) (before : Reachable j) :
      Reachable (j.serve request)
  | load {j : Journal} (text : Text) (path : Path) (d : Directory) (before : Reachable j) :
      Reachable (j.loaded text path d)

theorem Reachable.serveAll {σ : Type} [Storage σ] {j : Journal} (h : j.Reachable)
    (requests : List (Request σ)) : (j.serveAll requests).Reachable :=
  serveAll_invariant (P := Reachable) (fun _ request before => .serve request before)
    h requests

theorem Reachable.sound {j : Journal} (h : j.Reachable) : j.Sound := by
  induction h with
  | create config refusals => exact sound_create config refusals
  | serve request before ih => exact ih.serve request
  | @load j text path d before ih =>
    rcases j.loaded_cases text path d with same | ⟨version, accepted⟩
    · rw [same]
      exact ih
    · exact ih.load accepted

/-- Where the versions of all entries are below the next one, a request keeps them so. -/
theorem Serves.version_lt {j k : Journal} (serves : j.Serves k)
    (h : ∀ entry ∈ j.entries, entry.version < j.nextVersion) :
    ∀ entry ∈ k.entries, entry.version < k.nextVersion := by
  intro entry member
  cases serves with
  | takes edit now status plain nonempty takes =>
    obtain ⟨p, d, last, leaves⟩ := takes.leaves_of_nonempty nonempty
    rw [leaves.next]
    rw [leaves.entries, List.mem_append, List.mem_singleton] at member
    rcases member with old | rfl
    · exact Nat.lt_succ_of_lt (h entry (leaves.mem_old old))
    · rw [leaves.version]
      exact Nat.lt_succ_self _
  | rests entries base next kept idle =>
    have unmarked : entry.unmarked ∈ j.unmarked := entries ▸ List.mem_map_of_mem member
    obtain ⟨old, hold, same⟩ := List.mem_map.mp unmarked
    have version : old.version = entry.version := by simpa using congrArg Entry.version same
    rw [next, ← version]
    exact h old hold
  | clears entries position base next idle => simp [entries] at member

/-- **No entry has the next version, or a later one.** The checks of a file say it of the
entries, though not of the base version. -/
theorem Reachable.version_lt {j : Journal} (h : j.Reachable) :
    ∀ entry ∈ j.entries, entry.version < j.nextVersion := by
  induction h with
  | create config refusals =>
    obtain ⟨capacity, rest, -, new⟩ := value_create config refusals
    rw [new]
    simp
  | @serve _ _ j request before ih => exact (j.serves_serve request).version_lt ih
  | @load j text path d before ih =>
    rcases j.loaded_cases text path d with same | ⟨version, accepted⟩
    · rw [same]
      exact ih
    · obtain ⟨file, entries, found, suits, -, taken⟩ := load_eq_ok_some_iff.mp accepted
      rw [taken]
      intro entry member
      obtain ⟨-, below⟩ := suits.ascending.between entry (mem_of_mem_restore member)
      have next : file.nextVersion ≤
          (j.restore entries file.position file.baseVersion
            file.nextVersion).value.nextVersion := by
        rw [value_restore]
        exact Nat.le_max_left _ _
      exact Nat.lt_of_lt_of_le below next

/-! ## Evictions -/

/-- A change that leads from `j` to `l` evicts no entry: neither its status nor its notes
say so, the base version stays, and of the entries before the position all but possibly
the last one, which the change may join, stand where they were. -/
structure DropsNone (j : Journal) (status : RecordStatus) (notes : List Note) (l : Journal) :
    Prop where
  status : status ≠ .evicted
  told : evictionTold notes = false
  base : l.baseVersion = j.baseVersion
  stand : (j.entries.take j.position).dropLast <+: l.entries
  length_le : (j.entries.take j.position).length ≤ l.entries.length

section Evictions

variable {j l : Journal} {edit : Edit} {now : Nat} {status : RecordStatus}

/-- **Below the ceiling a change evicts nothing**, where the allocator grants what it is
asked for. -/
theorem Takes.dropsNone (h : j.Sound) (granted : j.Granted)
    (below : (j.entries.take j.position).length ≠ j.config.ceiling)
    (takes : j.Takes edit now status l) {notes : List Note}
    (told : evictionTold notes = true → status = .evicted) : j.DropsNone status notes l := by
  have unevicted : status ≠ .evicted := fun evicted =>
    below ((takes.status_eq_evicted_iff h granted).mp evicted).2
  have untold : evictionTold notes = false :=
    Bool.eq_false_iff.mpr fun ht => unevicted (told ht)
  cases takes with
  | nothing empty =>
    refine ⟨unevicted, untold, rfl, ?_, List.length_take_le' _ _⟩
    exact (List.dropLast_prefix _).trans (List.take_prefix _ _)
  | joined tail changed nonempty last joins =>
    have some_entry := List.length_pos_of_mem (List.mem_of_getLast? last)
    rw [truncated_entries] at some_entry
    refine ⟨unevicted, untold, rfl, List.prefix_append _ _, ?_⟩
    rw [noting_entries, replaceTail_entries, truncated_entries, List.length_append,
      List.length_dropLast, List.length_singleton]
    omega
  | started group mergeable nonempty starts =>
    have full : j.truncated.entries.length ≤ j.config.ceiling := h.truncated.length_le_ceiling
    rcases makeRoom_of_granted h.truncated granted with ⟨-, capacity, refusals, hv⟩ | ⟨most, -⟩
    · refine ⟨unevicted, untold, ?_, ?_, ?_⟩
      · show j.truncated.makeRoom.value.2.baseVersion = j.baseVersion
        rw [hv]
        rfl
      · rw [noting_entries, started_entries, hv]
        exact (List.dropLast_prefix _).trans (List.prefix_append _ _)
      · rw [noting_entries, started_entries, hv, List.length_append]
        exact Nat.le_add_right _ _
    · exact absurd (Nat.le_antisymm full most) below

theorem dropsNone_record (h : j.Sound) (granted : j.Granted)
    (below : (j.entries.take j.position).length ≠ j.config.ceiling) {kind : EditKind}
    {place : Location} {text : Text}
    (recorded : (j.record kind place text now).value = .ok (status, l)) :
    j.DropsNone status (j.record kind place text now).notes l := by
  by_cases hkind : kind = .replace
  · simp [hkind, record_replace h.idle] at recorded
  · refine ((record_eq_ok_iff h.idle hkind).mp recorded).dropsNone h granted below
      fun told => ?_
    obtain ⟨k, evicted⟩ := (evictionTold_record h.capacity_pos kind place text now).mp told
    rw [recorded] at evicted
    exact congrArg Prod.fst (Except.ok.inj evicted)

end Evictions

/-! ## A whole life -/

/-- The structure of a journal under its limits is in order. -/
structure InOrder (config : Config) (j : Journal) : Prop where
  position_le : j.position ≤ j.entries.length
  length_le : j.entries.length ≤ j.capacity
  capacity_le : j.capacity ≤ max config.maxEntries 1
  bytes : j.totalBytes = total Entry.size j.entries
  versions : (j.baseVersion :: (j.entries.map (·.version) ++ [j.nextVersion])).Pairwise (· < ·)
  idle : j.replaying = false

theorem Sound.inOrder {config : Config} {j : Journal} (h : j.Sound) (rising : j.Rising)
    (limits : j.config = config) : j.InOrder config where
  position_le := h.position_le
  length_le := h.fits
  capacity_le := limits ▸ h.capacity_le
  bytes := h.bytes
  versions := rising_iff_pairwise.mp rising
  idle := h.idle

end Journal

/-- **A journal is in order as long as it lives**, whatever is asked of it, on whatever
storage, and whatever files of other journals it loads. Its capacity never shrinks. Where
the allocator refuses nothing, a change evicts an entry only if, without the redo tail,
there are as many as the journal may hold. -/
theorem journal_stays_in_order (config : Config) (refusals : List Bool) (j : Journal)
    (lived : (Journal.create config refusals).value.Later j) :
    j.InOrder config ∧
    (∀ k, j.Later k → j.capacity ≤ k.capacity) ∧
    ((Journal.create config refusals).value.Granted →
      ∀ (kind : EditKind) (place : Location) (text : Text) (now : Nat) (status : RecordStatus)
        (l : Journal), (j.record kind place text now).value = .ok (status, l) →
        (j.entries.take j.position).length = max config.maxEntries 1 ∨
          j.DropsNone status (j.record kind place text now).notes l) := by
  obtain ⟨sound, rising, outgrows⟩ :=
    lived.keeps (Journal.sound_create config refusals) (Journal.rising_create config refusals)
  obtain ⟨capacity, rest, -, new⟩ := Journal.value_create config refusals
  have limits : j.config = config := by rw [outgrows.config, new]
  refine ⟨sound.inOrder rising limits,
    fun k later => (later.keeps sound rising).2.2.capacity, ?_⟩
  intro grants kind place text now status l recorded
  have granted : j.Granted := fun refused hr => grants refused (outgrows.refusals refused hr)
  refine or_iff_not_imp_left.mpr fun below =>
    Journal.dropsNone_record sound granted ?_ recorded
  rw [limits]
  exact below

/-- A journal for two entries loads a history of three and drops the oldest one. The next
change evicts another one; behind a step back it evicts none. -/
theorem threeTyped_stay_in_order :
    let typing : List (Request Text) :=
      [.record .insert ⟨0, 0⟩ ['a'] 0, .endRun, .record .insert ⟨0, 1⟩ ['b'] 1, .endRun,
        .record .insert ⟨0, 2⟩ ['c'] 2]
    let config : Config := { initialCapacity := 1, maxEntries := 2 }
    let writer := (Journal.create {}).value.serveAll typing
    let stored := (writer.save ['a', 'b', 'c'] 0 0 [['j']] {}).value
    let j := (Journal.create config).value.loaded ['a', 'b', 'c'] [['j']] stored.2
    let back := j.serve (.step .undo (['a', 'b', 'c'] : Text))
    stored.1 = .ok () ∧ j.InOrder config ∧ j.capacity ≤ back.capacity ∧
      (∃ l, (j.record .insert ⟨0, 3⟩ ['d'] 3).value = .ok (.evicted, l) ∧
        (j.entries.take j.position).length = 2) ∧
      ∃ l, (back.record .insert ⟨0, 2⟩ ['d'] 3).value = .ok (.appended, l) ∧
        back.DropsNone .appended (back.record .insert ⟨0, 2⟩ ['d'] 3).notes l := by
  intro typing config writer stored j back
  have lived : (Journal.create {}).value.Later writer := (Journal.Later.now _).serveAll typing
  have saved : (writer.save ['a', 'b', 'c'] 0 0 [['j']] {}).value = (.ok (), stored.2) := rfl
  have accepted :=
    (Journal.load_save_eq_ok_iff (by decide) (Journal.create config).value _ saved
    0).mpr ⟨by decide, ⟨by decide, by decide⟩, rfl, rfl⟩
  have later : (Journal.create config).value.Later j :=
    .load ['a', 'b', 'c'] [['j']] stored.2 lived saved rfl (.now _)
  have taken : j =
      { entries :=
          [{ first := ⟨.insert, ⟨0, 1⟩, ['b'], none⟩, timestamp := 1, version := 2 },
            { first := ⟨.insert, ⟨0, 2⟩, ['c'], none⟩, timestamp := 2, version := 3 }]
        position := 2, capacity := 2, config, totalBytes := 226, baseVersion := 1
        nextVersion := 4 } :=
    (Journal.loaded_of_accepted accepted).trans (by decide)
  clear_value j
  subst taken
  obtain ⟨inOrder, grows, atCeiling⟩ := journal_stays_in_order config [] _ later
  have later_back : (Journal.create config).value.Later back := .serve (.step .undo _) later
  obtain ⟨-, -, atCeiling_back⟩ := journal_stays_in_order config [] back later_back
  refine ⟨rfl, inOrder, grows back (.serve _ (.now _)), ⟨_, rfl, ?_⟩, ⟨_, rfl, ?_⟩⟩
  · have decided := atCeiling (by decide) .insert ⟨0, 3⟩ ['d'] 3 .evicted _ rfl
    exact decided.resolve_right fun none => none.status rfl
  · have decided := atCeiling_back (by decide) .insert ⟨0, 2⟩ ['d'] 3 .appended _ rfl
    exact decided.resolve_left (by decide)

end EditJournal
