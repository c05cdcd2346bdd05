/-
EditJournal.Proofs.Bookkeeping — a ledger through the operations of a journal.

* `Explains.record` — a change leads to a new text; that is entered under the
  fresh version, which is then the current one.
* `Explains.step` — a step in the history finds an entry that can be replayed,
  or the end of the history. It never fails, and the ledger stays.
* `Explains.markSaved`, `Explains.clear` — saving touches no version; clearing
  goes on from a fresh one.

Where the base version moves, an entry was dropped to make room, and that was
told; or the history was cleared.
-/
import EditJournal.Proofs.Ledger

namespace EditJournal

namespace Journal

/-- However a change joins the last entry, that leads where both lead. -/
theorem Joins.leads {j : Journal} {edit : Edit} {now : Nat} {tail changed : Entry}
    {r s t : Text}
    (joins : j.Joins edit now tail changed) (ht : tail.Leads r s) (he : edit.Leads s t) :
    changed.Leads r t := by
  cases joins with
  | group id isOpen member =>
    exact (Edit.chain_append tail.edits [edit] r t).mpr ⟨s, ht, t, he, rfl⟩
  | run how loose small unsealed plan =>
    obtain ⟨single, same, -, fits⟩ := Coalesce.plan_eq_ok plan
    have hfirst : tail.first.Leads r s := (Entry.leads_iff_of_single single r s).mp ht
    have single' : (Coalesce.splice how tail edit.place edit.payload now).more = [] := single
    exact (Entry.leads_iff_of_single single' r t).mpr (Splice.join_leads fits same hfirst he)

end Journal

namespace Ledger

variable {ledger : Ledger} {j k : Journal} {s t : Text}

namespace Explains

/-! ## Dropping entries -/

theorem truncated (h : ledger.Explains j s) : ledger.Explains j.truncated s where
  idle := h.idle
  position_le := by simp [h.position_le]
  base_lt := h.base_lt
  version_lt entry he := h.version_lt entry (List.mem_of_mem_take he)
  linked := h.linked.take _
  here := by
    rw [← h.here]
    simp [Journal.versionAt, List.take_take]

theorem truncated_atEnd (h : ledger.Explains j s) :
    j.truncated.position = j.truncated.entries.length := by
  simp [h.position_le]

/-- Behind the last entry, the oldest one can go. -/
theorem withoutOldest (h : ledger.Explains j s) (atEnd : j.position = j.entries.length) :
    ledger.Explains j.withoutOldest s ∧
      j.withoutOldest.position = j.withoutOldest.entries.length := by
  have here := h.here
  rw [Journal.versionAt_length atEnd] at here
  cases he : j.entries with
  | nil =>
    have hv : j.withoutOldest = j := by simp [Journal.withoutOldest, he]
    rw [hv]
    exact ⟨h, atEnd⟩
  | cons oldest rest =>
    have hv : j.withoutOldest =
        { j with
          entries := rest
          position := j.position - 1
          totalBytes := j.totalBytes - oldest.size
          baseVersion := oldest.version } := by
      simp [Journal.withoutOldest, he]
    have hp : j.position = rest.length + 1 := by simp [atEnd, he]
    have hlinked := h.linked
    rw [he, linked_cons] at hlinked
    rw [he, versionBehind_cons] at here
    rw [hv]
    refine ⟨⟨h.idle, ?_, ?_, ?_, hlinked.2, ?_⟩, ?_⟩
    · simp [hp]
    · exact h.version_lt oldest (by simp [he])
    · intro entry hm
      exact h.version_lt entry (by simp [he, hm])
    · simpa [Journal.versionAt, hp] using here
    · simp [hp]

/-- Where dropping the oldest entry is told, the base version moves or not. -/
theorem withoutOldest_base_or_told {notes : List Note}
    (told : ∀ note ∈ j.evictOldest.notes, note ∈ notes) :
    j.withoutOldest.baseVersion = j.baseVersion ∨ evictionTold notes := by
  by_cases hne : j.entries = []
  · left
    simp [Journal.withoutOldest, hne]
  · right
    exact evictionTold_of_subset (Journal.evictOldest_told hne) told

/-- Making room drops the oldest entry or none. -/
theorem makeRoom (h : ledger.Explains j s) (atEnd : j.position = j.entries.length) :
    ledger.Explains j.makeRoom.value.2 s ∧
      j.makeRoom.value.2.position = j.makeRoom.value.2.entries.length ∧
      j.makeRoom.value.2.nextVersion = j.nextVersion ∧
      (j.makeRoom.value.2.baseVersion = j.baseVersion ∨ evictionTold j.makeRoom.notes) := by
  rcases j.makeRoom_cases with ⟨-, hv⟩ | ⟨-, -, -, hv⟩ | ⟨-, -, hv, told⟩ | ⟨-, -, -, hv, told⟩
  · rw [hv]
    exact ⟨h, atEnd, rfl, Or.inl rfl⟩
  · rw [hv]
    exact ⟨h.congr rfl rfl rfl rfl rfl, atEnd, rfl, Or.inl rfl⟩
  · rw [hv]
    obtain ⟨h', atEnd'⟩ := h.withoutOldest atEnd
    exact ⟨h', atEnd', j.withoutOldest_nextVersion, withoutOldest_base_or_told told⟩
  · rw [hv]
    have hasked : ledger.Explains j.asked s := h.congr rfl rfl rfl rfl rfl
    obtain ⟨h', atEnd'⟩ := hasked.withoutOldest atEnd
    exact ⟨h', atEnd', j.asked.withoutOldest_nextVersion, withoutOldest_base_or_told told⟩

end Explains

/-! ## Changes -/

/-- A journal behind a change to the text `t`: that is entered under a fresh
version, which is the current one. -/
structure Entered (ledger : Ledger) (k : Journal) (fresh : Nat) (t : Text) : Prop where
  explains : (ledger.enter fresh t).Explains k t
  current : k.currentVersion = fresh
  next : k.nextVersion = fresh + 1

namespace Entered

/-- The typing run has no part in it. -/
theorem withGrouping {fresh : Nat} (h : ledger.Entered k fresh t) (grouping : Grouping) :
    ledger.Entered { k with grouping } fresh t where
  explains := h.explains.congr rfl rfl rfl rfl rfl
  current := h.current
  next := h.next

/-- A list that is old but for its last entry, which leads to the new text
under a fresh version. -/
theorem snoc {front : List Entry} {entry : Entry} {fresh : Nat} (idle : k.replaying = false)
    (entries : k.entries = front ++ [entry]) (position : k.position = k.entries.length)
    (next : k.nextVersion = fresh + 1) (version : entry.version = fresh)
    (base : k.baseVersion < fresh) (old : ∀ e ∈ front, e.version < fresh)
    (linked : ledger.Linked k.baseVersion front)
    (leads : entry.Leads (ledger (versionBehind k.baseVersion front)) t) :
    ledger.Entered k fresh t := by
  have behind : k.versionAt k.position = fresh := by
    rw [Journal.versionAt_length position, entries, versionBehind_append, versionBehind_cons,
      versionBehind_nil, version]
  -- the old entries have older versions, for which the ledger stays as it was
  have ext := ledger.enter_extends fresh t
  refine ⟨⟨idle, Nat.le_of_eq position, by omega, ?_, ?_, ?_⟩, ?_, next⟩
  · intro e he
    rw [entries, List.mem_append, List.mem_singleton] at he
    rcases he with he | rfl
    · have := old e he
      omega
    · omega
  · rw [entries, linked_append, linked_cons, version, enter_same,
      ext _ (versionBehind_lt base old)]
    exact ⟨linked.extend ext base old, leads, trivial⟩
  · rw [behind, enter_same]
  · rw [Journal.currentVersion_eq (Nat.le_of_eq position), behind]

/-- An entry put behind the last one. -/
theorem withEntry {entry : Entry} (h : ledger.Explains j s)
    (atEnd : j.position = j.entries.length) (version : entry.version = j.nextVersion)
    (leads : entry.Leads s t) : ledger.Entered (j.withEntry entry) j.nextVersion t := by
  have here := h.here
  rw [Journal.versionAt_length atEnd] at here
  rw [← here] at leads
  exact snoc h.idle rfl (by simp [Journal.withEntry]) rfl version h.base_lt
    h.version_lt h.linked leads

/-- A change joined to the last entry. -/
theorem replaceTail {tail changed : Entry} (h : ledger.Explains j s)
    (atEnd : j.position = j.entries.length) (last : j.entries.getLast? = some tail)
    (leads : ∀ r, tail.Leads r s → changed.Leads r t) :
    ledger.Entered (j.replaceTail tail changed) j.nextVersion t := by
  obtain ⟨front, hfront⟩ := List.getLast?_eq_some_iff.mp last
  have here := h.here
  rw [Journal.versionAt_length atEnd, hfront, versionBehind_append, versionBehind_cons,
    versionBehind_nil] at here
  have hlinked := h.linked
  rw [hfront, linked_append, linked_cons, here] at hlinked
  have hchanged := leads _ hlinked.2.1
  have entries : (j.replaceTail tail changed).entries = front ++ [j.restamped changed] := by
    rw [Journal.replaceTail_entries, hfront, List.dropLast_concat]
  refine snoc h.idle entries ?_ rfl rfl h.base_lt ?_ hlinked.1 hchanged
  · rw [entries, Journal.replaceTail_position, atEnd, hfront, List.length_append,
      List.length_append]
    rfl
  · intro e he
    exact h.version_lt e (by simp [hfront, he])

end Entered

namespace Explains

/-- **A change that leads to a text is recorded as one that does**: the text
is entered as the current one, under the fresh version. -/
theorem record {kind : EditKind} {place : Location} {text : Text} (h : ledger.Explains j s)
    (now : Nat) (hkind : kind ≠ .replace) (hne : text ≠ [])
    (he : Edit.Leads { kind, place, payload := text } s t) :
    ∃ status k, (j.record kind place text now).value = .ok (status, k) ∧
      ledger.Entered k j.nextVersion t ∧
      (k.baseVersion = j.baseVersion ∨
        evictionTold (j.record kind place text now).notes) := by
  obtain ⟨x, hx, hv, hnotes⟩ := Journal.record_cases place now h.idle hkind hne
  have front := h.truncated
  have atEnd := h.truncated_atEnd
  refine ⟨_, _, hv, ?_⟩
  cases hx with
  | join tail changed last joins value =>
    rw [value]
    have entered := Entered.replaceTail front atEnd last fun r hr => joins.leads hr he
    exact ⟨entered.withGrouping _, Or.inl rfl⟩
  | start group mergeable starts value told =>
    obtain ⟨room, atEnd', next, moved⟩ := front.makeRoom atEnd
    have leads :
        Entry.Leads (j.truncated.makeRoom.value.2.newEntry _ now group mergeable) s t :=
      ⟨t, he, rfl⟩
    have entered := Entered.withEntry room atEnd' rfl leads
    rw [next] at entered
    rw [value, Journal.value_append]
    refine ⟨entered.withGrouping _, ?_⟩
    exact moved.imp_right fun h =>
      evictionTold_of_subset h fun note hn => hnotes note (told note hn)

/-! ## Steps in the history -/

/-- The target of a step leads from here to the text behind the step. -/
theorem target_leads {direction : HistoryStep} {index : Nat} {entry : Entry}
    (h : ledger.Explains j s) (ht : j.target? direction = some (index, entry)) :
    direction.along entry.Leads s
      (ledger (j.versionAt (Journal.positionAfter index direction))) := by
  obtain ⟨he, hp⟩ := (Journal.target?_eq_some_iff j direction index entry).mp ht
  have here := h.here
  cases direction with
  | undo =>
    have hp : j.position = index + 1 := hp
    rw [hp] at here
    rw [HistoryStep.along_undo, ← here]
    exact h.leads he
  | redo =>
    have hp : j.position = index := hp
    rw [hp] at here
    rw [HistoryStep.along_redo, ← here]
    exact h.leads he

/-- Behind a step, the ledger has the text at the new position. -/
theorem stepped {direction : HistoryStep} {index : Nat} {entry : Entry}
    (h : ledger.Explains j s) (ht : j.target? direction = some (index, entry)) :
    ledger.Explains (j.stepped direction index)
      (ledger (j.versionAt (Journal.positionAfter index direction))) where
  idle := rfl
  position_le := by
    obtain ⟨he, -⟩ := (Journal.target?_eq_some_iff j direction index entry).mp ht
    have hlt : index < j.entries.length := (List.getElem?_eq_some_iff.mp he).1
    cases direction with
    | undo => exact Nat.le_of_lt hlt
    | redo => exact hlt
  base_lt := h.base_lt
  version_lt := h.version_lt
  linked := h.linked
  here := rfl

/-- **A step never fails**: it is at the end of the history, or it goes to the
text that the ledger has for the next position. -/
theorem step (h : ledger.Explains j s) (direction : HistoryStep) :
    (j.target? direction = none ∧ (j.step direction s).value = (.ok none, j, s)) ∨
    ∃ index entry, j.target? direction = some (index, entry) ∧
      (j.step direction s).value = (.ok (some (entry.cursorAfter direction)),
        j.stepped direction index,
        ledger (j.versionAt (Journal.positionAfter index direction))) := by
  rcases j.step_cases direction s with ⟨ht, hv⟩ | ⟨index, entry, ht, -⟩
  · exact Or.inl ⟨ht, hv⟩
  · exact Or.inr ⟨index, entry, ht, Journal.step_of_leads ht (h.target_leads ht)⟩

/-! ## Saving and clearing -/

theorem markSaved (h : ledger.Explains j s) : ledger.Explains j.markSaved.value.2 s where
  idle := h.idle
  position_le := by
    simpa [Journal.markSaved] using h.position_le
  base_lt := h.base_lt
  version_lt entry he := by
    simp only [Journal.markSaved, Narrated.value_bind, Narrated.value_pure,
      List.mem_mapIdx] at he
    obtain ⟨i, hi, rfl⟩ := he
    exact h.version_lt j.entries[i] (List.getElem_mem hi)
  linked := h.linked.mapIdx (fun _ _ => rfl) fun _ _ => rfl
  here := by
    have versions : j.markSaved.value.2.entries.map (·.version) =
        j.entries.map (·.version) := by
      simp [Journal.markSaved, List.ext_getElem_iff]
    have base : j.markSaved.value.2.baseVersion = j.baseVersion := rfl
    rw [← h.here, ← Journal.versionAt_congr base versions j.position]
    rfl

theorem clear (h : ledger.Explains j s) :
    (ledger.enter j.nextVersion s).Explains j.clear.value s where
  idle := h.idle
  position_le := Nat.zero_le _
  base_lt := Nat.lt_succ_self j.nextVersion
  version_lt entry he := by simp [Journal.clear, Journal.endRun] at he
  linked := trivial
  here := by simp [Journal.clear, Journal.endRun, Journal.stamp]

end Explains

end Ledger

end EditJournal
