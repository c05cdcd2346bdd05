/-
EditJournal.Proofs.BoundedHistory — a journal with a ceiling has the newest part of
the history without one.

`Session.Window k u b` says that the session `b` lacks the first `k` entries of
`u`, and nothing else: texts, versions and the rest of the entries are the same.

`bounded_history_is_window` is the main result: the same actions lead a session
under any ceiling and one without to such a window, as long as no step back is
taken past what the former still has. So dropping the oldest entry never changes
what a later change joins, which entries a change discards, or whether the text
counts as modified. An eviction is told exactly where a change starts an entry in
a journal that is at the ceiling without its redo tail.
-/
import EditJournal.Proofs.Evictions
import EditJournal.Proofs.TrailingRuns

namespace EditJournal

open Function (Injective)

/-- The limits with no bound on the number of entries but that of counting. -/
def Config.withoutCeiling (c : Config) : Config := { Config.unlimited with rules := c.rules }

theorem Config.ceiling_le_withoutCeiling {c : Config} (fits : c.maxEntries < Word.size) :
    c.ceiling ≤ c.withoutCeiling.ceiling := by
  simp only [Config.ceiling, Config.withoutCeiling, Config.unlimited, Word.size] at fits ⊢
  omega

namespace Session

/-! ## Windows -/

/-- The session `b` lacks the first `k` entries of `u`, and nothing else. -/
structure Window (k : Nat) (u b : Session Text) : Prop where
  contents : b.contents = u.contents
  entries : b.buffer.journal.entries = u.buffer.journal.entries.drop k
  position_le : k ≤ u.buffer.journal.position
  position : b.buffer.journal.position = u.buffer.journal.position - k
  base : (k = 0 ∧ b.buffer.journal.baseVersion = u.buffer.journal.baseVersion) ∨
    ∃ e, 0 < k ∧ u.buffer.journal.entries[k - 1]? = some e ∧
      b.buffer.journal.baseVersion = e.version
  current : b.buffer.journal.currentVersion = u.buffer.journal.currentVersion
  modified : b.buffer.isModified = u.buffer.isModified

variable {u b : Session Text} {dropped : List Entry}

theorem window_of_follows (h : u.buffer.Follows id dropped b.buffer) :
    u.Window dropped.length b where
  contents := h.store.symm
  entries := by
    simp [h.journal.trails.entries]
  position_le := by
    have := h.journal.trails.position
    omega
  position := by
    have := h.journal.trails.position
    omega
  base := by
    have base := h.journal.trails.base
    have entries := h.journal.trails.entries
    cases hlast : dropped.getLast? with
    | none =>
      obtain rfl := List.getLast?_eq_none_iff.mp hlast
      exact Or.inl ⟨rfl, base⟩
    | some e =>
      obtain ⟨front, rfl⟩ := List.getLast?_eq_some_iff.mp hlast
      refine Or.inr ⟨e, by simp, ?_, by simpa using base⟩
      simp [entries]
  current := h.journal.currentVersion.symm
  modified := h.isModified.symm

/-! ## Runs -/

/-- A run that takes no step back past what the shorter journal has keeps the
sessions side by side. -/
theorem follows_after {f : Nat → Nat} (hf : Injective f)
    (h : u.buffer.Follows f dropped b.buffer)
    {actions : List Action} (single : ∀ action ∈ actions, action.isCommand = false)
    (above : ∀ n, actions[n]? = some (.step .undo) →
      (b.after (actions.take n)).buffer.journal.position = 0 →
      (u.after (actions.take n)).buffer.journal.position = 0) :
    ∃ dropped', (u.after actions).buffer.Follows f dropped' (b.after actions).buffer := by
  induction actions generalizing u b dropped with
  | nil => exact ⟨dropped, h⟩
  | cons action rest ih =>
    rw [List.forall_mem_cons] at single
    have allowed : action.Above dropped b.buffer := by
      refine ⟨fun back start => ?_, ?_⟩
      · -- where `u` has nothing to undo either, nothing was dropped
        have none_left := above 0 (by rw [back]; rfl) start
        have position := h.journal.trails.position
        rw [List.take_zero, after_nil] at none_left
        exact List.length_eq_zero_iff.mp (by omega)
      · rintro direction count rfl
        simp [Action.isCommand] at single
    obtain ⟨dropped', follows, -⟩ := follows_act hf h action allowed
    exact ih follows single.2 fun n => above (n + 1)

theorem config_opened (name start : Text) (config : Config) (refusals : List Bool) :
    (opened name start config refusals).buffer.journal.config = config := by
  obtain ⟨capacity, rest, -, created⟩ := Journal.value_create config refusals
  simp only [opened, Buffer.create, Narrated.value_bind, Narrated.value_pure, created]

/-- New sessions on one text, one of them without a ceiling, are side by side. -/
theorem opened_follows (name start : Text) {config : Config}
    (fits : config.maxEntries < Word.size) {refusals refusals' : List Bool}
    (granted : (opened name start config.withoutCeiling refusals).buffer.journal.Granted)
    (granted' : (opened name start config refusals').buffer.journal.Granted) :
    (opened name start config.withoutCeiling refusals).buffer.Follows id []
      (opened name start config refusals').buffer := by
  obtain ⟨capacity, rest, -, long⟩ := Journal.value_create config.withoutCeiling refusals
  obtain ⟨capacity', rest', -, short⟩ := Journal.value_create config refusals'
  have sound := Journal.sound_create config.withoutCeiling refusals
  have sound' := Journal.sound_create config refusals'
  simp only [opened, Buffer.create, Narrated.value_bind,
    Narrated.value_pure] at granted granted' ⊢
  rw [long] at sound granted ⊢
  rw [short] at sound' granted' ⊢
  refine ⟨?_, rfl, rfl⟩
  exact
    { trails := ⟨rfl, rfl, rfl, rfl, rfl, ⟨rfl, rfl, rfl, fun _ => rfl⟩, by simp⟩
      resting := fun _ => Or.inl rfl
      whole := ⟨Config.ceiling_le_withoutCeiling fits, fun _ => rfl⟩
      long := sound
      short := sound'
      openLast := Journal.openLast_of_closed rfl
      granted_long := granted
      granted_short := granted' }

end Session

open Session (opened)

/-- **A journal with a ceiling has the newest part of the history without one.** -/
theorem bounded_history_is_window (name start : Text) (config : Config)
    (refusals refusals' : List Bool) (actions : List Action)
    (fits : config.maxEntries < Word.size)
    (granted : (opened name start config.withoutCeiling refusals).buffer.journal.Granted)
    (granted' : (opened name start config refusals').buffer.journal.Granted)
    (single : ∀ action ∈ actions, action.isCommand = false)
    (above :
      let u := opened name start config.withoutCeiling refusals
      let b := opened name start config refusals'
      ∀ n, actions[n]? = some (.step .undo) →
        (b.after (actions.take n)).buffer.journal.position = 0 →
        (u.after (actions.take n)).buffer.journal.position = 0) :
    let u := opened name start config.withoutCeiling refusals
    let b := opened name start config refusals'
    (∃ k, (u.after actions).Window k (b.after actions)) ∧
      ∀ action, evictionTold ((b.after actions).act action).notes = true ↔
        ∃ status, (b.after actions).fate? action = some status ∧ status.startsEntry = true ∧
          ((b.after actions).buffer.journal.entries.take
            (b.after actions).buffer.journal.position).length = config.ceiling := by
  intro u b
  have fresh : u.buffer.Follows id [] b.buffer :=
    Session.opened_follows name start fits granted granted'
  obtain ⟨dropped, follows⟩ := Session.follows_after Function.injective_id fresh single above
  refine ⟨⟨dropped.length, Session.window_of_follows follows⟩, fun action => ?_⟩
  have ceiling : (b.after actions).buffer.journal.config = config := by
    rw [(b.after_becomes actions).config]
    exact Session.config_opened name start config refusals'
  rw [Session.evictionTold_act follows.journal.short,
    Session.fate?_eq_evicted_iff follows.journal.short follows.journal.granted_short, ceiling]

/-- Three changes, the last of them a group; two steps back, a change in their
place, and a save. -/
def groupBehindTwo : List Action :=
  [.insert ⟨0, 0⟩ ['a'] 0, .endRun, .insert ⟨0, 1⟩ ['b'] 1, .groupBegin,
    .insert ⟨0, 2⟩ ['c'] 2, .delete ⟨0, 0⟩ 1 3, .groupEnd, .step .undo, .step .undo,
    .insert ⟨0, 1⟩ ['d'] 4, .markSaved]

/-- Under a ceiling of two the first change is dropped when the group begins, and
the second one is taken back, so that nothing is left before the last one. There
is room for one more entry then: the next one drops nothing. -/
theorem groupBehindTwo_is_window :
    let u := opened [] [] ({ maxEntries := 2 } : Config).withoutCeiling
    let b := opened [] [] { maxEntries := 2 }
    (∃ k, (u.after groupBehindTwo).Window k (b.after groupBehindTwo)) ∧
      evictionTold ((b.after (groupBehindTwo.take 4)).act
        (.insert ⟨0, 2⟩ ['c'] 2)).notes = true ∧
      evictionTold ((b.after groupBehindTwo).act (.insert ⟨0, 0⟩ ['e'] 9)).notes = false := by
  intro u b
  have single : ∀ action ∈ groupBehindTwo, action.isCommand = false := by decide
  have above : ∀ n, groupBehindTwo[n]? = some (.step .undo) →
      (b.after (groupBehindTwo.take n)).buffer.journal.position = 0 →
      (u.after (groupBehindTwo.take n)).buffer.journal.position = 0 := by
    have steps : ∀ n < 11, groupBehindTwo[n]? = some (.step .undo) →
        (b.after (groupBehindTwo.take n)).buffer.journal.position ≠ 0 := by decide
    intro n hn start
    obtain ⟨few, -⟩ := List.getElem?_eq_some_iff.mp hn
    exact absurd start (steps n few hn)
  obtain ⟨window, told⟩ := bounded_history_is_window [] [] { maxEntries := 2 } [] []
    groupBehindTwo (by decide) (by decide) (by decide) single above
  refine ⟨window, by decide +kernel, ?_⟩
  refine Bool.eq_false_iff.mpr fun evicted => ?_
  obtain ⟨status, -, -, full⟩ := (told _).mp evicted
  exact absurd full (by decide +kernel)

end EditJournal
