/-
EditJournal.Proofs.Continuity — a session goes on in a buffer that was reopened.

`Session.Alike f s t` is what a user can tell of two sessions: texts, versions,
positions, sizes and entries are the same, where the number of a group in `t`
leads to that in `s` by `f`.

`reopened_session_goes_on` is the main result: whatever came about in a session,
once its history is saved and taken over in a new buffer on the same text, the two
answer every further run alike, and are alike at every point of it, as far as the
counters of the session are words. They need not be as far as those of the new
buffer (`lastGroup_is_passed`).

## How the proof goes

The new journal differs in its capacity, which only tells when to grow, and in the
group numbers given out, which start behind the greatest one that an entry has.
So the next group has the next number on both sides, but these are not the same
(`renumbering`); with it, the journals are side by side with nothing dropped
(`Buffer.reopened_follows`), and stay so (`Session.follows_run`). No number leads to
a smaller one, so the new buffer never counts further than the session.
-/
import EditJournal.Proofs.Headroom
import EditJournal.Proofs.Reachable
import EditJournal.Proofs.TrailingRuns

namespace EditJournal

open Function (Injective)

/-! ## Reopening -/

namespace Buffer

variable {a b c : Buffer Text} {savedAt : Nat} {path : Path} {d d' : Directory}

/-- When a new buffer on the same text takes over a history that was saved, and
what it is then. -/
theorem loadHistory_save_eq_ok_iff (plain : a.journal.Plain) (text : b.contents = a.contents)
    (saved : (a.saveHistory savedAt path d).value = (.ok (), d')) :
    (b.loadHistory path d').value = (.ok true, c) ↔
      (JournalFile.ofJournal a.journal a.contents a.savedVersion savedAt).Fits ∧
        (a.journal.position ≤ a.journal.entries.length ∧
          Ascending a.journal.nextVersion a.journal.baseVersion a.journal.entries) ∧
        c = { b with
          journal := (b.journal.restore a.journal.entries a.journal.position
            a.journal.baseVersion a.journal.nextVersion).value
          savedVersion := a.savedVersion } := by
  have loads (version : Nat) (l : Journal) :=
    Journal.load_save_eq_ok_iff plain b.journal l saved version
  rw [loadHistory_eq_ok_true_iff, text]
  constructor
  · rintro ⟨version, l, hload, rfl⟩
    obtain ⟨fits, order, rfl, rfl⟩ := (loads version l).mp hload
    exact ⟨fits, order, rfl⟩
  · rintro ⟨fits, order, rfl⟩
    exact ⟨_, _, (loads _ _).mpr ⟨fits, order, rfl, rfl⟩, rfl⟩

end Buffer

/-! ## Group numbers -/

/-- Where no number leads to a smaller one, no more numbers were given out. -/
theorem Grouping.Matches.newest_le {f : Nat → Nat} {g h : Grouping} (m : Matches f g h)
    (grows : ∀ id, id ≤ f id) : h.newest ≤ g.newest := by
  have next : f (h.newest + 1) = g.newest + 1 := m.fresh 0
  have above := grows (h.newest + 1)
  omega

namespace Journal

/-- From the group numbers of a journal that took a history over, the greatest
of them `n`, to those of one that had given out numbers up to `newest`. -/
def renumbering (n newest : Nat) (id : Nat) : Nat := if id ≤ n then id else id + (newest - n)

theorem renumbering_injective (n newest : Nat) : Injective (renumbering n newest) := by
  intro a b h
  simp only [renumbering] at h
  split at h <;> split at h <;> omega

theorem le_renumbering (n newest id : Nat) : id ≤ renumbering n newest id := by
  unfold renumbering
  split
  · exact Nat.le_refl _
  · exact Nat.le_add_right _ _

/-- **A journal and one that took its history over are side by side.** -/
theorem trails_withHistory {j k : Journal} (h : j.Sound) (closed : j.grouping.depth = 0)
    (ended : j.grouping.isSealed = true) (config : k.config = j.config)
    (next : k.nextVersion = 1) (fresh : k.grouping = {}) :
    j.Trails (renumbering (newestGroup j.entries) j.grouping.newest) []
      (k.withHistory j.entries j.position j.baseVersion j.nextVersion) where
  entries := by
    have same : ∀ e ∈ j.entries,
        e.regroup (renumbering (newestGroup j.entries) j.grouping.newest) = e := by
      intro e he
      have kept : e.group.map (renumbering (newestGroup j.entries) j.grouping.newest) =
          e.group := by
        cases hgroup : e.group with
        | none => rfl
        | some id => simp [renumbering, le_newestGroup he hgroup]
      rw [Entry.regroup, kept]
    exact (List.map_congr_left same).trans (List.map_id _) |>.symm
  position := (Nat.zero_add _).symm
  base := rfl
  next := by
    have := h.next_pos
    show j.nextVersion = max j.nextVersion k.nextVersion
    omega
  rules := by
    show j.config.rules = k.config.rules
    rw [config]
  grouping := by
    have hle : newestGroup j.entries ≤ j.grouping.newest :=
      newestGroup_le_iff.mpr fun e he id hid => (h.entries e he).group_le id hid
    have current := h.grouping.closed_iff.mp closed
    have last : j.grouping.last = none := by
      simpa [Grouping.isSealed] using ended
    have behind : ((k.grouping.reserve (newestGroup j.entries)).endRun) =
        { newest := newestGroup j.entries } := by
      simp [fresh, Grouping.reserve, Grouping.endRun]
    show Grouping.Matches _ _ (k.grouping.reserve (newestGroup j.entries)).endRun
    rw [behind]
    refine ⟨closed, by simp [current], last, fun n => ?_⟩
    simp only [renumbering]
    split <;> omega
  closed e he := by simp at he

end Journal

open Journal (renumbering newestGroup Granted)

theorem Session.contents_opened (name text : Text) (config : Config) (refusals : List Bool) :
    (Session.opened name text config refusals).buffer.contents = text := rfl

/-- A buffer and one that was reopened with its history are side by side, under
the same limits. -/
theorem Buffer.reopened_follows {a c : Buffer Text} (h : a.Reachable)
    (closed : a.journal.grouping.depth = 0) (ended : a.journal.grouping.isSealed = true)
    (granted : a.journal.Granted) {name : Text} {refusals : List Bool}
    (granted' :
      (Session.opened name a.contents a.journal.config refusals).buffer.journal.Granted)
    {savedAt : Nat} {path : Path} {d d' : Directory}
    (saved : (a.saveHistory savedAt path d).value = (.ok (), d'))
    (loaded : ((Session.opened name a.contents a.journal.config refusals).buffer.loadHistory
      path d').value = (.ok true, c)) :
    a.Follows (renumbering (newestGroup a.journal.entries) a.journal.grouping.newest) [] c ∧
      c.journal.config = a.journal.config := by
  have sound := h.sound
  have text := Session.contents_opened name a.contents a.journal.config refusals
  have created : (Session.opened name a.contents a.journal.config refusals).buffer.Reachable :=
    .create name a.contents a.journal.config refusals
  have reached := created.of_loadHistory loaded
  obtain ⟨-, ⟨within, -⟩, rfl⟩ :=
    (loadHistory_save_eq_ok_iff sound.plain text saved).mp loaded
  obtain ⟨capacity, rest, -, created⟩ := Journal.value_create a.journal.config refusals
  let k : Journal := { capacity, config := a.journal.config, refusals := rest }
  have journal :
      (Session.opened name a.contents a.journal.config refusals).buffer.journal = k :=
    created
  have taken : (k.restore a.journal.entries a.journal.position a.journal.baseVersion
      a.journal.nextVersion).value = k.withHistory a.journal.entries a.journal.position
        a.journal.baseVersion a.journal.nextVersion :=
    Journal.value_restore_of_le (j := k) sound.length_le_ceiling within _ _
  rw [journal] at granted'
  rw [journal, taken] at reached ⊢
  have trails := Journal.trails_withHistory sound closed ended (k := k) rfl rfl rfl
  refine ⟨⟨?_, rfl, rfl⟩, rfl⟩
  exact
    { trails
      resting := fun _ => Or.inl rfl
      whole := ⟨Nat.le_refl _, fun _ => rfl⟩
      long := sound
      short := reached.sound
      openLast := Journal.openLast_of_closed rfl
      granted_long := granted
      granted_short := granted' }

/-! ## Runs -/

namespace Session

variable {f : Nat → Nat} {s t : Session Text}

/-- Where the ceilings are the same, a run is answered the same on both sides. -/
theorem follows_run (hf : Injective f) (h : s.buffer.Follows f [] t.buffer)
    (level : Buffer.Follows.Level s.buffer t.buffer) (actions : List Action) :
    (s.run actions).value.1 = (t.run actions).value.1 ∧
      (s.after actions).buffer.Follows f [] (t.after actions).buffer := by
  induction actions generalizing s t with
  | nil => exact ⟨rfl, h⟩
  | cons action rest ih =>
    obtain ⟨dropped, follows, answer⟩ := follows_act hf h action
      ⟨fun _ _ => rfl, fun _ _ _ => rfl⟩
    have level' : Buffer.Follows.Level (s.act action).value.2.buffer
        (t.act action).value.2.buffer := by
      rw [Buffer.Follows.Level, (s.act_becomes action).config, (t.act_becomes action).config]
      exact level
    obtain rfl := follows.journal.whole.2 level'
    obtain ⟨answers, follows'⟩ := ih follows level'
    simp only [run, Narrated.value_bind, Narrated.value_pure, after_cons]
    exact ⟨by rw [answer level, answers], follows'⟩

/-- What a user can tell of two sessions is the same, but for the numbers of
groups. -/
structure Alike (f : Nat → Nat) (s t : Session Text) : Prop where
  contents : s.contents = t.contents
  modified : s.buffer.isModified = t.buffer.isModified
  saved : s.buffer.savedVersion = t.buffer.savedVersion
  position : s.buffer.journal.position = t.buffer.journal.position
  length : s.buffer.journal.length = t.buffer.journal.length
  entries : s.buffer.journal.entries = t.buffer.journal.entries.map (·.regroup f)
  base : s.buffer.journal.baseVersion = t.buffer.journal.baseVersion
  current : s.buffer.journal.currentVersion = t.buffer.journal.currentVersion
  next : s.buffer.journal.nextVersion = t.buffer.journal.nextVersion
  bytes : s.buffer.journal.totalBytes = t.buffer.journal.totalBytes

theorem alike_of_follows (h : s.buffer.Follows f [] t.buffer) : s.Alike f t := by
  have trails := h.journal.trails
  have entries : s.buffer.journal.entries = t.buffer.journal.entries.map (·.regroup f) :=
    trails.entries
  have sizes (items : List Entry) :
      total Entry.size (items.map (·.regroup f)) = total Entry.size items := by
    simp [total, List.foldr_map]
  exact
    { contents := h.store
      modified := h.isModified
      saved := h.saved
      position := by simpa using trails.position
      length := by simpa [Journal.length] using trails.length
      entries
      base := trails.base.symm
      current := h.journal.currentVersion
      next := trails.next
      bytes := by rw [h.journal.long.bytes, h.journal.short.bytes, entries, sizes] }

/-- What is side by side counts on as far, where no number leads to a smaller one. -/
theorem countersFit_of_follows (h : s.buffer.Follows f [] t.buffer) (grows : ∀ id, id ≤ f id)
    (fit : s.buffer.journal.CountersFit) : t.buffer.journal.CountersFit := by
  have trails := h.journal.trails
  exact ⟨trails.next ▸ fit.1,
    Nat.lt_of_le_of_lt (trails.grouping.newest_le grows) fit.2⟩

end Session

/-- **A session goes on in a buffer that was reopened.** Whatever came about in
it: where no group and no typing run is open, and its history was saved, a new
buffer on the same text that takes the history over answers every run of actions
as the session does, and is like it at every point of the run, as long as the
counters of the session are words; those of the new buffer are as long. The
allocator refuses neither of them room to grow. -/
theorem reopened_session_goes_on (s : Session Text) (name : Text) (refusals : List Bool)
    (screen : Screen) (savedAt : Nat) (path : Path) (d d' : Directory) (b : Buffer Text)
    (reachable : s.buffer.Reachable) (closed : s.buffer.journal.grouping.depth = 0)
    (ended : s.buffer.journal.grouping.isSealed = true) (granted : s.buffer.journal.Granted)
    (granted' :
      (Session.opened name s.contents s.buffer.journal.config refusals).buffer.journal.Granted)
    (saved : (s.buffer.saveHistory savedAt path d).value = (.ok (), d'))
    (loaded : ((Session.opened name s.contents s.buffer.journal.config
      refusals).buffer.loadHistory path d').value = (.ok true, b)) :
    ∃ f, Injective f ∧ ∀ actions, (s.after actions).buffer.journal.CountersFit →
      let reopened : Session Text := { buffer := b, screen }
      (s.run actions).value.1 = (reopened.run actions).value.1 ∧
        ∀ n,
          let here := s.after (actions.take n)
          let there := reopened.after (actions.take n)
          here.buffer.journal.CountersFit ∧ there.buffer.journal.CountersFit ∧
            here.Alike f there := by
  obtain ⟨follows, config⟩ :=
    Buffer.reopened_follows reachable closed ended granted granted' saved loaded
  have level : Buffer.Follows.Level s.buffer b := Nat.le_of_eq (by rw [config])
  have injective := Journal.renumbering_injective (newestGroup s.buffer.journal.entries)
    s.buffer.journal.grouping.newest
  have grows := Journal.le_renumbering (newestGroup s.buffer.journal.entries)
    s.buffer.journal.grouping.newest
  refine ⟨_, injective, fun actions fit => ?_⟩
  have goes_on (actions : List Action) := Session.follows_run (t := { buffer := b, screen })
    injective follows level actions
  refine ⟨(goes_on actions).1, fun n => ?_⟩
  have behind := (goes_on (actions.take n)).2
  have fit_here := Session.countersFit_take fit n
  exact ⟨fit_here, Session.countersFit_of_follows behind grows fit_here,
    Session.alike_of_follows behind⟩

/-- A group, a group without changes, a change that is saved, and a step back. -/
def groupsAndSave : List Action :=
  [.groupBegin, .insert ⟨0, 1⟩ ['é', '\n'] 0, .groupEnd, .groupBegin, .groupEnd,
    .insert ⟨0, 0⟩ ['z'] 4, .markSaved, .step .undo]

/-- Its two entries are taken over, one of them undone. The next group has the
number 3 in the session, and 2 in the buffer that was reopened. Both go on for as
many requests as there are words behind these. -/
theorem groupsAndSave_goes_on :
    let s := (Session.opened [] ['a', 'b'] {}).after groupsAndSave
    let stored := (s.buffer.saveHistory 0 [['j']] {}).value
    ∃ b, ((Session.opened [] s.contents s.buffer.journal.config).buffer.loadHistory [['j']]
        stored.2).value = (.ok true, b) ∧
      ∃ f, Injective f ∧ ∀ actions, (s.requestsOf actions).length + 3 < Word.size →
        let reopened : Session Text := { buffer := b }
        (s.run actions).value.1 = (reopened.run actions).value.1 ∧
          ∀ n,
            let here := s.after (actions.take n)
            let there := reopened.after (actions.take n)
            here.buffer.journal.CountersFit ∧ there.buffer.journal.CountersFit ∧
              here.Alike f there := by
  intro s stored
  have created : (Session.opened [] ['a', 'b'] {}).buffer.Reachable := .create _ _ _ _
  have reachable : s.buffer.Reachable := created.after groupsAndSave
  have saved : stored = (.ok (), stored.2) := by rfl
  have text := Session.contents_opened [] s.contents s.buffer.journal.config []
  have loaded := (Buffer.loadHistory_save_eq_ok_iff reachable.sound.plain text saved).mpr
    ⟨by decide, by decide, rfl⟩
  obtain ⟨f, injective, goes_on⟩ := reopened_session_goes_on s [] [] {} 0 [['j']] {} stored.2 _
    reachable (by decide) (by decide) (by decide) (by decide) saved loaded
  refine ⟨_, loaded, f, injective, fun actions few => goes_on actions ?_⟩
  have counters : s.buffer.journal.nextVersion = 3 ∧ s.buffer.journal.grouping.newest = 2 := by
    decide
  rw [Session.journal_after]
  exact Journal.countersFit_serveAll _ (by omega) (by omega)

/-- A file whose only entry has the last group number. -/
def lastGroup : JournalFile := { lastNumbers with nextVersion := 2 }

/-- **A session may be left without a group number where the reopened buffer is not.** Once
the history of the file is cleared, no entry has the number, and the file that is saved then
does not say that it was given out. -/
theorem lastGroup_is_passed :
    ∃ b, ((Session.opened [] ['a'] {}).buffer.loadHistory [['j']] lastGroup.onDisk).value =
        (.ok true, b) ∧
      let s := ({ buffer := b } : Session Text).after [.clearHistory]
      let stored := (s.buffer.saveHistory 0 [['j']] {}).value
      s.buffer.Reachable ∧ s.buffer.journal.grouping.depth = 0 ∧
        s.buffer.journal.grouping.isSealed = true ∧ s.buffer.journal.Granted ∧
        s.buffer.journal.CountersFit ∧ stored.1 = .ok () ∧
        ∃ c, ((Session.opened [] s.contents s.buffer.journal.config).buffer.loadHistory [['j']]
            stored.2).value = (.ok true, c) ∧
          ¬ (s.after [.groupBegin]).buffer.journal.CountersFit ∧
          (({ buffer := c } : Session Text).after
            [.groupBegin]).buffer.journal.CountersFit := by
  have found := JournalFile.load_onDisk (f := lastGroup) (by decide) (by decide)
  have suits : lastGroup.Suits ['a'] _ := ⟨rfl, rfl, rfl, rfl⟩
  have accepted := (Buffer.loadHistory_eq_ok_true_iff_suits
    (b := (Session.opened [] ['a'] {}).buffer)).mpr ⟨_, _, found, suits, rfl⟩
  have created : (Session.opened [] ['a'] {}).buffer.Reachable := .create _ _ _ _
  have taken := created.of_loadHistory accepted
  refine ⟨_, accepted, ?_⟩
  intro s stored
  have reachable : s.buffer.Reachable := taken.after (s := { buffer := _ }) _
  have saved : stored = (.ok (), stored.2) := by rfl
  have text := Session.contents_opened [] s.contents s.buffer.journal.config []
  have loaded := (Buffer.loadHistory_save_eq_ok_iff reachable.sound.plain text saved).mpr
    ⟨by decide, by decide, rfl⟩
  exact ⟨reachable, by decide, by decide, by decide, by decide, rfl, _, loaded, by decide,
    by decide⟩

end EditJournal
