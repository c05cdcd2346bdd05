/-
EditJournal.Proofs.Runs — a ledger through a run of a session.

`Covers ledger b` says that the ledger accounts for the buffer `b`, and that
its saved version is one that was given out. `Carries later ledger b c` says
that on the way from `b` to `c` the ledger was only added to (`keeps`), still
accounts for the buffer, and has the same text before the first entry, unless
entries were lost.

## How the proof goes

A change is made on the storage first and then recorded; `Covers.record` says
that the two fit, for insertions and deletions alike. Steps and commands need
no new version. `act_carries` puts the actions together, one case each, and
`after_carries` is the induction over a run.

A change that was made elsewhere is taken on trust by the journal, so nothing
can be said of a run that records one (`Action.isForeign`).
-/
import EditJournal.Session
import EditJournal.Proofs.Bookkeeping

namespace EditJournal

/-- Is it a change that was not made through the buffer? -/
def Action.isForeign : Action → Bool
  | .record .. => true
  | _ => false

/-- Is it a number of steps at once? -/
def Action.isCommand : Action → Bool
  | .command .. => true
  | _ => false

namespace Ledger

/-- The ledger accounts for a buffer. -/
structure Covers (ledger : Ledger) (b : Buffer Text) : Prop where
  explains : ledger.Explains b.journal b.contents
  saved_lt : b.savedVersion < b.journal.nextVersion

/-- From one buffer to a later one the ledger was only added to. -/
structure Carries (later ledger : Ledger) (b c : Buffer Text) (lost : Prop) : Prop where
  covers : later.Covers c
  keeps : later.Extends ledger b.journal.nextVersion
  next_le : b.journal.nextVersion ≤ c.journal.nextVersion
  base : later c.journal.baseVersion = ledger b.journal.baseVersion ∨ lost

variable {ledger : Ledger} {b c : Buffer Text} {lost lost' : Prop}

namespace Carries

/-- Where the ledger stays, so do the versions. -/
theorem same (h : ledger.Covers b) (explains : ledger.Explains c.journal c.contents)
    (saved : c.savedVersion = b.savedVersion)
    (next : c.journal.nextVersion = b.journal.nextVersion)
    (base : c.journal.baseVersion = b.journal.baseVersion) :
    ledger.Carries ledger b c lost where
  covers := ⟨explains, by rw [saved, next]; exact h.saved_lt⟩
  keeps := Extends.refl ledger _
  next_le := Nat.le_of_eq next.symm
  base := Or.inl (by rw [base])

theorem refl (h : ledger.Covers b) : ledger.Carries ledger b b lost :=
  same h h.explains rfl rfl rfl

theorem trans {middle later : Ledger} {d : Buffer Text} (h : middle.Carries ledger b c lost)
    (h' : later.Carries middle c d lost') : later.Carries ledger b d (lost ∨ lost') where
  covers := h'.covers
  keeps := h.keeps.trans h'.keeps h.next_le
  next_le := Nat.le_trans h.next_le h'.next_le
  base := by
    rcases h'.base with hbase' | hlost'
    · rcases h.base with hbase | hlost
      · exact Or.inl (hbase'.trans hbase)
      · exact Or.inr (Or.inl hlost)
    · exact Or.inr (Or.inr hlost')

theorem mono {later : Ledger} (h : later.Carries ledger b c lost) (hl : lost → lost') :
    later.Carries ledger b c lost' :=
  { h with base := h.base.imp_right hl }

/-- A text entered under the fresh version. -/
theorem entered (h : ledger.Covers b)
    (entered : ledger.Entered c.journal b.journal.nextVersion c.contents)
    (saved : c.savedVersion = b.savedVersion)
    (base : c.journal.baseVersion = b.journal.baseVersion ∨ lost) :
    (ledger.enter b.journal.nextVersion c.contents).Carries ledger b c lost where
  covers := by
    refine ⟨entered.explains, ?_⟩
    have := h.saved_lt
    rw [saved, entered.next]
    omega
  keeps := ledger.enter_extends _ _
  next_le := by rw [entered.next]; omega
  base := by
    refine base.imp_left fun hbase => ?_
    rw [hbase]
    exact ledger.enter_extends _ _ _ h.explains.base_lt

end Carries

namespace Covers

/-! ## Changes -/

/-- A text under a fresh version is not the saved one. -/
theorem modified (h : ledger.Covers b) (saved : c.savedVersion = b.savedVersion)
    (current : c.journal.currentVersion = b.journal.nextVersion) : c.isModified = true := by
  have hlt := h.saved_lt
  have hne : c.journal.currentVersion ≠ c.savedVersion := by omega
  simpa [Buffer.isModified] using hne

/-- A change that was made on the storage is recorded. -/
theorem record {kind : EditKind} {place : Location} {text t : Text} (h : ledger.Covers b)
    (hkind : kind ≠ .replace) (he : Edit.Leads { kind, place, payload := text } b.contents t)
    (now : Nat) :
    ∃ (status : RecordStatus) (c : Buffer Text) (later : Ledger),
      (Buffer.record { b with store := t } kind place text now).value = (.ok status, c) ∧
      later.Carries ledger b c
        (evictionTold (Buffer.record { b with store := t } kind place text now).notes) ∧
      c.savedVersion = b.savedVersion ∧ (text ≠ [] → c.isModified = true) := by
  have idle := h.explains.idle
  -- a change of nothing is not journaled, and left the text as it was
  by_cases hne : text = []
  · have hsame : t = b.store := he.eq_of_nil hne
    have hv : (Buffer.record { b with store := t } kind place text now).value =
        (.ok .empty, b) := by
      simp [Buffer.record, Journal.record, idle, hkind, hne, hsame]
    exact ⟨_, _, ledger, hv, Carries.refl h, rfl, fun hne' => absurd hne hne'⟩
  · obtain ⟨status, k, hv, entered, hbase⟩ := h.explains.record now hkind hne he
    have hv' : (Buffer.record { b with store := t } kind place text now).value =
        (.ok status, { b with store := t, journal := k }) := by
      simp [Buffer.record, hv]
    refine ⟨_, _, _, hv', Carries.entered h entered rfl ?_, rfl, fun _ => ?_⟩
    · refine hbase.imp_right fun told =>
      evictionTold_of_subset told fun note hn => ?_
      simp [Buffer.record, hn]
    · exact h.modified rfl entered.current

/-- An insertion that succeeds is journaled; one that fails does nothing. -/
theorem insert (h : ledger.Covers b) (place : Location) (text : Text) (now : Nat) :
    ∃ later : Ledger, later.Carries ledger b (b.insert place text now).value.2
        (evictionTold (b.insert place text now).notes) ∧
      (b.insert place text now).value.2.savedVersion = b.savedVersion ∧
      (∀ stop, (b.insert place text now).value.1 = .ok stop → text ≠ [] →
        (b.insert place text now).value.2.isModified = true) := by
  cases hi : b.store.insertAt place text with
  | error cause =>
    have hv : (b.insert place text now).value = (.error (.storage place cause), b) := by
      simp [Buffer.insert, Storage.insert, Text.insertTold, hi]
    rw [hv]
    exact ⟨ledger, Carries.refl h, rfl, fun stop hstop => by simp at hstop⟩
  | ok outcome =>
    obtain ⟨stop, t⟩ := outcome
    obtain ⟨-, hins⟩ := (Text.insertAt_eq_ok_iff b.store place text stop t).mp hi
    have he : Edit.Leads { kind := .insert, place, payload := text } b.contents t := hins
    obtain ⟨status, c, later, hrec, hcarries, hsaved, hmod⟩ := h.record (by decide) he now
    have hv : (b.insert place text now).value = (.ok stop, c) := by
      simp [Buffer.insert, Storage.insert, Text.insertTold, hi, hrec, Except.map]
    rw [hv]
    refine ⟨later, hcarries.mono fun told =>
      evictionTold_of_subset told fun note hn => ?_, hsaved,
      fun _ _ => hmod⟩
    simp [Buffer.insert, Storage.insert, Text.insertTold, hi, hn]

/-- A deletion that succeeds is journaled; one that fails does nothing. -/
theorem delete (h : ledger.Covers b) (place : Location) (length now : Nat) :
    ∃ later : Ledger, later.Carries ledger b (b.delete place length now).value.2
        (evictionTold (b.delete place length now).notes) ∧
      (b.delete place length now).value.2.savedVersion = b.savedVersion ∧
      (∀ removed, (b.delete place length now).value.1 = .ok removed → removed ≠ [] →
        (b.delete place length now).value.2.isModified = true) := by
  cases hd : b.store.deleteAt place length with
  | error cause =>
    have hv : (b.delete place length now).value = (.error (.storage place cause), b) := by
      simp [Buffer.delete, Storage.delete, Text.deleteTold, hd]
    rw [hv]
    exact ⟨ledger, Carries.refl h, rfl, fun removed hr => by simp at hr⟩
  | ok outcome =>
    obtain ⟨removed, t⟩ := outcome
    obtain ⟨-, hins⟩ := (Text.deleteAt_eq_ok_iff b.store place length removed t).mp hd
    have he : Edit.Leads { kind := .delete, place, payload := removed } b.contents t := hins
    obtain ⟨status, c, later, hrec, hcarries, hsaved, hmod⟩ := h.record (by decide) he now
    have hv : (b.delete place length now).value = (.ok removed, c) := by
      simp [Buffer.delete, Storage.delete, Text.deleteTold, hd, hrec, Except.map]
    rw [hv]
    refine ⟨later, hcarries.mono fun told =>
      evictionTold_of_subset told fun note hn => ?_, hsaved,
      fun removed' hr hne => hmod ?_⟩
    · simp [Buffer.delete, Storage.delete, Text.deleteTold, hd, hn]
    · obtain rfl : removed = removed' := by simpa using hr
      exact hne

/-! ## Steps in the history -/

/-- A step goes to the text that the ledger has for the next position, or is
at the end of the history. -/
theorem step (h : ledger.Covers b) (direction : HistoryStep) :
    (b.journal.target? direction = none ∧ (b.step direction).value = (.ok none, b)) ∨
    ∃ index entry, b.journal.target? direction = some (index, entry) ∧
      (b.step direction).value = (.ok (some (entry.cursorAfter direction)),
        { b with
          journal := b.journal.stepped direction index
          store :=
            ledger (b.journal.versionAt (Journal.positionAfter index direction)) }) := by
  rcases h.explains.step direction with ⟨ht, hv⟩ | ⟨index, entry, ht, hv⟩
  · refine Or.inl ⟨ht, ?_⟩
    have hv : (b.journal.step direction b.store).value = (.ok none, b.journal, b.store) := hv
    simp [Buffer.step, hv]
  · refine Or.inr ⟨index, entry, ht, ?_⟩
    have hv : (b.journal.step direction b.store).value = _ := hv
    simp [Buffer.step, hv]

theorem step_carries (h : ledger.Covers b) (direction : HistoryStep) :
    ledger.Carries ledger b (b.step direction).value.2 False ∧
      (b.step direction).value.2.savedVersion = b.savedVersion := by
  rcases h.step direction with ⟨-, hv⟩ | ⟨index, entry, ht, hv⟩
  · rw [hv]
    exact ⟨Carries.refl h, rfl⟩
  · rw [hv]
    exact ⟨Carries.same h (h.explains.stepped ht) rfl rfl rfl, rfl⟩

theorem takeSteps_carries (h : ledger.Covers b) (report : CommandReport) (count : Nat) :
    ledger.Carries ledger b (b.takeSteps report count).value.2 False ∧
      (b.takeSteps report count).value.2.savedVersion = b.savedVersion := by
  induction count generalizing b report with
  | zero => exact ⟨Carries.refl h, rfl⟩
  | succ count ih =>
    obtain ⟨hstep, hsaved⟩ := h.step_carries report.direction
    simp only [Buffer.takeSteps, Narrated.value_bind]
    split
    · obtain ⟨hrest, hsaved'⟩ := ih hstep.covers { report with
        applied := report.applied + 1, cursor := some _ }
      refine ⟨(hstep.trans hrest).mono (by simp), hsaved'.trans hsaved⟩
    · exact ⟨hstep, hsaved⟩
    · exact ⟨hstep, hsaved⟩

theorem command_carries (h : ledger.Covers b) (direction : HistoryStep) (count : Nat)
    (screen : Screen) :
    ledger.Carries ledger b (b.command direction count screen).value.2.1 False ∧
      (b.command direction count screen).value.2.1.savedVersion = b.savedVersion := by
  -- the display bracket around the steps is no part of the journal
  have entered : ledger.Covers { b with depth := (EditScope.enter b.depth).value.2 } :=
    ⟨h.explains, h.saved_lt⟩
  obtain ⟨hsteps, hsaved⟩ := entered.takeSteps_carries { direction, requested := max count 1 }
    (max count 1)
  exact ⟨⟨⟨hsteps.covers.explains, hsteps.covers.saved_lt⟩, hsteps.keeps, hsteps.next_le,
    hsteps.base⟩, hsaved⟩

/-! ## Brackets and save points -/

theorem regroup_carries (h : ledger.Covers b) (grouping : Grouping) :
    ledger.Carries ledger b { b with journal := { b.journal with grouping } } False :=
  Carries.same h (h.explains.congr rfl rfl rfl rfl rfl) rfl rfl rfl

theorem markSaved_carries (h : ledger.Covers b) :
    ledger.Carries ledger b b.markSaved.value False where
  covers := ⟨h.explains.markSaved, h.explains.markSaved.currentVersion_lt⟩
  keeps := Extends.refl ledger _
  next_le := Nat.le_refl _
  base := Or.inl rfl

theorem clearHistory_carries (h : ledger.Covers b) :
    (ledger.enter b.journal.nextVersion b.contents).Carries ledger b b.clearHistory.value
      (b.journal.entries ≠ []) := by
  have cleared : (ledger.enter b.journal.nextVersion b.contents).Covers
      { b with journal := b.journal.clear.value } :=
    ⟨h.explains.clear, Nat.lt_succ_of_lt h.saved_lt⟩
  refine ⟨cleared.markSaved_carries.covers, ledger.enter_extends _ _, Nat.le_succ _, ?_⟩
  by_cases hnil : b.journal.entries = []
  · left
    rw [h.explains.base_of_nil hnil]
    exact enter_same _ _ _
  · exact Or.inr hnil

end Covers

end Ledger

/-! ## Actions -/

namespace Session

variable {s : Session Text} {ledger : Ledger}

/-- Does an action drop an entry to make room, or clear a history that has
entries? -/
def losesAt (s : Session Text) (action : Action) : Bool :=
  evictionTold (s.act action).notes ||
    (action = .clearHistory && !s.buffer.journal.entries.isEmpty)

/-- Does one of the actions of a run? -/
def loses (s : Session Text) : List Action → Bool
  | [] => false
  | action :: rest => s.losesAt action || (s.act action).value.2.loses rest

theorem losesAt_of_told {action : Action} (h : evictionTold (s.act action).notes) :
    s.losesAt action := by
  simp [losesAt, h]

theorem buffer_groupEnd (s : Session Text) :
    (s.act .groupEnd).value.2.buffer =
      { s.buffer with
        journal :=
          { s.buffer.journal with grouping := s.buffer.journal.grouping.close.2 } } := by
  cases hc : s.buffer.journal.grouping.close with
  | mk result grouping =>
    cases result <;> simp [act, Buffer.groupEnd, Journal.groupEnd, hc]

/-- What one action does to a ledger. -/
theorem act_carries (h : ledger.Covers s.buffer) {action : Action}
    (own : action.isForeign = false) :
    ∃ later : Ledger, later.Carries ledger s.buffer (s.act action).value.2.buffer
      (s.losesAt action) := by
  cases action with
  | insert place text now =>
    obtain ⟨later, hcarries, -⟩ := h.insert place text now
    exact ⟨later, hcarries.mono fun told => losesAt_of_told (by simpa [act] using told)⟩
  | delete place length now =>
    obtain ⟨later, hcarries, -⟩ := h.delete place length now
    exact ⟨later, hcarries.mono fun told => losesAt_of_told (by simpa [act] using told)⟩
  | record kind place text now => simp [Action.isForeign] at own
  | step direction => exact ⟨ledger, (h.step_carries direction).1.mono False.elim⟩
  | command direction count =>
    exact ⟨ledger, (h.command_carries direction count s.screen).1.mono False.elim⟩
  | endRun =>
    exact ⟨ledger, (h.regroup_carries s.buffer.journal.grouping.endRun).mono False.elim⟩
  | groupBegin =>
    exact ⟨ledger, (h.regroup_carries s.buffer.journal.grouping.begin).mono False.elim⟩
  | groupEnd =>
    refine ⟨ledger, ?_⟩
    rw [buffer_groupEnd]
    exact (h.regroup_carries s.buffer.journal.grouping.close.2).mono False.elim
  | markSaved => exact ⟨ledger, h.markSaved_carries.mono False.elim⟩
  | clearHistory =>
    exact ⟨_, h.clearHistory_carries.mono fun hne => by simp [losesAt, hne]⟩

/-- **What a run does to a ledger.** -/
theorem after_carries (h : ledger.Covers s.buffer) {actions : List Action}
    (own : ∀ action ∈ actions, action.isForeign = false) :
    ∃ later : Ledger, later.Carries ledger s.buffer (s.after actions).buffer
      (s.loses actions) := by
  -- on the actions; each goes on from the ledger that the one before it left
  induction actions generalizing s ledger with
  | nil => exact ⟨ledger, .refl h⟩
  | cons action rest ih =>
    obtain ⟨middle, hfirst⟩ := act_carries h (own action (by simp))
    obtain ⟨later, hrest⟩ := ih (s := (s.act action).value.2) hfirst.covers
      fun a ha => own a (by simp [ha])
    exact ⟨later, (hfirst.trans hrest).mono fun lost => by simpa [loses] using lost⟩

/-- A new session is covered by the text it starts with. -/
theorem opened_covers (name : Text) (start : Text) (config : Config) (refusals : List Bool) :
    Ledger.Covers (fun _ => start) (opened name start config refusals).buffer := by
  obtain ⟨capacity, rest, -, created⟩ := Journal.value_create config refusals
  simp only [opened, Buffer.create, Narrated.value_bind, Narrated.value_pure, created]
  exact ⟨.fresh start rfl rfl rfl Nat.zero_lt_one, Nat.zero_lt_one⟩

end Session

end EditJournal
