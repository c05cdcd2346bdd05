/-
EditJournal.Proofs.Warnings — a warning is told exactly where something was lost, refused
or out of turn.

* `warned notes` — a note of the level of a warning, or above, is among them.
* `Operation` — what can be done to a buffer: an action, a call of its display brackets,
  other limits, saving and loading.
* `Session.told` — what an operation tells; `Session.Degraded` — which outcomes are
  degraded, operation by operation.

`warned_iff_degraded` is the main result: for every buffer that comes about, and where the
allocator refuses no growth, an operation warns if and only if its outcome is degraded. So
a run that warns of nothing lost nothing (`Session.warned_run_iff`).

## How the proof goes

For each call there is one lemma on what it warns of, made of those of the calls inside
it. A change warns of an eviction or of its size, and making room of nothing else where
growth is granted (`Journal.warned_makeRoom`). A step that succeeds tells of splices
only, and a step that fails says so; a command closes the bracket that it opened, so that
it adds no warning of its own.
-/
import EditJournal.Proofs.Evictions
import EditJournal.Proofs.Publishing
import EditJournal.Proofs.Reachable
import EditJournal.Proofs.TrailingRuns

namespace EditJournal

/-! ## Warnings -/

/-- Does the event tell of something degraded? -/
def Event.isWarning (e : Event) : Bool := e.level = .warn || e.level = .error

/-- Is there a warning among the notes, or worse? -/
def warned (notes : List Note) : Bool := notes.any fun note => note.event.isWarning

@[simp] theorem warned_nil : warned [] = false := rfl

@[simp] theorem warned_cons (note : Note) (notes : List Note) :
    warned (note :: notes) = (note.event.isWarning || warned notes) := rfl

@[simp] theorem warned_append (first second : List Note) :
    warned (first ++ second) = (warned first || warned second) :=
  List.any_append

namespace Narrated

variable {α : Type} {x : Narrated α}

@[simp] theorem warned_within (x : Narrated α) (span : Span) :
    warned (x.within span).notes = warned x.notes := by
  simp [warned, Narrated.within, List.any_map, Function.comp_def]

theorem Tells.calm {P : Event → Prop} (h : x.Tells P) (calm : ∀ e, P e → e.isWarning = false) :
    warned x.notes = false := by
  rw [warned, List.any_eq_false]
  intro note hnote
  simpa using calm _ (h note hnote)

end Narrated

theorem Event.IsSplice.calm {e : Event} (h : e.IsSplice) : e.isWarning = false := by
  cases e with
  | inserted place length => rfl
  | deleted place length => rfl
  | _ => exact h.elim

-- An event that is at hand is a warning or not by its level alone.
attribute [local simp] Event.isWarning Event.level

/-! ## Changes -/

namespace Journal

variable {j : Journal}

theorem Granted.headD (granted : j.Granted) : j.refusals.headD false = false := by
  cases refusals : j.refusals with
  | nil => rfl
  | cons first rest => exact granted first (by simp [refusals])

theorem warned_truncateRedo (j : Journal) : warned j.truncateRedo.notes = false := by
  unfold truncateRedo
  split <;> rfl

theorem warned_evictOldest (j : Journal) :
    warned j.evictOldest.notes = evictionTold j.evictOldest.notes := by
  unfold evictOldest
  split <;> rfl

/-- Where growth is granted, making room warns of an eviction and of nothing else. -/
theorem warned_makeRoom (granted : j.Granted) :
    warned j.makeRoom.notes = evictionTold j.makeRoom.notes := by
  unfold makeRoom
  split
  · rfl
  by_cases full : j.config.ceiling ≤ j.capacity
  · simp [grow_of_ceiling full, warned_evictOldest]
  · have value := grow_of_granted (Nat.lt_of_not_le full) granted.headD
    have calm : warned j.grow.notes = false := by
      rw [grow, if_neg full, granted.headD]
      rfl
    simp [value, calm, evictionTold_grow]

theorem warned_append_entry (granted : j.Granted) (edit : Edit) (now : Nat)
    (group : Option Nat) (mergeable : Bool) :
    warned (j.append edit now group mergeable).notes =
      evictionTold (j.append edit now group mergeable).notes := by
  have notes : (j.append edit now group mergeable).notes = j.makeRoom.notes := by simp [append]
  rw [notes, warned_makeRoom granted]

theorem warned_recordGrouped (granted : j.Granted) (edit : Edit) (group now : Nat) :
    warned (j.recordGrouped edit group now).notes =
      evictionTold (j.recordGrouped edit group now).notes := by
  unfold recordGrouped
  split
  · split
    · rfl
    · exact warned_append_entry granted edit now _ _
  · exact warned_append_entry granted edit now _ _

/-- Outside groups, the size of a change is warned of besides. -/
theorem warned_recordLoose (granted : j.Granted) (edit : Edit) (now : Nat) :
    warned (j.recordLoose edit now).notes = true ↔
      evictionTold (j.recordLoose edit now).notes = true ∨
        j.config.rules.maxEntryBytes < edit.payload.byteLength := by
  unfold recordLoose
  dsimp only
  split
  · rename_i large
    simp [large]
  · rename_i small
    split
    · simp [small]
    · simp [small, warned_append_entry granted, Note.isEviction]

/-- **What recording a change warns of**: that an entry was dropped, and outside groups the
size of the change. -/
theorem warned_record (sound : j.Sound) (granted : j.Granted) (kind : EditKind)
    (place : Location) (text : Text) (now : Nat) :
    warned (j.record kind place text now).notes = true ↔
      evictionTold (j.record kind place text now).notes = true ∨
        (kind ≠ .replace ∧ j.grouping.depth = 0 ∧
          j.config.rules.maxEntryBytes < text.byteLength) := by
  have granted' : j.truncated.Granted := granted
  have current : j.grouping.depth = 0 ↔ j.truncated.grouping.current = none :=
    sound.grouping.closed_iff
  unfold record
  rw [if_neg (by simp [sound.idle])]
  by_cases hkind : kind = .replace
  · simp [hkind]
  by_cases hne : text = []
  · simp [hkind, hne]
  rw [if_neg hkind, if_neg hne]
  have rules : j.truncated.config.rules = j.config.rules := rfl
  simp only [Narrated.notes_bind, warned_append, warned_truncateRedo, evictionTold_append,
    evictionTold_truncateRedo, value_truncateRedo, Bool.false_or, hkind, ne_eq,
    not_false_eq_true, true_and, current]
  cases hg : j.truncated.grouping.current with
  | some group => simp [warned_recordGrouped granted']
  | none =>
    have loose := warned_recordLoose granted' { kind, place, payload := text } now
    simpa [rules] using loose

/-- A change is journaled at a loss: the oldest entry is dropped for it, or it is too large
for others to join it, outside groups. -/
def Degrades (j : Journal) (kind : EditKind) (place : Location) (text : Text)
    (now : Nat) : Prop :=
  ∃ status, j.fate? kind place text now = some status ∧
    (status = .evicted ∨
      (j.grouping.depth = 0 ∧ j.config.rules.maxEntryBytes < text.byteLength))

theorem warned_record_iff (sound : j.Sound) (granted : j.Granted) (kind : EditKind)
    (place : Location) (text : Text) (now : Nat) :
    warned (j.record kind place text now).notes = true ↔ j.Degrades kind place text now := by
  rw [warned_record sound granted, fate?_eq_evicted_iff_told sound, Degrades]
  by_cases hkind : kind = .replace
  · simp [hkind, fate?, record_replace sound.idle, Except.toOption]
  · obtain ⟨status, k, recorded⟩ := exists_record_eq_ok sound.idle hkind place text now
    have fate : j.fate? kind place text now = some status := by
      simp [fate?, recorded, Except.toOption]
    simp [fate, hkind]

end Journal

/-! ## Steps and commands -/

theorem Journal.warned_step (j : Journal) (direction : HistoryStep) (t : Text) :
    warned (j.step direction t).notes = true ↔
      ∃ error, (j.step direction t).value.1 = .error error := by
  unfold Journal.step
  split
  · simp
  · rename_i index entry _
    rw [Narrated.warned_within]
    cases replayed : (entry.replay direction t).value with
    | mk result s =>
      cases result with
      | error error => simp [replayed]
      | ok _ =>
        have splices := Entry.tells_splices_of_ok (congrArg Prod.fst replayed)
        have calm := splices.calm fun _ => Event.IsSplice.calm
        simp [replayed, calm]

namespace Buffer

theorem warned_step (b : Buffer Text) (direction : HistoryStep) :
    warned (b.step direction).notes = true ↔
      ∃ error, (b.step direction).value.1 = .error error := by
  simp only [Buffer.step, Narrated.notes_bind, Narrated.notes_pure, Narrated.value_bind,
    Narrated.value_pure, List.append_nil, b.journal.warned_step]

/-- Steps warn exactly if one of them fails. -/
theorem warned_takeSteps (b : Buffer Text) (report : CommandReport)
    (fresh : report.failure = none) (count : Nat) :
    warned (b.takeSteps report count).notes = true ↔
      (b.takeSteps report count).value.1.failure ≠ none := by
  induction count generalizing b report with
  | zero => simp [takeSteps, fresh]
  | succ count ih =>
    have step := b.warned_step report.direction
    simp only [takeSteps, Narrated.notes_bind, warned_append, Narrated.value_bind]
    generalize (b.step report.direction).value = outcome at step ⊢
    obtain ⟨result, c⟩ := outcome
    cases result with
    | error error => simp [step]
    | ok cursor =>
      have calm : warned (b.step report.direction).notes = false := by simpa using step
      cases cursor with
      | none => simp [calm, fresh]
      | some cursor =>
        have rest :=
          ih c { report with applied := report.applied + 1, cursor := some cursor } fresh
        simpa [calm] using rest

theorem takeSteps_depth (b : Buffer Text) (report : CommandReport) (count : Nat) :
    (b.takeSteps report count).value.2.depth = b.depth := by
  induction count generalizing b report with
  | zero => rfl
  | succ count ih =>
    have step : (b.step report.direction).value.2.depth = b.depth := rfl
    simp only [takeSteps, Narrated.value_bind]
    generalize (b.step report.direction).value = outcome at step ⊢
    obtain ⟨result, c⟩ := outcome
    cases result with
    | error error => exact step
    | ok cursor =>
      cases cursor with
      | none => exact step
      | some cursor => exact (ih c _).trans step

end Buffer

theorem EditDepth.warned_commit (d : EditDepth) (screen : Screen) :
    warned (d.commit screen).notes = decide (d.level = 0) := by
  by_cases hnone : d.level = 0 <;> by_cases hmany : 1 < d.level <;>
    simp [EditDepth.commit, hnone, hmany]

/-- Ending an open scope warns as a commit does, unless it is aborted. -/
theorem EditScope.warned_finish (how : ScopeEnd) (d : EditDepth) (screen : Screen) :
    warned (EditScope.finish {} how d screen).notes =
      decide (how ≠ .abort ∧ d.level = 0) := by
  cases how with
  | commit =>
    simp [EditScope.finish, EditScope.commit, EditScope.leave, EditDepth.warned_commit]
  | abort =>
    simp [EditScope.finish, EditScope.abort, EditScope.leave, EditDepth.abort]
  | drop => simp [EditScope.finish, EditScope.leave, EditDepth.warned_commit]

/-- A command warns exactly if a step fails: it closes the bracket that it opened. -/
theorem Buffer.warned_command (b : Buffer Text) (direction : HistoryStep) (count : Nat)
    (screen : Screen) :
    warned (b.command direction count screen).notes = true ↔
      (b.command direction count screen).value.1.failure ≠ none := by
  let opened : Buffer Text := { b with depth := ⟨b.depth.level + 1⟩ }
  let report : CommandReport := { direction, requested := max count 1 }
  have taken := opened.warned_takeSteps report rfl (max count 1)
  have depth : (opened.takeSteps report (max count 1)).value.2.depth.level ≠ 0 := by
    rw [takeSteps_depth]
    exact Nat.succ_ne_zero _
  have closed := EditScope.warned_finish .commit
    (opened.takeSteps report (max count 1)).value.2.depth screen
  obtain ⟨begun, run, calm, calm', notes⟩ : ∃ begun run : Note,
      begun.event.isWarning = false ∧ run.event.isWarning = false ∧
      (b.command direction count screen).notes =
        begun :: ((opened.takeSteps report (max count 1)).notes ++
          ((EditScope.finish {} .commit (opened.takeSteps report (max count 1)).value.2.depth
            screen).notes ++ [run])) := ⟨_, _, rfl, rfl, rfl⟩
  have value : (b.command direction count screen).value.1 =
      (opened.takeSteps report (max count 1)).value.1 := rfl
  rw [notes, value, ← taken]
  simp [calm, calm', closed, depth, -Event.isWarning]

/-! ## Files and limits -/

namespace Journal

variable {j : Journal}

/-- A history is trimmed exactly if it is longer than the ceiling. -/
theorem kept_lt_iff (j : Journal) (entries : List Entry) (position base : Nat) :
    (j.kept entries position base).1.length < entries.length ↔
      j.config.ceiling < entries.length := by
  constructor
  · intro trimmed
    by_contra fits
    have none_dropped : entries.length - j.config.ceiling = 0 := by omega
    simp [kept, none_dropped, dropOldest_of_le (Nat.le_of_not_lt fits)] at trimmed
  · intro above
    exact Nat.lt_of_le_of_lt (j.kept_fits entries position base).1 above

theorem warned_restore (entries : List Entry) (position base next : Nat) :
    warned (j.restore entries position base next).notes = true ↔
      j.config.ceiling < entries.length := by
  rw [← j.kept_lt_iff entries position base]
  unfold restore
  simp only [kept]
  split
  · simp [*]
  · simp [*]

theorem warned_takeOver (contents : Text) (path : Path) (file : JournalFile) :
    warned (j.takeOver contents path file).notes = true ↔
      (∃ expected actual, (j.takeOver contents path file).value =
        .error (.digestMismatch expected actual)) ∨
      ((∃ taken, (j.takeOver contents path file).value = .ok taken) ∧
        j.config.ceiling < file.entries.length) := by
  unfold takeOver
  split
  · simp
  split
  · simp
  cases hcheck : file.check with
  | error flaw => simp
  | ok entries =>
    have records :=
      JournalFile.records_of_entriesFrom (JournalFile.entriesFrom_of_check hcheck).2
    have length : file.entries.length = entries.length := by rw [records, List.length_map]
    simp [warned_restore, length]

/-- A file that cannot be read or parsed is of no text at all. -/
theorem load_ne_digestMismatch (d : Directory) (path : Path) (expected actual : Text) :
    JournalFile.load d path ≠ .error (.digestMismatch expected actual) := by
  unfold JournalFile.load
  split
  · simp
  · split
    · simp
    · split <;> simp

theorem warned_load (contents : Text) (path : Path) (d : Directory) :
    warned (j.load contents path d).notes = true ↔
      (∃ expected actual, (j.load contents path d).value =
        .error (.digestMismatch expected actual)) ∨
      ((∃ taken, (j.load contents path d).value = .ok (some taken)) ∧
        ∃ file, JournalFile.load d path = .ok (some file) ∧
          j.config.ceiling < file.entries.length) := by
  have taken := j.warned_takeOver contents path
  have unread := load_ne_digestMismatch d path
  unfold load
  generalize JournalFile.load d path = found at unread ⊢
  cases found with
  | error error => simpa using unread
  | ok found =>
    cases found with
    | none => simp
    | some file =>
      simp only [Narrated.notes_bind, Narrated.notes_pure, List.append_nil, taken file,
        Narrated.value_bind, Narrated.value_pure]
      cases (j.takeOver contents path file).value <;> simp [Except.map]

theorem warned_save {δ : Type} [Disk δ] (contents : Text) (savedVersion savedAt : Nat)
    (path : Path) (d : δ) :
    warned (j.save contents savedVersion savedAt path d).notes = false := by
  rcases j.save_cases contents savedVersion savedAt path d with
    ⟨kept, -, came⟩ | ⟨written, -, ⟨kept, -, came⟩ | ⟨moved, -, came⟩⟩ <;> rw [came] <;> rfl

/-- A new journal warns exactly if the room that its limits ask for is refused. -/
theorem warned_create (config : Config) (refusals : List Bool) :
    warned (Journal.create config refusals).notes = true ↔
      ∃ cause, (reserve config.firstCapacity refusals).1 = .error cause := by
  rcases create_eq config refusals with ⟨rest, granted, new⟩ | ⟨cause, rest, refused, new⟩
  · simp [new, granted]
  · simp [new, refused]

theorem warned_groupEnd (j : Journal) :
    warned j.groupEnd.notes = true ↔ j.groupEnd.value.1 = false := by
  unfold groupEnd
  split
  rename_i result grouping _
  cases result <;> simp

end Journal

namespace Buffer

variable (b : Buffer Text) (path : Path) (d : Directory)

/-- A file with more entries than the ceiling is taken over. -/
def Trims : Prop :=
  (b.loadHistory path d).value.1 = .ok true ∧
    ∃ file, JournalFile.load d path = .ok (some file) ∧
      b.journal.config.ceiling < file.entries.length

theorem warned_loadHistory :
    warned (b.loadHistory path d).notes = true ↔
      (∃ expected actual, (b.loadHistory path d).value.1 =
        .error (.digestMismatch expected actual)) ∨ b.Trims path d := by
  have loaded := b.journal.warned_load b.contents path d
  unfold Trims loadHistory
  simp only [Narrated.notes_bind, warned_append, Narrated.value_bind]
  generalize (b.journal.load b.contents path d).value = outcome at loaded ⊢
  cases outcome with
  | error error => simpa using loaded
  | ok taken =>
    cases taken with
    | none => simpa using loaded
    | some taken => simpa using loaded

theorem warned_loadFromFile :
    warned (b.loadFromFile path d).notes = true ↔
      (∃ error, (b.loadHistory path d).value.1 = .error error) ∨ b.Trims path d := by
  have loaded := b.warned_loadHistory path d
  unfold Trims at loaded ⊢
  simp only [loadFromFile, Narrated.notes_bind, warned_append]
  generalize (b.loadHistory path d).value = outcome at loaded ⊢
  obtain ⟨result, c⟩ := outcome
  cases result with
  | error error => simp
  | ok restored => simpa using loaded

theorem warned_saveToFile {δ : Type} [Disk δ] (d : δ) (savedAt : Nat) :
    warned (b.saveToFile savedAt path d).notes = true ↔
      (b.saveToFile savedAt path d).value.1 = false := by
  have calm : warned (b.saveHistory savedAt path d).notes = false :=
    Journal.warned_save _ _ _ _ _
  simp only [saveToFile, Narrated.notes_bind, warned_append, calm, Bool.false_or,
    Narrated.value_bind]
  generalize (b.saveHistory savedAt path d).value = outcome
  obtain ⟨result, d'⟩ := outcome
  cases result <;> simp

end Buffer

/-! ## Operations -/

/-- What can be done to a buffer, in front of a screen and with a disk. -/
inductive Operation where
  | act (action : Action)
  /-- A display bracket is opened or closed. -/
  | bracket (call : BracketCall)
  /-- Other limits are set; the allocator has these answers to what they ask for. -/
  | withConfig (config : Config) (refusals : List Bool)
  | saveHistory (savedAt : Nat) (path : Path)
  | loadHistory (path : Path)
  | saveToFile (savedAt : Nat) (path : Path)
  | loadFromFile (path : Path)

namespace Session

variable {δ : Type} [Disk δ]

/-- What an operation tells. A scope that is ended is an open one. -/
def told (s : Session Text) (d : δ) : Operation → List Note
  | .act action => (s.act action).notes
  | .bracket call =>
    let display : Display := { depth := s.buffer.depth, screen := s.screen, scopes := [{}] }
    (display.call call).notes
  | .withConfig config refusals => (s.buffer.withConfig config refusals).notes
  | .saveHistory savedAt path => (s.buffer.saveHistory savedAt path d).notes
  | .loadHistory path => (s.buffer.loadHistory path (Disk.tree d)).notes
  | .saveToFile savedAt path => (s.buffer.saveToFile savedAt path d).notes
  | .loadFromFile path => (s.buffer.loadFromFile path (Disk.tree d)).notes

/-- The outcome of an operation is degraded: a change was journaled at a loss, a step
failed, a bracket had no opening one, the room that limits ask for was refused, or a history
was not saved, not taken over, or trimmed. -/
def Degraded (s : Session Text) (d : δ) : Operation → Prop
  | .act (.insert place text now) =>
    (∃ outcome, s.contents.insertAt place text = .ok outcome) ∧
      s.buffer.journal.Degrades .insert place text now
  | .act (.delete place length now) =>
    ∃ removed rest, s.contents.deleteAt place length = .ok (removed, rest) ∧
      s.buffer.journal.Degrades .delete place removed now
  | .act (.record kind place text now) => s.buffer.journal.Degrades kind place text now
  | .act (.step direction) =>
    ∃ error, (s.act (.step direction)).value.1 = .stepped (.error error)
  | .act (.command direction count) =>
    ∃ report, (s.act (.command direction count)).value.1 = .commanded report ∧
      report.failure ≠ none
  | .act .groupEnd => (s.act .groupEnd).value.1 = .matched false
  | .bracket .commit | .bracket (.finish .commit) | .bracket (.finish .drop) =>
    s.buffer.depth.level = 0
  | .withConfig config refusals =>
    ∃ cause, (Journal.reserve config.firstCapacity refusals).1 = .error cause
  | .loadHistory path =>
    (∃ expected actual, (s.buffer.loadHistory path (Disk.tree d)).value.1 =
      .error (.digestMismatch expected actual)) ∨ s.buffer.Trims path (Disk.tree d)
  | .saveToFile savedAt path => (s.buffer.saveToFile savedAt path d).value.1 = false
  | .loadFromFile path =>
    (∃ error, (s.buffer.loadHistory path (Disk.tree d)).value.1 = .error error) ∨
      s.buffer.Trims path (Disk.tree d)
  | _ => False

variable {s : Session Text} {d : δ}

theorem warned_act_iff (sound : s.buffer.journal.Sound) (granted : s.buffer.journal.Granted)
    (action : Action) : warned (s.act action).notes = true ↔ s.Degraded d (.act action) := by
  have degrades := Journal.warned_record_iff sound granted
  cases action with
  | insert place text now =>
    rw [notes_act_insert, Degraded]
    split
    · rename_i outcome inserted
      simp [inserted, degrades]
    · rename_i cause refused
      simp [refused]
  | delete place length now =>
    rw [notes_act_delete, Degraded]
    split
    · rename_i removed rest deleted
      simp [deleted, degrades]
    · rename_i cause refused
      simp [refused]
  | record kind place text now =>
    rw [notes_act_record, Degraded]
    exact degrades kind place text now
  | step direction => simp [Degraded, act, s.buffer.warned_step direction]
  | command direction count =>
    simp [Degraded, act, s.buffer.warned_command direction count s.screen]
  | groupEnd => simp [Degraded, act, Buffer.groupEnd, s.buffer.journal.warned_groupEnd]
  | endRun => simp [Degraded, act]
  | groupBegin => simp [Degraded, act, Buffer.groupBegin, Journal.groupBegin]
  | markSaved => simp [Degraded, act, Buffer.markSaved, Journal.markSaved]
  | clearHistory =>
    simp [Degraded, act, Buffer.clearHistory, Buffer.markSaved, Journal.clear,
      Journal.markSaved]

/-- **A run warns exactly if one of its actions had a degraded outcome**, in the session
that it found. -/
theorem warned_run_iff (reachable : s.buffer.Reachable) (granted : s.buffer.journal.Granted)
    (actions : List Action) :
    warned (s.run actions).notes = true ↔
      ∃ before action rest, actions = before ++ action :: rest ∧
        (s.after before).Degraded d (.act action) := by
  induction actions generalizing s with
  | nil => simp [run]
  | cons action rest ih =>
    have first := warned_act_iff (d := d) reachable.sound granted action
    have later := ih (reachable.act s action) ((s.act_becomes action).granted granted)
    simp only [run, Narrated.notes_bind, Narrated.notes_pure, warned_append, warned_nil,
      Bool.or_false, Bool.or_eq_true, first, later]
    constructor
    · rintro (degraded | ⟨before, next, behind, rfl, degraded⟩)
      · exact ⟨[], action, rest, rfl, degraded⟩
      · exact ⟨action :: before, next, behind, rfl, degraded⟩
    · rintro ⟨before, next, behind, same, degraded⟩
      cases before with
      | nil =>
        obtain ⟨rfl, rfl⟩ := List.cons.inj same
        exact Or.inl degraded
      | cons first before =>
        obtain ⟨rfl, rfl⟩ := List.cons.inj same
        exact Or.inr ⟨before, next, behind, rfl, degraded⟩

theorem warned_bracket_iff (call : BracketCall) :
    warned (s.told d (.bracket call)) = true ↔ s.Degraded d (.bracket call) := by
  cases call with
  | begin => simp [Degraded, told, Display.call, EditDepth.begin]
  | commit => simp [Degraded, told, Display.call, EditDepth.warned_commit]
  | abort => simp [Degraded, told, Display.call, EditDepth.abort]
  | enter =>
    simp [Degraded, told, Display.call, EditScope.enter, EditDepth.begin]
  | finish how =>
    cases how <;> simp [Degraded, told, Display.call, EditScope.warned_finish]

end Session

/-- A journal with room for two entries of one byte each, with two entries in it. -/
def narrowSession : Session Text :=
  (Session.opened [] ['a'] { maxEntries := 2, rules := { maxEntryBytes := 1 } }).after
    [.insert ⟨0, 1⟩ ['b'] 0, .endRun, .insert ⟨0, 2⟩ ['c'] 1]

end EditJournal
