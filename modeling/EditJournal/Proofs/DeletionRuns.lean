/-
EditJournal.Proofs.DeletionRuns — a run of deletions is one step in the history.

* `Deletion` — a deletion and the text it takes out; `Deletion.GoesOn direction place`
  — it goes on with a run that stands at a place.
* `Deletion.IsRun direction` — each deletion goes on with the run of those before it.
* `Deletion.joined direction first rest` — what they are joined to: backward the place
  moves and the texts are put in front, forward the place stays and they are put behind.
* `Session.Deletes` — the state behind such a run.

`deletion_run_is_one_step` is the main result.

## How the proof goes

The rules find out by themselves which way a run goes, from where the second deletion
stands, and cannot confuse the two ways (`Coalesce.planDelete_of_starts`,
`Coalesce.planDelete_of_ends`): `planDelete_of_goesOn` says how a deletion is planned, the
run's own way or the other one. One deletion more keeps `Session.Deletes`
(`Deletes.next`); the induction is from the back, since it is the run of the earlier ones
that the last one meets. That the run leads from the text before it to the text behind it
needs no splitting of texts, only that what is joined leads where the two steps led.
-/
import Mathlib.Data.List.Chain
import Mathlib.Data.List.Induction
import EditJournal.Proofs.DeletionSides
import EditJournal.Proofs.GroupBrackets
import EditJournal.Proofs.TypingRuns

namespace EditJournal

/-! ## Runs of deletions -/

/-- The last link of a chain. -/
theorem isChain_cons_concat {α : Type} {R : α → α → Prop} {first last : α} {rest : List α} :
    (first :: (rest ++ [last])).IsChain R ↔
      (first :: rest).IsChain R ∧ R (rest.getLastD first) last := by
  rw [← List.cons_append, List.isChain_append]
  simp [List.getLast?_cons, List.getLastD_eq_getLast?]

/-- The other way. -/
def RunDirection.opposite : RunDirection → RunDirection
  | backward => forward
  | forward => backward

@[simp] theorem RunDirection.opposite_opposite (direction : RunDirection) :
    direction.opposite.opposite = direction := by
  cases direction <;> rfl

/-- How a deletion joins a run of this direction. -/
def RunDirection.splice : RunDirection → Splice
  | backward => .backspace
  | forward => .forwardDelete

/-- A deletion that takes `text` out at a place. -/
structure Deletion where
  place : Location
  text : Text
  now : Nat
  deriving DecidableEq, Repr

namespace Deletion

def action (d : Deletion) : Action := .delete d.place d.text.byteLength d.now

/-- What the action answers if that is what it takes out. -/
def answer (d : Deletion) : Answer := .deleted (.ok d.text)

def edit (d : Deletion) : Edit := { kind := .delete, place := d.place, payload := d.text }

/-- Does a deletion go on with a run that stands at a place? Backward it ends there,
forward it starts there. -/
def GoesOn (d : Deletion) : RunDirection → Location → Prop
  | .backward, place => d.place.advance d.text = place
  | .forward, place => d.place = place

/-- What the deletions of a run are joined to. -/
def joined (direction : RunDirection) (first : Deletion) (rest : List Deletion) : Edit where
  kind := .delete
  place :=
    match direction with
    | .backward => (rest.getLastD first).place
    | .forward => first.place
  payload :=
    match direction with
    | .backward => ((first :: rest).map (·.text)).reverse.flatten
    | .forward => ((first :: rest).map (·.text)).flatten
  run := if rest = [] then none else some direction

/-- Each deletion goes on where the one before it left the run. -/
def IsRun (direction : RunDirection) (ds : List Deletion) : Prop :=
  ds.IsChain fun d next => next.GoesOn direction d.place

variable {direction : RunDirection} {first d : Deletion} {rest : List Deletion}

theorem joined_nil (direction : RunDirection) (first : Deletion) :
    joined direction first [] = first.edit := by
  cases direction <;> simp [joined, edit]

theorem IsRun.cons (run : IsRun direction (first :: d :: rest)) :
    d.GoesOn direction first.place ∧ IsRun direction (d :: rest) :=
  List.isChain_cons_cons.mp run

/-- A forward run stays where it started. -/
theorem IsRun.place_eq (run : IsRun .forward (first :: rest)) :
    (rest.getLastD first).place = first.place := by
  induction rest generalizing first with
  | nil => rfl
  | cons d rest ih =>
    obtain ⟨same, run⟩ := run.cons
    rw [List.getLastD_cons]
    exact (ih run).trans same

/-- The joined deletion stands where the last one did. -/
theorem IsRun.joined_place (run : IsRun direction (first :: rest)) :
    (joined direction first rest).place = (rest.getLastD first).place := by
  cases direction with
  | backward => rfl
  | forward => exact run.place_eq.symm

/-- **One more deletion is joined to the others.** -/
theorem joined_concat (goesOn : d.GoesOn direction (joined direction first rest).place) :
    direction.splice.join (joined direction first rest) d.place d.text =
      joined direction first (rest ++ [d]) := by
  cases direction with
  | backward => simp [RunDirection.splice, Splice.join, joined]
  | forward => simp [RunDirection.splice, Splice.join, joined]

/-- How a deletion is planned that goes on with a run, or goes against it. -/
theorem planDelete_of_goesOn {only : Edit} (nonempty : d.text ≠ [])
    (goesOn : d.GoesOn direction only.place) :
    Coalesce.planDelete only d.place d.text =
      if only.run = some direction.opposite then .error .directionChange
      else .ok direction.splice := by
  cases direction with
  | backward => exact Coalesce.planDelete_of_ends nonempty goesOn
  | forward => exact Coalesce.planDelete_of_starts nonempty goesOn

theorem byteLength_joined (direction : RunDirection) (first : Deletion)
    (rest : List Deletion) :
    (joined direction first rest).payload.byteLength =
      total (·.text.byteLength) (first :: rest) := by
  have bytes (ds : List Deletion) :
      Text.byteLength (ds.map (·.text)).flatten = total (·.text.byteLength) ds := by
    induction ds with
    | nil => rfl
    | cons d rest ih => simp [ih]
  cases direction with
  | backward =>
    rw [joined, ← List.map_reverse]
    simp only [bytes, total_reverse]
  | forward => exact bytes (first :: rest)

/-- The direction of a run is known from the second deletion on. -/
theorem joined_run (direction : RunDirection) (first : Deletion) (rest : List Deletion) :
    (joined direction first rest).run = if rest = [] then none else some direction := rfl

end Deletion

/-! ## Sessions -/

namespace Session

variable {s u : Session Text} {d first : Deletion} {direction : RunDirection}
  {rest : List Deletion}

/-- A deletion that takes its text out is taken in. -/
theorem act_deletion (sound : s.buffer.journal.Sound)
    (answered : (s.act d.action).value.1 = d.answer) :
    ∃ status k t, (s.act d.action).value =
        (d.answer, { s with buffer := { s.buffer with store := t, journal := k } }) ∧
      d.edit.Leads s.contents t ∧ s.buffer.journal.Takes d.edit d.now status k ∧
      evictionTold (s.act d.action).notes = (status == .evicted) := by
  cases hd : s.contents.deleteAt d.place d.text.byteLength with
  | error cause =>
    have refused : (s.act d.action).value = _ := act_delete_of_error hd d.now
    simp [refused, Deletion.answer] at answered
  | ok outcome =>
    obtain ⟨removed, t⟩ := outcome
    obtain ⟨status, k, value, takes, fate⟩ := act_delete_of_ok sound.idle hd d.now
    have value : (s.act d.action).value = _ := value
    obtain rfl : removed = d.text := by simpa [value, Deletion.answer] using answered
    obtain ⟨-, deleted⟩ := (Text.deleteAt_eq_ok_iff _ _ _ _ _).mp hd
    exact ⟨status, k, t, value, deleted, takes, evictionTold_eq sound fate⟩

/-- Behind a run of deletions in the session `s`: the run is open, and its entry holds what
they are joined to, which leads from the text before the run to the text behind it. -/
structure Deletes (s : Session Text) (direction : RunDirection) (first : Deletion)
    (rest : List Deletion) (evicted : Bool) (u : Session Text) : Prop where
  config : u.buffer.journal.config = s.buffer.journal.config
  running : u.buffer.journal.Running
    ((s.buffer.journal.entries.take s.buffer.journal.position).drop evicted.toNat)
    (Deletion.joined direction first rest) (rest.getLastD first).now
  leads : (Deletion.joined direction first rest).Leads s.contents u.contents

theorem evictedBy_eq (status : RecordStatus) :
    Journal.evictedBy status = (status == .evicted).toNat := by
  cases status <;> rfl

/-- The first deletion starts an entry. -/
theorem deletes_first (direction : RunDirection) (sound : s.buffer.journal.Sound)
    (sealed : s.buffer.journal.grouping.isSealed = true)
    (loose : s.buffer.journal.grouping.current = none) (nonempty : first.text ≠ [])
    (answered : (s.act first.action).value.1 = first.answer)
    (small : first.text.byteLength ≤ s.buffer.journal.config.rules.maxEntryBytes) :
    s.Deletes direction first [] (evictionTold (s.act first.action).notes)
      (s.act first.action).value.2 := by
  obtain ⟨status, k, t, value, leads, takes, told⟩ := act_deletion sound answered
  have refused := takes.ne_merged_of_sealed nonempty loose sealed
  have opened := takes.opens sound (by simp [Deletion.edit]) nonempty loose small refused
  rw [evictedBy_eq, ← told] at opened
  rw [value]
  exact ⟨takes.outgrows.config, Deletion.joined_nil direction first ▸ opened,
    Deletion.joined_nil direction first ▸ leads⟩

/-- **One more deletion** is joined to the others. -/
theorem Deletes.next {evicted : Bool} (h : s.Deletes direction first rest evicted u)
    (nonempty : d.text ≠ []) (answered : (u.act d.action).value.1 = d.answer)
    (goesOn : d.GoesOn direction (Deletion.joined direction first rest).place)
    (soon : d.now ≤ (rest.getLastD first).now + s.buffer.journal.config.rules.windowMs)
    (small : (Deletion.joined direction first rest).payload.byteLength + d.text.byteLength ≤
      s.buffer.journal.config.rules.maxEntryBytes) :
    evictionTold (u.act d.action).notes = false ∧
      s.Deletes direction first (rest ++ [d]) evicted (u.act d.action).value.2 := by
  obtain ⟨status, k, t, value, leads, takes, told⟩ := act_deletion h.running.sound answered
  have unlike : (Deletion.joined direction first rest).run ≠ some direction.opposite := by
    rw [Deletion.joined_run]
    cases direction <;> split <;> simp [RunDirection.opposite]
  have plan := Deletion.planDelete_of_goesOn nonempty goesOn
  rw [if_neg unlike] at plan
  obtain ⟨merged, running⟩ := h.running.joins takes (by simp [Deletion.edit]) nonempty
    ⟨rfl, h.config ▸ soon, h.config ▸ small⟩ plan
  have joined_leads := Splice.join_leads (Coalesce.planDelete_fits plan) rfl h.leads leads
  have joined := Deletion.joined_concat goesOn
  rw [joined] at joined_leads
  have last : (rest ++ [d]).getLastD first = d := by simp
  rw [told, merged, value]
  refine ⟨rfl, takes.outgrows.config.trans h.config, ?_, joined_leads⟩
  rw [last, ← joined]
  exact running

/-- **A run of deletions.** -/
theorem deletes_run (sound : s.buffer.journal.Sound)
    (sealed : s.buffer.journal.grouping.isSealed = true)
    (loose : s.buffer.journal.grouping.current = none)
    (nonempty : ∀ d ∈ first :: rest, d.text ≠ [])
    (answered : (s.run ((first :: rest).map Deletion.action)).value.1 =
      (first :: rest).map Deletion.answer)
    (run : Deletion.IsRun direction (first :: rest))
    (prompt : (first :: rest).IsChain fun d next =>
      next.now ≤ d.now + s.buffer.journal.config.rules.windowMs)
    (small : total (·.text.byteLength) (first :: rest) ≤
      s.buffer.journal.config.rules.maxEntryBytes) :
    s.Deletes direction first rest (s.evicts ((first :: rest).map Deletion.action))
      (s.after ((first :: rest).map Deletion.action)) := by
  -- From the back: the last deletion meets the run of those before it.
  induction rest using List.reverseRecOn with
  | nil =>
    simp only [List.map_cons, List.map_nil, answers_cons, answers_nil,
      List.cons.injEq] at answered
    have some_text := nonempty first (List.mem_singleton_self first)
    simpa using deletes_first direction sound sealed loose some_text answered.1
      (by simpa using small)
  | append_singleton rest d ih =>
    obtain ⟨run, goesOn⟩ := isChain_cons_concat.mp run
    obtain ⟨prompt, soon⟩ := isChain_cons_concat.mp prompt
    have split : (first :: (rest ++ [d])).map Deletion.action =
        (first :: rest).map Deletion.action ++ [d.action] := by simp
    rw [← List.cons_append, total_append] at small
    rw [split, answers_append, ← List.cons_append, List.map_append] at answered
    obtain ⟨answered, last⟩ := List.append_inj' answered (by simp [answers_cons])
    rw [List.map_singleton, answers_cons, answers_nil, List.cons.injEq] at last
    have before := ih (fun d' member => nonempty d' (List.mem_append_left [d] member)) answered
      run prompt (Nat.le_trans (Nat.le_add_right _ _) small)
    rw [← Deletion.IsRun.joined_place run] at goesOn
    obtain ⟨kept, behind⟩ := before.next (nonempty d (by simp)) last.1 goesOn soon
      (by simpa [Deletion.byteLength_joined] using small)
    rw [split, evicts_append, after_append, evicts_cons, kept]
    simpa using behind

/-- A deletion the other way starts an entry, at whatever time it comes. -/
theorem Deletes.turns {evicted : Bool} (h : s.Deletes direction first rest evicted u)
    (more : rest ≠ []) (nonempty : d.text ≠ [])
    (answered : (u.act d.action).value.1 = d.answer)
    (back : d.GoesOn direction.opposite (Deletion.joined direction first rest).place) :
    ∃ entry, (u.act d.action).value.2.buffer.journal.entries =
        u.buffer.journal.entries.drop (evictionTold (u.act d.action).notes).toNat ++ [entry] ∧
      entry.edits = [d.edit] := by
  obtain ⟨status, k, t, value, -, takes, told⟩ := act_deletion h.running.sound answered
  have plan := Deletion.planDelete_of_goesOn nonempty back
  rw [Deletion.joined_run, if_neg more, RunDirection.opposite_opposite, if_pos rfl] at plan
  have refused := h.running.refuses takes nonempty fun how fits => by
    cases plan.symm.trans fits
  obtain ⟨entry, entries, edits, -⟩ :=
    takes.started_entry h.running.sound nonempty h.running.loose refused
  rw [evictedBy_eq, ← told, h.running.position, List.take_length] at entries
  rw [value]
  exact ⟨entry, entries, edits⟩

end Session

/-- **A run of deletions is one step.** Behind the end of a run, outside any group, texts
are deleted without long pauses, each one where the one before it was, and backward or
forward all along. They are in one new entry, joined in the order in which they stood;
the direction is known from the second one on. One step back restores the text before the
run. Behind two deletions or more, one the other way starts an entry. -/
theorem deletion_run_is_one_step (s : Session Text) (reachable : s.buffer.Reachable)
    (sealed : s.buffer.journal.grouping.isSealed = true)
    (loose : s.buffer.journal.grouping.current = none) (direction : RunDirection)
    (first : Deletion) (rest : List Deletion) (nonempty : ∀ d ∈ first :: rest, d.text ≠ [])
    (answered : (s.run ((first :: rest).map Deletion.action)).value.1 =
      (first :: rest).map Deletion.answer)
    (run : Deletion.IsRun direction (first :: rest))
    (prompt : (first :: rest).IsChain fun d next =>
      next.now ≤ d.now + s.buffer.journal.config.rules.windowMs)
    (small : total (·.text.byteLength) (first :: rest) ≤
      s.buffer.journal.config.rules.maxEntryBytes) :
    let deletions := (first :: rest).map Deletion.action
    let joined := Deletion.joined direction first rest
    let t := s.after deletions
    (∃ entry, t.buffer.journal.entries =
        (s.buffer.journal.entries.take s.buffer.journal.position).drop
          (s.evicts deletions).toNat ++ [entry] ∧
      entry.edits = [joined]) ∧
    t.buffer.journal.position = t.buffer.journal.length ∧
    t.StepsTo .undo s.contents ∧
    ∀ next : Deletion, rest ≠ [] → next.text ≠ [] →
      next.GoesOn direction.opposite joined.place →
      (t.act next.action).value.1 = next.answer →
      ∃ entry, (t.act next.action).value.2.buffer.journal.entries =
          t.buffer.journal.entries.drop (evictionTold (t.act next.action).notes).toNat ++
            [entry] ∧
        entry.edits = [next.edit] := by
  intro deletions joined t
  have behind : s.Deletes direction first rest (s.evicts deletions) t :=
    Session.deletes_run reachable.sound sealed loose nonempty answered run prompt small
  obtain ⟨entry, entries, edits, -⟩ := behind.running.entry
  have leads : entry.Leads s.contents t.contents := by
    rw [Entry.Leads, edits]
    exact ⟨_, behind.leads, rfl⟩
  have last : t.buffer.journal.entries.getLast? = some entry := by
    rw [entries, List.getLast?_concat]
  exact ⟨⟨entry, entries, edits⟩, behind.running.position,
    (Session.stepsTo_of_leads last behind.running.position leads).1,
    fun next more some_text back answer => behind.turns more some_text answer back⟩

/-- Two lines, behind a change that was taken back. -/
def accented : Session Text :=
  (Session.opened [] ['a', 'é', '\n', 'b', 'c']
    { rules := { windowMs := 10, maxEntryBytes := 4 } }).after
      [.insert ⟨0, 0⟩ ['z'] 0, .step .undo]

/-- Backward from behind the `b`, over the end of the line and the accent. -/
def backspaces : List Deletion :=
  [⟨⟨1, 0⟩, ['b'], 5⟩, ⟨⟨0, 3⟩, ['\n'], 15⟩, ⟨⟨0, 1⟩, ['é'], 20⟩]

/-- The same forward. -/
def forwardDeletions : List Deletion :=
  [⟨⟨0, 1⟩, ['é'], 5⟩, ⟨⟨0, 1⟩, ['\n'], 15⟩, ⟨⟨0, 1⟩, ['b'], 20⟩]

/-- Either way there is one entry, that one step back takes back; deleting on the other
side starts another one. -/
theorem accented_deletions :
    let back := accented.after (backspaces.map Deletion.action)
    let forth := accented.after (forwardDeletions.map Deletion.action)
    back.buffer.journal.entries.map (·.edits) =
      [[⟨.delete, ⟨0, 1⟩, ['é', '\n', 'b'], some .backward⟩]] ∧
    forth.buffer.journal.entries.map (·.edits) =
      [[⟨.delete, ⟨0, 1⟩, ['é', '\n', 'b'], some .forward⟩]] ∧
    back.StepsTo .undo ['a', 'é', '\n', 'b', 'c'] ∧
    forth.StepsTo .undo ['a', 'é', '\n', 'b', 'c'] ∧
    (back.act (.delete ⟨0, 1⟩ 1 21)).value.2.buffer.journal.entries.map (·.edits) =
      [[⟨.delete, ⟨0, 1⟩, ['é', '\n', 'b'], some .backward⟩],
        [⟨.delete, ⟨0, 1⟩, ['c'], none⟩]] := by
  intro back forth
  have reachable : accented.buffer.Reachable := (Buffer.Reachable.create _ _ _ _).after _
  have sealed : accented.buffer.journal.grouping.isSealed = true := by decide +kernel
  have loose : accented.buffer.journal.grouping.current = none := by decide +kernel
  have start : accented.buffer.journal.position = 0 := by decide +kernel
  obtain ⟨⟨entry, entries, edits⟩, -, undone, turns⟩ :=
    deletion_run_is_one_step accented reachable sealed loose .backward ⟨⟨1, 0⟩, ['b'], 5⟩
      [⟨⟨0, 3⟩, ['\n'], 15⟩, ⟨⟨0, 1⟩, ['é'], 20⟩] (by decide) rfl
      (List.isChain_cons_cons.mpr ⟨rfl, List.isChain_pair.mpr rfl⟩)
      (by decide +kernel) (by decide +kernel)
  obtain ⟨⟨entry', entries', edits'⟩, -, undone', -⟩ :=
    deletion_run_is_one_step accented reachable sealed loose .forward ⟨⟨0, 1⟩, ['é'], 5⟩
      [⟨⟨0, 1⟩, ['\n'], 15⟩, ⟨⟨0, 1⟩, ['b'], 20⟩] (by decide) rfl
      (List.isChain_cons_cons.mpr ⟨rfl, List.isChain_pair.mpr rfl⟩)
      (by decide +kernel) (by decide +kernel)
  obtain ⟨other, turned, other_edits⟩ :=
    turns ⟨⟨0, 1⟩, ['c'], 21⟩ (by decide) (by decide) rfl rfl
  have kept : evictionTold (back.act (.delete ⟨0, 1⟩ 1 21)).notes = false := by decide +kernel
  rw [start, List.take_zero, List.drop_nil, List.nil_append] at entries entries'
  have both : (back.act (.delete ⟨0, 1⟩ 1 21)).value.2.buffer.journal.entries =
      [entry].drop false.toNat ++ [other] := entries ▸ kept ▸ turned
  exact ⟨(congrArg (List.map (·.edits)) entries).trans (congrArg ([·]) edits),
    (congrArg (List.map (·.edits)) entries').trans (congrArg ([·]) edits'), undone, undone',
    (congrArg (List.map (·.edits)) both).trans (congrArg₂ ([·, ·]) edits other_edits)⟩

end EditJournal
