/-
EditJournal.Proofs.GroupBrackets — a bracket of changes is one step in the history.

`bracket_is_one_step` is the main result. From an opening bracket, where none is
open, to the closing one that matches it, whatever is inserted and deleted goes
into one entry, and nothing else ever does: neither what was changed before, nor
what is changed afterwards, nor another bracket's changes. Pairs of brackets may
stand inside as deep as they are counted; one deeper, and an inner bracket closes
the outermost one (`bracket_not_always_one_more`).

* `Action.Nested` — brackets that are pairs, and how deep they stand.
* `Action.openBehind` — how brackets are counted; `Action.openBehind_of_nested`
  says that pairs of brackets match.
* `Journal.Gathers` — in a journal, changes were gathered in one entry behind
  what another one had.
* `Session.OneStep` — what a bracket leaves.

## How the proof goes

The opening bracket takes a number that no entry has. As long as the group is open
a change joins the last entry exactly if that has its number, so the first change
starts the entry and all others join it (`Journal.Gathers.takes`); pauses, ended
typing runs, inner brackets and saves do not come into it. That is one step of a
run (`Session.Inside.act`), and `Session.Inside.after` is the induction over the
actions in the bracket. Behind it the group is over, and `Proofs.PastGroups` says
what can become of its entry.
-/
import EditJournal.Proofs.PastGroups
import EditJournal.Proofs.Reachable

namespace EditJournal

/-! ## Brackets -/

namespace Action

/-- May it stand in a bracket? Steps, commands, clearing, and changes that were
made elsewhere may not. -/
def staysInside : Action → Bool
  | .insert .. | .delete .. | .endRun | .groupBegin | .groupEnd | .markSaved => true
  | _ => false

/-- How many brackets are open behind an action, where `n` are before it; nothing
where it closes the outermost one. They are counted as `Grouping` does. -/
def opens (n : Nat) : Action → Option Nat
  | .groupBegin => some (min (n + 1) Grouping.depthLimit)
  | .groupEnd => if n ≤ 1 then none else some (n - 1)
  | _ => some n

/-- How many brackets are open behind some actions. -/
def openBehind (n : Nat) (actions : List Action) : Option Nat := actions.foldlM opens n

/-- Actions with a bracket around them. -/
def bracket (inner : List Action) : List Action := .groupBegin :: (inner ++ [.groupEnd])

/-- All brackets are pairs, one in the other at most `n` deep. -/
inductive Nested : Nat → List Action → Prop
  | nil (n : Nat) : Nested n []
  | other {n : Nat} {rest : List Action} (action : Action) (notBegin : action ≠ .groupBegin)
      (notEnd : action ≠ .groupEnd) (behind : Nested n rest) : Nested n (action :: rest)
  | pair {n : Nat} {inner rest : List Action} (inside : Nested n inner)
      (behind : Nested (n + 1) rest) : Nested (n + 1) (bracket inner ++ rest)

/-- As many brackets as are told, one in the other. -/
def pairs : Nat → List Action
  | 0 => []
  | k + 1 => bracket (pairs k)

theorem nested_pairs (k : Nat) : Nested k (pairs k) := by
  induction k with
  | zero => exact .nil 0
  | succ k ih =>
    rw [pairs, ← List.append_nil (bracket (pairs k))]
    exact .pair ih (.nil (k + 1))

theorem staysInside_pairs (k : Nat) : ∀ action ∈ pairs k, action.staysInside = true := by
  induction k with
  | zero => simp [pairs]
  | succ k ih =>
    intro action member
    simp only [pairs, bracket, List.mem_cons, List.mem_append, List.not_mem_nil,
      or_false] at member
    rcases member with rfl | inside | rfl
    · rfl
    · exact ih action inside
    · rfl

@[simp] theorem openBehind_nil (n : Nat) : openBehind n [] = some n := rfl

@[simp] theorem openBehind_cons (n : Nat) (action : Action) (rest : List Action) :
    openBehind n (action :: rest) = (action.opens n).bind (openBehind · rest) := rfl

theorem openBehind_append (n : Nat) (front back : List Action) :
    openBehind n (front ++ back) = (openBehind n front).bind (openBehind · back) :=
  List.foldlM_append

/-- **Pairs of brackets match**, where the deepest one is still counted. -/
theorem openBehind_of_nested {n : Nat} {actions : List Action} (nested : Nested n actions)
    {m : Nat} (some_open : 0 < m) (counted : m + n ≤ Grouping.depthLimit) :
    openBehind m actions = some m := by
  induction nested generalizing m with
  | nil n => rfl
  | other action notBegin notEnd behind ih =>
    have same : action.opens m = some m := by
      cases action <;> simp_all [opens]
    simp [same, ih some_open counted]
  | @pair n inner rest inside behind ih ih' =>
    have deeper : min (m + 1) Grouping.depthLimit = m + 1 := by omega
    have matched : openBehind (m + 1) inner = some (m + 1) := ih (by omega) (by omega)
    have outer : ¬ m + 1 ≤ 1 := by omega
    simp only [bracket, List.cons_append, List.append_assoc, openBehind_cons,
      openBehind_append, openBehind_nil, opens, deeper, matched, Option.bind_some,
      if_neg outer, Nat.add_sub_cancel]
    exact ih' some_open (by omega)

end Action

/-! ## Gathering changes in one entry -/

namespace Journal

variable {j k l : Journal} {id : Nat} {edits : List Edit} {evicted : Bool}

/-- Changes were gathered behind what the journal `j` had: none as yet, or all of
them in one entry of the group, for which the oldest entry may have been dropped. -/
inductive Gathers (j : Journal) (id : Nat) : List Edit → Bool → Journal → Prop
  | nothing {k : Journal} (same : k.unmarked = j.unmarked)
      (position : k.position = j.position) :
      Gathers j id [] false k
  | entry {k : Journal} {evicted : Bool} (entry : Entry)
      (entries : k.unmarked = (j.unmarked.take j.position).drop evicted.toNat ++ [entry])
      (position : k.position = k.entries.length) (member : entry.group = some id) :
      Gathers j id entry.edits evicted k

/-- The marks of saves do not come into it. -/
theorem Gathers.congr (h : j.Gathers id edits evicted k) (same : l.unmarked = k.unmarked)
    (position : l.position = k.position) : j.Gathers id edits evicted l := by
  have length : l.entries.length = k.entries.length := by
    simpa [unmarked] using congrArg List.length same
  cases h with
  | nothing same' position' => exact .nothing (same.trans same') (position.trans position')
  | entry entry entries position' member =>
    exact .entry entry (same.trans entries) (by rw [position, position', length]) member

section Takes

variable {edit : Edit} {now : Nat} {status : RecordStatus}

/-- Inside a group a change joins an entry of it, and is put behind the others. -/
theorem Joins.of_open {tail changed : Entry} (joins : j.Joins edit now tail changed)
    (isOpen : j.grouping.current = some id) :
    tail.group = some id ∧ changed = { tail.push edit with timestamp := now } := by
  cases joins with
  | group id' isOpen' member =>
    obtain rfl : id = id' := by simpa [isOpen] using isOpen'
    exact ⟨member, rfl⟩
  | run how loose small unsealed plan => simp [isOpen] at loose

/-- It starts one only where the last entry is not of the group. -/
theorem Starts.of_open {group : Option Nat} {mergeable : Bool}
    (starts : j.Starts edit now group mergeable) (isOpen : j.grouping.current = some id) :
    ∀ tail, j.entries.getLast? = some tail → tail.group ≠ some id := by
  cases starts with
  | group id' isOpen' first =>
    obtain rfl : id = id' := by simpa [isOpen] using isOpen'
    exact first
  | oversized loose large => simp [isOpen] at loose
  | refused refusal loose small plan => simp [isOpen] at loose

theorem length_unmarked (j : Journal) : j.unmarked.length = j.entries.length :=
  List.length_map _

theorem unmarked_truncated (j : Journal) :
    j.truncated.unmarked = j.unmarked.take j.position := by
  simp [unmarked, List.map_take]

theorem getLast?_unmarked {tail : Entry} (last : j.entries.getLast? = some tail) :
    j.unmarked.getLast? = some tail.unmarked := by
  rw [unmarked, List.getLast?_map, last, Option.map_some]

/-- The oldest entry goes exactly if that is what becomes of the change. -/
theorem startStatus_beq_evicted (dropped mergeable : Bool) :
    (startStatus dropped mergeable == .evicted) = dropped := by
  cases dropped <;> cases mergeable <;> rfl

/-- What a change does inside a group: it is put into the last entry if that is of the
group; else it starts an entry of the group. -/
theorem Takes.of_open (takes : k.Takes edit now status l) (nonempty : edit.payload ≠ [])
    (isOpen : k.grouping.current = some id) :
    (∃ tail changed, k.truncated.unmarked.getLast? = some tail ∧ tail.group = some id ∧
      l.unmarked = k.truncated.unmarked.dropLast ++ [changed] ∧
      changed.edits = tail.edits ++ [edit] ∧ changed.group = some id ∧
      l.position = k.position ∧ status = .merged) ∨
    (∀ tail, k.truncated.unmarked.getLast? = some tail → tail.group ≠ some id) ∧
      ∃ first, l.unmarked = k.truncated.unmarked.drop (status == .evicted).toNat ++ [first] ∧
        first.edits = [edit] ∧ first.group = some id ∧ l.position = l.entries.length := by
  cases takes with
  | nothing empty => exact absurd empty nonempty
  | joined tail changed _ last joins =>
    obtain ⟨member, rfl⟩ := joins.of_open isOpen
    refine Or.inl ⟨tail.unmarked,
      (k.truncated.restamped { tail.push edit with timestamp := now }).unmarked,
      getLast?_unmarked last, member, ?_, rfl, member, rfl, rfl⟩
    simp [unmarked]
  | started group mergeable _ starts =>
    refine Or.inr ⟨?_, ?_⟩
    · intro tail last
      rw [unmarked, List.getLast?_map, Option.map_eq_some_iff] at last
      obtain ⟨tail, last, rfl⟩ := last
      exact starts.of_open isOpen tail last
    · refine ⟨k.truncated.makeRoom.value.2.newEntry edit now group mergeable, ?_, rfl, ?_, ?_⟩
      · rw [startStatus_beq_evicted]
        simp [unmarked, makeRoom_entries, newEntry, Entry.unmarked]
      · exact starts.group_eq.trans isOpen
      · simp [noting, Journal.started, withEntry]

/-- **A change inside the group is gathered with the ones before it.** -/
theorem Gathers.takes (h : j.Gathers id edits evicted k)
    (new : ∀ e ∈ j.unmarked, e.group ≠ some id)
    (isOpen : k.grouping.current = some id) (nonempty : edit.payload ≠ [])
    (takes : k.Takes edit now status l) :
    j.Gathers id (edits ++ [edit]) (evicted || status == .evicted) l := by
  have inside := takes.of_open nonempty isOpen
  cases h with
  | nothing same position =>
    rw [unmarked_truncated, same, position] at inside
    rcases inside with ⟨tail, -, last, member, -⟩ | ⟨-, first, entries, edits, member, atEnd⟩
    · -- none of the old entries is of the group
      exact absurd member (new _ (List.mem_of_mem_take (List.mem_of_getLast? last)))
    · rw [List.nil_append, ← edits, Bool.false_or]
      exact .entry first entries atEnd member
  | entry entry entries position member =>
    have whole : k.truncated.unmarked =
        (j.unmarked.take j.position).drop evicted.toNat ++ [entry] := by
      rw [unmarked_truncated, position, ← length_unmarked, List.take_length, entries]
    rw [whole, List.getLast?_concat, List.dropLast_concat] at inside
    rcases inside with
      ⟨tail, changed, last, -, entries', edits, member', position', rfl⟩ | ⟨first, -⟩
    · obtain rfl : entry = tail := Option.some.inj last
      have kept : (evicted || RecordStatus.merged == .evicted) = evicted :=
        Bool.or_false evicted
      have length : l.entries.length = k.entries.length := by
        rw [← length_unmarked, ← length_unmarked, entries, entries']
        simp
      rw [kept, ← edits]
      exact .entry changed entries' (by rw [position', position, length]) member'
    · exact absurd member (first entry rfl)

end Takes

/-- Once there are changes, there is the entry. -/
theorem Gathers.exists_entry (h : j.Gathers id edits evicted k) (some_edit : edits ≠ []) :
    ∃ entry, k.unmarked = (j.unmarked.take j.position).drop evicted.toNat ++ [entry] ∧
      k.position = k.entries.length ∧ entry.group = some id ∧ entry.edits = edits := by
  cases h with
  | nothing same position => exact absurd rfl some_edit
  | entry entry entries position member => exact ⟨entry, entries, position, member, rfl⟩

/-- The entry is the only one of its group. -/
theorem Gathers.members_eq {entry : Entry}
    (entries : k.unmarked = (j.unmarked.take j.position).drop evicted.toNat ++ [entry])
    (new : ∀ e ∈ j.unmarked, e.group ≠ some id) (member : entry.group = some id) :
    k.members id = [entry] := by
  have old :
      ((j.unmarked.take j.position).drop evicted.toNat).filter (·.group = some id) = [] := by
    rw [List.filter_eq_nil_iff]
    intro e he
    simpa using new e (List.mem_of_mem_take (List.mem_of_mem_drop he))
  simp [members, entries, old, member]

end Journal

/-! ## Sessions inside a bracket -/

namespace Session

variable {s u : Session Text} {n m : Nat} {edits : List Edit} {evicted : Bool}

/-- The number of the group that a bracket opens. -/
def nextGroup (s : Session Text) : Nat := s.buffer.journal.grouping.newest + 1

/-- Inside a bracket that was opened in the session `s`, with `n` open brackets and
the changes made so far. -/
structure Inside (s : Session Text) (n : Nat) (edits : List Edit) (evicted : Bool)
    (u : Session Text) : Prop where
  sound : u.buffer.journal.Sound
  isOpen : u.buffer.journal.grouping.current = some s.nextGroup
  depth : u.buffer.journal.grouping.depth = n
  leads : Edit.Chain .redo edits s.contents u.contents
  gathers : s.buffer.journal.Gathers s.nextGroup edits evicted u.buffer.journal

/-- No entry has the number of the next group. -/
theorem nextGroup_new (sound : s.buffer.journal.Sound) :
    ∀ e ∈ s.buffer.journal.unmarked, e.group ≠ some s.nextGroup := by
  intro e he member
  obtain ⟨old, hold, rfl⟩ := List.mem_map.mp he
  have given := (sound.entries old hold).group_le _ member
  exact absurd given (Nat.not_succ_le_self _)

theorem Inside.pos (h : s.Inside n edits evicted u) : 0 < n := by
  refine Nat.pos_of_ne_zero fun closed => ?_
  have none_open := h.sound.grouping.closed_iff.mp (h.depth.trans closed)
  rw [h.isOpen] at none_open
  simp at none_open

/-- The session behind the opening bracket. -/
theorem inside_groupBegin (sound : s.buffer.journal.Sound)
    (closed : s.buffer.journal.grouping.depth = 0) :
    s.Inside 1 [] false (s.act .groupBegin).value.2 where
  sound := (s.act_becomes .groupBegin).sound sound
  isOpen := by
    simp [act, Buffer.groupBegin, Journal.groupBegin, Grouping.begin, closed, nextGroup]
  depth := by
    simp [act, Buffer.groupBegin, Journal.groupBegin, Grouping.begin, closed,
      Grouping.depthLimit]
  leads := rfl
  gathers := .nothing rfl rfl

/-- Where no change is made, no more is gathered. -/
theorem Inside.unchanged (h : s.Inside n edits evicted u) {action : Action}
    (none : action.change? (u.act action).value.1 = none)
    (quiet : u.fate? action ≠ some .evicted)
    (depth : (u.act action).value.2.buffer.journal.grouping.depth = m)
    (current : (u.act action).value.2.buffer.journal.grouping.current =
      u.buffer.journal.grouping.current)
    (contents : (u.act action).value.2.contents = u.contents)
    (same : (u.act action).value.2.buffer.journal.unmarked = u.buffer.journal.unmarked)
    (position : (u.act action).value.2.buffer.journal.position = u.buffer.journal.position) :
    s.Inside m (edits ++ (action.change? (u.act action).value.1).toList)
      (evicted || evictionTold (u.act action).notes) (u.act action).value.2 := by
  have told : evictionTold (u.act action).notes = false :=
    Bool.eq_false_iff.mpr fun told => quiet ((evictionTold_act h.sound action).mp told)
  rw [none, told, Option.toList_none, List.append_nil, Bool.or_false]
  exact
    { sound := (u.act_becomes action).sound h.sound
      isOpen := current.trans h.isOpen
      depth := depth
      leads := contents ▸ h.leads
      gathers := h.gathers.congr same position }

/-- An insertion or a deletion is gathered, if it changes anything. -/
theorem Inside.edit (sound : s.buffer.journal.Sound) (h : s.Inside n edits evicted u)
    {action : Action} (edit : action.isEdit = true) :
    s.Inside n (edits ++ (action.change? (u.act action).value.1).toList)
      (evicted || evictionTold (u.act action).notes) (u.act action).value.2 := by
  cases act_edit h.sound.idle edit with
  | nothing same none fate =>
    refine h.unchanged none ?_ ?_ ?_ ?_ ?_ ?_
    · exact fun evicted => by simpa using fate _ evicted
    · rw [same, h.depth]
    · rw [same]
    · rw [contents, contents, same]
    · rw [same]
    · rw [same]
  | change edit now status k t plain nonempty leads takes made fate behind =>
    have told := evictionTold_eq h.sound fate
    obtain ⟨last, grouping⟩ := takes.grouping_eq
    have after : (u.act action).value.2.contents = t := by
      rw [contents, behind]
      rfl
    rw [made, told, Option.toList_some]
    refine ⟨?_, ?_, ?_, ?_, ?_⟩
    · exact (u.act_becomes action).sound h.sound
    · rw [behind, grouping]
      exact h.isOpen
    · rw [behind, grouping]
      exact h.depth
    · rw [after]
      exact (Edit.chain_append edits [edit] s.contents t).mpr
        ⟨u.contents, h.leads, t, leads, rfl⟩
    · rw [behind]
      exact h.gathers.takes (nextGroup_new sound) h.isOpen nonempty takes

/-- **One action in the bracket.** -/
theorem Inside.act (sound : s.buffer.journal.Sound) (h : s.Inside n edits evicted u)
    {action : Action} (stays : action.staysInside = true) (opens : action.opens n = some m) :
    s.Inside m (edits ++ (action.change? (u.act action).value.1).toList)
      (evicted || evictionTold (u.act action).notes) (u.act action).value.2 := by
  have pos := h.pos
  cases action with
  | insert place text now =>
    obtain rfl : n = m := Option.some.inj opens
    exact h.edit sound rfl
  | delete place length now =>
    obtain rfl : n = m := Option.some.inj opens
    exact h.edit sound rfl
  | endRun =>
    obtain rfl : n = m := Option.some.inj opens
    exact h.unchanged rfl (by simp [fate?]) h.depth rfl rfl rfl rfl
  | groupBegin =>
    obtain rfl : min (n + 1) Grouping.depthLimit = m := Option.some.inj opens
    have nested : u.buffer.journal.grouping.depth ≠ 0 := by
      rw [h.depth]
      exact Nat.ne_of_gt pos
    have begin : u.buffer.journal.grouping.begin =
        { u.buffer.journal.grouping with depth := min (n + 1) Grouping.depthLimit } := by
      rw [Grouping.begin, if_neg nested, h.depth]
    refine h.unchanged rfl (by simp [fate?]) ?_ ?_ rfl rfl rfl
    · show u.buffer.journal.grouping.begin.depth = _
      rw [begin]
    · show u.buffer.journal.grouping.begin.current = _
      rw [begin]
  | groupEnd =>
    have some_left : ¬ n ≤ 1 := fun last => by simp [Action.opens, last] at opens
    obtain rfl : n - 1 = m := by simpa [Action.opens, some_left] using opens
    obtain ⟨depth, hdepth⟩ : ∃ depth, u.buffer.journal.grouping.depth = depth + 2 :=
      ⟨n - 2, by rw [h.depth]; omega⟩
    have close : u.buffer.journal.grouping.close.2 =
        { u.buffer.journal.grouping with depth := n - 1 } := by
      have depth_eq : depth + 1 = n - 1 := by have := h.depth; omega
      simp [Grouping.close, hdepth, depth_eq]
    have behind := u.buffer_groupEnd
    rw [close] at behind
    refine h.unchanged rfl (by simp [fate?]) ?_ ?_ ?_ ?_ ?_
    · rw [behind]
    · rw [behind]
    · rw [contents, contents, behind]
      rfl
    · rw [behind]
      rfl
    · rw [behind]
  | markSaved =>
    obtain rfl : n = m := Option.some.inj opens
    exact h.unchanged rfl (by simp [fate?]) h.depth rfl rfl
      u.buffer.journal.unmarked_markSaved rfl
  | _ => simp [Action.staysInside] at stays

/-- **The actions in the bracket**, one after the other. -/
theorem Inside.after (sound : s.buffer.journal.Sound) (h : s.Inside n edits evicted u)
    {inner : List Action} (stays : ∀ action ∈ inner, action.staysInside = true)
    (opens : Action.openBehind n inner = some m) :
    s.Inside m (edits ++ u.changes inner) (evicted || u.evicts inner) (u.after inner) := by
  induction inner generalizing n edits evicted u with
  | nil =>
    obtain rfl : n = m := Option.some.inj opens
    simpa using h
  | cons action rest ih =>
    rw [List.forall_mem_cons] at stays
    rw [Action.openBehind_cons, Option.bind_eq_some_iff] at opens
    obtain ⟨between, first, opens⟩ := opens
    have behind := ih (h.act sound stays.1 first) stays.2 opens
    rw [List.append_assoc, Bool.or_assoc] at behind
    simpa using behind

/-! ## Behind the bracket -/

/-- The step moves, and leads to the text. -/
def StepsTo (s : Session Text) (direction : HistoryStep) (text : Text) : Prop :=
  ∃ cursor, (s.act (.step direction)).value.1 = .stepped (.ok (some cursor)) ∧
    (s.act (.step direction)).value.2.contents = text

/-- A run is one step in the history: its changes are in one entry of a new group,
behind what was done before but for the oldest entry, if a drop is told. One step
back leads to the text before the run, one forth to the text behind it. -/
structure OneStep (s : Session Text) (actions : List Action) (entry : Entry) : Prop where
  entries : (s.after actions).buffer.journal.unmarked =
    (s.buffer.journal.unmarked.take s.buffer.journal.position).drop (s.evicts actions).toNat ++
      [entry]
  position : (s.after actions).buffer.journal.position =
    (s.after actions).buffer.journal.length
  edits : entry.edits = s.changes actions
  closed : (s.after actions).buffer.journal.grouping.depth = 0
  group : entry.group = some s.nextGroup
  undone : (s.after actions).StepsTo .undo s.contents
  redone : ((s.after actions).act (.step .undo)).value.2.StepsTo .redo
    (s.after actions).contents

theorem value_step {direction : HistoryStep} {cursor : Location} {k : Journal} {text : Text}
    (hv : (s.buffer.journal.step direction s.contents).value = (.ok (some cursor), k, text)) :
    (s.act (.step direction)).value = (.stepped (.ok (some cursor)),
      { s with buffer := { s.buffer with journal := k, store := text } }) := by
  have hv' : (s.buffer.journal.step direction s.buffer.store).value = _ := hv
  simp [act, Buffer.step, hv']

/-- The last entry of a journal, where it leads to the text, is taken back and done
again. -/
theorem stepsTo_of_leads {text : Text} {entry : Entry}
    (last : s.buffer.journal.entries.getLast? = some entry)
    (atEnd : s.buffer.journal.position = s.buffer.journal.entries.length)
    (leads : entry.Leads text s.contents) :
    s.StepsTo .undo text ∧ (s.act (.step .undo)).value.2.StepsTo .redo s.contents := by
  obtain ⟨front, hfront⟩ := List.getLast?_eq_some_iff.mp last
  have target : s.buffer.journal.target? .undo = some (front.length, entry) := by
    rw [Journal.target?_eq_some_iff, atEnd, hfront]
    simp [Journal.positionAfter, HistoryStep.opposite]
  have undone := value_step (Journal.step_of_leads target leads)
  have redone := Journal.step_of_leads (Journal.target?_stepped target) leads
  rw [StepsTo, undone]
  exact ⟨⟨_, rfl, rfl⟩, _, by rw [value_step redone], by rw [value_step redone]; rfl⟩

/-- Changes that were gathered are one step. -/
theorem oneStep_of_gathers (sound : s.buffer.journal.Sound) {actions : List Action}
    (changed : s.changes actions ≠ [])
    (closed : (s.after actions).buffer.journal.grouping.depth = 0)
    (gathers : s.buffer.journal.Gathers s.nextGroup (s.changes actions) (s.evicts actions)
      (s.after actions).buffer.journal)
    (leads : Edit.Chain .redo (s.changes actions) s.contents (s.after actions).contents) :
    ∃ entry, s.OneStep actions entry ∧
      (s.after actions).buffer.journal.members s.nextGroup = [entry] := by
  obtain ⟨entry, entries, atEnd, member, edits⟩ := gathers.exists_entry changed
  obtain ⟨last, hlast, rfl⟩ : ∃ last,
      (s.after actions).buffer.journal.entries.getLast? = some last ∧
        last.unmarked = entry := by
    rw [← Option.map_eq_some_iff, ← List.getLast?_map]
    exact (congrArg List.getLast? entries).trans List.getLast?_concat
  have leads : last.Leads s.contents (s.after actions).contents := by
    rw [Entry.Leads, ← last.unmarked_edits, edits]
    exact leads
  obtain ⟨undone, redone⟩ := stepsTo_of_leads hlast atEnd leads
  exact ⟨last.unmarked, ⟨entries, atEnd, edits, closed, member, undone, redone⟩,
    Journal.Gathers.members_eq entries (nextGroup_new sound) member⟩

/-- The closing bracket ends the group, and leaves what was gathered. -/
theorem Inside.groupEnd (h : s.Inside 1 edits evicted u) :
    s.buffer.journal.Gathers s.nextGroup edits evicted
      (u.act .groupEnd).value.2.buffer.journal ∧
      Edit.Chain .redo edits s.contents (u.act .groupEnd).value.2.contents ∧
      (u.act .groupEnd).value.2.buffer.journal.grouping.depth = 0 ∧
      (u.act .groupEnd).value.2.buffer.journal.grouping.Past s.nextGroup := by
  have none_open : u.buffer.journal.grouping.close.2.depth = 0 ∧
      u.buffer.journal.grouping.close.2.current = none := by
    unfold Grouping.close
    rw [h.depth, h.isOpen]
    exact ⟨rfl, rfl⟩
  rw [contents, contents, buffer_groupEnd]
  refine ⟨h.gathers.congr rfl rfl, h.leads, none_open.1, ?_, ?_⟩
  · rw [Grouping.newest_close]
    exact h.sound.grouping.current_le _ h.isOpen
  · simp [none_open.2]

/-- **A bracket is one step**, and its group is over behind it. -/
theorem bracket_oneStep (sound : s.buffer.journal.Sound)
    (closed : s.buffer.journal.grouping.depth = 0) {inner : List Action}
    (stays : ∀ action ∈ inner, action.staysInside = true)
    (matched : Action.openBehind 1 inner = some 1)
    (changed : s.changes (Action.bracket inner) ≠ []) :
    ∃ entry, s.OneStep (Action.bracket inner) entry ∧
      (s.after (Action.bracket inner)).buffer.journal.members s.nextGroup = [entry] ∧
      (s.after (Action.bracket inner)).buffer.journal.grouping.Past s.nextGroup := by
  have inside := (inside_groupBegin sound closed).after sound stays matched
  have after : s.after (Action.bracket inner) =
      (((s.act .groupBegin).value.2.after inner).act .groupEnd).value.2 := by
    simp [Action.bracket, after_append]
  have changes : s.changes (Action.bracket inner) =
      [] ++ (s.act .groupBegin).value.2.changes inner := by
    simp [Action.bracket, changes_append, Action.change?]
  have evicts : s.evicts (Action.bracket inner) =
      (false || (s.act .groupBegin).value.2.evicts inner) := by
    have begun : evictionTold (s.act .groupBegin).notes = false := rfl
    have ended : evictionTold (((s.act .groupBegin).value.2.after inner).act .groupEnd).notes =
        false :=
      Bool.eq_false_iff.mpr fun told => by
        simpa [fate?] using (evictionTold_act inside.sound .groupEnd).mp told
    simp [Action.bracket, evicts_append, begun, ended]
  rw [← changes, ← evicts] at inside
  obtain ⟨gathers, leads, ended, past⟩ := inside.groupEnd
  rw [← after] at gathers leads ended past
  obtain ⟨entry, oneStep, members⟩ := oneStep_of_gathers sound changed ended gathers leads
  exact ⟨entry, oneStep, members, past⟩

end Session

/-- **A bracket of changes is one step in the history, and stays one.** From an
opening bracket, where none is open, to the one that closes it, with pairs of brackets
inside as deep as they are counted, all changes go into one new entry (`OneStep`). In
whatever is done afterwards, that entry is the only one of its group; an action keeps it
as it is or drops it; and what another bracket leaves is of another group. -/
theorem bracket_is_one_step (s : Session Text) (reachable : s.buffer.Reachable)
    (closed : s.buffer.journal.grouping.depth = 0) (inner : List Action)
    (stays : ∀ action ∈ inner, action.staysInside = true) (n : Nat)
    (nested : Action.Nested n inner) (counted : n < Grouping.depthLimit)
    (changed : s.changes (Action.bracket inner) ≠ []) :
    ∃ entry, s.OneStep (Action.bracket inner) entry ∧
      (∀ old ∈ s.buffer.journal.entries, old.group ≠ entry.group) ∧
      ∀ later : List Action,
        let u := (s.after (Action.bracket inner)).after later
        (u.buffer.journal.unmarked.filter (·.group = entry.group)).Sublist [entry] ∧
        (∀ action i, u.buffer.journal.unmarked[i]? = some entry →
          entry ∈ (u.act action).value.2.buffer.journal.unmarked ∨ u.Drops action i) ∧
        ∀ actions other, u.OneStep actions other → other.group ≠ entry.group := by
  have sound := reachable.sound
  have matched : Action.openBehind 1 inner = some 1 :=
    Action.openBehind_of_nested nested Nat.one_pos (by omega)
  obtain ⟨entry, oneStep, members, past⟩ :=
    Session.bracket_oneStep sound closed stays matched changed
  have group := oneStep.group
  refine ⟨entry, oneStep, ?_, ?_⟩
  · intro old hold
    rw [group]
    exact Session.nextGroup_new sound old.unmarked (List.mem_map_of_mem hold)
  · intro later u
    have becomes := (s.after (Action.bracket inner)).after_becomes later
    have past' : u.buffer.journal.grouping.Past s.nextGroup := becomes.past past
    have sound' : u.buffer.journal.Sound :=
      ((reachable.after (Action.bracket inner)).after later).sound
    refine ⟨?_, ?_, ?_⟩
    · rw [← members, group]
      exact becomes.members_sublist past
    · intro action i at_i
      exact Session.kept_or_dropped sound'.idle past' action at_i group
    · intro actions other step
      have given := past'.given
      have newer : u.nextGroup ≠ s.nextGroup := by
        rw [Session.nextGroup]
        omega
      rw [step.group, group]
      simpa using newer

/-! ## Brackets that are not counted -/

namespace Session

variable {s : Session Text}

/-- The session with so many open brackets. -/
def atDepth (s : Session Text) (depth : Nat) : Session Text :=
  { s with buffer := { s.buffer with journal := { s.buffer.journal with
      grouping := { s.buffer.journal.grouping with depth } } } }

/-- An inner opening bracket is counted, up to the limit. -/
theorem act_groupBegin_of_open {depth : Nat} :
    ((s.atDepth (depth + 1)).act .groupBegin).value.2 =
      s.atDepth (min (depth + 2) Grouping.depthLimit) := rfl

/-- An inner closing bracket is counted back. -/
theorem act_groupEnd_of_open {depth : Nat} :
    ((s.atDepth (depth + 2)).act .groupEnd).value.2 = s.atDepth (depth + 1) := rfl

/-- Pairs of brackets are counted back as often as they were met, though not counted as
often: behind those that are deeper than the limit fewer brackets are open than before. -/
theorem after_pairs {depth k : Nat} (some_open : 0 < depth)
    (counted : depth ≤ Grouping.depthLimit) (few : k < Grouping.depthLimit) :
    (s.atDepth depth).after (Action.pairs k) =
      s.atDepth (min (depth + k) Grouping.depthLimit - k) := by
  induction k generalizing depth with
  | zero => simp [Action.pairs, Nat.min_eq_left counted]
  | succ k ih =>
    obtain ⟨outer, rfl⟩ := Nat.exists_eq_add_of_lt some_open
    have left : ∃ left, min (min (outer + 2) Grouping.depthLimit + k) Grouping.depthLimit - k =
        left + 2 := ⟨_, (Nat.sub_add_cancel (by omega)).symm⟩
    obtain ⟨left, hleft⟩ := left
    rw [Action.pairs, Action.bracket, after_cons, Nat.zero_add, act_groupBegin_of_open,
      after_append, ih (by omega) (Nat.min_le_right _ _) (by omega), hleft,
      after_cons, after_nil, act_groupEnd_of_open]
    congr 1
    omega

end Session

/-- A journal that is full with two entries. -/
def fullSession : Session Text :=
  (Session.opened [] [] { maxEntries := 2 }).after
    [.insert ⟨0, 0⟩ ['a'] 0, .endRun, .insert ⟨0, 1⟩ ['b'] 1]

/-- Changes with long pauses; an inner bracket around a failed insertion, the end of a
typing run, a deletion and a save; an insertion of nothing. -/
def mixedChanges : List Action :=
  [.insert ⟨0, 2⟩ ['c'] 2, .groupBegin, .insert ⟨9, 0⟩ ['d'] 3, .endRun, .delete ⟨0, 0⟩ 1 9000,
    .markSaved, .groupEnd, .insert ⟨0, 0⟩ [] 9001, .insert ⟨0, 2⟩ ['\n', 'é'] 20000]

/-- The bracket takes the place of the oldest entry; typing goes on behind it in an
entry of its own. -/
theorem mixedChanges_is_one_step :
    let t := fullSession.after (Action.bracket mixedChanges)
    ∃ entry,
      t.buffer.journal.unmarked = fullSession.buffer.journal.unmarked.drop 1 ++ [entry] ∧
      entry.edits = [⟨.insert, ⟨0, 2⟩, ['c'], none⟩, ⟨.delete, ⟨0, 0⟩, ['a'], none⟩,
        ⟨.insert, ⟨0, 2⟩, ['\n', 'é'], none⟩] ∧
      t.StepsTo .undo ['a', 'b'] ∧
      (t.act (.step .undo)).value.2.StepsTo .redo ['b', 'c', '\n', 'é'] ∧
      entry ∈ (t.act (.insert ⟨1, 2⟩ ['e'] 20001)).value.2.buffer.journal.unmarked := by
  have reachable : fullSession.buffer.Reachable := (Buffer.Reachable.create _ _ _ _).after _
  have closed : fullSession.buffer.journal.grouping.depth = 0 := by decide +kernel
  have changes : fullSession.changes (Action.bracket mixedChanges) =
      [⟨.insert, ⟨0, 2⟩, ['c'], none⟩, ⟨.delete, ⟨0, 0⟩, ['a'], none⟩,
        ⟨.insert, ⟨0, 2⟩, ['\n', 'é'], none⟩] := by decide +kernel
  have inner : Action.Nested 0 [.insert ⟨9, 0⟩ ['d'] 3, .endRun, .delete ⟨0, 0⟩ 1 9000,
      .markSaved] :=
    .other _ nofun nofun (.other _ nofun nofun (.other _ nofun nofun
      (.other _ nofun nofun (.nil 0))))
  have nested : Action.Nested 1 mixedChanges :=
    .other _ nofun nofun (.pair inner (.other _ nofun nofun (.other _ nofun nofun (.nil 1))))
  obtain ⟨entry, oneStep, -, stays⟩ :=
    bracket_is_one_step fullSession reachable closed mixedChanges
    (by decide) 1 nested (by decide) (by simp [changes])
  have full : fullSession.buffer.journal.unmarked.take fullSession.buffer.journal.position =
      fullSession.buffer.journal.unmarked := by decide +kernel
  have evicts : fullSession.evicts (Action.bracket mixedChanges) = true := by decide +kernel
  have entries := oneStep.entries
  rw [full, evicts, Bool.toNat_true] at entries
  have before : fullSession.contents = ['a', 'b'] := by decide +kernel
  have undone := oneStep.undone
  rw [before] at undone
  have behind : (fullSession.after (Action.bracket mixedChanges)).contents =
      ['b', 'c', '\n', 'é'] := by decide +kernel
  have redone := oneStep.redone
  rw [behind] at redone
  refine ⟨entry, entries, oneStep.edits.trans changes, undone, redone, ?_⟩
  have one_left : (fullSession.buffer.journal.unmarked.drop 1).length = 1 := by decide +kernel
  have second : (fullSession.after (Action.bracket mixedChanges)).buffer.journal.unmarked[1]? =
      some entry := by
    rw [entries, List.getElem?_append_right (Nat.le_of_eq one_left), one_left]
    rfl
  have position : (fullSession.after (Action.bracket mixedChanges)).buffer.journal.position =
      2 := by decide +kernel
  obtain ⟨-, kept, -⟩ := stays []
  rw [Session.after_nil] at kept
  -- the entry is neither undone nor the oldest one
  refine (kept (.insert ⟨1, 2⟩ ['e'] 20001) 1 second).resolve_right fun drops => ?_
  cases drops with
  | cleared clear => simp at clear
  | undone above status fate nonempty => omega
  | oldest first evicted => simp at first

/-- Two insertions, and between them brackets that stand one deeper than they are counted. -/
def deepPairs : List Action :=
  .insert ⟨0, 0⟩ ['a'] 0 ::
    (Action.pairs Grouping.depthLimit ++ [.insert ⟨0, 1⟩ ['b'] 0])

theorem staysInside_deepPairs : ∀ action ∈ deepPairs, action.staysInside = true := by
  intro action member
  simp only [deepPairs, List.mem_cons, List.mem_append, List.not_mem_nil, or_false] at member
  rcases member with rfl | deeper | rfl
  · rfl
  · exact Action.staysInside_pairs _ action deeper
  · rfl

/-- The number of pairs is kept as a successor, so that it is not counted out. -/
theorem deepPairs_eq : ∃ k, Grouping.depthLimit = k + 1 ∧
    deepPairs = .insert ⟨0, 0⟩ ['a'] 0 ::
      (Action.bracket (Action.pairs k) ++ [.insert ⟨0, 1⟩ ['b'] 0]) := by
  obtain ⟨k, hk⟩ : ∃ k, Grouping.depthLimit = k + 1 := ⟨0xFFFFFFFE, rfl⟩
  exact ⟨k, hk, by rw [deepPairs, hk, Action.pairs]⟩

theorem nested_deepPairs : Action.Nested Grouping.depthLimit deepPairs := by
  obtain ⟨k, hk, deep⟩ := deepPairs_eq
  rw [deep, hk]
  exact .other _ nofun nofun (.pair (Action.nested_pairs k) (.other _ nofun nofun (.nil _)))

/-- Behind the innermost pairs one bracket is open where two should be. -/
theorem Session.after_deepPairs (s : Session Text) :
    let t := s.after [.groupBegin, .insert ⟨0, 0⟩ ['a'] 0, .groupBegin]
    t.buffer.journal.grouping.depth = 2 →
      s.after (Action.bracket deepPairs) =
        (t.atDepth 1).after [.groupEnd, .insert ⟨0, 1⟩ ['b'] 0, .groupEnd] := by
  intro t two_open
  obtain ⟨k, hk, deep⟩ := deepPairs_eq
  have split : Action.bracket deepPairs =
      [.groupBegin, .insert ⟨0, 0⟩ ['a'] 0, .groupBegin] ++
        (Action.pairs k ++ [.groupEnd, .insert ⟨0, 1⟩ ['b'] 0, .groupEnd]) := by
    simp [deep, Action.bracket]
  have begun : t = t.atDepth 2 := by
    rw [← two_open]
    rfl
  have left : min (2 + k) Grouping.depthLimit - k = 1 := by omega
  have inner : t.after (Action.pairs k) = t.atDepth 1 :=
    calc t.after (Action.pairs k)
      _ = (t.atDepth 2).after (Action.pairs k) := by rw [← begun]
      _ = t.atDepth (min (2 + k) Grouping.depthLimit - k) :=
        after_pairs (by decide) (by decide) (by omega)
      _ = t.atDepth 1 := by rw [left]
  rw [split, after_append, after_append, inner]

/-- **A bracket may leave two entries**, where pairs stand in it that are too deep to be
counted: the last of their closing brackets closes it, and the second insertion is behind
it. And where the journal is full it leaves no more entries than there were. -/
theorem bracket_not_always_one_more :
    let s : Session Text := Session.opened [] [] {}
    (s.buffer.Native ∧ s.buffer.journal.grouping.depth = 0 ∧
      (∀ action ∈ deepPairs, action.staysInside = true) ∧
      Action.Nested Grouping.depthLimit deepPairs ∧ s.changes (Action.bracket deepPairs) ≠ [] ∧
      (s.after (Action.bracket deepPairs)).buffer.journal.length =
        s.buffer.journal.length + 2 ∧
      ¬ ∃ entry, s.OneStep (Action.bracket deepPairs) entry) ∧
    (fullSession.after (Action.bracket mixedChanges)).buffer.journal.length =
      fullSession.buffer.journal.length := by
  intro s
  have changed : s.changes (Action.bracket deepPairs) ≠ [] := by
    obtain ⟨k, -, deep⟩ := deepPairs_eq
    rw [deep]
    exact List.cons_ne_nil _ _
  have two : (s.after (Action.bracket deepPairs)).buffer.journal.length = 2 := by
    rw [s.after_deepPairs (by decide +kernel)]
    decide +kernel
  refine ⟨⟨.create _ _ _ _, rfl, staysInside_deepPairs, nested_deepPairs, changed, two, ?_⟩,
    by decide +kernel⟩
  rintro ⟨entry, oneStep⟩
  have one := congrArg List.length oneStep.entries
  rw [Journal.length_unmarked] at one
  have none_before : s.buffer.journal.unmarked = [] := rfl
  rw [none_before] at one
  simp only [List.take_nil, List.drop_nil, List.nil_append, List.length_singleton] at one
  exact absurd (one.symm.trans two) (by decide)

end EditJournal
