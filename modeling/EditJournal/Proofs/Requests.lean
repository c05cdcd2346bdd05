/-
EditJournal.Proofs.Requests — what a journal is asked to do, as data.

* `Request` — one call of a journal. A step brings the storage on which it is
  taken; any storage will do.
* `Journal.serve`, `Journal.serveAll` — the journal behind one request, and behind
  a list of them.
* `Journal.Leaves` — what a change leaves: a part of the old entries, and one behind
  them.
* `Journal.serves_serve` — all that a request can do to a journal, whatever storage
  there is (`Journal.Serves`).
* `Session.requests`, `Session.requestsOf` — what a session asks of its journal.

`Session.journal_after` is the main result: the journal behind a run is the one
behind the requests of the run. So what no request breaks, no run breaks.
-/
import EditJournal.Proofs.Ledger
import EditJournal.Proofs.PastGroups

namespace EditJournal

/-- What a journal is asked to do. -/
inductive Request (σ : Type) where
  | record (kind : EditKind) (place : Location) (text : Text) (now : Nat)
  /-- A step in the history, on a storage. -/
  | step (direction : HistoryStep) (storage : σ)
  | endRun
  | groupBegin
  | groupEnd
  | markSaved
  | clear

variable {σ : Type} [Storage σ]

/-! ## Requests to a journal -/

namespace Journal

/-- The journal behind a request. A change that is refused leaves it as it is. -/
def serve (j : Journal) : Request σ → Journal
  | .record kind place text now =>
    match (j.record kind place text now).value with
    | .ok (_, k) => k
    | .error _ => j
  | .step direction storage => (j.step direction storage).value.2.1
  | .endRun => j.endRun
  | .groupBegin => j.groupBegin.value.2
  | .groupEnd => j.groupEnd.value.2
  | .markSaved => j.markSaved.value.2
  | .clear => j.clear.value

/-- The journal behind a list of requests. -/
def serveAll (j : Journal) (requests : List (Request σ)) : Journal := requests.foldl serve j

@[simp] theorem serveAll_nil (j : Journal) : j.serveAll ([] : List (Request σ)) = j := rfl

@[simp] theorem serveAll_cons (j : Journal) (request : Request σ) (rest : List (Request σ)) :
    j.serveAll (request :: rest) = (j.serve request).serveAll rest := rfl

theorem serveAll_append (j : Journal) (first second : List (Request σ)) :
    j.serveAll (first ++ second) = (j.serveAll first).serveAll second :=
  List.foldl_append

/-- What each request keeps holds behind all of them. -/
theorem serveAll_invariant {P : Journal → Prop}
    (keeps : ∀ (j : Journal) (request : Request σ), P j → P (j.serve request)) {j : Journal}
    (start : P j) (requests : List (Request σ)) : P (j.serveAll requests) := by
  induction requests generalizing j with
  | nil => exact start
  | cons request rest ih => exact ih (keeps j request start)

/-! ## What a change leaves -/

section Leaves

variable {j k : Journal} {edit : Edit} {now : Nat} {status : RecordStatus}

/-- Where room is made by dropping the oldest entry, its version is the base. -/
theorem makeRoom_baseVersion (j : Journal) :
    j.makeRoom.value.2.baseVersion =
      versionBehind j.baseVersion (j.entries.take j.makeRoom.value.1.toNat) := by
  have dropped (l : Journal) :
      l.withoutOldest.baseVersion = versionBehind l.baseVersion (l.entries.take 1) := by
    unfold withoutOldest
    split <;> simp [*]
  rcases j.makeRoom_cases with ⟨-, hv⟩ | ⟨-, -, -, hv⟩ | ⟨-, -, hv, -⟩ | ⟨-, -, -, hv, -⟩
  · rw [hv]
    rfl
  · rw [hv]
    rfl
  · rw [hv]
    exact dropped j
  · rw [hv]
    exact dropped j.asked

theorem makeRoom_replaying (j : Journal) : j.makeRoom.value.2.replaying = j.replaying := by
  have dropped (l : Journal) : l.withoutOldest.replaying = l.replaying := by
    unfold withoutOldest
    split <;> rfl
  rcases j.makeRoom_cases with ⟨-, hv⟩ | ⟨-, -, -, hv⟩ | ⟨-, -, hv, -⟩ | ⟨-, -, -, hv, -⟩
  · rw [hv]
  · rw [hv]
    rfl
  · rw [hv]
    exact dropped j
  · rw [hv]
    exact dropped j.asked

/-- What a change leaves: the old entries up to `p` without the first `d`, and behind
them one with the next version, where the position is. -/
structure Leaves (j k : Journal) (p d : Nat) (last : Entry) : Prop where
  entries : k.entries = (j.entries.take p).drop d ++ [last]
  version : last.version = j.nextVersion
  base : k.baseVersion = versionBehind j.baseVersion ((j.entries.take p).take d)
  next : k.nextVersion = j.nextVersion + 1
  position : j.position ≤ j.entries.length → k.position = k.entries.length
  idle : k.replaying = j.replaying

theorem leaves_replaceTail {tail : Entry} (last : j.truncated.entries.getLast? = some tail)
    (changed : Entry) :
    j.Leaves ((j.truncated.replaceTail tail changed).noting edit now)
      (j.truncated.entries.length - 1) 0 (j.truncated.restamped changed) := by
  have old : j.truncated.entries.dropLast =
      j.entries.take (j.truncated.entries.length - 1) := by
    rw [List.dropLast_eq_take, truncated_entries, List.take_take, Nat.min_eq_left]
    rw [List.length_take]
    omega
  have some_entry : 0 < j.truncated.entries.length :=
    List.length_pos_of_mem (List.mem_of_getLast? last)
  refine ⟨?_, rfl, rfl, rfl, fun within => ?_, rfl⟩
  · rw [noting_entries, replaceTail_entries, old, List.drop_zero]
  · rw [noting_entries, replaceTail_entries, List.length_append, List.length_dropLast,
      List.length_singleton, Nat.sub_add_cancel some_entry, truncated_entries,
      List.length_take, Nat.min_eq_left within]
    rfl

theorem leaves_started (j : Journal) (edit : Edit) (now : Nat) (group : Option Nat)
    (mergeable : Bool) :
    j.Leaves ((j.truncated.started edit now group mergeable).noting edit now) j.position
      j.truncated.makeRoom.value.1.toNat
      (j.truncated.makeRoom.value.2.newEntry edit now group mergeable) := by
  have next := j.truncated.roomMade.next
  refine ⟨?_, next, j.truncated.makeRoom_baseVersion, congrArg (· + 1) next, fun _ => ?_,
    j.truncated.makeRoom_replaying⟩
  · rw [noting_entries, started_entries, makeRoom_entries]
    rfl
  · rw [noting_entries, started_entries, List.length_append]
    rfl

/-- **A change of nothing does nothing; any other one puts an entry behind old ones.** -/
theorem Takes.leaves (takes : j.Takes edit now status k) :
    (edit.payload = [] ∧ k = j) ∨ ∃ p d last, j.Leaves k p d last := by
  cases takes with
  | nothing empty => exact Or.inl ⟨empty, rfl⟩
  | joined tail changed nonempty last joins =>
    exact Or.inr ⟨_, _, _, leaves_replaceTail last changed⟩
  | started group mergeable nonempty starts =>
    exact Or.inr ⟨_, _, _, j.leaves_started edit now group mergeable⟩

theorem Takes.leaves_of_nonempty (takes : j.Takes edit now status k)
    (nonempty : edit.payload ≠ []) : ∃ p d last, j.Leaves k p d last :=
  takes.leaves.resolve_left fun empty => nonempty empty.1

namespace Leaves

variable {p d : Nat} {last : Entry}

theorem mem_old (_ : j.Leaves k p d last) {entry : Entry}
    (h : entry ∈ (j.entries.take p).drop d) : entry ∈ j.entries :=
  List.mem_of_mem_take (List.mem_of_mem_drop h)

/-- The entry behind the old ones is that before the position. -/
theorem currentVersion (h : j.Leaves k p d last) (within : j.position ≤ j.entries.length) :
    k.currentVersion = j.nextVersion := by
  have position := h.position within
  rw [currentVersion_eq (Nat.le_of_eq position), versionAt_length position, h.entries,
    versionBehind_append, versionBehind_cons, versionBehind_nil, h.version]

end Leaves

end Leaves

/-! ## What a request does -/

section Cases

variable (σ) (j : Journal)

theorem serve_groupEnd : j.serve (.groupEnd : Request σ) =
    { j with grouping := j.grouping.close.2 } := by
  cases hc : j.grouping.close with
  | mk result grouping => cases result <;> simp [serve, groupEnd, hc]

/-- A change is taken in, or nothing happens: a replay goes on, it is a
replacement, or it changes nothing. -/
theorem serve_record_cases (kind : EditKind) (place : Location) (text : Text) (now : Nat) :
    (j.serve (.record kind place text now : Request σ) = j ∧
      ∀ status k, (j.record kind place text now).value = .ok (status, k) →
        status = .suppressed ∨ status = .empty) ∨
    ∃ status, (j.record kind place text now).value =
        .ok (status, j.serve (.record kind place text now : Request σ)) ∧
      kind ≠ .replace ∧ text ≠ [] ∧
      j.Takes { kind, place, payload := text } now status
        (j.serve (.record kind place text now : Request σ)) := by
  cases idle : j.replaying with
  | true =>
    refine Or.inl ⟨by simp [serve, record, idle], fun status k hv => Or.inl ?_⟩
    have hv : RecordStatus.suppressed = status ∧ j = k := by simpa [record, idle] using hv
    exact hv.1.symm
  | false =>
    by_cases hkind : kind = .replace
    · refine Or.inl ⟨by simp [serve, hkind, record_replace idle], fun status k hv => ?_⟩
      simp [hkind, record_replace idle] at hv
    by_cases hne : text = []
    · refine Or.inl ⟨by simp [serve, record, idle, hkind, hne], fun status k hv => Or.inr ?_⟩
      have hv : RecordStatus.empty = status ∧ j = k := by
        simpa [record, idle, hkind, hne] using hv
      exact hv.1.symm
    · obtain ⟨status, k, hv⟩ := exists_record_eq_ok idle hkind place text now
      have behind : j.serve (.record kind place text now : Request σ) = k := by
        simp [serve, hv]
      rw [behind]
      exact Or.inr ⟨status, hv, hkind, hne, (record_eq_ok_iff idle hkind).mp hv⟩

variable {σ}

/-- A step finds nothing to replay, or fails on the storage, or moves past its
target. -/
theorem serve_step_cases (direction : HistoryStep) (s : σ) :
    j.serve (.step direction s) = j ∨
    j.serve (.step direction s) = { j with replaying := false } ∨
    ∃ index entry, j.target? direction = some (index, entry) ∧
      j.serve (.step direction s) = j.stepped direction index := by
  cases ht : j.target? direction with
  | none => exact Or.inl (by simp [serve, step, ht])
  | some target =>
    obtain ⟨index, entry⟩ := target
    cases hv : (entry.replay direction s).value with
    | mk result storage =>
      cases result with
      | error error => exact Or.inr (Or.inl (by simp [serve, step, ht, hv]))
      | ok _ =>
        exact Or.inr (Or.inr ⟨index, entry, rfl, by simp [serve, step, ht, hv, stepped]⟩)

end Cases

variable {j k : Journal}

/-- What a request does to a journal: it takes a change in, or leaves the entries
but for the marks of saves, or clears them. -/
inductive Serves (j k : Journal) : Prop
  | takes (edit : Edit) (now : Nat) (status : RecordStatus) (plain : edit.kind ≠ .replace)
      (nonempty : edit.payload ≠ []) (takes : j.Takes edit now status k)
  | rests (entries : k.unmarked = j.unmarked) (base : k.baseVersion = j.baseVersion)
      (next : k.nextVersion = j.nextVersion)
      (within : j.position ≤ j.entries.length → k.position ≤ k.entries.length)
      (idle : j.replaying = false → k.replaying = false)
  | clears (entries : k.entries = []) (position : k.position = 0)
      (base : k.baseVersion = j.nextVersion) (next : k.nextVersion = j.nextVersion + 1)
      (idle : k.replaying = j.replaying)

theorem versions_eq_of_unmarked_eq (h : k.unmarked = j.unmarked) :
    k.entries.map (·.version) = j.entries.map (·.version) := by
  have versions (l : Journal) : l.unmarked.map (·.version) = l.entries.map (·.version) := by
    simp [unmarked, Function.comp_def]
  rw [← versions k, h, versions j]

theorem Serves.refl (j : Journal) : j.Serves j := .rests rfl rfl rfl id id

/-- **All that a request can do.** -/
theorem serves_serve (j : Journal) (request : Request σ) :
    j.Serves (j.serve request) := by
  cases request with
  | record kind place text now =>
    rcases j.serve_record_cases σ kind place text now with
      ⟨same, -⟩ | ⟨status, -, hkind, hne, takes⟩
    · rw [same]
      exact .refl j
    · exact .takes _ now status hkind hne takes
  | step direction storage =>
    rcases j.serve_step_cases direction storage with same | idle |
        ⟨index, entry, target, moved⟩
    · rw [same]
      exact .refl j
    · rw [idle]
      exact .rests rfl rfl rfl id fun _ => rfl
    · rw [moved]
      refine .rests rfl rfl rfl (fun _ => ?_) fun _ => rfl
      obtain ⟨at_index, -⟩ := (target?_eq_some_iff j direction index entry).mp target
      have inside : index < j.entries.length := (List.getElem?_eq_some_iff.mp at_index).1
      cases direction with
      | undo => exact Nat.le_of_lt inside
      | redo => exact inside
  | endRun => exact .rests rfl rfl rfl id id
  | groupBegin => exact .rests rfl rfl rfl id id
  | groupEnd =>
    rw [serve_groupEnd]
    exact .rests rfl rfl rfl id id
  | markSaved =>
    refine .rests j.unmarked_markSaved rfl rfl (fun within => ?_) id
    simpa [serve, markSaved] using within
  | clear => exact .clears rfl rfl rfl rfl rfl

namespace Serves

theorem position_le (h : j.Serves k) (within : j.position ≤ j.entries.length) :
    k.position ≤ k.entries.length := by
  cases h with
  | takes edit now status plain nonempty takes =>
    obtain ⟨p, d, last, leaves⟩ := takes.leaves_of_nonempty nonempty
    exact Nat.le_of_eq (leaves.position within)
  | rests entries base next kept idle => exact kept within
  | clears entries position base next idle =>
    rw [position]
    exact Nat.zero_le _

theorem nextVersion_le (h : j.Serves k) : j.nextVersion ≤ k.nextVersion := by
  cases h with
  | takes edit now status plain nonempty takes =>
    obtain ⟨p, d, last, leaves⟩ := takes.leaves_of_nonempty nonempty
    exact Nat.le_of_lt (Nat.lt_of_lt_of_eq (Nat.lt_succ_self _) leaves.next.symm)
  | rests entries base next kept idle => exact Nat.le_of_eq next.symm
  | clears entries position base next idle =>
    exact Nat.le_of_lt (Nat.lt_of_lt_of_eq (Nat.lt_succ_self _) next.symm)

theorem idle (h : j.Serves k) (resting : j.replaying = false) : k.replaying = false := by
  cases h with
  | takes edit now status plain nonempty takes =>
    obtain ⟨p, d, last, leaves⟩ := takes.leaves_of_nonempty nonempty
    exact leaves.idle.trans resting
  | rests entries base next kept idle => exact idle resting
  | clears entries position base next idle => exact idle.trans resting

end Serves

end Journal

/-! ## Requests of a session -/

/-- The steps that a command takes: up to `count`, until one does not move. -/
def Journal.stepRequests (j : Journal) (direction : HistoryStep) (s : σ) :
    Nat → List (Request σ)
  | 0 => []
  | count + 1 =>
    .step direction s ::
      match (j.step direction s).value with
      | (.ok (some _), k, t) => k.stepRequests direction t count
      | _ => []

namespace Session

/-- What an action asks of the journal. A change that the storage refuses is not
journaled. -/
def requests (s : Session σ) : Action → List (Request σ)
  | .insert place text now =>
    match (Storage.insert s.buffer.store place text).value.1 with
    | .ok _ => [.record .insert place text now]
    | .error _ => []
  | .delete place length now =>
    match (Storage.delete s.buffer.store place length).value.1 with
    | .ok removed => [.record .delete place removed now]
    | .error _ => []
  | .record kind place text now => [.record kind place text now]
  | .step direction => [.step direction s.buffer.store]
  | .command direction count =>
    s.buffer.journal.stepRequests direction s.buffer.store (max count 1)
  | .endRun => [.endRun]
  | .groupBegin => [.groupBegin]
  | .groupEnd => [.groupEnd]
  | .markSaved => [.markSaved]
  | .clearHistory => [.clear, .markSaved]

/-- What a run asks of the journal. -/
def requestsOf (s : Session σ) : List Action → List (Request σ)
  | [] => []
  | action :: rest => s.requests action ++ (s.act action).value.2.requestsOf rest

@[simp] theorem requestsOf_nil (s : Session σ) : s.requestsOf [] = [] := rfl

@[simp] theorem requestsOf_cons (s : Session σ) (action : Action) (rest : List Action) :
    s.requestsOf (action :: rest) =
      s.requests action ++ (s.act action).value.2.requestsOf rest := rfl

end Session

theorem Buffer.journal_record (b : Buffer σ) (kind : EditKind) (place : Location) (text : Text)
    (now : Nat) : (b.record kind place text now).value.2.journal =
      b.journal.serve (.record kind place text now : Request σ) := by
  simp only [Buffer.record, Journal.serve, Narrated.value_bind]
  split <;> simp [*]

theorem Buffer.journal_takeSteps (b : Buffer σ) (report : CommandReport) (count : Nat) :
    (b.takeSteps report count).value.2.journal =
      b.journal.serveAll (b.journal.stepRequests report.direction b.store count) := by
  induction count generalizing b report with
  | zero => rfl
  | succ count ih =>
    have served : b.journal.serve (.step report.direction b.store) =
        (b.journal.step report.direction b.store).value.2.1 := rfl
    rw [takeSteps, Journal.stepRequests, Journal.serveAll_cons, served]
    cases hv : (b.journal.step report.direction b.store).value with
    | mk result moved =>
      obtain ⟨k, t⟩ := moved
      have stepped : (b.step report.direction).value =
          (result, { b with journal := k, store := t }) := by
        simp [Buffer.step, hv]
      simp only [Narrated.value_bind, stepped]
      cases result with
      | error error => rfl
      | ok cursor =>
        cases cursor with
        | none => rfl
        | some cursor =>
          exact ih { b with journal := k, store := t }
            { report with applied := report.applied + 1, cursor := some cursor }

namespace Session

variable (s : Session σ)

/-- **An action changes the journal by its requests only.** -/
theorem journal_act (action : Action) :
    (s.act action).value.2.buffer.journal = s.buffer.journal.serveAll (s.requests action) := by
  cases action with
  | insert place text now =>
    show (s.buffer.insert place text now).value.2.journal = _
    cases hi : (Storage.insert s.buffer.store place text).value with
    | mk result store =>
      cases result with
      | error cause => simp [Buffer.insert, requests, hi]
      | ok stop =>
        simp only [Buffer.insert, requests, hi, Narrated.value_bind, Narrated.value_pure]
        exact Buffer.journal_record _ _ _ _ _
  | delete place length now =>
    show (s.buffer.delete place length now).value.2.journal = _
    cases hd : (Storage.delete s.buffer.store place length).value with
    | mk result store =>
      cases result with
      | error cause => simp [Buffer.delete, requests, hd]
      | ok removed =>
        simp only [Buffer.delete, requests, hd, Narrated.value_bind, Narrated.value_pure]
        exact Buffer.journal_record _ _ _ _ _
  | record kind place text now => exact s.buffer.journal_record kind place text now
  | step direction => rfl
  | command direction count =>
    -- the display bracket around the steps is no part of the journal
    exact Buffer.journal_takeSteps
      { s.buffer with depth := (EditScope.enter s.buffer.depth).value.2 }
      { direction, requested := max count 1 } (max count 1)
  | endRun => rfl
  | groupBegin => rfl
  | groupEnd => rfl
  | markSaved => rfl
  | clearHistory => rfl

/-- **So does a run.** -/
theorem journal_after (actions : List Action) :
    (s.after actions).buffer.journal = s.buffer.journal.serveAll (s.requestsOf actions) := by
  induction actions generalizing s with
  | nil => rfl
  | cons action rest ih =>
    rw [after_cons, ih, journal_act, requestsOf_cons, Journal.serveAll_append]

end Session

end EditJournal
