/-
EditJournal.Proofs.ResizeRequests — no resize request is lost, and none is taken twice.

Requests come at any moment, also between the moments of a take, and so do brackets and
other takes.

* `Moment`, `Resizing.next` — all that can happen next; takes are told apart by number.
* `Resizing.history` — the moments of a run, each with the state that it met.
* `Resizing.Returns s m id` — the moment at which the take `id` comes to return true.

`requests_wait_for_takes` is the main result. A take returns true only where it found no
bracket open. Behind a request the gate is pending until a take returns true, and between
two of these there is a request.

## How the proof goes

`Resizing.goes_next_take` says all that one moment of a take can do. A take returns true
at its last moment only, and takes the request away then (`Resizing.returns_iff`). So
pending is gained by requests, and lost where a take returns true, and at no other moment
(`Resizing.pending_next`).
-/
import EditJournal.Display.Resize
import EditJournal.Proofs.Publishing

namespace EditJournal

/-- What happens next around a resize gate. -/
inductive Moment where
  | notify
  /-- The window-change signal is listened to. -/
  | install
  | signal
  | bracket (call : BracketCall)
  /-- A take goes on by one moment. -/
  | take (id : Nat)
  deriving DecidableEq, Repr

/-- A gate, the display whose brackets it looks at, and where each take stands. -/
structure Resizing where
  gate : ResizeGate := {}
  display : Display := {}
  takes : Nat → Taking := fun _ => .started

namespace Resizing

/-- Goes on by one moment. -/
def next (s : Resizing) : Moment → Resizing
  | .notify => { s with gate := s.gate.notify }
  | .install => { s with gate := s.gate.install.value }
  | .signal => { s with gate := s.gate.signal }
  | .bracket call => { s with display := (s.display.call call).value }
  | .take id =>
    let (taking, gate) := (s.gate.advance s.display.depth (s.takes id)).value
    { s with gate, takes := fun other => if other = id then taking else s.takes other }

/-- The state behind some moments. -/
def after (s : Resizing) (moments : List Moment) : Resizing := moments.foldl next s

@[simp] theorem after_nil (s : Resizing) : s.after [] = s := rfl

@[simp] theorem after_cons (s : Resizing) (m : Moment) (rest : List Moment) :
    s.after (m :: rest) = (s.next m).after rest := rfl

theorem after_append (s : Resizing) (first second : List Moment) :
    s.after (first ++ second) = (s.after first).after second :=
  List.foldl_append

/-- The moments, each with the state that it met. -/
def history (s : Resizing) : List Moment → List (Resizing × Moment)
  | [] => []
  | m :: rest => (s, m) :: (s.next m).history rest

@[simp] theorem history_nil (s : Resizing) : s.history [] = [] := rfl

@[simp] theorem history_cons (s : Resizing) (m : Moment) (rest : List Moment) :
    s.history (m :: rest) = (s, m) :: (s.next m).history rest := rfl

/-- Where a history is cut, the moments are. -/
theorem history_eq_append {s t : Resizing} {m : Moment} {moments : List Moment}
    {front back : List (Resizing × Moment)} (h : s.history moments = front ++ (t, m) :: back) :
    ∃ before behind, moments = before ++ m :: behind ∧ front = s.history before ∧
      t = s.after before ∧ back = (t.next m).history behind := by
  induction front generalizing s moments with
  | nil =>
    cases moments with
    | nil => simp at h
    | cons first rest =>
      obtain ⟨⟨rfl, rfl⟩, rfl⟩ : (s = t ∧ first = m) ∧ (s.next first).history rest = back := by
        simpa using h
      exact ⟨[], rest, rfl, rfl, rfl, rfl⟩
  | cons step front ih =>
    cases moments with
    | nil => simp at h
    | cons first rest =>
      obtain ⟨rfl, tail⟩ : (s, first) = step ∧
          (s.next first).history rest = front ++ (t, m) :: back := by
        simpa using h
      obtain ⟨before, behind, rfl, rfl, rfl, rfl⟩ := ih tail
      exact ⟨first :: before, behind, rfl, rfl, rfl, rfl⟩

/-! ## Moments -/

/-- Is a resize asked for? -/
def requestedBy (s : Resizing) : Moment → Bool
  | .notify => true
  | .signal => s.gate.listening
  | _ => false

/-- The take `id` comes to return true. -/
def Returns (s : Resizing) (m : Moment) (id : Nat) : Prop :=
  s.takes id ≠ .done true ∧ (s.next m).takes id = .done true

/-- The take `id` has seen that no bracket is open, and was not too late. -/
def Cleared (s : Resizing) (id : Nat) :
    Prop := s.takes id = .depthClear ∨ s.takes id = .done true

variable {s : Resizing} {m : Moment} {id : Nat}

theorem takes_next_of_ne (h : m ≠ .take id) : (s.next m).takes id = s.takes id := by
  cases m with
  | take other =>
    have ne : id ≠ other := fun same => h (congrArg Moment.take same.symm)
    simp [next, ne]
  | _ => rfl

/-- All that the next moment of a take can do. -/
inductive Goes (s : Resizing) (id : Nat) (t : Resizing) : Prop
  | returns (clear : s.takes id = .depthClear) (pending : s.gate.pending = true)
      (done : t.takes id = .done true) (gate : t.gate = { s.gate with pending := false })
  | clears (seen : s.takes id = .requestSeen) (closed : s.display.depth.level = 0)
      (clear : t.takes id = .depthClear) (gate : t.gate = s.gate)
  /-- It sees a request, or it is refused, or it was done before. -/
  | other (takes : t.takes id = .requestSeen ∨ t.takes id = .done false ∨
        t.takes id = s.takes id ∧ ∃ taken, s.takes id = .done taken)
      (gate : t.gate = s.gate)

theorem goes_next_take (s : Resizing) (id : Nat) : s.Goes id (s.next (.take id)) := by
  cases htake : s.takes id with
  | started =>
    cases hpending : s.gate.pending with
    | true =>
      exact .other (Or.inl (by simp [next, htake, ResizeGate.advance, hpending]))
        (by simp [next, htake, ResizeGate.advance])
    | false =>
      exact .other (Or.inr (Or.inl (by simp [next, htake, ResizeGate.advance, hpending])))
        (by simp [next, htake, ResizeGate.advance])
  | requestSeen =>
    cases hopen : s.display.depth.isOpen with
    | true =>
      exact .other (Or.inr (Or.inl (by simp [next, htake, ResizeGate.advance, hopen])))
        (by simp [next, htake, ResizeGate.advance, hopen])
    | false =>
      have closed : s.display.depth.level = 0 := by simpa [EditDepth.isOpen] using hopen
      exact .clears htake closed (by simp [next, htake, ResizeGate.advance, hopen])
        (by simp [next, htake, ResizeGate.advance, hopen])
  | depthClear =>
    cases hpending : s.gate.pending with
    | true =>
      exact .returns htake hpending (by simp [next, htake, ResizeGate.advance, hpending])
        (by simp [next, htake, ResizeGate.advance, hpending])
    | false =>
      exact .other (Or.inr (Or.inl (by simp [next, htake, ResizeGate.advance, hpending])))
        (by simp [next, htake, ResizeGate.advance, hpending])
  | done taken =>
    exact .other (Or.inr (Or.inr ⟨by simp [next, htake, ResizeGate.advance], taken, htake⟩))
      (by simp [next, htake, ResizeGate.advance])

/-- **A take returns true at its last moment, if a request is there.** -/
theorem returns_iff :
    s.Returns m id ↔ m = .take id ∧ s.takes id = .depthClear ∧ s.gate.pending = true := by
  constructor
  · rintro ⟨undone, done⟩
    by_cases here : m = .take id
    · subst here
      cases s.goes_next_take id with
      | returns clear pending _ gate => exact ⟨rfl, clear, pending⟩
      | clears seen closed clear gate => simp [clear] at done
      | other takes gate =>
        rcases takes with seen | refused | ⟨same, -⟩
        · simp [seen] at done
        · simp [refused] at done
        · exact absurd (same.symm.trans done) undone
    · rw [takes_next_of_ne here] at done
      exact absurd done undone
  · rintro ⟨rfl, clear, pending⟩
    refine ⟨by simp [clear], ?_⟩
    simp [next, clear, ResizeGate.advance, pending]

/-- It takes the request away. -/
theorem Returns.taken (h : s.Returns m id) : (s.next m).gate.pending = false := by
  obtain ⟨rfl, clear, pending⟩ := returns_iff.mp h
  simp [next, clear, ResizeGate.advance, pending]

theorem pending_of_requestedBy (h : s.requestedBy m = true) :
    (s.next m).gate.pending = true := by
  cases m with
  | notify => rfl
  | signal =>
    have listening : s.gate.listening = true := h
    simp [next, ResizeGate.signal, listening, ResizeGate.notify]
  | _ => simp [requestedBy] at h

/-- **Pending is gained by a request, lost where a take returns true, and kept at any
other moment.** -/
theorem pending_next (s : Resizing) (m : Moment) :
    s.requestedBy m = true ∨ (∃ id, s.Returns m id) ∨
      (s.next m).gate.pending = s.gate.pending := by
  cases m with
  | notify => exact Or.inl rfl
  | install => exact Or.inr (Or.inr rfl)
  | signal =>
    cases hlistening : s.gate.listening with
    | true => exact Or.inl hlistening
    | false => exact Or.inr (Or.inr (by simp [next, ResizeGate.signal, hlistening]))
  | bracket call => exact Or.inr (Or.inr rfl)
  | take id =>
    refine Or.inr ?_
    cases s.goes_next_take id with
    | returns clear pending done gate =>
      exact Or.inl ⟨id, returns_iff.mpr ⟨rfl, clear, pending⟩⟩
    | clears seen closed clear gate => exact Or.inr (congrArg ResizeGate.pending gate)
    | other takes gate => exact Or.inr (congrArg ResizeGate.pending gate)

/-- A take is cleared where it looks at the depth and finds no bracket open. -/
theorem cleared_next (h : (s.next m).Cleared id) :
    s.Cleared id ∨ m = .take id ∧ s.takes id = .requestSeen ∧ s.display.depth.level = 0 := by
  by_cases here : m = .take id
  · subst here
    cases s.goes_next_take id with
    | returns clear pending done gate => exact Or.inl (Or.inl clear)
    | clears seen closed clear gate => exact Or.inr ⟨rfl, seen, closed⟩
    | other takes gate =>
      rcases takes with seen | refused | ⟨same, -⟩
      · simp [Cleared, seen] at h
      · simp [Cleared, refused] at h
      · rw [Cleared, same] at h
        exact Or.inl h
  · rw [Cleared, takes_next_of_ne here] at h
    exact Or.inl h

/-! ## Runs -/

variable {moments : List Moment}

/-- A take that is cleared behind a run was so before, or looked at the depth in it. -/
theorem cleared_after (h : (s.after moments).Cleared id) :
    s.Cleared id ∨ ∃ t, (t, .take id) ∈ s.history moments ∧ t.takes id = .requestSeen ∧
      t.display.depth.level = 0 := by
  induction moments generalizing s with
  | nil => exact Or.inl h
  | cons m rest ih =>
    rcases ih h with cleared | ⟨t, member, seen, closed⟩
    · rcases cleared_next cleared with cleared | ⟨rfl, seen, closed⟩
      · exact Or.inl cleared
      · exact Or.inr ⟨s, by simp, seen, closed⟩
    · exact Or.inr ⟨t, List.mem_cons_of_mem _ member, seen, closed⟩

/-- A pending gate stays pending, or a take returns true. -/
theorem pending_after (h : s.gate.pending = true) :
    (s.after moments).gate.pending = true ∨
      ∃ step ∈ s.history moments, ∃ id, step.1.Returns step.2 id := by
  induction moments generalizing s with
  | nil => exact Or.inl h
  | cons m rest ih =>
    have goesOn (pending : (s.next m).gate.pending = true) :
        ((s.next m).after rest).gate.pending = true ∨
          ∃ step ∈ s.history (m :: rest), ∃ id, step.1.Returns step.2 id := by
      refine (ih pending).imp_right ?_
      rintro ⟨step, member, returns⟩
      exact ⟨step, List.mem_cons_of_mem _ member, returns⟩
    rcases pending_next s m with requested | ⟨id, returns⟩ | same
    · exact goesOn (pending_of_requestedBy requested)
    · exact Or.inr ⟨(s, m), by simp, id, returns⟩
    · exact goesOn (same.trans h)

/-- A gate that comes to be pending was asked for a resize. -/
theorem exists_request (h : s.gate.pending = false)
    (pending : (s.after moments).gate.pending = true) :
    ∃ step ∈ s.history moments, step.1.requestedBy step.2 = true := by
  induction moments generalizing s with
  | nil => simp [h] at pending
  | cons m rest ih =>
    by_cases requested : s.requestedBy m = true
    · exact ⟨(s, m), by simp, requested⟩
    · have quiet : (s.next m).gate.pending = false := by
        rcases pending_next s m with here | ⟨id, returns⟩ | same
        · exact absurd here requested
        · exact returns.taken
        · exact same.trans h
      obtain ⟨step, member, found⟩ := ih quiet pending
      exact ⟨step, List.mem_cons_of_mem _ member, found⟩

/-- Three moments of a take that nothing comes between are a whole take. -/
theorem after_take (s : Resizing) (h : s.takes id = .started) :
    (s.after [.take id, .take id, .take id]).takes id =
        .done (s.gate.take s.display.depth).value.1 ∧
      (s.after [.take id, .take id, .take id]).gate =
        (s.gate.take s.display.depth).value.2 := by
  cases hpending : s.gate.pending <;> cases hopen : s.display.depth.isOpen <;>
    simp [next, h, ResizeGate.take, ResizeGate.advance, hpending, hopen]

end Resizing

open Resizing

/-- **A resize request waits for a take that returns true, and for no more than one.**
Whatever happens, in whatever order: a take returns true only if it found no bracket open
when it looked. From a request on, the gate is pending until a take returns true. Before
each take that returns true there is a request behind the one before it. -/
theorem requests_wait_for_takes (gate : ResizeGate) (display : Display)
    (moments : List Moment) :
    let start : Resizing := { gate, display }
    let s := start.after moments
    -- the depth that a take looked at
    (∀ id, s.takes id = .done true →
      ∃ t, (t, .take id) ∈ start.history moments ∧ t.takes id = .requestSeen ∧
        t.display.depth.level = 0) ∧
    -- behind a request
    (∀ front t m back, start.history moments = front ++ (t, m) :: back →
      t.requestedBy m = true →
      (∀ between u k rest, back = between ++ (u, k) :: rest →
        u.gate.pending = true ∨ ∃ step ∈ between, ∃ id, step.1.Returns step.2 id) ∧
      (s.gate.pending = true ∨ ∃ step ∈ back, ∃ id, step.1.Returns step.2 id)) ∧
    -- between takes
    (∀ front t m between u k back id other,
      start.history moments = front ++ (t, m) :: (between ++ (u, k) :: back) →
      t.Returns m id → u.Returns k other →
      ∃ step ∈ between, step.1.requestedBy step.2 = true) ∧
    -- a take that nothing comes between
    ∀ t : Resizing, ∀ id, t.takes id = .started →
      (t.after [.take id, .take id, .take id]).takes id =
          .done (t.gate.take t.display.depth).value.1 ∧
        (t.after [.take id, .take id, .take id]).gate =
          (t.gate.take t.display.depth).value.2 := by
  intro start s
  refine ⟨?_, ?_, ?_, fun t id started => t.after_take started⟩
  · intro id done
    have cleared : s.Cleared id := Or.inr done
    refine (cleared_after cleared).resolve_left ?_
    simp [Cleared, start]
  · intro front t m back cut requested
    obtain ⟨before, behind, rfl, rfl, rfl, rfl⟩ := history_eq_append cut
    have pending := pending_of_requestedBy requested
    refine ⟨?_, ?_⟩
    · intro between u k rest cut
      obtain ⟨first, second, rfl, rfl, rfl, rfl⟩ := history_eq_append cut
      exact pending_after pending
    · have behind_all : s = ((start.after before).next m).after behind := by
        simp [s, after_append]
      rw [behind_all]
      exact pending_after pending
  · intro front t m between u k back id other cut returns again
    obtain ⟨before, behind, rfl, rfl, rfl, cut⟩ := history_eq_append cut
    obtain ⟨first, second, rfl, rfl, rfl, rfl⟩ := history_eq_append cut.symm
    have pending := (returns_iff.mp again).2.2
    exact exists_request returns.taken pending

/-- A signal comes inside a bracket, and take 0 is refused. Take 1 is met by a second
request behind its look at the depth. Take 2 finds nothing, and take 3 a third request. -/
def threeRequests : List Moment :=
  [.install, .bracket .begin, .signal, .take 0, .take 0, .bracket .abort, .take 1, .take 1,
    .notify, .take 1, .take 2, .notify, .take 3, .take 3, .take 3]

/-- The signal waits for take 1, and the third request comes before take 3 returns true. -/
theorem threeRequests_wait_for_takes :
    let start : Resizing := {}
    let s := start.after threeRequests
    let signalled := start.after (threeRequests.take 3)
    let taken := start.after (threeRequests.take 10)
    (s.takes 0 = .done false ∧ s.takes 1 = .done true ∧ s.takes 2 = .done false ∧
      s.takes 3 = .done true) ∧
    (∃ t, (t, .take 1) ∈ start.history threeRequests ∧ t.takes 1 = .requestSeen ∧
      t.display.depth.level = 0) ∧
    (start.after (threeRequests.take 2)).requestedBy .signal = true ∧
    (s.gate.pending = true ∨
      ∃ step ∈ signalled.history (threeRequests.drop 3), ∃ id, step.1.Returns step.2 id) ∧
    (start.after (threeRequests.take 9)).Returns (.take 1) 1 ∧
    (start.after (threeRequests.take 14)).Returns (.take 3) 3 ∧
    (∃ step ∈ taken.history ((threeRequests.drop 10).take 4),
      step.1.requestedBy step.2 = true) ∧
    (start.gate.take start.display.depth).value.1 = false := by
  intro start s signalled taken
  obtain ⟨looked, waits, between, whole⟩ := requests_wait_for_takes {} {} threeRequests
  have first : (start.after (threeRequests.take 9)).Returns (.take 1) 1 :=
    ⟨by decide, by decide⟩
  have second : (start.after (threeRequests.take 14)).Returns (.take 3) 3 :=
    ⟨by decide, by decide⟩
  have request : (start.after (threeRequests.take 2)).requestedBy .signal = true := by decide
  have answers : s.takes 0 = .done false ∧ s.takes 1 = .done true ∧ s.takes 2 = .done false ∧
      s.takes 3 = .done true := by decide
  refine ⟨answers, looked 1 answers.2.1, request, ?_, first, second, ?_, ?_⟩
  · exact (waits (start.history (threeRequests.take 2)) _ .signal _ rfl request).2
  · exact between (start.history (threeRequests.take 9)) _ _ _ _ _ [] 1 3 rfl first second
  · have unasked := (whole start 0 rfl).1
    have done : (start.after [.take 0, .take 0, .take 0]).takes 0 = .done false := by decide
    exact (Taking.done.inj (done.symm.trans unasked)).symm

end EditJournal
