/-
EditJournal.Proofs.DeletionSides — a deletion touches the one before it on one side.

A deletion joins the one before it forward where it starts at its place, and backward
where it ends there. The two are told apart by places alone.

* `Location.not_both_sides` — what takes something out does not start and end at one place.
* `Splice.Fits.unique` — so one way of joining fits at most.
* `Coalesce.planDelete_of_starts`, `planDelete_of_ends`, `planDelete_of_apart` — how a
  deletion is planned on each side, and elsewhere.
* `Coalesce.OneSided` — all of this for a deletion and the entry before it.

`walks_tell_sides_apart` is the main result.

## How the proof goes

A walk over something ends behind its start (`Location.lt_advance`). So at most one of the
two tests of `Coalesce.planDelete` holds, and it does not matter which is made first.
-/
import EditJournal.Proofs.Coalescing
import EditJournal.Proofs.Walks

namespace EditJournal

variable {last last' : Edit} {place : Location} {text : Text} {how how' : Splice}

/-- What starts at a place and takes something out does not end there. -/
theorem Location.not_both_sides (nonempty : text ≠ []) (l m : Location) :
    ¬ (l = m ∧ l.advance text = m) := by
  rintro ⟨rfl, ends⟩
  exact (lt_advance nonempty l).ne' ends

/-- Its place alone tells which way of joining a deletion fits. -/
theorem Splice.Fits.unique (nonempty : text ≠ []) (same : last'.place = last.place)
    (fits : how.Fits last .delete place text) (fits' : how'.Fits last' .delete place text) :
    how = how' := by
  have one_side := Location.not_both_sides nonempty place last.place
  cases how with
  | append => cases fits.1
  | forwardDelete =>
    cases how' with
    | append => cases fits'.1
    | forwardDelete => rfl
    | backspace => exact absurd ⟨fits.2, fits'.2.trans same⟩ one_side
  | backspace =>
    cases how' with
    | append => cases fits'.1
    | forwardDelete => exact absurd ⟨fits'.2.trans same, fits.2⟩ one_side
    | backspace => rfl

namespace Coalesce

/-- How a deletion is planned that starts where the last one stands. -/
theorem planDelete_of_starts (nonempty : text ≠ []) (starts : place = last.place) :
    planDelete last place text =
      if last.run = some .backward then .error .directionChange else .ok .forwardDelete := by
  obtain rfl := starts
  have ends : last.place.advance text ≠ last.place := (Location.lt_advance nonempty _).ne'
  by_cases turned : last.run = some .backward
  · simp [planDelete, ends, turned]
  · simp [planDelete, turned]

/-- How a deletion is planned that ends where the last one stands. -/
theorem planDelete_of_ends (nonempty : text ≠ []) (ends : place.advance text = last.place) :
    planDelete last place text =
      if last.run = some .forward then .error .directionChange else .ok .backspace := by
  have starts : place ≠ last.place := fun starts =>
    Location.not_both_sides nonempty _ _ ⟨starts, ends⟩
  by_cases turned : last.run = some .forward
  · simp [planDelete, starts, ends, turned]
  · simp [planDelete, starts, ends, turned]

/-- How a deletion is planned that does not touch the last one. -/
theorem planDelete_of_apart (starts : place ≠ last.place)
    (ends : place.advance text ≠ last.place) :
    planDelete last place text = .error .notAdjacent := by
  simp [planDelete, starts, ends]

/-- A deletion of `text` from `place` to `stop` touches the deletion in `tail` on one side at
most. -/
structure OneSided (tail : Entry) (place stop : Location) (text : Text) : Prop where
  one_side : ¬ (place = tail.first.place ∧ stop = tail.first.place)
  /-- On its side, only the way in which a run has gone can stand against it. -/
  starts : place = tail.first.place → planDelete tail.first place text =
    if tail.first.run = some .backward then .error .directionChange else .ok .forwardDelete
  ends : stop = tail.first.place → planDelete tail.first place text =
    if tail.first.run = some .forward then .error .directionChange else .ok .backspace
  apart : place ≠ tail.first.place → stop ≠ tail.first.place →
    planDelete tail.first place text = .error .notAdjacent
  /-- Joined forward, it starts at the one before it and does not end there. -/
  forward : ∀ rules now, plan rules tail .delete place text now = .ok .forwardDelete →
    place = tail.first.place ∧ stop ≠ tail.first.place
  /-- Joined backward, it ends at the one before it and does not start there. -/
  backward : ∀ rules now, plan rules tail .delete place text now = .ok .backspace →
    stop = tail.first.place ∧ place ≠ tail.first.place
  /-- No rules, no clock and no other entry at the same place have it joined another way. -/
  unique : ∀ (tail' : Entry) (rules rules' : MergeRules) (now now' : Nat) (how how' : Splice),
    tail'.first.place = tail.first.place →
    plan rules tail .delete place text now = .ok how →
    plan rules' tail' .delete place text now' = .ok how' → how = how'

/-- **A deletion that takes something out has one side.** -/
theorem oneSided (nonempty : text ≠ []) (tail : Entry) {stop : Location}
    (walked : place.advance? text = some stop) : OneSided tail place stop text := by
  obtain ⟨rfl, -⟩ := Location.advance?_eq_some_iff.mp walked
  exact
    { one_side := Location.not_both_sides nonempty place tail.first.place
      starts := planDelete_of_starts nonempty
      ends := planDelete_of_ends nonempty
      apart := planDelete_of_apart
      forward := by
        intro rules now accepted
        obtain ⟨-, -, -, -, starts⟩ := plan_eq_ok accepted
        exact ⟨starts, fun ends => Location.not_both_sides nonempty _ _ ⟨starts, ends⟩⟩
      backward := by
        intro rules now accepted
        obtain ⟨-, -, -, -, ends⟩ := plan_eq_ok accepted
        exact ⟨ends, fun starts => Location.not_both_sides nonempty _ _ ⟨starts, ends⟩⟩
      unique := by
        intro tail' rules rules' now now' how how' same accepted accepted'
        obtain ⟨-, -, -, fits⟩ := plan_eq_ok accepted
        obtain ⟨-, -, -, fits'⟩ := plan_eq_ok accepted'
        exact fits.unique nonempty same fits' }

end Coalesce

/-- **Walks tell the sides of a deletion apart.** From every place a walk over a joined
string is the walks over its parts, goes on where there is something to walk over, and
keeps the order of places, as long as it stays within words. So a deletion that takes
something out, and walks to its end, joins an entry forward or backward, and where one of
the two fits the other does not. -/
theorem walks_tell_sides_apart (l : Location) (tail : Entry) (place : Location) :
    l.Walks ∧ ∀ (text : Text) (stop : Location), text ≠ [] →
      place.advance? text = some stop → Coalesce.OneSided tail place stop text :=
  ⟨l.walks, fun _ _ nonempty walked => Coalesce.oneSided nonempty tail walked⟩

/-- A deletion over a line break: to one that stands behind it, it is joined backward, to
one that stands where it starts, forward; never the other way round. -/
theorem lineBreak_tells_sides_apart :
    let place : Location := ⟨0, 1⟩
    let stop : Location := ⟨1, 0⟩
    let text : Text := ['é', '\n']
    let behind : Entry :=
      { first := { kind := .delete, place := ⟨1, 0⟩, payload := ['b'] }
        timestamp := 0, version := 1 }
    let here : Entry :=
      { first := { kind := .delete, place := ⟨0, 1⟩, payload := ['x'] }
        timestamp := 0, version := 1 }
    text ≠ [] ∧ place.advance? text = some stop ∧ place < stop ∧
      (Coalesce.plan {} behind .delete place text 5 = .ok .backspace ∧
        ∀ rules now how, Coalesce.plan rules behind .delete place text now = .ok how →
          how = .backspace) ∧
      (Coalesce.plan {} here .delete place text 5 = .ok .forwardDelete ∧
        ∀ rules now how, Coalesce.plan rules here .delete place text now = .ok how →
          how = .forwardDelete) := by
  intro place stop text behind here
  have nonempty : text ≠ [] := by simp [text]
  have walked : place.advance? text = some stop := by decide
  have before : Coalesce.plan {} behind .delete place text 5 = .ok .backspace := by rfl
  have onward : Coalesce.plan {} here .delete place text 5 = .ok .forwardDelete := by rfl
  obtain ⟨walks, sides_behind⟩ := walks_tell_sides_apart place behind place
  obtain ⟨-, sides_here⟩ := walks_tell_sides_apart place here place
  refine ⟨nonempty, walked, walks.onward text stop nonempty walked, ⟨before, ?_⟩, onward, ?_⟩
  · intro rules now how accepted
    exact (sides_behind text stop nonempty walked).unique behind rules {} now 5 how .backspace
      rfl accepted before
  · intro rules now how accepted
    exact (sides_here text stop nonempty walked).unique here rules {} now 5 how .forwardDelete
      rfl accepted onward

end EditJournal
