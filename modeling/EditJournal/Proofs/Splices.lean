/-
EditJournal.Proofs.Splices — insertion and removal are one relation, read in
two directions.

`Text.Inserted place new s t` says that `t` is `s` with `new` put in at a
place. Insertion succeeds exactly when there is such a text behind it
(`insertAt_eq_ok_iff`), removal exactly when there is such a text before it
(`deleteAt_eq_ok_iff`), so each undoes the other.

Two insertions next to each other are one: the second goes behind the first
(`Inserted.behind`) or in front of it (`Inserted.inFront`). A run of typing, a
run of backspaces and a run of forward deletions are each one of the two.
-/
import EditJournal.Proofs.Places

namespace EditJournal.Text

open Location (origin)

/-- The text `t` is the text `s` with `new` put in at a place. -/
def Inserted (place : Location) (new s t : Text) : Prop :=
  ∃ before after, s = before ++ after ∧ t = before ++ new ++ after ∧
    origin.advance before = place

/-- Insertion succeeds exactly where it has a place to go. -/
theorem insertAt_eq_ok_iff (s : Text) (place : Location) (new : Text) (stop : Location)
    (t : Text) :
    insertAt s place new = .ok (stop, t) ↔
      stop = place.advance new ∧ Inserted place new s t := by
  constructor
  · intro h
    cases hs : splitAt s place with
    | error cause => simp [insertAt, hs, bind, Except.bind] at h
    | ok parts =>
      obtain ⟨before, after⟩ := parts
      obtain ⟨rfl, hp⟩ := (splitAt_eq_ok_iff s place before after).mp hs
      simp only [insertAt, hs, bind, Except.bind, Except.ok.injEq, Prod.mk.injEq] at h
      exact ⟨h.1.symm, before, after, rfl, h.2.symm, hp⟩
  · rintro ⟨rfl, before, after, rfl, rfl, rfl⟩
    simp [insertAt, splitAt_advance, bind, Except.bind]

/-- A range is cut out exactly where it starts at a place and has the length. -/
theorem cut_eq_ok_iff (t : Text) (place : Location) (n : Nat) (before range rest : Text) :
    cut t place n = .ok (before, range, rest) ↔
      t = before ++ (range ++ rest) ∧ origin.advance before = place ∧
        byteLength range = n := by
  constructor
  · intro h
    cases hs : splitAt t place with
    | error cause => simp [cut, hs, bind, Except.bind] at h
    | ok parts =>
      obtain ⟨front, after⟩ := parts
      obtain ⟨rfl, hp⟩ := (splitAt_eq_ok_iff t place front after).mp hs
      simp only [cut, hs, bind, Except.bind] at h
      split at h
      · simp at h
      · cases ha : splitAtByte? after n with
        | none => simp [ha] at h
        | some pieces =>
          obtain ⟨middle, back⟩ := pieces
          obtain ⟨rfl, rfl, rfl⟩ : front = before ∧ middle = range ∧ back = rest := by
            simpa [ha] using h
          obtain ⟨rfl, hn⟩ := (splitAtByte?_eq_some_iff after n _ _).mp ha
          exact ⟨rfl, hp, hn⟩
  · rintro ⟨rfl, rfl, rfl⟩
    have hcut : splitAtByte? (range ++ rest) (byteLength range) = some (range, rest) :=
      (splitAtByte?_eq_some_iff _ _ _ _).mpr ⟨rfl, rfl⟩
    simp [cut, splitAt_advance, hcut, bind, Except.bind]

/-- Removal succeeds exactly where what it takes out could have been put in. -/
theorem deleteAt_eq_ok_iff (t : Text) (place : Location) (n : Nat) (removed s : Text) :
    deleteAt t place n = .ok (removed, s) ↔
      byteLength removed = n ∧ Inserted place removed s t := by
  constructor
  · intro h
    cases hc : cut t place n with
    | error cause => simp [deleteAt, hc, bind, Except.bind] at h
    | ok parts =>
      obtain ⟨before, range, rest⟩ := parts
      obtain ⟨ht, hp, hn⟩ := (cut_eq_ok_iff t place n before range rest).mp hc
      obtain ⟨rfl, rfl⟩ : range = removed ∧ before ++ rest = s := by
        simpa [deleteAt, hc, bind, Except.bind] using h
      exact ⟨hn, before, rest, rfl, by simpa using ht, hp⟩
  · rintro ⟨rfl, before, after, rfl, rfl, rfl⟩
    have hc : cut (before ++ removed ++ after) (origin.advance before) (byteLength removed) =
        .ok (before, removed, after) := (cut_eq_ok_iff _ _ _ _ _ _).mpr ⟨by simp, rfl, rfl⟩
    simp only [deleteAt, hc, bind, Except.bind]

variable {place : Location} {x y s t u : Text}

theorem Inserted.eq_of_nil (h : Inserted place [] s t) : t = s := by
  obtain ⟨before, after, rfl, rfl, -⟩ := h
  simp

/-- What is put in where the first insertion ended goes behind it. -/
theorem Inserted.behind (hx : Inserted place x s t) (hy : Inserted (place.advance x) y t u) :
    Inserted place (x ++ y) s u := by
  obtain ⟨before, after, rfl, rfl, rfl⟩ := hx
  obtain ⟨before', after', ht, rfl, hp⟩ := hy
  rw [← Location.advance_append] at hp
  obtain ⟨rfl, rfl⟩ := append_inj_of_advance ht hp.symm
  exact ⟨before, after, rfl, by simp, rfl⟩

/-- What is put in where the first insertion began goes in front of it. -/
theorem Inserted.inFront (hx : Inserted place x s t) (hy : Inserted place y t u) :
    Inserted place (y ++ x) s u := by
  obtain ⟨before, after, rfl, rfl, rfl⟩ := hx
  obtain ⟨before', after', ht, rfl, hp⟩ := hy
  rw [List.append_assoc] at ht
  obtain ⟨rfl, rfl⟩ := append_inj_of_advance ht hp.symm
  exact ⟨before, after, rfl, by simp, rfl⟩

end EditJournal.Text
