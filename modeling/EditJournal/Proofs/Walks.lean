/-
EditJournal.Proofs.Walks — a walk over a string goes on, and keeps the order of places.

Places are ordered by line and then by offset. This is a linear order, the one that
`compare` tells.

* `Location.lt_advance` — a walk over something ends behind its start.
* `Location.advance_le_advance` — walks over one string end in the order in which they
  started.
* `Location.advance_eq_ite` — where a walk ends, read off the line feeds of the string:
  how many there are, and what is behind the last one.
* `Text.advance_fits` — walks from a place of a text stay within words.
* `Location.Walks` — all of this for walks that stay within words, and that a walk over a
  joined string is two walks, of which the second counts past the last word where it does.

`Location.walks` is the main result: it holds of every place.

## How the proof goes

One character moves a place on (`lt_step`) and keeps the order (`step_le_step`); walks do
so by induction. The last line feed is found by induction from the back, where one more
character either is the last line feed or lengthens what is behind it.
-/
import Mathlib.Data.List.DropRight
import Mathlib.Order.Defs.LinearOrder
import EditJournal.Word
import EditJournal.Proofs.Addresses

namespace EditJournal

namespace Location

/-! ## The order of places -/

theorem le_def (l m : Location) :
    l ≤ m ↔ l.line < m.line ∨ (l.line = m.line ∧ l.offset ≤ m.offset) := Iff.rfl

theorem lt_def (l m : Location) :
    l < m ↔ l.line < m.line ∨ (l.line = m.line ∧ l.offset < m.offset) := Iff.rfl

theorem compare_def (l m : Location) :
    compare l m = (compare l.line m.line).then (compare l.offset m.offset) := rfl

theorem compare_eq_lt {l m : Location} (h : l < m) : compare l m = .lt := by
  rw [compare_def]
  rcases h with earlier | ⟨same, before⟩
  · rw [Nat.compare_eq_lt.mpr earlier]
    rfl
  · rw [same, Nat.compare_eq_eq.mpr rfl, Nat.compare_eq_lt.mpr before]
    rfl

theorem compare_eq_gt {l m : Location} (h : m < l) : compare l m = .gt := by
  rw [compare_def]
  rcases h with earlier | ⟨same, before⟩
  · rw [Nat.compare_eq_gt.mpr earlier]
    rfl
  · rw [same, Nat.compare_eq_eq.mpr rfl, Nat.compare_eq_gt.mpr before]
    rfl

/-- Of two places one is before the other, as `compare` tells. -/
instance : LinearOrder Location where
  le_refl l := Or.inr ⟨rfl, Nat.le_refl _⟩
  le_trans l m n := by
    simp only [le_def]
    omega
  lt_iff_le_not_ge l m := by
    simp only [le_def, lt_def]
    omega
  le_antisymm l m before behind := by
    obtain ⟨line, offset⟩ := l
    obtain ⟨line', offset'⟩ := m
    simp only [le_def] at before behind
    obtain ⟨rfl, rfl⟩ : line = line' ∧ offset = offset' := by omega
    rfl
  le_total l m := by
    simp only [le_def]
    omega
  toDecidableLE l m := decidable_of_iff' _ (le_def l m)
  compare_eq_compareOfLessAndEq l m := by
    unfold compareOfLessAndEq
    rcases lt_trichotomy l m with before | rfl | behind
    · rw [if_pos before, compare_eq_lt before]
    · have irrefl : ¬ l < l := by
        simp only [lt_def]
        omega
      rw [if_neg irrefl, if_pos rfl, compare_def, Nat.compare_eq_eq.mpr rfl,
        Nat.compare_eq_eq.mpr rfl]
      rfl
    · have later : ¬ l < m := by
        simp only [lt_def] at behind ⊢
        omega
      have apart : l ≠ m := by
        rintro rfl
        exact later behind
      rw [if_neg later, if_neg apart, compare_eq_gt behind]

/-! ## Walking on -/

/-- One character moves a place on. -/
theorem lt_step (l : Location) (c : Char) : l < l.step c := by
  by_cases hc : c = '\n'
  · subst hc
    exact Or.inl (Nat.lt_succ_self l.line)
  · rw [step_of_ne hc]
    exact Or.inr ⟨rfl, Nat.lt_add_of_pos_right c.utf8Size_pos⟩

theorem step_le_step {l m : Location} (h : l ≤ m) (c : Char) : l.step c ≤ m.step c := by
  by_cases hc : c = '\n'
  · subst hc
    simp only [step_newline, le_def] at h ⊢
    omega
  · simp only [step_of_ne hc, le_def] at h ⊢
    omega

theorem le_advance (l : Location) (t : Text) : l ≤ l.advance t := by
  induction t generalizing l with
  | nil => exact le_refl l
  | cons c t ih => exact (le_of_lt (l.lt_step c)).trans (ih (l.step c))

/-- **A walk over something ends behind its start.** -/
theorem lt_advance {t : Text} (nonempty : t ≠ []) (l : Location) : l < l.advance t := by
  cases t with
  | nil => exact absurd rfl nonempty
  | cons c t =>
    calc l < l.step c := l.lt_step c
      _ ≤ (l.step c).advance t := (l.step c).le_advance t

/-- **Walks over one string keep the order**, though not strictly: a line feed brings all
places of a line together. -/
theorem advance_le_advance {l m : Location} (h : l ≤ m) (t : Text) :
    l.advance t ≤ m.advance t := by
  induction t generalizing l m with
  | nil => exact h
  | cons c t ih => exact ih (step_le_step h c)

example : (⟨0, 1⟩ : Location) < ⟨0, 2⟩ ∧
    (⟨0, 1⟩ : Location).advance ['\n'] = (⟨0, 2⟩ : Location).advance ['\n'] := by decide

/-! ## Where a walk ends -/

/-- A walk counts line feeds, and behind the last one bytes. -/
theorem advance_eq_ite (l : Location) (t : Text) :
    l.advance t =
      if '\n' ∈ t then ⟨l.line + t.count '\n', Text.byteLength (t.rtakeWhile (· ≠ '\n'))⟩
      else ⟨l.line, l.offset + t.byteLength⟩ := by
  -- from the back, where the last line feed is
  induction t using List.reverseRecOn with
  | nil => simp
  | append_singleton t c ih =>
    rw [advance_append, ih, advance_cons, advance_nil]
    by_cases hc : c = '\n'
    · subst hc
      rw [List.rtakeWhile_concat_neg _ _ _ (by simp)]
      by_cases fed : '\n' ∈ t
      · simp [step_newline, fed, Nat.add_assoc]
      · simp [step_newline, fed, List.count_eq_zero.mpr fed]
    · rw [List.rtakeWhile_concat_pos _ _ _ (by simpa using hc)]
      by_cases fed : '\n' ∈ t
      · simp [step_of_ne hc, fed, hc]
      · simp [step_of_ne hc, fed, Ne.symm hc, Nat.add_assoc]

/-- A walk moves by no more lines and bytes than it passes bytes. -/
theorem advance_bounded (l : Location) (t : Text) :
    (l.advance t).line ≤ l.line + t.byteLength ∧
      (l.advance t).offset ≤ l.offset + t.byteLength := by
  induction t generalizing l with
  | nil => exact ⟨Nat.le_refl _, Nat.le_refl _⟩
  | cons c t ih =>
    have size := c.utf8Size_pos
    have behind := ih (l.step c)
    rw [advance_cons, Text.byteLength_cons]
    by_cases hc : c = '\n'
    · subst hc
      simp only [step_newline] at behind ⊢
      omega
    · simp only [step_of_ne hc] at behind ⊢
      omega

end Location

/-- **Walks from a place of a text stay within words**, if the text and the string are
short enough to be held. -/
theorem Text.advance_fits {t : Text} {l : Location} {n : Nat} (found : t.byteIndex l = .ok n)
    {a : Text} (held : t.byteLength < Word.half) (short : a.byteLength < Word.half) :
    (l.advance a).Fits := by
  obtain ⟨front, back, rfl, rfl, rfl⟩ := (byteIndex_eq_ok_iff t l n).mp found
  have bounded := Location.advance_bounded .origin (front ++ a)
  have halves := Word.half_add_half
  have line : Location.origin.line = 0 := rfl
  have offset : Location.origin.offset = 0 := rfl
  rw [Location.advance_append, byteLength_append] at bounded
  rw [byteLength_append] at held
  unfold Location.Fits
  omega

/-- Walks from a place. -/
structure Location.Walks (l : Location) : Prop where
  /-- They count line feeds, and behind the last one bytes. -/
  ends : ∀ (a : Text) (m : Location), l.advance? a = some m ↔
    m.Fits ∧ m =
      if '\n' ∈ a then ⟨l.line + a.count '\n', Text.byteLength (a.rtakeWhile (· ≠ '\n'))⟩
      else ⟨l.line, l.offset + a.byteLength⟩
  /-- A walk over a joined string is two walks, as long as the first one stays within words. -/
  append : ∀ (a b : Text) (m : Location), l.advance? a = some m →
    l.advance? (a ++ b) = m.advance? b
  /-- A walk over something ends behind its start. -/
  onward : ∀ (a : Text) (m : Location), a ≠ [] → l.advance? a = some m → l < m
  /-- Two walks over one string end in the order in which they started. -/
  in_order : ∀ (m : Location) (a : Text) (l' m' : Location), l ≤ m → l.advance? a = some l' →
    m.advance? a = some m' → l' ≤ m'
  /-- Where the place is one of a text, its walks stay within words. -/
  words : ∀ (t a : Text) (n : Nat), t.byteIndex l = .ok n → t.byteLength < Word.half →
    a.byteLength < Word.half → l.advance? a = some (l.advance a)

/-- **Walks from every place** go on, keep the order and add up. -/
theorem Location.walks (l : Location) : l.Walks where
  ends a m := by
    rw [advance?_eq_some_iff, advance_eq_ite, and_comm, eq_comm (b := m)]
  append a b m walked := by
    obtain ⟨rfl, -⟩ := advance?_eq_some_iff.mp walked
    simp only [advance?, advance_append]
  onward a m nonempty walked := by
    obtain ⟨rfl, -⟩ := advance?_eq_some_iff.mp walked
    exact lt_advance nonempty l
  in_order m a l' m' before walked walked' := by
    obtain ⟨rfl, -⟩ := advance?_eq_some_iff.mp walked
    obtain ⟨rfl, -⟩ := advance?_eq_some_iff.mp walked'
    exact advance_le_advance before a
  words t a n found held short :=
    advance?_eq_some_iff.mpr ⟨rfl, Text.advance_fits found held short⟩

/-- **At the last offset a walk stops**, and so does the first of two walks whose joined
string brings a line feed; the walk over the whole string does not. -/
theorem Location.lastOffset_is_passed :
    let l : Location := ⟨0, Word.size - 1⟩
    l.Fits ∧ l.advance? ['a'] = none ∧
      l.advance? (['a'] ++ ['\n']) = some ⟨1, 0⟩ ∧
      l.advance? (['a'] ++ ['\n']) ≠ (l.advance? ['a']).bind (·.advance? ['\n']) ∧
      ¬ ∃ m, l.advance? ['a'] = some m ∧ l < m := by
  intro l
  have stops : l.advance? ['a'] = none := by decide
  exact ⟨by decide, stops, by decide, by decide, by simp [stops]⟩

end EditJournal
