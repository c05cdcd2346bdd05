/-
EditJournal.Proofs.Places — the two ways to find a place in a text agree.

A place is looked up through the lines of a text (`Text.splitAt`), and it is
walked to over the characters before it (`Location.advance`). The lookup
succeeds exactly on the places that a walk from the origin over a front part
of the text ends at, and it cuts the text there:

* `Text.splitAt_eq_ok_iff` — the lookup, characterised by the walk;
* `Text.append_inj_of_advance` — two walks over one text that end at the same
  place have walked over the same part.

## How the proof goes

A front part ends in the line whose number is that of its line feeds, behind
what the last of them leaves (`lines_advance`). So the lookup of its end finds
its length (`byteOf_advance`). For the converse, a line starts behind all of
the line before it, whence no byte has two places (`eq_of_byteOf_eq`).
-/
import EditJournal.Text.Splice

namespace EditJournal

/-! ## Walking -/

namespace Location

theorem step_newline (l : Location) : l.step '\n' = ⟨l.line + 1, 0⟩ := rfl

theorem step_of_ne {c : Char} (h : c ≠ '\n') (l : Location) :
    l.step c = ⟨l.line, l.offset + c.utf8Size⟩ := by
  simp [step, h]

/-- A walk from anywhere is the walk from the origin, moved: as long as it
stays in its first line it keeps the offset, behind that only the line. -/
theorem advance_eq_moved (l : Location) (t : Text) :
    l.advance t =
      if (origin.advance t).line = 0 then ⟨l.line, l.offset + (origin.advance t).offset⟩
      else ⟨l.line + (origin.advance t).line, (origin.advance t).offset⟩ := by
  induction t generalizing l with
  | nil => simp [origin]
  | cons c t ih =>
    rw [advance_cons, advance_cons, ih (l.step c), ih (origin.step c)]
    generalize origin.advance t = stop
    by_cases hc : c = '\n'
    · subst hc
      by_cases h : stop.line = 0
      · simp [step_newline, origin, h]
      · simp [step_newline, origin, h, Nat.add_assoc]
    · by_cases h : stop.line = 0
      · simp [step_of_ne hc, origin, h, Nat.add_assoc]
      · simp [step_of_ne hc, origin, h]

theorem advance_newline_cons (t : Text) :
    origin.advance ('\n' :: t) = ⟨(origin.advance t).line + 1, (origin.advance t).offset⟩ := by
  rw [advance_cons, step_newline, advance_eq_moved]
  split
  · simp_all [origin]
  · simp [origin, Nat.add_comm]

theorem advance_cons_of_ne {c : Char} (h : c ≠ '\n') (t : Text) :
    origin.advance (c :: t) =
      if (origin.advance t).line = 0 then ⟨0, c.utf8Size + (origin.advance t).offset⟩
      else origin.advance t := by
  rw [advance_cons, step_of_ne h, advance_eq_moved]
  split <;> simp [origin]

end Location

namespace Text

open Location (origin)

/-! ## Lines -/

@[simp] theorem lines_nil : lines [] = [[]] := rfl

@[simp] theorem lines_newline_cons (t : Text) : lines ('\n' :: t) = [] :: lines t := rfl

theorem lines_cons_of_ne {c : Char} (h : c ≠ '\n') (t : Text) :
    lines (c :: t) = consLine c (lines t) := by
  simp [lines, h]

theorem lines_ne_nil (t : Text) : lines t ≠ [] := by
  cases t with
  | nil => simp
  | cons c t =>
    by_cases hc : c = '\n'
    · subst hc; simp
    · rw [lines_cons_of_ne hc]
      cases lines t <;> simp [consLine]

theorem lineStart_zero (t : Text) : lineStart t 0 = 0 := by simp [lineStart]

theorem lineStart_newline_cons (t : Text) (k : Nat) :
    lineStart ('\n' :: t) (k + 1) = lineStart t k + 1 := by
  simp [lineStart, Nat.add_comm]

theorem lineStart_cons_of_ne {c : Char} (h : c ≠ '\n') (t : Text) (k : Nat) :
    lineStart (c :: t) (k + 1) = c.utf8Size + lineStart t (k + 1) := by
  have hne := lines_ne_nil t
  simp only [lineStart, lines_cons_of_ne h]
  cases hl : lines t with
  | nil => exact absurd hl hne
  | cons first rest => simp [consLine]; omega

/-- Where a walk over the front part `a` of a text ends: in the line with its
number, within that line, and at the byte that `a` is long. -/
theorem lines_advance (a b : Text) :
    ∃ line, (lines (a ++ b))[(origin.advance a).line]? = some line ∧
      (origin.advance a).offset ≤ byteLength line ∧
      lineStart (a ++ b) (origin.advance a).line + (origin.advance a).offset =
        byteLength a := by
  induction a with
  | nil =>
    cases hl : lines b with
    | nil => exact absurd hl (lines_ne_nil b)
    | cons first rest =>
      exact ⟨first, by simp [hl, origin], by simp [origin], by simp [lineStart, origin]⟩
  | cons c a ih =>
    obtain ⟨line, hline, hle, hstart⟩ := ih
    by_cases hc : c = '\n'
    · subst hc
      rw [Location.advance_newline_cons, List.cons_append]
      refine ⟨line, by simpa using hline, hle, ?_⟩
      rw [lineStart_newline_cons, byteLength_cons, ← hstart]
      simp only [show '\n'.utf8Size = 1 from rfl]
      omega
    · rw [Location.advance_cons_of_ne hc, List.cons_append, lines_cons_of_ne hc,
        byteLength_cons, ← hstart]
      cases hl : lines (a ++ b) with
      | nil => exact absurd hl (lines_ne_nil _)
      | cons first rest =>
        rw [hl] at hline
        cases hk : (origin.advance a).line with
        | zero =>
          -- still in the first line, which `c` makes longer
          obtain rfl : first = line := by simpa [hk] using hline
          refine ⟨c :: first, by simp [consLine], ?_, ?_⟩
          · simp; omega
          · simp [lineStart_zero]
        | succ k =>
          refine ⟨line, by simpa [consLine, hk] using hline, by simpa using hle, ?_⟩
          simp only [Nat.succ_ne_zero, if_false, hk]
          rw [lineStart_cons_of_ne hc]
          omega

/-! ## Looking a place up -/

/-- The place that a walk over a front part ends at is found at its length. -/
theorem byteOf_advance (a b : Text) :
    byteOf (a ++ b) (origin.advance a) = .ok (byteLength a) := by
  obtain ⟨line, hline, hle, hstart⟩ := lines_advance a b
  simp only [byteOf, lineLength?, hline, Option.map_some]
  rw [if_neg (by omega), hstart]

theorem splitAt_advance (a b : Text) : splitAt (a ++ b) (origin.advance a) = .ok (a, b) := by
  have hcut : splitAtByte? (a ++ b) (byteLength a) = some (a, b) :=
    (splitAtByte?_eq_some_iff _ _ _ _).mpr ⟨rfl, rfl⟩
  simp [splitAt, byteOf_advance, hcut, bind, Except.bind]

/-- A later line starts behind all of an earlier one. -/
theorem total_take_lt {ls : List Text} {line : Text} {k m : Nat} (hk : ls[k]? = some line)
    (hkm : k < m) :
    total (byteLength · + 1) (ls.take k) + byteLength line <
      total (byteLength · + 1) (ls.take m) := by
  induction ls generalizing k m with
  | nil => simp at hk
  | cons first rest ih =>
    obtain ⟨m, rfl⟩ : ∃ n, m = n + 1 := ⟨m - 1, by omega⟩
    cases k with
    | zero =>
      obtain rfl : first = line := by simpa using hk
      simp; omega
    | succ k =>
      have := ih (k := k) (m := m) (by simpa using hk) (by omega)
      simp; omega

theorem byteOf_eq_ok_iff (t : Text) (place : Location) (n : Nat) :
    byteOf t place = .ok n ↔
      ∃ line, (lines t)[place.line]? = some line ∧ place.offset ≤ byteLength line ∧
        lineStart t place.line + place.offset = n := by
  simp only [byteOf, lineLength?]
  cases (lines t)[place.line]? with
  | none => simp
  | some line =>
    by_cases h : byteLength line < place.offset
    · simp [h, Nat.not_le.mpr h]
    · simp [h, Nat.not_lt.mp h]

/-- No byte of a text has two places. -/
theorem eq_of_byteOf_eq {t : Text} {l m : Location} {n : Nat} (hl : byteOf t l = .ok n)
    (hm : byteOf t m = .ok n) : l = m := by
  obtain ⟨line, hline, hle, hn⟩ := (byteOf_eq_ok_iff t l n).mp hl
  obtain ⟨line', hline', hle', hn'⟩ := (byteOf_eq_ok_iff t m n).mp hm
  simp only [lineStart] at hn hn'
  obtain ⟨lineL, offL⟩ := l
  obtain ⟨lineM, offM⟩ := m
  rcases Nat.lt_trichotomy lineL lineM with h | h | h
  · have := total_take_lt hline h
    simp only at *
    omega
  · subst h
    simp only at *
    rw [show offL = offM by omega]
  · have := total_take_lt hline' h
    simp only at *
    omega

/-- **A place is found exactly where a walk over the part before it ends.** -/
theorem splitAt_eq_ok_iff (t : Text) (place : Location) (a b : Text) :
    splitAt t place = .ok (a, b) ↔ t = a ++ b ∧ origin.advance a = place := by
  constructor
  · intro h
    cases hb : byteOf t place with
    | error e => simp [splitAt, hb, bind, Except.bind] at h
    | ok n =>
      simp only [splitAt, hb, bind, Except.bind] at h
      cases hs : splitAtByte? t n with
      | none => simp [hs] at h
      | some parts =>
        obtain rfl : parts = (a, b) := by simpa [hs] using h
        obtain ⟨rfl, rfl⟩ := (splitAtByte?_eq_some_iff t n a b).mp hs
        exact ⟨rfl, eq_of_byteOf_eq (byteOf_advance a b) hb⟩
  · rintro ⟨rfl, rfl⟩
    exact splitAt_advance a b

/-- Two walks over one text that end at the same place are the same walk. -/
theorem append_inj_of_advance {a b a' b' : Text} (ht : a ++ b = a' ++ b')
    (hp : origin.advance a = origin.advance a') : a = a' ∧ b = b' := by
  have h := splitAt_advance a b
  rw [ht, hp, splitAt_advance] at h
  simpa [eq_comm] using h

end Text

end EditJournal
