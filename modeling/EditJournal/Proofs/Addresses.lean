/-
EditJournal.Proofs.Addresses — bytes and places are two addresses of one thing.

A place is looked up in the lines of a text (`Text.byteIndex`), the place of a byte
is found on a walk over its characters (`Text.locationOf?`).

* `Text.HasBoundary t b` — a front part of the text takes `b` bytes.
* `Text.byteOf_of_locationOf?` — a place that was found names its byte, inside a
  character or not.
* `Text.byteIndex_of_byteOf` — what becomes of a place that names a byte: it is
  resolved at a boundary and refused inside a character.
* `Text.byteOf_lt_iff` — later places name later bytes.

`addresses_agree` is the main result: on the boundaries of a text the two are inverse
and keep the order, the place of a boundary is where a walk over the text before it
ends, and an insertion ends as many bytes behind its place as it takes.

## How the proof goes

The walk that finds a place has passed a front part of the text, so its place is
known (`Text.byteOf_advance`). Where it stops inside a character, this character is
in the line, which is long enough (`Text.byteOf_inside`).
-/
import EditJournal.Proofs.Splices

namespace EditJournal

/-- Of two places one is before the other, or they are the same. -/
theorem Location.lt_trichotomy (l m : Location) : l < m ∨ l = m ∨ m < l := by
  obtain ⟨line, offset⟩ := l
  obtain ⟨line', offset'⟩ := m
  rcases Nat.lt_trichotomy line line' with earlier | rfl | later
  · exact Or.inl (Or.inl earlier)
  · rcases Nat.lt_trichotomy offset offset' with before | rfl | behind
    · exact Or.inl (Or.inr ⟨rfl, before⟩)
    · exact Or.inr (Or.inl rfl)
    · exact Or.inr (Or.inr (Or.inr ⟨rfl, behind⟩))
  · exact Or.inr (Or.inr (Or.inl later))

namespace Text

open Location (origin)

/-! ## Boundaries -/

/-- A front part of the text takes `b` bytes. -/
def HasBoundary (t : Text) (b : Nat) :
    Prop := ∃ front back, t = front ++ back ∧ byteLength front = b

theorem hasBoundary_iff_isSome (t : Text) (b : Nat) :
    t.HasBoundary b ↔ (splitAtByte? t b).isSome = true := by
  constructor
  · intro h
    obtain ⟨front, back, rfl, rfl⟩ := h
    have cut : splitAtByte? (front ++ back) (byteLength front) = some (front, back) :=
      (splitAtByte?_eq_some_iff _ _ _ _).mpr ⟨rfl, rfl⟩
    rw [cut]
    rfl
  · intro h
    obtain ⟨parts, cut⟩ := Option.isSome_iff_exists.mp h
    obtain ⟨whole, length⟩ := (splitAtByte?_eq_some_iff t b parts.1 parts.2).mp cut
    exact ⟨parts.1, parts.2, whole, length⟩

instance (t : Text) (b : Nat) : Decidable (t.HasBoundary b) :=
  decidable_of_iff _ (hasBoundary_iff_isSome t b).symm

/-! ## From a byte to its place -/

/-- A byte inside a character is found in the line of the character. -/
theorem byteOf_inside (front : Text) (c : Char) (back : Text) {n : Nat}
    (inside : n < c.utf8Size) :
    byteOf (front ++ c :: back) ⟨(origin.advance front).line,
      (origin.advance front).offset + n⟩ = .ok (byteLength front + n) := by
  obtain ⟨line, at_line, -, start⟩ := lines_advance front (c :: back)
  have named : lineStart (front ++ c :: back) (origin.advance front).line +
      ((origin.advance front).offset + n) = byteLength front + n := by omega
  refine (byteOf_eq_ok_iff _ _ _).mpr ⟨line, at_line, ?_, named⟩
  by_cases hc : c = '\n'
  · -- a line feed is one byte, so the place is that of the line feed itself
    have zero : n = 0 := by
      subst hc
      exact Nat.lt_one_iff.mp inside
    obtain ⟨same, at_same, fits, -⟩ := lines_advance front (c :: back)
    obtain rfl : line = same := Option.some.inj (at_line.symm.trans at_same)
    simpa [zero] using fits
  · -- else the line goes on up to the end of the character at least
    obtain ⟨same, at_same, fits, -⟩ := lines_advance (front ++ [c]) back
    have behind : origin.advance (front ++ [c]) =
        ⟨(origin.advance front).line, (origin.advance front).offset + c.utf8Size⟩ := by
      rw [Location.advance_append, Location.advance_cons, Location.step_of_ne hc,
        Location.advance_nil]
    rw [behind, List.append_assoc, List.singleton_append] at at_same
    rw [behind] at fits
    obtain rfl : line = same := Option.some.inj (at_line.symm.trans at_same)
    simp only at fits ⊢
    omega

theorem byteOf_of_locationFrom {front rest : Text} {n : Nat} {place : Location}
    (h : locationFrom (origin.advance front) rest n = some place) :
    byteOf (front ++ rest) place = .ok (byteLength front + n) := by
  induction rest generalizing front n with
  | nil =>
    cases n with
    | zero =>
      obtain rfl : origin.advance front = place := by simpa [locationFrom] using h
      exact byteOf_advance front []
    | succ n => simp [locationFrom] at h
  | cons c rest ih =>
    unfold locationFrom at h
    split at h
    · rename_i inside
      obtain rfl := Option.some.inj h
      exact byteOf_inside front c rest inside
    · rename_i behind
      have passed : (origin.advance front).step c = origin.advance (front ++ [c]) := by
        rw [Location.advance_append, Location.advance_cons, Location.advance_nil]
      rw [passed] at h
      have found := ih h
      rw [List.append_assoc, List.singleton_append] at found
      rw [found, byteLength_append, byteLength_cons, byteLength_nil]
      congr 1
      omega

/-- **The place of a byte names the byte.** -/
theorem byteOf_of_locationOf? {t : Text} {b : Nat} {place : Location}
    (h : t.locationOf? b = some place) : t.byteOf place = .ok b := by
  have from_start : locationFrom (origin.advance []) t b = some place := h
  have found := byteOf_of_locationFrom from_start
  rwa [List.nil_append, byteLength_nil, Nat.zero_add] at found

theorem exists_locationFrom (place : Location) {t : Text} {b : Nat} (h : b ≤ byteLength t) :
    ∃ found, locationFrom place t b = some found := by
  induction t generalizing place b with
  | nil =>
    obtain rfl : b = 0 := Nat.le_zero.mp h
    exact ⟨place, rfl⟩
  | cons c rest ih =>
    unfold locationFrom
    split
    · exact ⟨_, rfl⟩
    · rw [byteLength_cons] at h
      exact ih _ (by omega)

/-- Every byte of a text has a place, and so has its end. -/
theorem exists_locationOf? {t : Text} {b : Nat} (h : b ≤ byteLength t) :
    ∃ place, t.locationOf? b = some place := exists_locationFrom origin h

/-- The place of a boundary is where a walk over the text before it ends. -/
theorem locationOf?_advance (front back : Text) :
    locationOf? (front ++ back) (byteLength front) = some (origin.advance front) := by
  have within : byteLength front ≤ byteLength (front ++ back) := by
    rw [byteLength_append]
    exact Nat.le_add_right _ _
  obtain ⟨place, found⟩ := exists_locationOf? within
  rw [found, eq_of_byteOf_eq (byteOf_of_locationOf? found) (byteOf_advance front back)]

/-! ## From a place to its byte -/

/-- A place that names a byte is resolved at a boundary, and refused elsewhere. -/
theorem byteIndex_of_byteOf {t : Text} {place : Location} {b : Nat}
    (h : t.byteOf place = .ok b) :
    t.byteIndex place =
      if t.HasBoundary b then .ok b else .error (.notCharBoundary b) := by
  unfold byteIndex splitAt
  simp only [h, bind, Except.bind]
  cases cut : splitAtByte? t b with
  | none =>
    have inside : ¬ t.HasBoundary b := by
      rw [hasBoundary_iff_isSome, cut]
      simp
    rw [if_neg inside]
    rfl
  | some parts =>
    obtain ⟨whole, length⟩ := (splitAtByte?_eq_some_iff t b parts.1 parts.2).mp cut
    have boundary : t.HasBoundary b := ⟨parts.1, parts.2, whole, length⟩
    rw [if_pos boundary]
    exact congrArg Except.ok length

theorem byteIndex_eq_ok_iff (t : Text) (place : Location) (b : Nat) :
    t.byteIndex place = .ok b ↔
      ∃ front back, t = front ++ back ∧ origin.advance front = place ∧
        byteLength front = b := by
  unfold byteIndex
  constructor
  · intro h
    cases found : splitAt t place with
    | error cause =>
      rw [found] at h
      cases h
    | ok parts =>
      obtain ⟨whole, ends⟩ := (splitAt_eq_ok_iff t place parts.1 parts.2).mp found
      rw [found] at h
      exact ⟨parts.1, parts.2, whole, ends, Except.ok.inj h⟩
  · intro h
    obtain ⟨front, back, rfl, rfl, rfl⟩ := h
    rw [splitAt_advance]
    rfl

/-- A place is resolved to the boundary that it is the place of. -/
theorem byteIndex_eq_ok_iff_located (t : Text) (place : Location) (b : Nat) :
    t.byteIndex place = .ok b ↔ t.HasBoundary b ∧ t.locationOf? b = some place := by
  rw [byteIndex_eq_ok_iff]
  constructor
  · intro h
    obtain ⟨front, back, rfl, rfl, rfl⟩ := h
    exact ⟨⟨front, back, rfl, rfl⟩, locationOf?_advance front back⟩
  · intro h
    obtain ⟨⟨front, back, rfl, rfl⟩, located⟩ := h
    rw [locationOf?_advance] at located
    exact ⟨front, back, rfl, Option.some.inj located, rfl⟩

/-- What is resolved names a byte. -/
theorem byteOf_of_byteIndex {t : Text} {place : Location} {b : Nat}
    (h : t.byteIndex place = .ok b) :
    t.byteOf place = .ok b := by
  obtain ⟨front, back, rfl, rfl, rfl⟩ := (byteIndex_eq_ok_iff t place b).mp h
  exact byteOf_advance front back

/-- A place on a later line, or behind on its line, names a later byte. -/
theorem byteOf_lt {t : Text} {l m : Location} {b c : Nat} (hl : t.byteOf l = .ok b)
    (hm : t.byteOf m = .ok c) (before : l < m) : b < c := by
  obtain ⟨line, at_line, fits, start⟩ := (byteOf_eq_ok_iff t l b).mp hl
  obtain ⟨line', -, -, start'⟩ := (byteOf_eq_ok_iff t m c).mp hm
  cases before with
  | inl earlier =>
    have behind := total_take_lt at_line earlier
    unfold lineStart at start start'
    omega
  | inr same =>
    rw [same.1] at start
    have := same.2
    omega

/-- **Document order is the order of bytes.** -/
theorem byteOf_lt_iff {t : Text} {l m : Location} {b c : Nat} (hl : t.byteOf l = .ok b)
    (hm : t.byteOf m = .ok c) : l < m ↔ b < c := by
  refine ⟨byteOf_lt hl hm, fun less => ?_⟩
  rcases Location.lt_trichotomy l m with before | same | behind
  · exact before
  · rw [same, hm] at hl
    have := Except.ok.inj hl
    omega
  · have := byteOf_lt hm hl behind
    omega

/-- A place that is found on a walk inside a character is refused. -/
theorem byteIndex_inside {t : Text} {b : Nat} {place : Location} (inside : ¬ t.HasBoundary b)
    (found : t.locationOf? b = some place) :
    t.byteIndex place = .error (.notCharBoundary b) := by
  rw [byteIndex_of_byteOf (byteOf_of_locationOf? found), if_neg inside]

/-- The place behind an insertion is resolved in the new text, as many bytes behind the
place of the insertion as were put in. -/
theorem byteIndex_insertAt {t new t' : Text} {place stop : Location}
    (h : t.insertAt place new = .ok (stop, t')) :
    ∃ b, t.byteIndex place = .ok b ∧ t'.byteIndex stop = .ok (b + byteLength new) := by
  obtain ⟨rfl, front, back, rfl, rfl, rfl⟩ := (insertAt_eq_ok_iff t place new stop t').mp h
  refine ⟨byteLength front, (byteIndex_eq_ok_iff _ _ _).mpr ⟨front, back, rfl, rfl, rfl⟩, ?_⟩
  refine (byteIndex_eq_ok_iff _ _ _).mpr ⟨front ++ new, back, rfl, ?_, byteLength_append _ _⟩
  rw [Location.advance_append]

/-- The bytes of a text and its places are addresses of the same. -/
structure AddressesAgree (t : Text) : Prop where
  /-- The place of a boundary is resolved to the boundary. -/
  resolved : ∀ b, t.HasBoundary b →
    ∃ place, t.locationOf? b = some place ∧ t.byteIndex place = .ok b
  /-- A place that is resolved is the place of a boundary. -/
  located : ∀ place b, t.byteIndex place = .ok b →
    t.HasBoundary b ∧ t.locationOf? b = some place
  /-- Both ways keep the order, which is document order for places. -/
  byteIndex_lt_iff : ∀ l m b c, t.byteIndex l = .ok b → t.byteIndex m = .ok c → (b < c ↔ l < m)
  locationOf_lt_iff : ∀ b c l m, t.locationOf? b = some l → t.locationOf? c = some m →
    (l < m ↔ b < c)
  /-- The place of a boundary is where a walk over the text before it ends. -/
  walked : ∀ front back, t = front ++ back →
    t.locationOf? front.byteLength = some (origin.advance front)
  /-- Every byte inside a character has a place, which is refused with the byte. -/
  inside : ∀ b ≤ t.byteLength, ¬ t.HasBoundary b →
    ∃ place, t.locationOf? b = some place ∧ t.byteIndex place = .error (.notCharBoundary b)
  /-- An insertion ends as many bytes behind its place as it takes. -/
  inserted : ∀ place new stop t', t.insertAt place new = .ok (stop, t') →
    ∃ b, t.byteIndex place = .ok b ∧ t'.byteIndex stop = .ok (b + new.byteLength)

end Text

/-- **Bytes and places agree** on every text: across line feeds and characters of any
length, in the last line, be it empty, and at the end. -/
theorem addresses_agree (t : Text) : t.AddressesAgree where
  resolved b boundary := by
    obtain ⟨front, back, rfl, rfl⟩ := boundary
    refine ⟨_, Text.locationOf?_advance front back, ?_⟩
    exact (Text.byteIndex_eq_ok_iff _ _ _).mpr ⟨front, back, rfl, rfl, rfl⟩
  located place b := (t.byteIndex_eq_ok_iff_located place b).mp
  byteIndex_lt_iff l m b c hl hm :=
    (Text.byteOf_lt_iff (Text.byteOf_of_byteIndex hl) (Text.byteOf_of_byteIndex hm)).symm
  locationOf_lt_iff b c l m hb hc :=
    Text.byteOf_lt_iff (Text.byteOf_of_locationOf? hb) (Text.byteOf_of_locationOf? hc)
  walked front back whole := by
    rw [whole]
    exact Text.locationOf?_advance front back
  inside b within inside := by
    obtain ⟨place, found⟩ := Text.exists_locationOf? within
    exact ⟨place, found, Text.byteIndex_inside inside found⟩
  inserted place new stop t' := Text.byteIndex_insertAt

/-- Behind a line feed, the second byte of a character has a place that is refused, and
the end of the text has one that is not. -/
example : Text.locationOf? ['a', '\n', 'é'] 3 = some ⟨1, 1⟩ ∧
    Text.byteIndex ['a', '\n', 'é'] ⟨1, 1⟩ = .error (.notCharBoundary 3) ∧
    Text.byteIndex ['a', '\n', 'é'] ⟨1, 2⟩ = .ok 4 := ⟨rfl, rfl, rfl⟩

end EditJournal
