/-
EditJournal.Proofs.ByteSplices — what a text does as a storage, said of its bytes.

A storage is asked by place and length. `Text.SplicesBytes` says what that means of
the bytes of a text: a call succeeds exactly where its range begins and ends at
boundaries, and then it puts bytes in or takes them out there; elsewhere it changes
nothing. Reading answers as taking out does.

`storage_splices_bytes` is the main result: every text is such a storage. Hence what
is put in can be taken out again, and what is taken out can be put in again.

## How the proof goes

A range is cut out where the text is three parts, of which the second has the length
(`Text.cut_eq_ok_iff`); in bytes these are the parts before, in and behind the range
(`Text.take_bytes`, `Text.drop_bytes`).
-/
import EditJournal.Proofs.Addresses
import EditJournal.Storage

namespace EditJournal

open Location (origin)

namespace Text

/-! ## Bytes -/

theorem bytes_append (s t : Text) : bytes (s ++ t) = bytes s ++ bytes t :=
  List.flatMap_append

theorem length_bytes (t : Text) : (bytes t).length = byteLength t := by
  induction t with
  | nil => rfl
  | cons c t ih =>
    have parts : bytes (c :: t) = String.utf8EncodeChar c ++ bytes t := List.flatMap_cons
    rw [parts, List.length_append, String.length_utf8EncodeChar, ih, byteLength_cons]

theorem take_bytes (front back : Text) :
    (bytes (front ++ back)).take (byteLength front) = bytes front := by
  rw [bytes_append, ← length_bytes, List.take_left']
  rfl

theorem drop_bytes (front back : Text) :
    (bytes (front ++ back)).drop (byteLength front) = bytes back := by
  rw [bytes_append, ← length_bytes, List.drop_left']
  rfl

/-! ## Ranges -/

/-- Where the range begins at a boundary and its end is within the text, it is cut out
exactly if its end is a boundary too. -/
theorem hasBoundary_add_iff (front back : Text) (n : Nat) :
    (front ++ back).HasBoundary (byteLength front + n) ↔
      ∃ range rest, back = range ++ rest ∧ byteLength range = n := by
  constructor
  · intro h
    obtain ⟨before, rest, whole, length⟩ := h
    rcases List.append_eq_append_iff.mp whole with ⟨range, rfl, rfl⟩ | ⟨behind, rfl, rfl⟩
    · exact ⟨range, rest, rfl, by rw [byteLength_append] at length; omega⟩
    · -- the end is not before the beginning, so nothing is between them
      rw [byteLength_append] at length
      have nothing : n = 0 := by omega
      rw [nothing]
      exact ⟨[], _, rfl, rfl⟩
  · intro h
    obtain ⟨range, rest, rfl, rfl⟩ := h
    exact ⟨front ++ range, rest, by rw [List.append_assoc], byteLength_append front range⟩

/-! ## As a storage -/

/-- An insertion that is refused leaves the text. -/
theorem value_storage_insert (t new : Text) (place : Location) :
    (Storage.insert t place new).value =
      match t.insertAt place new with
      | .ok (stop, changed) => (.ok stop, changed)
      | .error cause => (.error cause, t) := by
  show (t.insertTold place new).value = _
  unfold insertTold
  cases t.insertAt place new with
  | error cause => rfl
  | ok changed => rfl

/-- So does a removal. -/
theorem value_storage_delete (t : Text) (place : Location) (length : Nat) :
    (Storage.delete t place length).value =
      match t.deleteAt place length with
      | .ok (removed, changed) => (.ok removed, changed)
      | .error cause => (.error cause, t) := by
  show (t.deleteTold place length).value = _
  unfold deleteTold
  cases t.deleteAt place length with
  | error cause => rfl
  | ok changed => rfl

/-- Insertion splices the new text in behind the front part whose walk ends at the
place. -/
theorem storage_insert_eq_ok_iff (t new : Text) (place stop : Location) (t' : Text) :
    (Storage.insert t place new).value = (.ok stop, t') ↔
      ∃ front back, t = front ++ back ∧ origin.advance front = place ∧
        stop = place.advance new ∧ t' = front ++ new ++ back := by
  have called : (Storage.insert t place new).value = (.ok stop, t') ↔
      t.insertAt place new = .ok (stop, t') := by
    rw [value_storage_insert]
    cases t.insertAt place new with
    | error cause => simp
    | ok changed => simp [Prod.ext_iff]
  rw [called, insertAt_eq_ok_iff]
  constructor
  · intro h
    obtain ⟨ends, front, back, whole, changed, begins⟩ := h
    exact ⟨front, back, whole, begins, ends, changed⟩
  · intro h
    obtain ⟨front, back, whole, begins, ends, changed⟩ := h
    exact ⟨ends, front, back, whole, changed, begins⟩

/-- Removal takes out what stands behind that front part, as long as it was asked for. -/
theorem storage_delete_eq_ok_iff (t : Text) (place : Location) (length : Nat)
    (removed t' : Text) :
    (Storage.delete t place length).value = (.ok removed, t') ↔
      ∃ front back, t = front ++ removed ++ back ∧ origin.advance front = place ∧
        byteLength removed = length ∧ t' = front ++ back := by
  have called : (Storage.delete t place length).value = (.ok removed, t') ↔
      t.deleteAt place length = .ok (removed, t') := by
    rw [value_storage_delete]
    cases t.deleteAt place length with
    | error cause => simp
    | ok changed => simp [Prod.ext_iff]
  rw [called, deleteAt_eq_ok_iff]
  constructor
  · intro h
    obtain ⟨long, front, back, changed, whole, begins⟩ := h
    exact ⟨front, back, whole, begins, long, changed⟩
  · intro h
    obtain ⟨front, back, whole, begins, long, changed⟩ := h
    exact ⟨long, front, back, changed, whole, begins⟩

/-- What stands at a place is read as it is taken out. -/
theorem readAt_eq_storage_delete (t : Text) (place : Location) (length : Nat) :
    t.readAt place length = (Storage.delete t place length).value.1 := by
  rw [value_storage_delete]
  unfold readAt deleteAt
  cases t.cut place length with
  | error cause => rfl
  | ok parts => rfl

/-- The boundary at the end of a walk is as many bytes on as were walked over. -/
theorem eq_byteLength_of_located {front back : Text} {b : Nat}
    (boundary : (front ++ back).HasBoundary b)
    (located : locationOf? (front ++ back) b = some (origin.advance front)) :
    b = byteLength front := by
  have resolved := (byteIndex_eq_ok_iff_located _ _ _).mpr ⟨boundary, located⟩
  have walked : (front ++ back).byteIndex (origin.advance front) = .ok (byteLength front) :=
    (byteIndex_eq_ok_iff _ _ _).mpr ⟨front, back, rfl, rfl, rfl⟩
  rw [walked] at resolved
  exact (Except.ok.inj resolved).symm

end Text

/-- The bytes of a text are put in and taken out by place and length. -/
structure Text.SplicesBytes (t : Text) : Prop where
  /-- Insertion succeeds exactly at the place of a boundary. -/
  insert_iff : ∀ place new,
    (∃ stop t', (Storage.insert t place new).value = (.ok stop, t')) ↔
      ∃ b, t.HasBoundary b ∧ t.locationOf? b = some place
  /-- It puts the new bytes in there. -/
  inserted : ∀ place new stop t', (Storage.insert t place new).value = (.ok stop, t') →
    ∀ b, t.HasBoundary b → t.locationOf? b = some place →
      t'.bytes = t.bytes.take b ++ new.bytes ++ t.bytes.drop b
  /-- Removal succeeds exactly from the place of a boundary to another boundary. -/
  delete_iff : ∀ place length,
    (∃ removed t', (Storage.delete t place length).value = (.ok removed, t')) ↔
      ∃ b, (t.HasBoundary b ∧ t.locationOf? b = some place) ∧
        b + length ≤ t.byteLength ∧ t.HasBoundary (b + length)
  /-- It gives the bytes of the range, and takes them out. -/
  deleted : ∀ place length removed t',
    (Storage.delete t place length).value = (.ok removed, t') →
    ∀ b, t.HasBoundary b → t.locationOf? b = some place →
      removed.bytes = (t.bytes.drop b).take length ∧
        t'.bytes = t.bytes.take b ++ t.bytes.drop (b + length)
  /-- Reading a range answers as its removal, be it its text or the refusal. -/
  read : ∀ place length, t.readAt place length = (Storage.delete t place length).value.1
  /-- What is refused changes nothing. -/
  insert_refused : ∀ place new cause t',
    (Storage.insert t place new).value = (.error cause, t') → t' = t
  delete_refused : ∀ place length cause t',
    (Storage.delete t place length).value = (.error cause, t') → t' = t
  /-- What was put in is taken out again. -/
  delete_of_insert : ∀ place new stop t', (Storage.insert t place new).value = (.ok stop, t') →
    (Storage.delete t' place new.byteLength).value = (.ok new, t)
  /-- What was taken out is put in again. -/
  insert_of_delete : ∀ place length removed t',
    (Storage.delete t place length).value = (.ok removed, t') →
    (Storage.insert t' place removed).value = (.ok (place.advance removed), t)

/-- **Every text splices bytes**: whatever its lines and characters are, and whatever
place, length and text a call is given. -/
theorem storage_splices_bytes (t : Text) : t.SplicesBytes where
  insert_iff place new := by
    constructor
    · intro h
      obtain ⟨stop, t', done⟩ := h
      obtain ⟨front, back, rfl, rfl, -⟩ := (t.storage_insert_eq_ok_iff _ _ _ _).mp done
      exact ⟨front.byteLength, ⟨front, back, rfl, rfl⟩, Text.locationOf?_advance front back⟩
    · intro h
      obtain ⟨b, ⟨front, back, rfl, rfl⟩, located⟩ := h
      rw [Text.locationOf?_advance] at located
      exact ⟨_, _, (Text.storage_insert_eq_ok_iff _ _ _ _ _).mpr
        ⟨front, back, rfl, Option.some.inj located, rfl, rfl⟩⟩
  inserted place new stop t' done b boundary located := by
    obtain ⟨front, back, rfl, rfl, -, rfl⟩ := (t.storage_insert_eq_ok_iff _ _ _ _).mp done
    rw [Text.eq_byteLength_of_located boundary located, Text.take_bytes, Text.drop_bytes,
      Text.bytes_append, Text.bytes_append]
  delete_iff place length := by
    constructor
    · intro h
      obtain ⟨removed, t', done⟩ := h
      obtain ⟨front, back, rfl, rfl, rfl, -⟩ := (t.storage_delete_eq_ok_iff _ _ _ _).mp done
      rw [List.append_assoc]
      refine ⟨front.byteLength,
        ⟨⟨front, _, rfl, rfl⟩, Text.locationOf?_advance front _⟩, ?_, ?_⟩
      · rw [Text.byteLength_append, Text.byteLength_append]
        omega
      · exact (Text.hasBoundary_add_iff _ _ _).mpr ⟨removed, back, rfl, rfl⟩
    · intro h
      obtain ⟨b, ⟨⟨front, back, rfl, rfl⟩, located⟩, -, ends⟩ := h
      rw [Text.locationOf?_advance] at located
      obtain ⟨range, rest, rfl, long⟩ := (Text.hasBoundary_add_iff _ _ _).mp ends
      exact ⟨range, front ++ rest, (Text.storage_delete_eq_ok_iff _ _ _ _ _).mpr
        ⟨front, rest, (List.append_assoc _ _ _).symm, Option.some.inj located, long, rfl⟩⟩
  deleted place length removed t' done b boundary located := by
    obtain ⟨front, back, rfl, rfl, rfl, rfl⟩ := (t.storage_delete_eq_ok_iff _ _ _ _).mp done
    rw [List.append_assoc] at boundary located ⊢
    rw [Text.eq_byteLength_of_located boundary located]
    refine ⟨?_, ?_⟩
    · rw [Text.drop_bytes, Text.take_bytes]
    · rw [Text.take_bytes, ← List.drop_drop, Text.drop_bytes, Text.drop_bytes,
        Text.bytes_append]
  read place length := t.readAt_eq_storage_delete place length
  insert_refused place new cause t' refused := by
    rw [Text.value_storage_insert] at refused
    split at refused
    · cases refused
    · exact (congrArg Prod.snd refused).symm
  delete_refused place length cause t' refused := by
    rw [Text.value_storage_delete] at refused
    split at refused
    · cases refused
    · exact (congrArg Prod.snd refused).symm
  delete_of_insert place new stop t' done := by
    obtain ⟨front, back, rfl, rfl, -, rfl⟩ := (t.storage_insert_eq_ok_iff _ _ _ _).mp done
    exact (Text.storage_delete_eq_ok_iff _ _ _ _ _).mpr ⟨front, back, rfl, rfl, rfl, rfl⟩
  insert_of_delete place length removed t' done := by
    obtain ⟨front, back, rfl, rfl, -, rfl⟩ := (t.storage_delete_eq_ok_iff _ _ _ _).mp done
    exact (Text.storage_insert_eq_ok_iff _ _ _ _ _).mpr ⟨front, back, rfl, rfl, rfl, rfl⟩

/-- Behind `a`, both bytes of `é` are taken out with the line feed; one of them alone is
refused. -/
example :
    (Storage.delete ['a', 'é', '\n', 'b'] ⟨0, 1⟩ 3).value = (.ok ['é', '\n'], ['a', 'b']) ∧
    (Storage.delete ['a', 'é', '\n', 'b'] ⟨0, 1⟩ 1).value =
      (.error (.notCharBoundary 2), ['a', 'é', '\n', 'b']) := ⟨rfl, rfl⟩

end EditJournal
