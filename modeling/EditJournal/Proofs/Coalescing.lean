/-
EditJournal.Proofs.Coalescing — a joined change is the two changes it was made
of.

`Coalesce.plan` looks at places only. `plan_eq_ok` collects what it has checked
when it accepts: the entry is a single change, the kinds agree, the size is
within the cap, and the places fit the way of joining (`Splice.Fits`).

`Splice.join_leads` is the heart: where the places fit, and the two changes
lead from `s` over `t` to `u`, the joined change leads from `s` to `u`. An
appended insertion goes behind the payload. A backspace, read backward, puts
the payload behind the text it took out before it; a forward deletion, read
backward, puts the payload in front of it.
-/
import EditJournal.Coalesce
import EditJournal.Proofs.Replaying

namespace EditJournal

/-- Do the places of a change and of the one before it fit a way of joining? -/
def Splice.Fits (how : Splice) (last : Edit) (kind : EditKind) (place : Location)
    (text : Text) :
    Prop :=
  match how with
  | .append => kind = .insert ∧ place = last.finish
  | .forwardDelete => kind = .delete ∧ place = last.place
  | .backspace => kind = .delete ∧ place.advance text = last.place

namespace Coalesce

theorem planInsert_fits {rules : MergeRules} {last : Edit} {place : Location} {text : Text}
    {how : Splice} (h : planInsert rules last place text = .ok how) :
    how.Fits last .insert place text := by
  unfold planInsert at h
  split at h
  · simp at h
  · rename_i hplace
    split at h
    · simp at h
    · obtain rfl : Splice.append = how := by simpa using h
      exact ⟨rfl, by simpa using hplace⟩

theorem planDelete_fits {last : Edit} {place : Location} {text : Text} {how : Splice}
    (h : planDelete last place text = .ok how) : how.Fits last .delete place text := by
  simp only [planDelete] at h
  split at h
  · rename_i hforward
    obtain rfl : Splice.forwardDelete = how := by simpa using h
    simp only [Bool.and_eq_true, decide_eq_true_eq] at hforward
    exact ⟨rfl, hforward.1⟩
  · split at h
    · rename_i hbackward
      obtain rfl : Splice.backspace = how := by simpa using h
      simp only [Bool.and_eq_true, decide_eq_true_eq] at hbackward
      exact ⟨rfl, hbackward.1⟩
    · split at h <;> simp at h

/-- What an accepted change has passed. -/
theorem plan_eq_ok {rules : MergeRules} {tail : Entry} {kind : EditKind} {place : Location}
    {text : Text} {now : Nat} {how : Splice}
    (h : plan rules tail kind place text now = .ok how) :
    tail.more = [] ∧ tail.first.kind = kind ∧
      tail.first.payload.byteLength + text.byteLength ≤ rules.maxEntryBytes ∧
      how.Fits tail.first kind place text := by
  unfold plan at h
  dsimp only at h
  split at h
  · simp at h
  split at h
  · simp at h
  split at h
  · simp at h
  rename_i hmore
  split at h
  · simp at h
  rename_i hkind
  split at h
  · simp at h
  split at h
  · simp at h
  rename_i hsize
  refine ⟨by simpa using hmore, by simpa using hkind, by omega, ?_⟩
  cases kind with
  | insert => exact planInsert_fits h
  | delete => exact planDelete_fits h
  | replace => simp at h

end Coalesce

namespace Splice

variable {how : Splice} {e : Edit} {kind : EditKind} {place : Location} {text : Text}

/-- **Joining keeps the meaning**: the joined change leads where the two
changes lead one after the other. -/
theorem join_leads {s t u : Text} (fits : how.Fits e kind place text) (same : e.kind = kind)
    (he : e.Leads s t) (hf : Edit.Leads { kind, place, payload := text } t u) :
    (how.join e place text).Leads s u := by
  cases how with
  | append =>
    obtain ⟨rfl, rfl⟩ := fits
    simp only [Edit.Leads, join, same] at he hf ⊢
    exact he.behind hf
  | forwardDelete =>
    obtain ⟨rfl, rfl⟩ := fits
    simp only [Edit.Leads, join, same] at he hf ⊢
    exact hf.inFront he
  | backspace =>
    obtain ⟨rfl, hplace⟩ := fits
    simp only [Edit.Leads, join, same] at he hf ⊢
    rw [← hplace] at he
    exact hf.behind he

@[simp] theorem byteLength_join_payload (how : Splice) (e : Edit) (place : Location)
    (text : Text) :
    (how.join e place text).payload.byteLength = e.payload.byteLength + text.byteLength := by
  cases how with
  | append => simp [join]
  | forwardDelete => simp [join]
  | backspace => simp [join, Nat.add_comm]

end Splice

/-- An entry of one change leads where its change leads. -/
theorem Entry.leads_iff_of_single {entry : Entry} (h : entry.more = []) (s t : Text) :
    entry.Leads s t ↔ entry.first.Leads s t := by
  simp [Entry.Leads, Entry.edits, h]

/-- **An accepted change may be joined to the entry before it**: on every text
on which the two changes can be made one after the other, the joined entry is
done and taken back as they would be, and it holds the bytes of both, within
the cap. -/
theorem spliced_entry_replays_both (rules : MergeRules) (tail : Entry) (kind : EditKind)
    (place : Location) (text : Text) (now : Nat) (how : Splice) (s t u : Text)
    (accepted : Coalesce.plan rules tail kind place text now = .ok how)
    (made : (tail.first.replay .redo s).value = (.ok (), t))
    (added : (Edit.replay { kind, place, payload := text } .redo t).value = (.ok (), u)) :
    ((Coalesce.splice how tail place text now).replay .redo s).value = (.ok (), u) ∧
      ((Coalesce.splice how tail place text now).replay .undo u).value = (.ok (), s) ∧
      (Coalesce.splice how tail place text now).payloadBytes =
        tail.payloadBytes + text.byteLength ∧
      (Coalesce.splice how tail place text now).payloadBytes ≤ rules.maxEntryBytes := by
  obtain ⟨single, same, size, fits⟩ := Coalesce.plan_eq_ok accepted
  have single' : (Coalesce.splice how tail place text now).more = [] := single
  have he : tail.first.Leads s t := ((tail.first.replay_atomic .redo s).ok_iff t).mp made
  have hf : Edit.Leads { kind, place, payload := text } t u :=
    ((Edit.replay_atomic _ .redo t).ok_iff u).mp added
  have joined : (Coalesce.splice how tail place text now).Leads s u :=
    (Entry.leads_iff_of_single single' s u).mpr (Splice.join_leads fits same he hf)
  have redone := ((Entry.replay_atomic _ .redo s).ok_iff u).mpr joined
  have bytes : (Coalesce.splice how tail place text now).payloadBytes =
      tail.payloadBytes + text.byteLength := by
    simp [Entry.payloadBytes, Entry.edits, Coalesce.splice, single]
  refine ⟨redone, (Entry.replay_eq_ok_comm _ .redo s u).mp redone, bytes, ?_⟩
  rw [bytes]
  simpa [Entry.payloadBytes, Entry.edits, single] using size

/-- The three ways of joining, over line breaks and characters of two bytes:
`ü` typed behind `é` and a line break; `é` and a line break taken by backspace
before `b`; a line break taken by forward deletion behind `é`. -/
theorem spliced_entry_replays_both_over_lines :
    let typed : Entry :=
      { first := ⟨.insert, ⟨0, 1⟩, ['é', '\n'], none⟩, timestamp := 0, version := 1 }
    let taken : Entry :=
      { first := ⟨.delete, ⟨1, 0⟩, ['b'], none⟩, timestamp := 0, version := 1 }
    let cut : Entry :=
      { first := ⟨.delete, ⟨0, 1⟩, ['é'], none⟩, timestamp := 0, version := 1 }
    (Coalesce.plan {} typed .insert ⟨1, 0⟩ ['ü'] 5 = .ok .append ∧
      ((Coalesce.splice .append typed ⟨1, 0⟩ ['ü'] 5).replay .redo ['a', 'b']).value =
        (.ok (), ['a', 'é', '\n', 'ü', 'b'])) ∧
    (Coalesce.plan {} taken .delete ⟨0, 1⟩ ['é', '\n'] 5 = .ok .backspace ∧
      ((Coalesce.splice .backspace taken ⟨0, 1⟩ ['é', '\n'] 5).replay .undo ['a']).value =
        (.ok (), ['a', 'é', '\n', 'b'])) ∧
    (Coalesce.plan {} cut .delete ⟨0, 1⟩ ['\n'] 5 = .ok .forwardDelete ∧
      ((Coalesce.splice .forwardDelete cut ⟨0, 1⟩ ['\n'] 5).replay .undo ['a', 'b']).value =
        (.ok (), ['a', 'é', '\n', 'b'])) := by
  intro typed taken cut
  have behind : Coalesce.plan {} typed .insert ⟨1, 0⟩ ['ü'] 5 = .ok .append := by rfl
  have before : Coalesce.plan {} taken .delete ⟨0, 1⟩ ['é', '\n'] 5 = .ok .backspace := by rfl
  have onward : Coalesce.plan {} cut .delete ⟨0, 1⟩ ['\n'] 5 = .ok .forwardDelete := by rfl
  refine ⟨⟨behind, ?_⟩, ⟨before, ?_⟩, onward, ?_⟩
  · exact (spliced_entry_replays_both {} typed .insert ⟨1, 0⟩ ['ü'] 5 .append ['a', 'b']
      ['a', 'é', '\n', 'b'] ['a', 'é', '\n', 'ü', 'b'] behind (by rfl) (by rfl)).1
  · exact (spliced_entry_replays_both {} taken .delete ⟨0, 1⟩ ['é', '\n'] 5 .backspace
      ['a', 'é', '\n', 'b'] ['a', 'é', '\n'] ['a'] before (by rfl) (by rfl)).2.1
  · exact (spliced_entry_replays_both {} cut .delete ⟨0, 1⟩ ['\n'] 5 .forwardDelete
      ['a', 'é', '\n', 'b'] ['a', '\n', 'b'] ['a', 'b'] onward (by rfl) (by rfl)).2.1

end EditJournal
