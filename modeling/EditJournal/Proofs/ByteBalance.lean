/-
EditJournal.Proofs.ByteBalance — where the bytes of a change go.

* `Entry.JoinedBy` — an entry and the same one with a change joined to it: the change is
  put behind the others, or spliced into the only one.
* `Journal.Extended` — the entries behind a change: those before the position, the last of
  which the change joins, or behind which it starts one. For that the oldest may go.

`record_balances_bytes` is the main result: a change that any journal takes in leaves no
redo tail and extends the entries before the position, all others of which stay as they
are; and the bytes that the entries hold change by those of the text, less those of the
redo tail and of an entry that went.

## How the proof goes

`Takes.extended` reads the entries off the two ways in which a change is taken in. The
balance follows from them alone: joining an entry adds the bytes of the change to it,
however it is spliced (`JoinedBy.payloadBytes`), and lists split into what is kept and
what is dropped (`Extended.bytes`).
-/
import EditJournal.Proofs.Lifetimes

namespace EditJournal

/-! ## Joined entries -/

/-- The entry `changed` is `tail` with one more change. -/
structure Entry.JoinedBy (tail : Entry) (edit : Edit) (now : Nat)
    (changed : Entry) : Prop where
  edits : changed.edits = tail.edits ++ [edit] ∨
    ∃ only how, tail.edits = [only] ∧ only.kind = edit.kind ∧
      Splice.Fits how only edit.kind edit.place edit.payload ∧
      changed.edits = [how.join only edit.place edit.payload]
  timestamp : changed.timestamp = now
  group : changed.group = tail.group
  savePoint : changed.savePoint = false
  mergeable : changed.mergeable = tail.mergeable

/-- No byte of the change is lost, and none of the entry. -/
theorem Entry.JoinedBy.payloadBytes {tail changed : Entry} {edit : Edit} {now : Nat}
    (h : tail.JoinedBy edit now changed) :
    changed.payloadBytes = tail.payloadBytes + edit.payload.byteLength := by
  unfold Entry.payloadBytes
  rcases h.edits with pushed | ⟨only, how, single, -, -, spliced⟩
  · rw [pushed]
    simp
  · rw [spliced, single]
    simp

namespace Journal

variable {j k : Journal} {edit : Edit} {now : Nat} {status : RecordStatus}

/-- A change that joins an entry joins it as it stands in the journal then. -/
theorem Joins.joinedBy {tail changed : Entry} (joins : j.Joins edit now tail changed) :
    tail.JoinedBy edit now (j.restamped changed) := by
  cases joins with
  | group id isOpen member => exact ⟨Or.inl rfl, rfl, rfl, rfl, rfl⟩
  | run how loose small unsealed plan =>
    obtain ⟨single, same, -, fits⟩ := Coalesce.plan_eq_ok plan
    have only : tail.edits = [tail.first] := by rw [Entry.edits, single]
    have spliced : (j.restamped (Coalesce.splice how tail edit.place edit.payload now)).edits =
        [how.join tail.first edit.place edit.payload] := by
      simp [restamped, Coalesce.splice, Entry.edits, single]
    exact ⟨Or.inr ⟨tail.first, how, only, same, fits, spliced⟩, rfl, rfl, rfl, rfl⟩

/-- Only an entry that is too large, outside any group, is not mergeable. -/
theorem Starts.mergeable_eq {group : Option Nat} {mergeable : Bool}
    (starts : j.Starts edit now group mergeable) :
    mergeable = (j.grouping.current.isSome ||
      edit.payload.byteLength ≤ j.config.rules.maxEntryBytes) := by
  cases starts with
  | group id isOpen first => simp [isOpen]
  | oversized loose large => simp [loose, large]
  | refused refusal loose small plan => simp [loose, small]

/-! ## Extended entries -/

/-- How many of the oldest entries go. -/
def evictedBy (status : RecordStatus) : Nat := if status = .evicted then 1 else 0

theorem evictedBy_startStatus (evicted mergeable : Bool) :
    evictedBy (startStatus evicted mergeable) = evicted.toNat := by
  cases evicted <;> cases mergeable <;> rfl

/-- The entries behind a change that the journal took in. -/
inductive Extended (j : Journal) (edit : Edit) (now : Nat) : RecordStatus → List Entry → Prop
  /-- The last entry before the position is the only one that changes. -/
  | joined (older : List Entry) (tail changed : Entry)
      (front : j.entries.take j.position = older ++ [tail])
      (joined : tail.JoinedBy edit now changed) (version : changed.version = j.nextVersion) :
      Extended j edit now .merged (older ++ [changed])
  /-- Behind the entries before the position there is a new one. -/
  | started (status : RecordStatus) (evicted kept : List Entry) (entry : Entry)
      (front : j.entries.take j.position = evicted ++ kept)
      (count : evicted.length = evictedBy status)
      (known : status = .appended ∨ status = .evicted ∨ status = .oversized)
      (new : entry =
        { first := edit, timestamp := now, group := j.grouping.current,
          version := j.nextVersion
          mergeable := j.grouping.current.isSome ||
            edit.payload.byteLength ≤ j.config.rules.maxEntryBytes }) :
      Extended j edit now status (kept ++ [entry])

/-- Where the oldest entry is dropped to make room, there is one. -/
theorem Sound.some_of_evicted (h : j.Sound) (evicted : j.makeRoom.value.1 = true) :
    j.entries ≠ [] := by
  have capacity := h.capacity_pos
  have full : j.capacity ≤ j.entries.length := by
    rcases j.makeRoom_cases with ⟨-, hv⟩ | ⟨full, -, -, -⟩ | ⟨full, -, -, -⟩ |
        ⟨full, -, -, -, -⟩
    · simp [hv] at evicted
    · exact full
    · exact full
    · exact full
  exact List.ne_nil_of_length_pos (Nat.lt_of_lt_of_le capacity full)

/-- **A change extends the entries before the position.** -/
theorem Takes.extended (h : j.Sound) (nonempty : edit.payload ≠ [])
    (takes : j.Takes edit now status k) : j.Extended edit now status k.entries := by
  cases takes with
  | nothing empty => exact absurd empty nonempty
  | joined tail changed _ last joins =>
    obtain ⟨older, front⟩ := List.getLast?_eq_some_iff.mp last
    have behind : j.truncated.entries.dropLast = older := by rw [front, List.dropLast_concat]
    rw [noting_entries, replaceTail_entries, behind]
    exact .joined older tail _ front joins.joinedBy rfl
  | started group mergeable _ starts =>
    have count : (j.truncated.entries.take j.truncated.makeRoom.value.1.toNat).length =
        evictedBy (startStatus j.truncated.makeRoom.value.1 mergeable) := by
      rw [evictedBy_startStatus, List.length_take]
      cases evicted : j.truncated.makeRoom.value.1 with
      | false => rfl
      | true =>
        have some_entry := List.length_pos_iff.mpr (h.truncated.some_of_evicted evicted)
        exact Nat.min_eq_left some_entry
    rw [noting_entries, started_entries, makeRoom_entries]
    refine .started _ _ _ _ (List.take_append_drop _ j.truncated.entries).symm count ?_ ?_
    · cases j.truncated.makeRoom.value.1 <;> cases mergeable <;> simp [startStatus]
    · rw [newEntry, j.truncated.roomMade.next, starts.group_eq, starts.mergeable_eq]
      rfl

/-- **The balance**: what the entries hold and what was dropped make up what they held
before and the change. -/
theorem Extended.bytes {entries : List Entry} (h : j.Extended edit now status entries) :
    total Entry.payloadBytes entries +
        total Entry.payloadBytes (j.entries.drop j.position) +
        total Entry.payloadBytes ((j.entries.take j.position).take (evictedBy status)) =
      total Entry.payloadBytes j.entries + edit.payload.byteLength := by
  have parts :=
    congrArg (total Entry.payloadBytes) (List.take_append_drop j.position j.entries)
  rw [total_append] at parts
  cases h with
  | joined older tail changed front joined version =>
    have grown := joined.payloadBytes
    have stays : (older ++ [tail]).take (evictedBy .merged) = [] := List.take_zero
    rw [front] at parts ⊢
    rw [stays]
    simp only [total_append, total_cons, total_nil] at parts ⊢
    omega
  | started _ evicted kept entry front count known new =>
    have bytes : entry.payloadBytes = edit.payload.byteLength := by
      simp [new, Entry.payloadBytes, Entry.edits]
    have dropped : (evicted ++ kept).take (evictedBy status) = evicted := by
      rw [← count, List.take_left]
    rw [front] at parts ⊢
    rw [dropped]
    simp only [total_append, total_cons, total_nil] at parts ⊢
    omega

end Journal

/-- **A change that a journal takes in keeps the balance of bytes**, whatever the journal
went through. There is no redo tail behind it. Of the entries before the position, the
last one is joined by the change, or the change stands behind them in an entry of its
own; the oldest one is gone exactly if the status says so. The version is one that no
entry had. And the bytes of the entries change by those of the text, less those of the
redo tail and of the entry that is gone. -/
theorem record_balances_bytes (j k : Journal) (reachable : j.Reachable) (kind : EditKind)
    (place : Location) (text : Text) (now : Nat) (status : RecordStatus)
    (taken : status ∈ [RecordStatus.appended, .merged, .evicted, .oversized])
    (recorded : (j.record kind place text now).value = .ok (status, k)) :
    k.canRedo = false ∧ k.position = k.length ∧
    j.Extended { kind, place, payload := text } now status k.entries ∧
    (∀ entry ∈ j.entries, entry.version < j.nextVersion) ∧ k.nextVersion = j.nextVersion + 1 ∧
    total Entry.payloadBytes k.entries +
        total Entry.payloadBytes (j.entries.drop j.position) +
        total Entry.payloadBytes
          ((j.entries.take j.position).take (if status = .evicted then 1 else 0)) =
      total Entry.payloadBytes j.entries + text.byteLength := by
  have sound := reachable.sound
  have hkind : kind ≠ .replace := by
    rintro rfl
    simp [Journal.record_replace sound.idle] at recorded
  have takes := (Journal.record_eq_ok_iff sound.idle hkind).mp recorded
  have nonempty : text ≠ [] := by
    rintro rfl
    cases takes with
    | nothing empty => simp at taken
    | joined tail changed nonempty last joins => exact absurd rfl nonempty
    | started group mergeable nonempty starts => exact absurd rfl nonempty
  obtain ⟨p, d, last, leaves⟩ := takes.leaves_of_nonempty nonempty
  have position : k.position = k.length := leaves.position sound.position_le
  have extended := takes.extended sound nonempty
  refine ⟨?_, position, extended, reachable.version_lt, leaves.next, extended.bytes⟩
  rw [Journal.canRedo, position]
  exact decide_eq_false (Nat.lt_irrefl _)

/-- A journal for two entries, of one byte and of two, that are both typed. -/
def twoTyped : Journal :=
  (Journal.create { initialCapacity := 1, maxEntries := 2 }).value.serveAll
    [(.record .insert ⟨0, 0⟩ ['a'] 0 : Request Text), .endRun, .record .insert ⟨0, 1⟩ ['é'] 1]

/-- More typing joins the second entry; behind the end of the run it evicts the first
one; and behind a step back it drops the second. -/
theorem twoTyped_balances_bytes :
    let sealed := twoTyped.serve (.endRun : Request Text)
    let back := twoTyped.serve (.step .undo (['a', 'é'] : Text))
    (∃ k, (twoTyped.record .insert ⟨0, 3⟩ ['c'] 2).value = .ok (.merged, k) ∧
      twoTyped.Extended ⟨.insert, ⟨0, 3⟩, ['c'], none⟩ 2 .merged k.entries ∧
      total Entry.payloadBytes k.entries = 3 + 1) ∧
    (∃ k, (sealed.record .insert ⟨0, 3⟩ ['c'] 2).value = .ok (.evicted, k) ∧
      total Entry.payloadBytes k.entries + 1 = 3 + 1) ∧
    ∃ k, (back.record .insert ⟨0, 1⟩ ['c'] 2).value = .ok (.appended, k) ∧ k.canRedo = false ∧
      total Entry.payloadBytes k.entries + 2 = 3 + 1 := by
  intro sealed back
  have typed : twoTyped.Reachable := (Journal.Reachable.create _ _).serveAll _
  obtain ⟨-, -, extended, -, -, merged⟩ :=
    record_balances_bytes twoTyped _ typed .insert ⟨0, 3⟩ ['c'] 2 .merged (by decide) rfl
  obtain ⟨-, -, -, -, -, evicted⟩ :=
    record_balances_bytes sealed _ (typed.serve _) .insert ⟨0, 3⟩
    ['c'] 2 .evicted (by decide) rfl
  obtain ⟨noRedo, -, -, -, -, dropped⟩ := record_balances_bytes back _ (typed.serve _) .insert
    ⟨0, 1⟩ ['c'] 2 .appended (by decide) rfl
  exact ⟨⟨_, rfl, extended, merged⟩, ⟨_, rfl, evicted⟩, _, rfl, noRedo, dropped⟩

end EditJournal
