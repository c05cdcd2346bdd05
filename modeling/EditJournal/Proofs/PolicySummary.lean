/-
EditJournal.Proofs.PolicySummary — the summary of a policy is a policy.

* `Policy.compact_members` — what a printer makes of the record is the summary, which is
  put together by hand.
* `Policy.ofJson?_members` — the limits are found under their names, behind a member
  that is none of them.

`summary_is_read_back` is the main result: the summary is read as the policy it was made
of, whatever problems it has, and as no other; a limit that is no word is refused.

## How the proof goes

The record has legible values, so the summary is read as the record. Each limit is asked
for by the name it was written under: none is left to its usual value, which would hide
that it is missing.
-/
import EditJournal.Policy.Reading
import EditJournal.Proofs.FileFormat

namespace EditJournal

namespace Policy

/-- The numbers of a policy fit in words. -/
structure Fits (p : Policy) : Prop where
  initialCapacity : p.initialCapacity < Word.size
  maxEntries : p.maxEntries < Word.size
  maxEntryBytes : p.maxEntryBytes < Word.size
  windowMs : p.windowMs < Word.size

/-- The members of a summary. -/
def members (p : Policy) : List (String × Json) :=
  [("schema", .ofText "undo-policy-v1".toList), ("initial_capacity", .ofNat p.initialCapacity),
    ("max_entries", .ofNat p.maxEntries), ("max_entry_bytes", .ofNat p.maxEntryBytes),
    ("coalesce_window_ms", .ofNat p.windowMs), ("merge_across_words", .bool p.acrossWords)]

/-- **The summary is a record**: it is what a printer writes on one line. -/
theorem compact_members (p : Policy) : (Json.record p.members).compact = p.summary := by
  unfold summary
  cases across : p.acrossWords <;>
    simp [members, across, Json.record, Json.ofNat, Json.ofText, Json.compact,
      Json.compactMembers, Json.compactMember, Json.quoted, Json.Literal.escape,
      Json.Literal.escapeChar]

theorem legible_members (p : Policy) : (Json.record p.members).Legible := by
  apply Json.Legible.record
  simp only [members, List.forall_mem_cons, List.not_mem_nil, false_implies,
    implies_true, and_true]
  exact ⟨Json.legible_ofText _, Json.legible_ofNat _, Json.legible_ofNat _,
    Json.legible_ofNat _, Json.legible_ofNat _, Json.legible_bool _⟩

/-- Each limit is found under its name. -/
theorem members?_members (p : Policy) :
    (Json.record p.members).members? names =
      some [some (.ofNat p.initialCapacity), some (.ofNat p.maxEntries),
        some (.ofNat p.maxEntryBytes), some (.ofNat p.windowMs), some (.bool p.acrossWords)] :=
  Json.members?_record names (by simp [members])

theorem ofJson?_members (p q : Policy) :
    ofJson? (Json.record p.members) = some q ↔ q = p ∧ p.Fits := by
  rw [ofJson?, members?_members]
  simp only [Json.withDefault?, Option.bind_eq_bind, Option.bind_some, Option.bind_eq_some_iff,
    Json.nat?_ofNat_eq_some_iff, Json.bool?, Option.pure_def, Option.some.injEq]
  constructor
  · rintro ⟨_, ⟨rfl, capacity⟩, _, ⟨rfl, entries⟩, _, ⟨rfl, bytes⟩, _, ⟨rfl, window⟩, rfl⟩
    exact ⟨rfl, capacity, entries, bytes, window⟩
  · rintro ⟨rfl, fits⟩
    exact ⟨_, ⟨rfl, fits.initialCapacity⟩, _, ⟨rfl, fits.maxEntries⟩, _,
      ⟨rfl, fits.maxEntryBytes⟩, _, ⟨rfl, fits.windowMs⟩, rfl⟩

end Policy

/-- **The summary of a policy is read back as the policy**, and as no other, whether or not
it has problems. Its numbers have to be words, as they are wherever they can be set; where
one is not, the summary is refused. -/
theorem summary_is_read_back (p q : Policy) :
    Policy.parse .json p.summary = .ok q ↔ q = p ∧ p.Fits := by
  have read := Json.parse?_compact p.legible_members
  rw [Policy.compact_members] at read
  rw [← Policy.ofJson?_members, Policy.parse, read, Option.bind_some]
  cases Policy.ofJson? (Json.record p.members) <;> simp

end EditJournal
