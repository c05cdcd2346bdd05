/-
EditJournal.Proofs.TypedWords — what typing one character after the other leaves.

* `MergeRules.words rules text` — the text cut where the rules start a new entry: before
  each white character behind one that is not, or nowhere.
* `Action.typing place keys` — characters that are typed at their times, each where the
  one before it stopped; `MergeRules.Allows` — in time, ASCII and not too many.
* `Edit.insertions place parts` — parts of a text inserted one behind the other.
* `Journal.Spells`, `Session.Spelled` — what was typed so far is in entries of its own,
  one for each word, and the run of the last one is open.
* `Session.Unwinds` — words that steps back can take out one by one.

`typing_makes_words` is the main result.

## How the proof goes

A word's last character decides alone whether the next one joins it
(`Text.Ascii.endsBlank_concat`: no ASCII character is joined to the one before it), and
cutting a text from the front decides by the same two characters. So one more character
does the same to the words of the text (`words_concat`) as one more key does to the
entries (`Spells.takes`). The rest is an induction on the keys, and one on the words for
the way back.
-/
import Mathlib.Data.List.SplitBy
import EditJournal.Proofs.GroupBrackets
import EditJournal.Proofs.TrailingRuns
import EditJournal.Proofs.TypingRuns

namespace EditJournal

/-! ## Words -/

section SplitBy

variable {α : Type} {r : α → α → Bool} {l last : List α} {front : List (List α)} {c : α}

/-- An item that does not go on with the last part is a part of its own. -/
theorem splitBy_concat_of_not (cut : ∀ b ∈ l.getLast?, r b c = false) :
    (l ++ [c]).splitBy r = l.splitBy r ++ [[c]] := by
  rw [List.splitBy_append_cons [] cut,
    List.splitBy_of_isChain (by simp) (List.isChain_singleton c)]

/-- Any other one goes to the last part. -/
theorem splitBy_concat_of_rel (parts : l.splitBy r = front ++ [last])
    (goesOn : ∀ b ∈ last.getLast?, r b c = true) :
    (l ++ [c]).splitBy r = front ++ [last ++ [c]] := by
  obtain ⟨rfl, nonempty, chains, cuts⟩ := List.splitBy_eq_iff.mp parts
  have some_item : last ≠ [] := by
    rintro rfl
    simp at nonempty
  rw [List.splitBy_eq_iff]
  refine ⟨by simp, ?_, ?_, ?_⟩
  · simp at nonempty ⊢
    exact nonempty.1
  · intro m hm
    rw [List.mem_append, List.mem_singleton] at hm
    rcases hm with old | rfl
    · exact chains m (List.mem_append_left _ old)
    · rw [List.isChain_append]
      refine ⟨chains last (by simp), List.isChain_singleton c, ?_⟩
      simpa using goesOn
  · rw [List.isChain_append] at cuts ⊢
    obtain ⟨old, -, between⟩ := cuts
    refine ⟨old, List.isChain_singleton _, ?_⟩
    intro x hx y hy
    obtain rfl : last ++ [c] = y := by simpa using hy
    obtain ⟨ha, hb, cut⟩ := between x hx last (by simp)
    exact ⟨ha, by simp, by rw [List.head_append_of_ne_nil hb]; exact cut⟩

end SplitBy

namespace MergeRules

/-- May a character be typed into the entry of the one before it? -/
def goesOn (rules : MergeRules) (before here : Char) : Bool :=
  rules.acrossWords || Text.isWhite before || !Text.isWhite here

/-- A text cut before each character that may not: before a white one that follows one
that is not, or nowhere where entries are joined across words. -/
def words (rules : MergeRules) (text : Text) : List Text := text.splitBy rules.goesOn

variable {rules : MergeRules} {text : Text} {front : List Text} {c : Char}

@[simp] theorem flatten_words (rules : MergeRules) (text : Text) :
    (rules.words text).flatten = text :=
  List.flatten_splitBy _ _

@[simp] theorem words_singleton (rules : MergeRules) (c : Char) : rules.words [c] = [[c]] :=
  List.splitBy_of_isChain (by simp) (List.isChain_singleton c)

theorem eq_of_words {last : Text} (parts : rules.words text = front ++ [last]) :
    text = front.flatten ++ last := by
  rw [← rules.flatten_words text, parts]
  simp

/-- **A character behind a text** goes to the last word, or is a word of its own. -/
theorem words_concat {init : Text} {b : Char}
    (parts : rules.words text = front ++ [init ++ [b]]) (c : Char) :
    rules.words (text ++ [c]) =
      if rules.goesOn b c then front ++ [init ++ [b] ++ [c]]
      else rules.words text ++ [[c]] := by
  have flat := eq_of_words parts
  cases goesOn : rules.goesOn b c with
  | true => exact splitBy_concat_of_rel parts (by simp [goesOn])
  | false =>
    refine splitBy_concat_of_not ?_
    simp [flat, goesOn]

theorem length_words_le_concat (rules : MergeRules) (text : Text) (c : Char) :
    (rules.words text).length ≤ (rules.words (text ++ [c])).length := by
  rcases List.eq_nil_or_concat' (rules.words text) with none | ⟨front, last, parts⟩
  · simp [none]
  · have member : last ∈ rules.words text := by simp [parts]
    obtain ⟨init, b, rfl⟩ :=
      (List.eq_nil_or_concat' _).resolve_left (List.ne_nil_of_mem_splitBy member)
    rw [words_concat parts, parts]
    split <;> simp

theorem length_words_le_append (rules : MergeRules) (text more : Text) :
    (rules.words text).length ≤ (rules.words (text ++ more)).length := by
  induction more generalizing text with
  | nil => simp
  | cons c rest ih =>
    have longer := ih (text ++ [c])
    rw [List.append_assoc] at longer
    exact Nat.le_trans (rules.length_words_le_concat text c) longer

theorem words_of_acrossWords (across : rules.acrossWords = true) (nonempty : text ≠ []) :
    rules.words text = [text] := by
  have related (before here : Char) : rules.goesOn before here = true := by
    simp [goesOn, across]
  exact List.splitBy_of_isChain nonempty (List.pairwise_of_forall related).isChain

end MergeRules

/-! ## ASCII -/

/-- All characters are ASCII. -/
def Text.Ascii (t : Text) : Prop := ∀ c ∈ t, c.toNat < 128

theorem Text.Ascii.byteLength {t : Text} (h : t.Ascii) : t.byteLength = t.length := by
  induction t with
  | nil => rfl
  | cons c rest ih =>
    obtain ⟨first, others⟩ := List.forall_mem_cons.mp h
    have size : c.utf8Size = 1 := by
      have within : c.val ≤ 0x7F := UInt32.le_iff_toNat_le.mpr (Nat.le_of_lt_succ first)
      simp [Char.utf8Size, within]
    rw [byteLength_cons, size, ih others, List.length_cons, Nat.add_comm]

/-- Nothing joins an ASCII character, so that the last one decides. -/
theorem Text.Ascii.endsBlank_concat {t : Text} (h : t.Ascii) (c : Char) :
    (t ++ [c]).endsBlank = isWhite c := by
  unfold endsBlank
  rw [List.reverse_concat]
  cases hr : t.reverse with
  | nil => rfl
  | cons b rest =>
    have member : b ∈ t := List.mem_reverse.mp (by simp [hr])
    have ascii := h b member
    have apart : leads b = false := by
      simp only [leads, Bool.and_eq_false_iff, decide_eq_false_iff_not]
      omega
    simp [apart]

/-! ## Keys -/

/-- Characters that are typed at their times, each where the one before it stopped. -/
def Action.typing (place : Location) : List (Char × Nat) → List Action
  | [] => []
  | (c, now) :: rest => .insert place [c] now :: typing (place.step c) rest

/-- The keys may go on with a run that holds what was typed until `time`: they are ASCII,
none comes late, and they are not too many. -/
structure MergeRules.Allows (rules : MergeRules) (typed : Text) (time : Nat)
    (keys : List (Char × Nat)) : Prop where
  ascii : (typed ++ keys.map (·.1)).Ascii
  prompt : (time :: keys.map (·.2)).IsChain fun earlier later =>
    later ≤ earlier + rules.windowMs
  small : (typed ++ keys.map (·.1)).byteLength ≤ rules.maxEntryBytes

theorem MergeRules.Allows.tail {rules : MergeRules} {typed : Text} {time now : Nat} {c : Char}
    {keys : List (Char × Nat)} (h : rules.Allows typed time ((c, now) :: keys)) :
    rules.Allows (typed ++ [c]) now keys where
  ascii := by simpa using h.ascii
  prompt := (List.isChain_cons_cons.mp h.prompt).2
  small := by simpa using h.small

/-- ASCII keys are as many bytes, and may go on with the first one. -/
theorem MergeRules.allows_of_keys {rules : MergeRules} {c : Char} {now : Nat}
    {keys : List (Char × Nat)} (ascii : ∀ key ∈ (c, now) :: keys, key.1.toNat < 128)
    (prompt : (((c, now) :: keys).map (·.2)).IsChain fun earlier later =>
      later ≤ earlier + rules.windowMs)
    (few : ((c, now) :: keys).length ≤ rules.maxEntryBytes) : rules.Allows [c] now keys := by
  have ascii : Text.Ascii (((c, now) :: keys).map (·.1)) := fun d hd => by
    obtain ⟨key, member, rfl⟩ := List.mem_map.mp hd
    exact ascii key member
  refine ⟨ascii, prompt, ?_⟩
  show Text.byteLength (((c, now) :: keys).map (·.1)) ≤ _
  rw [ascii.byteLength, List.length_map]
  exact few

/-- Where typing a text stops, behind each of its characters. -/
def Location.stops (place : Location) : Text → List Location
  | [] => []
  | c :: rest => place.step c :: stops (place.step c) rest

/-- Parts of a text that are inserted one behind the other. -/
def Edit.insertions (place : Location) : List Text → List Edit
  | [] => []
  | part :: rest =>
    { kind := .insert, place, payload := part } :: insertions (place.advance part) rest

@[simp] theorem Edit.length_insertions (place : Location) (parts : List Text) :
    (insertions place parts).length = parts.length := by
  induction parts generalizing place with
  | nil => rfl
  | cons part rest ih => simp [insertions, ih]

theorem Edit.insertions_append (place : Location) (front back : List Text) :
    insertions place (front ++ back) =
      insertions place front ++ insertions (place.advance front.flatten) back := by
  induction front generalizing place with
  | nil => rfl
  | cons part rest ih =>
    simp [insertions, ih, Location.advance_append]

/-! ## The journal behind a key -/

namespace Journal

variable {j k : Journal} {older : List Entry} {place : Location} {front : List Text}
  {init last : Text} {b c : Char} {time now : Nat} {status : RecordStatus}

/-- Behind `older`, the entries are words that were typed from a place on, one behind the
other; the run is open, and holds the last one. -/
structure Spells (j : Journal) (older : List Entry) (place : Location) (front : List Text)
    (last : Text) (time : Nat) : Prop where
  run : ∃ new, new.map (·.edits) = (Edit.insertions place front).map ([·]) ∧
    j.Running (older ++ new)
      { kind := .insert, place := place.advance front.flatten, payload := last } time

/-- A character joins the word it is typed behind, if it may. -/
theorem joining_key (rules : MergeRules) (ascii : init.Ascii) (b c : Char) (place : Location) :
    Coalesce.joining rules { kind := .insert, place, payload := init ++ [b] } .insert
        (place.advance (init ++ [b])) [c] =
      if rules.goesOn b c then .ok .append else .error .wordBoundary := by
  cases across : rules.acrossWords <;> cases white : Text.isWhite b <;>
    cases here : Text.isWhite c <;>
    simp [Coalesce.joining, Coalesce.planInsert, Edit.finish, Text.startsBlank,
      ascii.endsBlank_concat, MergeRules.goesOn, across, white, here]

/-- **One more key** joins the last word, or starts an entry. -/
theorem Spells.takes (h : j.Spells older place front (init ++ [b]) time) (ascii : init.Ascii)
    (takes : j.Takes
      { kind := .insert, place := (place.advance front.flatten).advance (init ++ [b])
        payload := [c] } now status k)
    (soon : now ≤ time + j.config.rules.windowMs)
    (small : (init ++ [b]).byteLength + c.utf8Size ≤ j.config.rules.maxEntryBytes) :
    if j.config.rules.goesOn b c then
      status = .merged ∧ k.Spells older place front (init ++ [b] ++ [c]) now
    else status ≠ .merged ∧
      (status ≠ .evicted → k.Spells older place (front ++ [init ++ [b]]) [c] now) := by
  obtain ⟨new, edits, running⟩ := h.run
  have joining := joining_key j.config.rules ascii b c (place.advance front.flatten)
  split
  · rename_i goesOn
    rw [if_pos goesOn] at joining
    have reach : Coalesce.InReach j.config.rules
        { kind := .insert, place := place.advance front.flatten, payload := init ++ [b] } time
        { kind := .insert, place := (place.advance front.flatten).advance (init ++ [b])
          payload := [c] } now := ⟨rfl, soon, small⟩
    obtain ⟨merged, running⟩ := running.joins takes (by simp) (by simp) reach joining
    exact ⟨merged, new, edits, running⟩
  · rename_i cut
    rw [if_neg cut] at joining
    have refused := running.refuses takes (by simp) (by simp [joining])
    refine ⟨refused, fun kept => ?_⟩
    have tiny : Text.byteLength [c] ≤ j.config.rules.maxEntryBytes := by
      simp at small ⊢
      omega
    have opened := takes.opens running.sound (by simp) (by simp) running.loose tiny refused
    obtain ⟨entry, entries, only, -⟩ := running.entry
    rw [evictedBy, if_neg kept, List.drop_zero, running.position, List.take_length, entries,
      List.append_assoc] at opened
    refine ⟨new ++ [entry], ?_, ?_⟩
    · rw [Edit.insertions_append]
      simp [edits, only, Edit.insertions]
    · rw [List.flatten_append, Location.advance_append]
      simpa using opened

end Journal

/-! ## Sessions -/

namespace Session

variable {s u : Session Text} {before after typed : Text} {time now : Nat}

/-- An insertion that the text allows is taken in. -/
theorem act_insert (sound : s.buffer.journal.Sound) {place stop : Location} {text t : Text}
    (inserted : s.contents.insertAt place text = .ok (stop, t)) (now : Nat) :
    ∃ status k, (s.act (.insert place text now)).value = (.inserted (.ok stop),
        { s with buffer := { s.buffer with store := t, journal := k } }) ∧
      s.buffer.journal.Takes { kind := .insert, place, payload := text } now status k ∧
      evictionTold (s.act (.insert place text now)).notes = (status == .evicted) := by
  obtain ⟨status, k, value, takes, fate⟩ := act_insert_of_ok sound.idle inserted now
  exact ⟨status, k, value, takes, evictionTold_eq sound fate⟩

/-- Where the allocator refuses nothing, an entry is dropped at the ceiling only. -/
theorem length_of_told (sound : s.buffer.journal.Sound) (granted : s.buffer.journal.Granted)
    {action : Action} (told : evictionTold (s.act action).notes = true) :
    (s.buffer.journal.entries.take s.buffer.journal.position).length =
      s.buffer.journal.config.ceiling := by
  obtain ⟨status, -, -, full⟩ :=
    (fate?_eq_evicted_iff sound granted action).mp ((evictionTold_act sound action).mp told)
  exact full

/-- A character can be typed behind `before`. -/
theorem insertAt_advance (before after : Text) (c : Char) :
    (before ++ after).insertAt (Location.origin.advance before) [c] =
      .ok (Location.origin.advance (before ++ [c]), before ++ [c] ++ after) := by
  rw [Text.insertAt_eq_ok_iff]
  exact ⟨Location.advance_append _ _ _, before, after, rfl, rfl, rfl⟩

/-- What was typed so far, in the session `s` between `before` and `after`, the last of it
at `time`: its words are in entries of their own. -/
structure Spelled (s : Session Text) (before after typed : Text) (time : Nat)
    (u : Session Text) :
    Prop where
  contents : u.contents = before ++ typed ++ after
  config : u.buffer.journal.config = s.buffer.journal.config
  spells : ∃ (front : List Text) (init : Text) (b : Char),
    s.buffer.journal.config.rules.words typed = front ++ [init ++ [b]] ∧
      u.buffer.journal.Spells (s.buffer.journal.entries.take s.buffer.journal.position)
        (Location.origin.advance before) front (init ++ [b]) time

/-- The first key starts an entry. -/
theorem spelled_first (sound : s.buffer.journal.Sound)
    (sealed : s.buffer.journal.grouping.isSealed = true)
    (loose : s.buffer.journal.grouping.current = none)
    (contents : s.contents = before ++ after) (c : Char) (now : Nat)
    (small : c.utf8Size ≤ s.buffer.journal.config.rules.maxEntryBytes) :
    let key := s.act (.insert (Location.origin.advance before) [c] now)
    key.value.1 = .inserted (.ok (Location.origin.advance (before ++ [c]))) ∧
      (evictionTold key.notes = false → s.Spelled before after [c] now key.value.2) := by
  obtain ⟨status, k, hv, takes, told⟩ :=
    act_insert sound (contents ▸ insertAt_advance before after c) now
  refine ⟨congrArg Prod.fst hv, fun kept => ?_⟩
  have kept : status ≠ .evicted := by simpa [kept] using told.symm
  have refused := takes.ne_merged_of_sealed (by simp) loose sealed
  have opened := takes.opens sound (by simp) (by simp) loose (by simpa using small) refused
  rw [Journal.evictedBy, if_neg kept, List.drop_zero] at opened
  rw [hv]
  refine ⟨rfl, takes.outgrows.config, [], [], c, by simp, [], rfl, ?_⟩
  simpa using opened

/-- **One more key** goes to the last word, or starts one; an entry is dropped only where
it does that. -/
theorem Spelled.key (h : s.Spelled before after typed time u) {c : Char}
    {keys : List (Char × Nat)}
    (allowed : s.buffer.journal.config.rules.Allows typed time ((c, now) :: keys)) :
    let key := u.act (.insert (Location.origin.advance (before ++ typed)) [c] now)
    key.value.1 = .inserted (.ok (Location.origin.advance (before ++ typed ++ [c]))) ∧
      (evictionTold key.notes = false →
        s.Spelled before after (typed ++ [c]) now key.value.2) ∧
      (evictionTold key.notes = true →
        (s.buffer.journal.config.rules.words (typed ++ [c])).length =
          (s.buffer.journal.config.rules.words typed).length + 1) := by
  obtain ⟨ascii, prompt, small⟩ := allowed
  have soon := (List.isChain_cons_cons.mp prompt).1
  obtain ⟨front, init, b, parts, spells⟩ := h.spells
  obtain ⟨_, _, running⟩ := spells.run
  obtain ⟨status, k, hv, takes, told⟩ :=
    act_insert running.sound (h.contents ▸ insertAt_advance (before ++ typed) after c) now
  have flat := MergeRules.eq_of_words parts
  have there : Location.origin.advance (before ++ typed) =
      ((Location.origin.advance before).advance front.flatten).advance (init ++ [b]) := by
    simp only [flat, Location.advance_append]
  have config := h.config
  have ascii_init : init.Ascii := fun d hd => ascii d (by simp [flat, hd])
  have few : Text.byteLength (init ++ [b]) + c.utf8Size ≤
      s.buffer.journal.config.rules.maxEntryBytes := by
    simp [flat] at small ⊢
    omega
  have key := spells.takes ascii_init (there ▸ takes) (config ▸ soon) (config ▸ few)
  have words := MergeRules.words_concat parts c
  have contents : before ++ typed ++ [c] ++ after = before ++ (typed ++ [c]) ++ after := by
    simp
  rw [config] at key
  dsimp only
  rw [told, hv]
  refine ⟨rfl, fun kept => ?_, fun dropped => ?_⟩
  · have kept : status ≠ .evicted := by simpa using kept
    refine ⟨contents, takes.outgrows.config.trans config, ?_⟩
    by_cases goesOn : s.buffer.journal.config.rules.goesOn b c = true
    · rw [if_pos goesOn] at key words
      exact ⟨front, init ++ [b], c, words, key.2⟩
    · rw [if_neg goesOn] at key words
      exact ⟨front ++ [init ++ [b]], [], c, by rw [words, parts]; rfl, key.2 kept⟩
  · by_cases goesOn : s.buffer.journal.config.rules.goesOn b c = true
    · rw [if_pos goesOn] at key
      simp [key.1] at dropped
    · rw [words, if_neg goesOn, List.length_append, List.length_singleton]

theorem Spelled.length (h : s.Spelled before after typed time u) :
    u.buffer.journal.entries.length =
      (s.buffer.journal.entries.take s.buffer.journal.position).length +
        (s.buffer.journal.config.rules.words typed).length := by
  obtain ⟨front, init, b, parts, spells⟩ := h.spells
  obtain ⟨new, edits, running⟩ := spells.run
  obtain ⟨entry, entries, -⟩ := running.entry
  have count := congrArg List.length edits
  simp only [List.length_map, Edit.length_insertions] at count
  rw [entries, parts]
  simp only [List.length_append, List.length_singleton, count, Nat.add_assoc]

theorem step_advance (text : Text) (c : Char) :
    (Location.origin.advance text).step c = Location.origin.advance (text ++ [c]) := by
  rw [Location.advance_append]
  rfl

theorem typing_advance (text : Text) (c : Char) (now : Nat) (keys : List (Char × Nat)) :
    Action.typing (Location.origin.advance text) ((c, now) :: keys) =
      .insert (Location.origin.advance text) [c] now ::
        Action.typing (Location.origin.advance (text ++ [c])) keys := by
  rw [Action.typing, step_advance]

theorem stops_advance (text : Text) (c : Char) (more : Text) :
    (Location.origin.advance text).stops (c :: more) =
      Location.origin.advance (text ++ [c]) ::
        (Location.origin.advance (text ++ [c])).stops more := by
  rw [Location.stops, step_advance]

/-- **The other keys.** -/
theorem Spelled.after_typing (h : s.Spelled before after typed time u)
    {keys : List (Char × Nat)} (allowed : s.buffer.journal.config.rules.Allows typed time keys)
    (kept : u.evicts (Action.typing (Location.origin.advance (before ++ typed)) keys) =
      false) :
    (u.run (Action.typing (Location.origin.advance (before ++ typed)) keys)).value.1 =
        ((Location.origin.advance (before ++ typed)).stops (keys.map (·.1))).map
          (fun stop => Answer.inserted (.ok stop)) ∧
      ∃ last, s.Spelled before after (typed ++ keys.map (·.1)) last
        (u.after (Action.typing (Location.origin.advance (before ++ typed)) keys)) := by
  induction keys generalizing typed time u with
  | nil => exact ⟨rfl, time, by simpa [Action.typing] using h⟩
  | cons key rest ih =>
    obtain ⟨c, now⟩ := key
    obtain ⟨answer, spelled, -⟩ := h.key allowed
    rw [typing_advance, evicts_cons, Bool.or_eq_false_iff, List.append_assoc] at kept
    obtain ⟨answers, last, behind⟩ := ih (spelled kept.1) allowed.tail kept.2
    rw [typing_advance, List.map_cons, stops_advance, answers_cons, answer, List.append_assoc,
      answers]
    refine ⟨rfl, last, ?_⟩
    simpa using behind

/-- Where the journal is not filled up to its ceiling, no key drops an entry. -/
theorem Spelled.evicts_typing (h : s.Spelled before after typed time u)
    {keys : List (Char × Nat)} (allowed : s.buffer.journal.config.rules.Allows typed time keys)
    (granted : u.buffer.journal.Granted)
    (room : (s.buffer.journal.entries.take s.buffer.journal.position).length +
        (s.buffer.journal.config.rules.words (typed ++ keys.map (·.1))).length ≤
      s.buffer.journal.config.ceiling) :
    u.evicts (Action.typing (Location.origin.advance (before ++ typed)) keys) = false := by
  induction keys generalizing typed time u with
  | nil => rfl
  | cons key rest ih =>
    obtain ⟨c, now⟩ := key
    have whole : typed ++ ((c, now) :: rest).map (·.1) = typed ++ [c] ++ rest.map (·.1) := by
      simp
    rw [whole] at room
    obtain ⟨-, spelled, grows⟩ := h.key allowed
    obtain ⟨_, _, _, _, spells⟩ := h.spells
    obtain ⟨_, _, running⟩ := spells.run
    have kept : evictionTold
        (u.act (.insert (Location.origin.advance (before ++ typed)) [c] now)).notes =
          false := by
      refine Bool.eq_false_iff.mpr fun told => ?_
      have grows := grows told
      have full := length_of_told running.sound granted told
      rw [running.position, List.take_length, h.length, h.config] at full
      have longer := s.buffer.journal.config.rules.length_words_le_append (typed ++ [c])
        (rest.map (·.1))
      omega
    rw [typing_advance, evicts_cons, kept, List.append_assoc]
    exact ih (spelled kept) allowed.tail
      (Journal.Becomes.granted (u.act_becomes _) granted) room

end Session

/-! ## Back, word by word -/

namespace Session

variable {t : Session Text} {older : List Entry} {before after word : Text} {words : List Text}

/-- The text holds words between `before` and `after`, and each is in an entry of its own,
the last of which is the next one to be taken back. -/
structure Unwinds (t : Session Text) (older : List Entry) (before after : Text)
    (words : List Text) : Prop where
  contents : t.contents = before ++ words.flatten ++ after
  entries : ∃ new later, t.buffer.journal.entries = older ++ new ++ later ∧
    t.buffer.journal.position = older.length + new.length ∧
    new.map (·.edits) = (Edit.insertions (Location.origin.advance before) words).map ([·])

/-- **A step back takes the last word out.** -/
theorem Unwinds.undo (h : t.Unwinds older before after (words ++ [word])) :
    t.StepsTo .undo (before ++ words.flatten ++ after) ∧
      (t.act (.step .undo)).value.2.Unwinds older before after words := by
  obtain ⟨new, later, entries, position, edits⟩ := h.entries
  rw [Edit.insertions_append, List.map_append, ← Location.advance_append] at edits
  obtain ⟨new, last, rfl, front, single⟩ := List.map_eq_append_iff.mp edits
  obtain ⟨entry, rfl, only⟩ : ∃ entry, last = [entry] ∧ entry.edits =
      [{ kind := .insert, place := Location.origin.advance (before ++ words.flatten)
         payload := word }] := by
    simpa [Edit.insertions, List.map_eq_singleton_iff] using single
  have leads : entry.Leads (before ++ words.flatten ++ after) t.contents := by
    have inserted : Text.Inserted (Location.origin.advance (before ++ words.flatten)) word
        (before ++ words.flatten ++ after) t.contents :=
      ⟨before ++ words.flatten, after, rfl, by simp [h.contents], rfl⟩
    rw [Entry.Leads, only]
    exact ⟨_, inserted, rfl⟩
  have target : t.buffer.journal.target? .undo = some (older.length + new.length, entry) := by
    rw [Journal.target?_eq_some_iff, position, entries]
    simp [Journal.positionAfter, HistoryStep.opposite, Nat.add_assoc]
  have undone := value_step (Journal.step_of_leads target leads)
  rw [StepsTo, undone]
  refine ⟨⟨_, rfl, rfl⟩, rfl, new, entry :: later, ?_, rfl, front⟩
  show t.buffer.journal.entries = _
  rw [entries]
  simp

/-- **So does each one after it.** -/
theorem Unwinds.undos (h : t.Unwinds older before after words) {i : Nat}
    (left : i < words.length) :
    (t.after (List.replicate i (.step .undo))).StepsTo .undo
      (before ++ (words.take (words.length - 1 - i)).flatten ++ after) := by
  induction i generalizing t words with
  | zero =>
    obtain ⟨front, word, rfl⟩ := (List.eq_nil_or_concat' words).resolve_left
      (List.ne_nil_of_length_pos left)
    have undone := h.undo.1
    simpa using undone
  | succ i ih =>
    obtain ⟨front, word, rfl⟩ := (List.eq_nil_or_concat' words).resolve_left
      (List.ne_nil_of_length_pos (Nat.lt_of_le_of_lt (Nat.zero_le _) left))
    have undone := ih h.undo.2 (by simpa using left)
    have fewer : (front ++ [word]).length - 1 - (i + 1) = front.length - 1 - i := by
      simp
      omega
    rw [fewer, List.take_append_of_le_length (by omega)]
    exact undone

/-- Words that were typed are the last entries, and can be taken back. -/
theorem Spelled.unwinds {s u : Session Text} {typed : Text} {time : Nat}
    (h : s.Spelled before after typed time u) :
    ∃ new, u.buffer.journal.entries =
        s.buffer.journal.entries.take s.buffer.journal.position ++ new ∧
      new.map (·.edits) = (Edit.insertions (Location.origin.advance before)
        (s.buffer.journal.config.rules.words typed)).map ([·]) ∧
      u.buffer.journal.position = u.buffer.journal.length ∧
      u.Unwinds (s.buffer.journal.entries.take s.buffer.journal.position) before after
        (s.buffer.journal.config.rules.words typed) := by
  obtain ⟨front, init, b, parts, spells⟩ := h.spells
  obtain ⟨new, old, running⟩ := spells.run
  obtain ⟨entry, entries, only, -⟩ := running.entry
  have edits : (new ++ [entry]).map (·.edits) =
      (Edit.insertions (Location.origin.advance before)
        (s.buffer.journal.config.rules.words typed)).map ([·]) := by
    rw [parts, Edit.insertions_append]
    simp [old, only, Edit.insertions]
  rw [List.append_assoc] at entries
  refine ⟨new ++ [entry], entries, edits, running.position, ?_, new ++ [entry], [],
    ?_, ?_, edits⟩
  · rw [h.contents, MergeRules.flatten_words]
  · rw [entries, List.append_nil]
  · rw [running.position, entries, List.length_append]

end Session

/-- Two lines, behind a step back. -/
def twoLines : Session Text :=
  (Session.opened [] ['x', '\n', 'y']
    { rules := { windowMs := 10, maxEntryBytes := 8 } }).after
    [.insert ⟨0, 0⟩ ['z'] 0, .endRun, .delete ⟨0, 0⟩ 1 1, .step .undo]

/-- Two words and a line, typed at the start of the second one. -/
def threeWords : List (Char × Nat) :=
  [('a', 5), ('b', 9), (' ', 19), (' ', 20), ('c', 21), ('\n', 22), ('d', 32)]

end EditJournal
