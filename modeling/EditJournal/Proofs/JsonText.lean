/-
EditJournal.Proofs.JsonText — a value that was written on one line or on many is read
back as it was.

* `Reader.Reads s v` — the text `s` is read as the value `v`, wherever it stands,
  as long as there is fuel for its length and something ends it.
* `Legible v` — on one line, and however deep in brackets on many, the value `v` is
  read where it was written.
* `parse?_compact`, `parse?_pretty` — a legible value is what its text is read as.
* `Spacing`, `parse?_object` — a record is read whatever blanks stand between its parts.

Numbers, strings, words, and lists and records of legible values are legible
(`legible_ofNat`, `legible_ofText`, `Legible.array`, `Legible.record`), so what is
built of them is.

## How the proof goes

Elements and members are read up to the bracket that closes them, so their
texts include it (`ReadsElements`, `ReadsMembers`). Each is one value longer than
the text behind its comma; the inductions follow the lists, and leave open how the
values are written and which blanks stand between them (`readsElements`,
`readsMembers`), so that they serve both forms. Since a reader hands one unit of fuel
less to the next, which reads at least one character less, the length of the text is
fuel enough throughout.
-/
import EditJournal.Json.Printer
import EditJournal.Proofs.Literals

namespace EditJournal.Json

namespace Reader

/-! ## Blanks -/

/-- The text begins with neither a blank nor a bracket that closes a list. -/
def Begins (s : Text) : Prop := ∃ c rest, s = c :: rest ∧ isBlank c = false ∧ c ≠ ']'

theorem begins_cons {c : Char} (h : isBlank c = false) (hc : c ≠ ']') (rest : Text) :
    Begins (c :: rest) :=
  ⟨c, rest, rfl, h, hc⟩

theorem Begins.append {s : Text} (h : Begins s) (t : Text) : Begins (s ++ t) := by
  obtain ⟨c, rest, rfl, hblank, hc⟩ := h
  exact ⟨c, rest ++ t, rfl, hblank, hc⟩

/-- A text of blanks only. -/
def Blank (b : Text) : Prop := ∀ c ∈ b, isBlank c

instance (b : Text) : Decidable (Blank b) := decidable_of_iff (b.all isBlank) List.all_eq_true

theorem blank_nil : Blank [] := fun _ hc => absurd hc List.not_mem_nil

theorem blank_space : Blank [' '] := List.forall_mem_singleton.mpr (by decide)

theorem blank_newLine (depth : Nat) : Blank (newLine depth) := by
  intro c hc
  rcases List.mem_cons.mp hc with rfl | hc
  · decide
  · rw [List.eq_of_mem_replicate hc]
    decide

theorem Blank.append {a b : Text} (ha : Blank a) (hb : Blank b) : Blank (a ++ b) :=
  fun c hc => (List.mem_append.mp hc).elim (ha c) (hb c)

theorem skipBlanks_cons {c : Char} (h : isBlank c = false) (s : Text) :
    skipBlanks (c :: s) = c :: s := by
  simp [skipBlanks, h]

theorem skipBlanks_append {b : Text} (hb : Blank b) (s : Text) :
    skipBlanks (b ++ s) = skipBlanks s :=
  List.dropWhile_append_of_pos hb

theorem skipBlanks_of_begins {s : Text} (h : Begins s) : skipBlanks s = s := by
  obtain ⟨c, rest, rfl, hblank, -⟩ := h
  exact skipBlanks_cons hblank rest

/-- Behind blanks and a character that ends a value, a value has ended. -/
theorem ended_append {b : Text} (hb : Blank b) {c : Char} (hc : endsValue c) (rest : Text) :
    Ended (b ++ c :: rest) := by
  cases b with
  | nil => exact ended_cons hc rest
  | cons d b => exact ended_cons (by simp [endsValue, hb d]) _

theorem ended_of_blank {b : Text} (h : Blank b) : Ended b := by
  intro c hc
  have hblank : isBlank c := h c (List.mem_of_mem_head? hc)
  simp [endsValue, hblank]

/-! ## Texts that are read -/

/-- The text is read as the value. -/
structure Reads (s : Text) (v : Json) : Prop where
  begins : Begins s
  read : ∀ fuel rest, s.length ≤ fuel → Ended rest → value? fuel (s ++ rest) = some (v, rest)

/-- The text, which ends in the closing bracket, is read as the elements. -/
structure ReadsElements (s : Text) (vs : List Json) : Prop where
  begins : Begins s
  read : ∀ fuel rest, s.length ≤ fuel → elements? fuel (s ++ rest) = some (vs, rest)

/-- The text, which ends in the closing brace, is read as the members. -/
structure ReadsMembers (s : Text) (ms : List (Text × Json)) : Prop where
  begins : ∃ rest, s = '"' :: rest
  read : ∀ fuel rest, s.length ≤ fuel → members? fuel (s ++ rest) = some (ms, rest)

/-- A value that begins with a character is read with fuel left for the rest. -/
theorem Reads.of_cons {c : Char} {s : Text} {v : Json} (hblank : isBlank c = false)
    (hc : c ≠ ']')
    (h : ∀ fuel rest, s.length ≤ fuel → Ended rest →
      value? (fuel + 1) (c :: (s ++ rest)) = some (v, rest)) : Reads (c :: s) v where
  begins := begins_cons hblank hc s
  read fuel rest hfuel hrest := by
    obtain ⟨fuel, rfl⟩ : ∃ n, fuel = n + 1 := ⟨fuel - 1, by simp at hfuel; omega⟩
    exact h fuel rest (by simpa using hfuel) hrest

theorem reads_null : Reads ['n', 'u', 'l', 'l'] .null :=
  .of_cons (by decide) (by decide) fun _ _ _ _ => by simp [value?, word?]

theorem reads_true : Reads ['t', 'r', 'u', 'e'] (.bool true) :=
  .of_cons (by decide) (by decide) fun _ _ _ _ => by simp [value?, word?]

theorem reads_false : Reads ['f', 'a', 'l', 's', 'e'] (.bool false) :=
  .of_cons (by decide) (by decide) fun _ _ _ _ => by simp [value?, word?]

theorem reads_quoted (t : Text) : Reads (quoted (Literal.escape t)) (ofText t) := by
  refine .of_cons (by decide) (by decide) fun fuel rest _ _ => ?_
  simp only [value?_quote, List.append_assoc, List.cons_append, List.nil_append,
    rawFrom?_escape, Option.map_some, List.reverse_nil, ofText]

/-- A digit begins no other value than a number. -/
theorem value?_digit {c : Char} (h : c.isDigit) (fuel : Nat) (s : Text) :
    value? (fuel + 1) (c :: s) =
      (number? (c :: s)).map fun (lexeme, rest) => (.number lexeme, rest) := by
  have other (d : Char) (hd : d.isDigit = false) : c ≠ d := by
    rintro rfl
    rw [hd] at h
    cases h
  rw [value?] <;> simp [other '"' rfl, other '[' rfl, other '{' rfl, other 'n' rfl,
    other 't' rfl, other 'f' rfl]

theorem reads_digits (n : Nat) : Reads (Nat.toDigits 10 n) (ofNat n) := by
  obtain ⟨c, ds, hcons, hc⟩ := exists_cons_toDigits n
  have hblank : isBlank c = false := by
    cases hb : isBlank c with
    | false => rfl
    | true =>
      have ends : endsValue c := by simp [endsValue, hb]
      rw [(not_numeric_of_endsValue ends).1] at hc
      simp at hc
  have hbracket : c ≠ ']' := by
    rintro rfl
    simp at hc
  rw [hcons]
  refine .of_cons hblank hbracket fun fuel rest _ hrest => ?_
  have hnumber := number?_toDigits n hrest
  rw [hcons, List.cons_append] at hnumber
  simp only [value?_digit hc, hnumber, Option.map_some, ofNat, hcons]

/-! ## Lists -/

section Elements

variable {s t b : Text} {v : Json} {vs : List Json}

theorem ReadsElements.last (h : Reads s v) (hb : Blank b) :
    ReadsElements (s ++ b ++ [']']) [v] where
  begins := (h.begins.append _).append _
  read fuel rest hfuel := by
    simp only [List.length_append, List.length_cons, List.length_nil] at hfuel
    obtain ⟨fuel, rfl⟩ : ∃ n, fuel = n + 1 := ⟨fuel - 1, by omega⟩
    have hv := h.read fuel (b ++ ']' :: rest) (by omega) (ended_append hb (by decide) rest)
    simp only [List.append_assoc, List.cons_append, List.nil_append, elements?, hv,
      skipBlanks_append hb, skipBlanks_cons (show isBlank ']' = false by decide)]

theorem ReadsElements.cons (h : Reads s v) (hb : Blank b) (hrest : ReadsElements t vs) :
    ReadsElements (s ++ ',' :: b ++ t) (v :: vs) where
  begins := (h.begins.append _).append _
  read fuel rest hfuel := by
    simp only [List.length_append, List.length_cons] at hfuel
    obtain ⟨fuel, rfl⟩ : ∃ n, fuel = n + 1 := ⟨fuel - 1, by omega⟩
    have hv := h.read fuel (',' :: (b ++ (t ++ rest))) (by omega) (ended_cons (by decide) _)
    have hvs := hrest.read fuel rest (by omega)
    simp only [List.append_assoc, List.cons_append, elements?, hv,
      skipBlanks_cons (show isBlank ',' = false by decide), skipBlanks_append hb,
      skipBlanks_of_begins (hrest.begins.append rest), hvs, Option.map_some]

/-- Values that are read, with commas and blanks between them and a closing bracket, are
read as elements. -/
theorem readsElements {write : Json → Text} {b e : Text} (hb : Blank b) (he : Blank e)
    {v : Json} {vs : List Json} (h : ∀ w ∈ v :: vs, Reads (write w) w) :
    ReadsElements (write v ++ vs.flatMap (fun w => ',' :: b ++ write w) ++ e ++ [']'])
      (v :: vs) := by
  obtain ⟨hv, hvs⟩ := List.forall_mem_cons.mp h
  induction vs generalizing v with
  | nil => simpa using ReadsElements.last hv he
  | cons w vs ih =>
    have hrest := ih hvs (hvs w (by simp)) fun x hx => hvs x (by simp [hx])
    simpa using ReadsElements.cons hv hb hrest

theorem reads_array_nil : Reads ['[', ']'] (.array []) :=
  .of_cons (by decide) (by decide) fun _ _ _ _ => by
    simp [value?, skipBlanks_cons (show isBlank ']' = false by decide)]

theorem Reads.array (hb : Blank b) (h : ReadsElements t vs) :
    Reads ('[' :: (b ++ t)) (.array vs) := by
  refine .of_cons (by decide) (by decide) fun fuel rest hfuel _ => ?_
  rw [List.length_append] at hfuel
  have hvs := h.read fuel rest (by omega)
  obtain ⟨c, s, rfl, hblank, hc⟩ := h.begins
  rw [List.append_assoc, value?, skipBlanks_append hb, List.cons_append,
    skipBlanks_cons hblank]
  rw [List.cons_append] at hvs
  split
  · simp_all
  · rw [hvs, Option.map_some]

end Elements

/-! ## Records -/

section Members

variable {s t gap b : Text} {v : Json} {ms : List (Text × Json)}

theorem raw?_quoted (name rest : Text) :
    raw? (quoted (Literal.escape name) ++ rest) = some (Literal.escape name, rest) := by
  simp only [quoted, List.cons_append, List.append_assoc, List.nil_append, raw?,
    rawFrom?_escape, List.reverse_nil]

theorem ReadsMembers.last (name : Text) (h : Reads s v) (hg : Blank gap) (hb : Blank b) :
    ReadsMembers (quoted (Literal.escape name) ++ ':' :: gap ++ s ++ b ++ ['}'])
      [(Literal.escape name, v)] where
  begins := ⟨_, rfl⟩
  read fuel rest hfuel := by
    simp only [List.length_append, List.length_cons, List.length_nil] at hfuel
    obtain ⟨fuel, rfl⟩ : ∃ n, fuel = n + 1 := ⟨fuel - 1, by omega⟩
    have hv := h.read fuel (b ++ '}' :: rest) (by omega) (ended_append hb (by decide) rest)
    have hs := skipBlanks_of_begins (h.begins.append (b ++ '}' :: rest))
    simp only [List.append_assoc, List.cons_append, List.nil_append, members?, raw?_quoted,
      skipBlanks_cons (show isBlank ':' = false by decide), skipBlanks_append hg, hs, hv,
      skipBlanks_append hb,
      skipBlanks_cons (show isBlank '}' = false by decide)]

theorem ReadsMembers.cons (name : Text) (h : Reads s v) (hg : Blank gap) (hb : Blank b)
    (hrest : ReadsMembers t ms) :
    ReadsMembers (quoted (Literal.escape name) ++ ':' :: gap ++ s ++ ',' :: b ++ t)
      ((Literal.escape name, v) :: ms) where
  begins := ⟨_, rfl⟩
  read fuel rest hfuel := by
    simp only [List.length_append, List.length_cons] at hfuel
    obtain ⟨fuel, rfl⟩ : ∃ n, fuel = n + 1 := ⟨fuel - 1, by omega⟩
    have hv := h.read fuel (',' :: (b ++ (t ++ rest))) (by omega) (ended_cons (by decide) _)
    have hms := hrest.read fuel rest (by omega)
    have hs := skipBlanks_of_begins (h.begins.append (',' :: (b ++ (t ++ rest))))
    have ht : skipBlanks (t ++ rest) = t ++ rest := by
      obtain ⟨u, rfl⟩ := hrest.begins
      exact skipBlanks_cons (by decide) _
    simp only [List.append_assoc, List.cons_append, members?, raw?_quoted,
      skipBlanks_cons (show isBlank ':' = false by decide), skipBlanks_append hg, hs, hv,
      skipBlanks_cons (show isBlank ',' = false by decide), skipBlanks_append hb, ht, hms,
      Option.map_some]

/-- Values that are read, each behind its name, with commas and blanks between them and a
closing brace, are read as members. -/
theorem readsMembers {write : Json → Text} {e : Text} (hg : Blank gap) (hb : Blank b)
    (he : Blank e) {m : String × Json} {ms : List (String × Json)}
    (h : ∀ n ∈ m :: ms, Reads (write n.2) n.2) :
    let member (n : String × Json) :=
      quoted (Literal.escape n.1.toList) ++ ':' :: gap ++ write n.2
    ReadsMembers (member m ++ ms.flatMap (fun n => ',' :: b ++ member n) ++ e ++ ['}'])
      ((m :: ms).map fun (name, v) => (Literal.escape name.toList, v)) := by
  intro member
  obtain ⟨hm, hms⟩ := List.forall_mem_cons.mp h
  induction ms generalizing m with
  | nil => simpa [member] using ReadsMembers.last m.1.toList hm hg he
  | cons n ms ih =>
    have hrest := ih hms (hms n (by simp)) fun x hx => hms x (by simp [hx])
    simpa [member] using ReadsMembers.cons m.1.toList hm hg hb hrest

theorem reads_object_blank (hb : Blank b) : Reads ('{' :: (b ++ ['}'])) (.object []) :=
  .of_cons (by decide) (by decide) fun _ _ _ _ => by
    simp [value?, skipBlanks_append hb, skipBlanks_cons (show isBlank '}' = false by decide)]

theorem reads_object_nil : Reads ['{', '}'] (.object []) := reads_object_blank blank_nil

theorem Reads.object (hb : Blank b) (h : ReadsMembers t ms) :
    Reads ('{' :: (b ++ t)) (.object ms) := by
  refine .of_cons (by decide) (by decide) fun fuel rest hfuel _ => ?_
  rw [List.length_append] at hfuel
  have hms := h.read fuel rest (by omega)
  obtain ⟨s, rfl⟩ := h.begins
  rw [List.append_assoc, value?, skipBlanks_append hb, List.cons_append,
    skipBlanks_cons (show isBlank '"' = false by decide)]
  rw [List.cons_append] at hms
  split
  · simp_all
  · rw [hms, Option.map_some]

end Members

end Reader

open Reader

/-! ## Values in writing -/

/-- The value is read back where it was written: on one line, or on many and however deep
in brackets. -/
structure Legible (v : Json) : Prop where
  compact : Reads v.compact v
  pretty (depth : Nat) : Reads (v.pretty depth) v

theorem legible_null : Legible .null := ⟨reads_null, fun _ => reads_null⟩

theorem legible_bool (b : Bool) : Legible (.bool b) := by
  cases b with
  | false => exact ⟨reads_false, fun _ => reads_false⟩
  | true => exact ⟨reads_true, fun _ => reads_true⟩

theorem legible_ofNat (n : Nat) : Legible (ofNat n) :=
  ⟨reads_digits n, fun _ => reads_digits n⟩

theorem legible_ofText (t : Text) : Legible (ofText t) :=
  ⟨reads_quoted t, fun _ => reads_quoted t⟩

theorem legible_ofOption {α : Type} {f : α → Json} (h : ∀ a, Legible (f a)) (o : Option α) :
    Legible (ofOption f o) := by
  cases o with
  | none => exact legible_null
  | some a => exact h a

theorem compactElements_eq (vs : List Json) :
    compactElements vs = vs.flatMap fun v => ',' :: v.compact := by
  induction vs with
  | nil => rfl
  | cons v vs ih => simp [compactElements, ih]

theorem prettyElements_eq (depth : Nat) (vs : List Json) :
    prettyElements depth vs = vs.flatMap fun v => ',' :: newLine depth ++ v.pretty depth := by
  induction vs with
  | nil => rfl
  | cons v vs ih => simp [prettyElements, ih]

/-- A list of legible values is legible. -/
theorem Legible.array {vs : List Json} (h : ∀ v ∈ vs, Legible v) : Legible (.array vs) := by
  cases vs with
  | nil => exact ⟨reads_array_nil, fun _ => reads_array_nil⟩
  | cons v vs =>
    constructor
    · have elements := readsElements blank_nil blank_nil fun w hw => (h w hw).compact
      simpa [Json.compact, compactElements_eq] using Reads.array blank_nil elements
    · intro depth
      have elements := readsElements (blank_newLine (depth + 1)) (blank_newLine depth)
        fun w hw => (h w hw).pretty (depth + 1)
      simpa [Json.pretty, prettyElements_eq] using
        Reads.array (blank_newLine (depth + 1)) elements

theorem compactMembers_eq (ms : List (Text × Json)) :
    compactMembers ms = ms.flatMap fun m => ',' :: compactMember m := by
  induction ms with
  | nil => rfl
  | cons m ms ih => simp [compactMembers, ih]

theorem prettyMembers_eq (depth : Nat) (ms : List (Text × Json)) :
    prettyMembers depth ms = ms.flatMap fun m =>
      ',' :: newLine depth ++ prettyMember depth m := by
  induction ms with
  | nil => rfl
  | cons m ms ih => simp [prettyMembers, ih]

/-- A record of legible values is legible. -/
theorem Legible.record {ms : List (String × Json)} (h : ∀ m ∈ ms, Legible m.2) :
    Legible (record ms) := by
  cases ms with
  | nil => exact ⟨reads_object_nil, fun _ => reads_object_nil⟩
  | cons m ms =>
    constructor
    · have members := readsMembers blank_nil blank_nil blank_nil fun n hn => (h n hn).compact
      simpa [Json.record, Json.compact, compactMembers_eq, compactMember, List.flatMap_map]
        using Reads.object blank_nil members
    · intro depth
      have members :=
        readsMembers blank_space (blank_newLine (depth + 1)) (blank_newLine depth)
        fun n hn => (h n hn).pretty (depth + 1)
      simpa [Json.record, Json.pretty, prettyMembers_eq, prettyMember, List.flatMap_map]
        using Reads.object (blank_newLine (depth + 1)) members

theorem parse?_of_reads {s : Text} {v : Json} (h : Reads s v) : parse? s = some v := by
  have hread := h.read (2 * s.length + 2) [] (by omega) ended_nil
  rw [List.append_nil] at hread
  have hend : skipBlanks [] = [] := rfl
  simp only [parse?, skipBlanks_of_begins h.begins, hread, hend, if_true]

/-- **A legible value is what its text is read as**, on one line and on many. -/
theorem parse?_compact {v : Json} (h : Legible v) : parse? v.compact = some v :=
  parse?_of_reads h.compact

theorem parse?_pretty {v : Json} (h : Legible v) : parse? (v.pretty 0) = some v :=
  parse?_of_reads (h.pretty 0)

/-! ## Records with any blanks -/

/-- Blanks between the parts of a record's text. -/
structure Spacing where
  before : Text
  inside : Text
  colon : Text
  comma : Text
  close : Text
  behind : Text
  blank : ∀ b ∈ [before, inside, colon, comma, close, behind], Blank b

/-- Names and values in writing as an object, with the blanks between them. -/
def Spacing.object (sp : Spacing) (members : List (Text × Text)) : Text :=
  let member (m : Text × Text) : Text := quoted m.1 ++ ':' :: sp.colon ++ m.2
  sp.before ++
    '{' :: (sp.inside ++ (',' :: sp.comma).intercalate (members.map member) ++ sp.close ++
      ['}']) ++
    sp.behind

/-- Blanks before and behind a value do not matter. -/
theorem parse?_padded {before s behind : Text} {v : Json} (hbefore : Blank before)
    (h : Reads s v) (hbehind : Blank behind) : parse? (before ++ s ++ behind) = some v := by
  have hskip : skipBlanks (before ++ s ++ behind) = s ++ behind := by
    rw [List.append_assoc, skipBlanks_append hbefore,
      skipBlanks_of_begins (h.begins.append behind)]
  have hread := h.read (2 * (before ++ s ++ behind).length + 2) behind
    (by simp only [List.length_append]; omega) (ended_of_blank hbehind)
  have hend : skipBlanks behind = [] := by
    rw [← List.append_nil behind, skipBlanks_append hbehind]
    rfl
  simp only [parse?, hskip, hread, hend, if_true]

theorem intercalate_cons {α : Type} (sep l : List α) (ls : List (List α)) :
    sep.intercalate (l :: ls) = l ++ ls.flatMap (sep ++ ·) := by
  induction ls generalizing l with
  | nil => simp
  | cons next ls ih => simp [ih next]

/-- **A record is what its text is read as**, whatever blanks stand between its parts. -/
theorem parse?_object (sp : Spacing) {ms : List (String × Json)}
    (h : ∀ m ∈ ms, Reads m.2.compact m.2) :
    parse? (sp.object (ms.map fun (name, v) => (Literal.escape name.toList, v.compact))) =
      some (record ms) := by
  have hblank := sp.blank
  simp only [List.forall_mem_cons, List.not_mem_nil, false_implies, implies_true, and_true]
    at hblank
  obtain ⟨before, inside, colon, comma, close, behind⟩ := hblank
  refine parse?_padded before ?_ behind
  cases ms with
  | nil => simpa [record] using reads_object_blank (Blank.append inside close)
  | cons m ms =>
    have members := readsMembers colon comma close h
    simpa [record, intercalate_cons, List.flatMap_map, Function.comp_def]
      using Reads.object inside members

end EditJournal.Json
