/-
EditJournal.Proofs.TomlText — a TOML document that has one key with its value
on each line is read as these keys and values.

* `pair`, `document` — such a line, and lines with a line break between them and, if it
  is wanted, one behind the last.
* `Reader.Reads s v` — the text `s` is read as the value `v` wherever a line ends behind it.
  Numbers of 63 bits and the two words are (`reads_digits`, `reads_true`,
  `reads_false`).
* `parse?_document` — under distinct bare keys, the document is read as all of them, in order.

## How the proof goes

What a reader meets behind a value is the end of a line (`LineEnds`), so each reader
needs one lemma: it takes what was written and leaves the rest. A number might also begin a
moment in time or a float. It is neither, since what follows digits is again a digit
or the end of the line, and never the mark that these go on with (`LineEnds.head?_ne`).

The readers of lines then go along the document. Each line is one unit of fuel and at
least one character, so the length of the text is fuel enough.
-/
import EditJournal.Toml.Reader
import EditJournal.Proofs.Literals

namespace EditJournal.Toml

open Json.Reader (isDigit_of_mem_toDigits exists_cons_toDigits head?_toDigits_ne_zero)

/-! ## Documents -/

/-- A key and its value in writing, on one line. -/
def pair (name written : Text) : Text := name ++ ' ' :: '=' :: ' ' :: written

/-- Lines, with a line break between them, and one behind the last if `closed`. -/
def document (closed : Bool) (lines : List Text) : Text :=
  if closed then lines.flatMap (· ++ ['\n']) else ['\n'].intercalate lines

namespace Reader

/-- A line ends here. -/
def LineEnds (rest : Text) : Prop := ∀ c ∈ rest.head?, c = '\n'

theorem lineEnds_nil : LineEnds [] := by simp [LineEnds]

theorem lineEnds_break (rest : Text) : LineEnds ('\n' :: rest) := by simp [LineEnds]

theorem lineEnds_cases {rest : Text} (h : LineEnds rest) :
    rest = [] ∨ ∃ more, rest = '\n' :: more := by
  cases rest with
  | nil => exact Or.inl rfl
  | cons c more => exact Or.inr ⟨more, by rw [h c rfl]⟩

/-- A document goes on behind its first line with the end of that line and the other
lines. -/
theorem document_cons (closed : Bool) (line : Text) (lines : List Text) :
    ∃ rest, document closed (line :: lines) = line ++ rest ∧ LineEnds rest ∧
      rest.tail = document closed lines := by
  cases closed with
  | true => exact ⟨'\n' :: document true lines, by simp [document], lineEnds_break _, rfl⟩
  | false =>
    cases lines with
    | nil => exact ⟨[], by simp [document], lineEnds_nil, rfl⟩
    | cons next lines =>
      exact ⟨'\n' :: document false (next :: lines), by simp [document], lineEnds_break _, rfl⟩

theorem trailing?_of_lineEnds {rest : Text} (h : LineEnds rest) :
    trailing? rest = some rest.tail := by
  rcases lineEnds_cases h with rfl | ⟨more, rfl⟩ <;> rfl

/-! ## Digits -/

/-- Behind digits and the end of a line there is no other mark. -/
theorem LineEnds.head?_ne {ds rest : Text} (hrest : LineEnds rest) (hds : ∀ c ∈ ds, c.isDigit)
    {mark : Char} (hdigit : mark.isDigit = false) (hbreak : mark ≠ '\n') :
    (ds ++ rest).head? ≠ some mark := by
  cases ds with
  | nil =>
    intro h
    exact hbreak (hrest mark h)
  | cons d ds =>
    intro h
    obtain rfl : d = mark := by simpa using h
    have hd := hds d (by simp)
    rw [hdigit] at hd
    cases hd

theorem mark?_eq_none {mark : Char} {s : Text} (h : s.head? ≠ some mark) :
    mark? mark s = none := by
  cases s with
  | nil => rfl
  | cons d s => simpa [mark?] using h

/-- A fixed number of digits leaves further digits and the end of the line. -/
theorem fixed?_digits {ds rest : Text} (hrest : LineEnds rest) {count n : Nat} {left : Text}
    (h : fixed? count (ds ++ rest) = some (n, left)) : left = ds.drop count ++ rest := by
  simp only [fixed?, Option.ite_none_right_eq_some, Option.some.injEq, Prod.mk.injEq,
    List.all_eq_true] at h
  obtain ⟨⟨hlength, hall⟩, -, rfl⟩ := h
  -- were the digits too few, the line break would be among those taken
  have enough : count ≤ ds.length := by
    refine Nat.le_of_not_lt fun hfew => ?_
    rcases lineEnds_cases hrest with rfl | ⟨more, rfl⟩
    · simp only [List.append_nil, List.length_take] at hlength
      omega
    · obtain ⟨k, hk⟩ : ∃ k, count - ds.length = k + 1 := ⟨count - ds.length - 1, by omega⟩
      have hbreak := hall '\n' (by simp [List.take_append, hk])
      exact absurd hbreak (by decide)
  exact List.drop_append_of_le_length enough

theorem mark?_of_fixed? {ds rest : Text} (hds : ∀ c ∈ ds, c.isDigit) (hrest : LineEnds rest)
    {count n : Nat} {left : Text} (h : fixed? count (ds ++ rest) = some (n, left))
    {mark : Char}
    (hdigit : mark.isDigit = false) (hbreak : mark ≠ '\n') : mark? mark left = none := by
  rw [fixed?_digits hrest h]
  exact mark?_eq_none
    (hrest.head?_ne (fun c hc => hds c (List.mem_of_mem_drop hc)) hdigit hbreak)

theorem date?_digits {ds rest : Text} (hds : ∀ c ∈ ds, c.isDigit) (hrest : LineEnds rest) :
    date? (ds ++ rest) = none := by
  cases h : fixed? 4 (ds ++ rest) with
  | none => simp [date?, h]
  | some read =>
    have hmark : mark? '-' read.2 = none := mark?_of_fixed? hds hrest h rfl (by decide)
    simp [date?, h, hmark]

theorem time?_digits {ds rest : Text} (hds : ∀ c ∈ ds, c.isDigit) (hrest : LineEnds rest) :
    time? (ds ++ rest) = none := by
  cases h : fixed? 2 (ds ++ rest) with
  | none => simp [time?, twoDigits?, h]
  | some read =>
    have hmark : mark? ':' read.2 = none := mark?_of_fixed? hds hrest h rfl (by decide)
    by_cases bounds : read.1 ≤ 23 <;> simp [time?, twoDigits?, h, hmark, bounds]

/-- **A number on a line is no moment in time.** -/
theorem moment?_digits {ds rest : Text} (hds : ∀ c ∈ ds, c.isDigit) (hrest : LineEnds rest) :
    moment? (ds ++ rest) = none := by
  rw [moment?, date?_digits hds hrest]
  exact time?_digits hds hrest

/-- Digits are read to the last one. -/
theorem digitsFrom_append {ds rest : Text} (hds : ∀ c ∈ ds, c.isDigit) (hrest : LineEnds rest)
    (done : List Char) :
    digitsFrom Char.isDigit done (ds ++ rest) = (done.reverse ++ ds, rest) := by
  induction ds generalizing done with
  | nil => rcases lineEnds_cases hrest with rfl | ⟨more, rfl⟩ <;> simp [digitsFrom]
  | cons d ds ih =>
    have hd : d.isDigit := hds d (by simp)
    have hne : d ≠ '_' := by
      rintro rfl
      simp at hd
    rw [List.cons_append, digitsFrom, if_pos hd, ih fun c hc => hds c (by simp [hc])]
    · simp
    · rintro c more rfl
      exact absurd rfl hne

/-- The value of decimal digits is the number they are read as. -/
theorem valueOf_digits {ds : Text} (hds : ∀ c ∈ ds, c.isDigit) :
    valueOf 10 ds = Nat.ofDigitChars 10 ds 0 := by
  have from' (n : Nat) : ds.foldl (fun n c => n * 10 + (Json.Literal.hexValue? c).getD 0) n =
      Nat.ofDigitChars 10 ds n := by
    induction ds generalizing n with
    | nil => rfl
    | cons d ds ih =>
      have hd : '0' ≤ d ∧ d ≤ '9' := by
        have := hds d (by simp)
        simpa [Char.isDigit, Char.le_def] using this
      have hvalue : (Json.Literal.hexValue? d).getD 0 = d.toNat - '0'.toNat := by
        simp [Json.Literal.hexValue?, hd]
      rw [List.foldl_cons, hvalue, Nat.mul_comm, ih fun c hc => hds c (by simp [hc])]
      simp [Nat.ofDigitChars_cons]
  exact from' 0

theorem valueOf_toDigits (n : Nat) : valueOf 10 (Nat.toDigits 10 n) = n := by
  rw [valueOf_digits isDigit_of_mem_toDigits]
  exact Nat.ofDigitChars_toDigits (by decide) (by decide)

theorem whole?_toDigits (n : Nat) {rest : Text} (hrest : LineEnds rest) :
    whole? (Nat.toDigits 10 n ++ rest) = some (Nat.toDigits 10 n, rest) := by
  rcases Nat.eq_zero_or_pos n with rfl | hpos
  · rfl
  · obtain ⟨c, ds, hcons, -⟩ := exists_cons_toDigits n
    have hzero : c ≠ '0' := by
      have := head?_toDigits_ne_zero hpos
      simpa [hcons] using this
    have hread := digitsFrom_append (isDigit_of_mem_toDigits (n := n)) hrest []
    rw [hcons, List.cons_append] at hread ⊢
    rw [whole?]
    · simp [digits?, hread]
    · simpa using hzero

/-! ## Values -/

/-- The text is read as the value where a line ends behind it. -/
structure Reads (s : Text) (v : Toml) : Prop where
  begins : ∃ c more, s = c :: more ∧ isBlank c = false
  read : ∀ fuel depth rest, LineEnds rest →
    value? (fuel + 1) depth (s ++ rest) = some (v, rest)

theorem reads_true : Reads ['t', 'r', 'u', 'e'] (.boolean true) where
  begins := ⟨_, _, rfl, by decide⟩
  read _ _ _ _ := by simp [value?]

theorem reads_false : Reads ['f', 'a', 'l', 's', 'e'] (.boolean false) where
  begins := ⟨_, _, rfl, by decide⟩
  read _ _ _ _ := by simp [value?]

/-- A digit begins no other value than a number or a moment in time. -/
theorem value?_digit {c : Char} (h : c.isDigit) (fuel depth : Nat) (s : Text) :
    value? (fuel + 1) depth (c :: s) = scalarNumber? (c :: s) := by
  have other (d : Char) (hd : d.isDigit = false) : c ≠ d := by
    rintro rfl
    rw [hd] at h
    cases h
  rw [value?] <;> simp [other '"' rfl, other '\x27' rfl, other '[' rfl, other '{' rfl,
    other 't' rfl, other 'f' rfl]

theorem sign_digit {c : Char} (h : c.isDigit) (s : Text) :
    sign (c :: s) = (false, c :: s) := by
  rw [sign] <;> (rintro _ ⟨rfl, -⟩; simp at h)

theorem special?_digit {c : Char} (h : c.isDigit) (s : Text) : special? (c :: s) = none := by
  rw [special?] <;> (rintro _ ⟨rfl, -⟩; simp at h)

/-- **A number on a line is no float.** -/
theorem float?_toDigits (n : Nat) {rest : Text} (hrest : LineEnds rest) :
    float? (Nat.toDigits 10 n ++ rest) = none := by
  obtain ⟨c, ds, hcons, hc⟩ := exists_cons_toDigits n
  have hwhole := whole?_toDigits n hrest
  have hfraction : fraction? rest = some ([], rest) := by
    rcases lineEnds_cases hrest with rfl | ⟨more, rfl⟩ <;> rfl
  have hexponent : exponent? rest = some (none, rest) := by
    rcases lineEnds_cases hrest with rfl | ⟨more, rfl⟩ <;> rfl
  rw [hcons, List.cons_append] at hwhole ⊢
  simp [float?, sign_digit hc, special?_digit hc, hwhole, hfraction, hexponent]

/-- A number of 63 bits is read as an integer. -/
theorem integer?_toDigits {n : Nat} (h : n < Word.half) {rest : Text} (hrest : LineEnds rest) :
    integer? (Nat.toDigits 10 n ++ rest) = some ((n : Int), rest) := by
  obtain ⟨c, ds, hcons, hc⟩ := exists_cons_toDigits n
  have hwhole := whole?_toDigits n hrest
  have hvalue := valueOf_toDigits n
  rcases Nat.eq_zero_or_pos n with rfl | hpos
  · -- behind a zero the line ends, and no base is named
    rcases lineEnds_cases hrest with rfl | ⟨more, rfl⟩ <;> rfl
  · have hzero : c ≠ '0' := by
      have := head?_toDigits_ne_zero hpos
      simpa [hcons] using this
    rw [hcons] at hvalue
    rw [hcons, List.cons_append] at hwhole ⊢
    rw [integer?]
    · simp [sign_digit hc, hwhole, hvalue, signed?, h]
    all_goals simp [hzero]

theorem reads_digits {n : Nat} (h : n < Word.half) :
    Reads (Nat.toDigits 10 n) (.integer n) := by
  obtain ⟨c, ds, hcons, hc⟩ := exists_cons_toDigits n
  refine ⟨⟨c, ds, hcons, ?_⟩, fun fuel depth rest hrest => ?_⟩
  · cases hb : isBlank c with
    | false => rfl
    | true =>
      have : c = ' ' ∨ c = '\t' := by simpa [isBlank] using hb
      rcases this with rfl | rfl <;> simp at hc
  · have hmoment := moment?_digits (isDigit_of_mem_toDigits (n := n)) hrest
    have hfloat := float?_toDigits n hrest
    have hinteger := integer?_toDigits h hrest
    rw [hcons, List.cons_append] at hmoment hfloat hinteger ⊢
    simp [value?_digit hc, scalarNumber?, hmoment, hfloat, hinteger]

/-! ## Keys -/

/-- A name that stands as a key without quotes. -/
structure BareKey (name : Text) : Prop where
  nonempty : name ≠ []
  bare : ∀ c ∈ name, isBare c

/-- A bare key begins with a character that begins nothing else on a line. -/
theorem BareKey.begins {name : Text} (h : BareKey name) :
    ∃ c more, name = c :: more ∧ isBare c := by
  cases name with
  | nil => exact absurd rfl h.nonempty
  | cons c more => exact ⟨c, more, rfl, h.bare c (by simp)⟩

theorem ne_of_isBare {c d : Char} (h : isBare c) (hd : isBare d = false) : c ≠ d := by
  rintro rfl
  rw [hd] at h
  cases h

theorem isBlank_of_isBare {c : Char} (h : isBare c) : isBlank c = false := by
  have hspace : c ≠ ' ' := ne_of_isBare h rfl
  have htab : c ≠ '\t' := ne_of_isBare h rfl
  simp [isBlank, hspace, htab]

theorem skipBlanks_cons {c : Char} (h : isBlank c = false) (s : Text) :
    skipBlanks (c :: s) = c :: s := by
  simp [skipBlanks, h]

/-- A bare key is read up to the blank behind it. -/
theorem keyPart?_bare {name : Text} (h : BareKey name) (rest : Text) :
    keyPart? (name ++ ' ' :: rest) = some (name, ' ' :: rest) := by
  obtain ⟨c, more, rfl, hc⟩ := h.begins
  have hspace : isBare ' ' = false := rfl
  have htake : (c :: more ++ ' ' :: rest).takeWhile isBare = c :: more := by
    rw [List.takeWhile_append_of_pos h.bare, List.takeWhile_cons, hspace]
    simp
  have hdrop : (c :: more ++ ' ' :: rest).dropWhile isBare = ' ' :: rest := by
    rw [List.dropWhile_append_of_pos h.bare, List.dropWhile_cons, hspace]
    simp
  rw [List.cons_append] at htake hdrop ⊢
  rw [keyPart?]
  · simp [htake, hdrop]
  · simpa using ne_of_isBare hc (d := '"') rfl
  · simpa using ne_of_isBare hc (d := '\x27') rfl

/-- **A bare key in front of an equals sign is read as itself**, with no path to it. -/
theorem key?_bare {name : Text} (h : BareKey name) (rest : Text) :
    key? (name ++ ' ' :: '=' :: rest) = some ([], name, '=' :: rest) := by
  have hpart := keyPart?_bare h ('=' :: rest)
  obtain ⟨c, more, rfl, hc⟩ := h.begins
  rw [List.cons_append] at hpart ⊢
  have hskip : skipBlanks (' ' :: '=' :: rest) = '=' :: rest := rfl
  simp [key?, nestingLimit, keyParts?, skipBlanks_cons (isBlank_of_isBare hc), hpart, hskip]

/-! ## Lines -/

/-- A name that is not there is added at the end of the root. -/
theorem addBelow_new {root : Members} {name : Text} (h : root.get? name = none) (v : Toml) :
    root.addBelow [] [] name v = some (root ++ [(name, v)]) := by
  simp [Members.addBelow, Members.withinPath, Members.add, h]

/-- A line that begins with a bare key is a key with its value. -/
theorem lines?_bare {c : Char} (h : isBare c) (fuel : Nat) (header : List Text)
    (root : Members) (s : Text) :
    lines? (fuel + 1) header root (c :: s) =
      match key? (c :: s) with
      | some (path, name, '=' :: rest) => do
        let (v, rest) ← value? (2 * (c :: s).length + 2) 0 (skipBlanks rest)
        let rest ← trailing? rest
        let root ← root.addBelow header path name v
        lines? fuel header root rest
      | _ => none := by
  have other {d : Char} {more : Text} (hd : isBare d = false) : c :: s ≠ d :: more :=
    fun heq => ne_of_isBare h hd (List.cons.inj heq).1
  rw [lines?, skipBlanks_cons (isBlank_of_isBare h)]
  split
  case h_1 heq => cases heq
  case h_7 => rfl
  all_goals exact absurd ‹_› (other rfl)

/-- **The first line adds its key**, and what is left is what stands behind its end. -/
theorem lines?_pair {name written : Text} {v : Toml} (hname : BareKey name)
    (hread : Reads written v) {root : Members} (hnew : root.get? name = none) {rest : Text}
    (hrest : LineEnds rest) (fuel : Nat) :
    lines? (fuel + 1) [] root (pair name written ++ rest) =
      lines? fuel [] (root ++ [(name, v)]) rest.tail := by
  have hkey := key?_bare hname (' ' :: (written ++ rest))
  have hskip : skipBlanks (' ' :: (written ++ rest)) = written ++ rest := by
    obtain ⟨d, more, rfl, hd⟩ := hread.begins
    simp [skipBlanks, hd, show isBlank ' ' by decide]
  have hadd := addBelow_new hnew v
  obtain ⟨c, more, rfl, hc⟩ := hname.begins
  simp only [pair, List.append_assoc, List.cons_append] at hkey ⊢
  simp only [lines?_bare hc, hkey, hskip, hread.read _ _ rest hrest,
    trailing?_of_lineEnds hrest, hadd, Option.bind_eq_bind, Option.bind_some]

/-- Lines of distinct bare keys are read to the last one. -/
theorem lines?_document {α : Type} {name written : α → Text} {value : α → Toml} {l : List α}
    (keys : ∀ a ∈ l, BareKey (name a)) (values : ∀ a ∈ l, Reads (written a) (value a))
    (distinct : (l.map name).Nodup) (closed : Bool) {root : Members}
    (fresh : ∀ a ∈ l, root.get? (name a) = none) {fuel : Nat}
    (hfuel : (document closed (l.map fun a => pair (name a) (written a))).length < fuel) :
    lines? fuel [] root (document closed (l.map fun a => pair (name a) (written a))) =
      some (root ++ l.map fun a => (name a, value a)) := by
  induction l generalizing root fuel with
  | nil =>
    obtain ⟨fuel, rfl⟩ : ∃ n, fuel = n + 1 := ⟨fuel - 1, by omega⟩
    cases closed <;> simp [document, lines?, skipBlanks]
  | cons a l ih =>
    obtain ⟨rest, hcons, hrest, htail⟩ :=
      document_cons closed (pair (name a) (written a))
        (l.map fun a => pair (name a) (written a))
    obtain ⟨ha, hl⟩ := List.nodup_cons.mp distinct
    rw [List.map_cons, hcons] at hfuel ⊢
    obtain ⟨fuel, rfl⟩ : ∃ n, fuel = n + 1 := ⟨fuel - 1, by omega⟩
    have shorter : rest.tail.length < fuel := by
      simp only [pair, List.length_append, List.length_cons] at hfuel
      rw [List.length_tail]
      omega
    have others : ∀ b ∈ l, Members.get? (root ++ [(name a, value a)]) (name b) = none := by
      intro b hb
      have hne : name a ≠ name b := fun heq => ha (heq ▸ List.mem_map_of_mem hb)
      have hroot := fresh b (by simp [hb])
      simp only [Members.get?, Option.map_eq_none_iff] at hroot ⊢
      simp [List.find?_append, hroot, hne]
    rw [lines?_pair (keys a (by simp)) (values a (by simp)) (fresh a (by simp)) hrest, htail,
      ih (fun b hb => keys b (by simp [hb])) (fun b hb => values b (by simp [hb])) hl others
        (htail ▸ shorter)]
    simp

end Reader

open Reader

/-- **A document is read as its keys and values**, in order: bare keys, no two of them the
same, each with a value that is read on its line. -/
theorem parse?_document {α : Type} {name written : α → Text} {value : α → Toml} {l : List α}
    (keys : ∀ a ∈ l, BareKey (name a)) (values : ∀ a ∈ l, Reads (written a) (value a))
    (distinct : (l.map name).Nodup) (closed : Bool) :
    parse? (document closed (l.map fun a => pair (name a) (written a))) =
      some (l.map fun a => (name a, value a)) := by
  have unmarked (more : Text) :
      document closed (l.map fun a => pair (name a) (written a)) ≠ '\ufeff' :: more := by
    cases l with
    | nil => cases closed <;> simp [document]
    | cons a l =>
      obtain ⟨rest, hcons, -⟩ :=
        document_cons closed (pair (name a) (written a))
          (l.map fun a => pair (name a) (written a))
      obtain ⟨c, tail, hname, hc⟩ := (keys a (by simp)).begins
      have hne : c ≠ '\ufeff' := ne_of_isBare hc (by decide)
      rw [List.map_cons, hcons, pair, hname]
      simp [hne]
  have fresh : ∀ a ∈ l, Members.get? [] (name a) = none := fun _ _ => rfl
  have read := lines?_document keys values distinct closed fresh (Nat.lt_succ_self _)
  rw [List.nil_append] at read
  rw [← read, parse?]
  exact unmarked

end EditJournal.Toml
