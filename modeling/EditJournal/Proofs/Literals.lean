/-
EditJournal.Proofs.Literals — a number or a string that was written as JSON is
read back as it was.

* `Reader.number?_toDigits` — the digits of a number are read to the last one.
* `Reader.rawFrom?_escape` — an escaped text is read up to the quote that closes
  it, whatever stands behind the quote.
* `Literal.unescape?_escape` — the literal that was read stands for the text
  that was written.

All three hold of every number and every text: of quotes, backslashes and
controls, and of characters that are two units in UTF-16.

## How the proof goes

`escapeChar_cases` says the three forms in which a character is written. Every
reader of literals takes a character's form as a whole, so each needs one lemma
over these cases, and an induction over the text.
-/
import EditJournal.Json.Reader

namespace EditJournal.Json

/-! ## Strings -/

namespace Literal

/-- A character is written behind a backslash, or as its code, or as itself. -/
theorem escapeChar_cases (c : Char) :
    (∃ short, escapeChar c = ['\\', short] ∧ short ≠ 'u' ∧ shortEscape? short = some c) ∨
    (c.toNat < 0x20 ∧ escapeChar c = unicodeEscape c) ∨
    (0x20 ≤ c.toNat ∧ c ≠ '"' ∧ c ≠ '\\' ∧ escapeChar c = [c]) := by
  unfold escapeChar
  split
  case h_8 _ quote backslash _ _ _ _ _ =>
    right
    split
    · rename_i control
      exact Or.inl ⟨control, rfl⟩
    · rename_i visible
      exact Or.inr ⟨Nat.not_lt.mp visible, quote, backslash, rfl⟩
  all_goals exact Or.inl ⟨_, rfl, by decide, rfl⟩

theorem hexValue?_digitChar {n : Nat} (h : n < 16) : hexValue? n.digitChar = some n := by
  have all : ∀ n < 16, hexValue? n.digitChar = some n := by decide
  exact all n h

/-- The four digits of a control are its code. -/
theorem hexUnit?_control {n : Nat} (h : n < 0x20) :
    hexUnit? '0' '0' (n / 16).digitChar (n % 16).digitChar = some n := by
  have high : hexValue? (n / 16).digitChar = some (n / 16) := hexValue?_digitChar (by omega)
  have low : hexValue? (n % 16).digitChar = some (n % 16) := hexValue?_digitChar (by omega)
  have zero : hexValue? '0' = some 0 := by decide
  have sum : ((0 * 16 + 0) * 16 + n / 16) * 16 + n % 16 = n := by omega
  simp only [hexUnit?, zero, high, low, Option.bind_eq_bind, Option.bind_some,
    Option.pure_def, sum]

/-- How a character looks when its escape is taken apart. -/
inductive Code.Names (c : Char) : Code → Prop
  | char : Names c (.char c)
  | control (h : c.toNat < 0x20) : Names c (.unit c.toNat)

/-- One written character is taken apart as one. -/
theorem codesFrom?_escapeChar (c : Char) :
    ∃ code, Code.Names c code ∧
      ∀ done rest,
        codesFrom? done (escapeChar c ++ rest) = codesFrom? (code :: done) rest := by
  rcases escapeChar_cases c with ⟨short, hc, hu, hshort⟩ | ⟨control, hc⟩ |
      ⟨-, -, hbackslash, hc⟩
  · refine ⟨.char c, .char, fun done rest => ?_⟩
    rw [hc, List.cons_append, List.cons_append, List.nil_append]
    rw [codesFrom?, hshort]
    simp [hu]
  · refine ⟨.unit c.toNat, .control control, fun done rest => ?_⟩
    rw [hc]
    simp only [unicodeEscape, List.cons_append, List.nil_append, codesFrom?,
      hexUnit?_control control]
  · refine ⟨.char c, .char, fun done rest => ?_⟩
    rw [hc, List.cons_append, List.nil_append]
    rw [codesFrom?] <;> simp [hbackslash]

/-- A code is put together to the character that it names, alone: no half of a
surrogate pair is among the codes that writing makes. -/
theorem charsFrom?_cons {c : Char} {code : Code} (h : Code.Names c code) (done : List Char)
    (rest : List Code) : charsFrom? done (code :: rest) = charsFrom? (c :: done) rest := by
  cases h with
  | char => rw [charsFrom?]
  | control control =>
    have high : isHighSurrogate c.toNat = false := by simp [isHighSurrogate]; omega
    have low : isLowSurrogate c.toNat = false := by simp [isLowSurrogate]; omega
    have back : Char.ofNat c.toNat = c := Char.ofNat_toNat c
    cases rest with
    | nil => simp [charsFrom?, high, low, back]
    | cons next rest => cases next <;> simp [charsFrom?, high, low, back]

/-- **A literal stands for the text that it was written for.** -/
theorem unescape?_escape (t : Text) : unescape? (escape t) = some t := by
  -- on the text; what was taken apart of it so far does not matter
  have taken (done : List Code) :
      ∃ codes, codesFrom? done (escape t) = some (done.reverse ++ codes) ∧
        ∀ front, charsFrom? front codes = some (front.reverse ++ t) := by
    induction t generalizing done with
    | nil => exact ⟨[], by simp [escape, codesFrom?], by simp [charsFrom?]⟩
    | cons c t ih =>
      obtain ⟨code, names, hcode⟩ := codesFrom?_escapeChar c
      obtain ⟨codes, hcodes, hchars⟩ := ih (code :: done)
      refine ⟨code :: codes, ?_, fun front => ?_⟩
      · rw [escape, List.flatMap_cons, hcode]
        rw [escape] at hcodes
        rw [hcodes]
        simp
      · rw [charsFrom?_cons names, hchars]
        simp
  obtain ⟨codes, hcodes, hchars⟩ := taken []
  simp [unescape?, hcodes, hchars]

end Literal

namespace Reader

open Literal (escape escapeChar)

/-- One written character is read as a whole. -/
theorem rawFrom?_escapeChar (c : Char) (done rest : Text) :
    rawFrom? done (escapeChar c ++ rest) = rawFrom? ((escapeChar c).reverse ++ done) rest := by
  rcases Literal.escapeChar_cases c with
    ⟨short, hc, hu, hshort⟩ | ⟨control, hc⟩ | ⟨visible, hquote, hbackslash, hc⟩
  · rw [hc]
    simp only [List.cons_append, List.nil_append, List.reverse_cons, List.reverse_nil]
    rw [rawFrom?, hshort]
    simp [hu]
  · rw [hc]
    simp only [Literal.unicodeEscape, List.cons_append, List.nil_append, List.reverse_cons,
      List.reverse_nil, rawFrom?, Literal.hexUnit?_control control]
  · rw [hc]
    simp only [List.cons_append, List.nil_append, List.reverse_cons, List.reverse_nil]
    rw [rawFrom?, if_neg] <;> simp [hquote, hbackslash, visible]

/-- **An escaped text is read up to its closing quote.** -/
theorem rawFrom?_escape (done t rest : Text) :
    rawFrom? done (escape t ++ '"' :: rest) = some (done.reverse ++ escape t, rest) := by
  induction t generalizing done with
  | nil => simp [escape, rawFrom?]
  | cons c t ih =>
    have hcons : escape (c :: t) = escapeChar c ++ escape t := List.flatMap_cons ..
    rw [hcons, List.append_assoc, rawFrom?_escapeChar, ih]
    simp

end Reader

/-! ## Numbers -/

namespace Reader

/-- Characters that may stand behind a value. -/
def endsValue (c : Char) : Bool := isBlank c || c == ',' || c == ']' || c == '}'

/-- What follows does not go on with a value that was written before it. -/
def Ended (rest : Text) : Prop := ∀ c ∈ rest.head?, endsValue c

theorem ended_nil : Ended [] := by simp [Ended]

theorem ended_cons {c : Char} (h : endsValue c) (rest : Text) : Ended (c :: rest) := by
  simpa [Ended] using h

theorem endsValue_cases {c : Char} (h : endsValue c) :
    c = ' ' ∨ c = '\t' ∨ c = '\n' ∨ c = '\r' ∨ c = ',' ∨ c = ']' ∨ c = '}' := by
  simpa [endsValue, isBlank, or_assoc] using h

/-- A character that ends a value is none that goes on with a number. -/
theorem not_numeric_of_endsValue {c : Char} (h : endsValue c) :
    c.isDigit = false ∧ c ≠ '.' ∧ c ≠ 'e' ∧ c ≠ 'E' := by
  rcases endsValue_cases h with rfl | rfl | rfl | rfl | rfl | rfl | rfl <;> decide

/-- Digits are read to the last one. -/
theorem digits_append {ds rest : Text} (hds : ∀ c ∈ ds, c.isDigit) (hrest : Ended rest) :
    digits (ds ++ rest) = (ds, rest) := by
  have stop : rest.takeWhile Char.isDigit = [] ∧ rest.dropWhile Char.isDigit = rest := by
    cases rest with
    | nil => exact ⟨rfl, rfl⟩
    | cons c rest =>
      have hc := (not_numeric_of_endsValue (hrest c rfl)).1
      simp [hc]
  rw [digits, List.takeWhile_append_of_pos hds, List.dropWhile_append_of_pos hds, stop.1,
    stop.2, List.append_nil]

theorem fraction?_of_ended {rest : Text} (h : Ended rest) :
    fraction? rest = some ([], rest) := by
  cases rest with
  | nil => rfl
  | cons c rest =>
    have hc := (not_numeric_of_endsValue (h c rfl)).2.1
    rw [fraction?]
    simp [hc]

theorem exponent?_of_ended {rest : Text} (h : Ended rest) :
    exponent? rest = some ([], rest) := by
  cases rest with
  | nil => rfl
  | cons c rest =>
    obtain ⟨-, -, hlower, hupper⟩ := not_numeric_of_endsValue (h c rfl)
    simp [exponent?, hlower, hupper]

theorem isDigit_of_mem_toDigits {n : Nat} : ∀ c ∈ Nat.toDigits 10 n, c.isDigit := by
  intro c hc
  exact Nat.isDigit_of_mem_toDigits (by decide) (by decide) hc

/-- The first digit is no sign, and it begins no other value. -/
theorem exists_cons_toDigits (n : Nat) :
    ∃ c ds, Nat.toDigits 10 n = c :: ds ∧ c.isDigit := by
  cases h : Nat.toDigits 10 n with
  | nil => exact absurd h Nat.toDigits_ne_nil
  | cons c ds => exact ⟨c, ds, rfl, isDigit_of_mem_toDigits (n := n) c (by simp [h])⟩

/-- A number other than zero is written without a zero in front. -/
theorem head?_toDigits_ne_zero {n : Nat} (h : 0 < n) :
    (Nat.toDigits 10 n).head? ≠ some '0' := by
  induction n using Nat.strongRecOn with
  | ind n ih =>
    rw [Nat.toDigits_eq_if (by decide)]
    split
    · rename_i hlt
      have all : ∀ n < 10, 0 < n → n.digitChar ≠ '0' := by decide
      simpa using all n hlt h
    · rename_i hge
      have hfront := ih (n / 10) (by omega) (by omega)
      obtain ⟨c, ds, hcons, -⟩ := exists_cons_toDigits (n / 10)
      rw [hcons] at hfront ⊢
      exact hfront

theorem whole?_toDigits (n : Nat) {rest : Text} (hrest : Ended rest) :
    whole? (Nat.toDigits 10 n ++ rest) = some (Nat.toDigits 10 n, rest) := by
  obtain ⟨c, ds, hcons, -⟩ := exists_cons_toDigits n
  have hsome : someDigits? (Nat.toDigits 10 n ++ rest) = some (Nat.toDigits 10 n, rest) := by
    rw [someDigits?, digits_append isDigit_of_mem_toDigits hrest, hcons]
  have hzero : ¬ ((Nat.toDigits 10 n).head? = some '0' ∧ (Nat.toDigits 10 n).length ≠ 1) := by
    rintro ⟨hhead, hlength⟩
    rcases Nat.eq_zero_or_pos n with rfl | hpos
    · exact hlength rfl
    · exact head?_toDigits_ne_zero hpos hhead
  simp only [whole?, hsome, Option.bind_eq_bind, Option.bind_some, if_neg hzero]

/-- **The digits of a number are read to the last one.** -/
theorem number?_toDigits (n : Nat) {rest : Text} (hrest : Ended rest) :
    number? (Nat.toDigits 10 n ++ rest) = some (Nat.toDigits 10 n, rest) := by
  have unsigned : sign ['-'] (Nat.toDigits 10 n ++ rest) =
      ([], Nat.toDigits 10 n ++ rest) := by
    obtain ⟨c, ds, hcons, hc⟩ := exists_cons_toDigits n
    have hne : c ≠ '-' := by
      rintro rfl
      simp at hc
    simp [sign, hcons, hne]
  simp [number?, unsigned, whole?_toDigits n hrest, fraction?_of_ended hrest,
    exponent?_of_ended hrest]

end Reader

/-- A number that was written is read exactly if it fits in a word. -/
theorem nat?_ofNat (n : Nat) : (ofNat n).nat? = if n < Word.size then some n else none := by
  have digits : (Nat.toDigits 10 n).all Char.isDigit := by
    rw [List.all_eq_true]
    exact Reader.isDigit_of_mem_toDigits
  have back : Nat.ofDigitChars 10 (Nat.toDigits 10 n) 0 = n :=
    Nat.ofDigitChars_toDigits (by decide) (by decide)
  simp only [ofNat, nat?, digits, back, if_true]

@[simp] theorem text?_ofText (t : Text) : (ofText t).text? = some t :=
  Literal.unescape?_escape t

end EditJournal.Json
