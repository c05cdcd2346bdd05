/-
EditJournal.Proofs.LineTable — a text read line by line.

The line table of a text says at which byte each line starts (`Text.lineStart`). The
length of a line is read off the table, and its text is read as the bytes from there,
by the path that refuses a range with an end inside a character.

* `Text.closed`, `Text.opened` — lines with a line feed behind each, and lines with a
  line feed in front of each.
* `Text.eq_around_line` — a text around one of its lines: the closed lines before it,
  the line, and the opened lines behind it.
* `Text.lineText?_eq` — the reading of a line is never refused, and gives the line.
* `Text.lineLength?_eq_span` — the table, with its special case for the last line.

`text_is_its_lines` is the main result: the lines are the parts of the text between its
line feeds, one more than there are line feeds, and nothing else ends a line.

## How the proof goes

`Text.lines` cuts as `List.splitOn` does, so that joining the lines gives the text and
no other lines without line feeds do. A walk over closed lines ends at the start of a
line, which is the place that the line is read from.
-/
import Mathlib.Algebra.GroupWithZero.Nat
import Mathlib.Data.List.Basic
import EditJournal.Proofs.ByteSplices
import EditJournal.Proofs.Walks

namespace EditJournal

open Location (origin)

namespace Text

/-! ## Cutting at line feeds -/

theorem lines_eq_splitOn (t : Text) : lines t = t.splitOn '\n' := by
  induction t with
  | nil => rfl
  | cons c t ih =>
    rw [List.splitOn_cons_eq_if_modifyHead, ← ih]
    by_cases hc : c = '\n'
    · subst hc
      rfl
    · rw [lines_cons_of_ne hc, if_neg (by simpa using hc)]
      cases cut : lines t with
      | nil => exact absurd cut (lines_ne_nil t)
      | cons first rest => rfl

/-- Joined with line feeds, the lines are the text. -/
theorem intercalate_lines (t : Text) : ['\n'].intercalate (lines t) = t := by
  rw [lines_eq_splitOn, List.intercalate_splitOn]

/-- The lines are the only texts without a line feed that are. -/
theorem lines_intercalate {ls : List Text} (some_line : ls ≠ []) (unfed : ∀ l ∈ ls, '\n' ∉ l) :
    lines (['\n'].intercalate ls) = ls := by
  rw [lines_eq_splitOn, List.splitOn_intercalate _ unfed some_line]

theorem newline_not_mem_line {t line : Text} (h : line ∈ lines t) : '\n' ∉ line := by
  induction t generalizing line with
  | nil =>
    obtain rfl : line = [] := by simpa using h
    simp
  | cons c t ih =>
    by_cases hc : c = '\n'
    · subst hc
      rcases List.mem_cons.mp h with rfl | behind
      · simp
      · exact ih behind
    · rw [lines_cons_of_ne hc] at h
      cases cut : lines t with
      | nil => exact absurd cut (lines_ne_nil t)
      | cons first rest =>
        rw [cut] at h ih
        rcases List.mem_cons.mp h with rfl | behind
        · have kept : '\n' ∉ first := ih List.mem_cons_self
          simpa [Ne.symm hc] using kept
        · exact ih (List.mem_cons_of_mem _ behind)

/-- There is one line more than there are line feeds. -/
theorem lineCount_eq_count (t : Text) : lineCount t = t.count '\n' + 1 := by
  unfold lineCount
  induction t with
  | nil => rfl
  | cons c t ih =>
    by_cases hc : c = '\n'
    · subst hc
      rw [lines_newline_cons, List.length_cons, List.count_cons_self, ih]
    · rw [lines_cons_of_ne hc, List.count_cons_of_ne hc, ← ih]
      cases cut : lines t with
      | nil => exact absurd cut (lines_ne_nil t)
      | cons first rest => rfl

theorem newline_eq_ofNat_iff (n : Nat) : 10 = UInt8.ofNat n ↔ n % 256 = 10 := by
  rw [← UInt8.toNat_inj, UInt8.toNat_ofNat', eq_comm]
  rfl

/-- The byte of the line feed is in the UTF-8 form of no other character. -/
theorem newline_byte_not_mem {c : Char} (h : c ≠ '\n') : 10 ∉ String.utf8EncodeChar c := by
  have other : c.val.toNat ≠ 10 := fun same => h (Char.ext (UInt32.toNat_inj.mp same))
  simp only [String.utf8EncodeChar]
  split_ifs <;> simp only [List.mem_cons, List.not_mem_nil, or_false, newline_eq_ofNat_iff] <;>
    omega

theorem count_utf8EncodeChar (c : Char) :
    (String.utf8EncodeChar c).count 10 = if c = '\n' then 1 else 0 := by
  split
  · rename_i feed
    subst feed
    rfl
  · rename_i other
    exact List.count_eq_zero.mpr (newline_byte_not_mem other)

theorem count_bytes (t : Text) : (bytes t).count 10 = t.count '\n' := by
  induction t with
  | nil => rfl
  | cons c t ih =>
    have parts : bytes (c :: t) = String.utf8EncodeChar c ++ bytes t := List.flatMap_cons
    rw [parts, List.count_append, count_utf8EncodeChar, ih, List.count_cons]
    simp [Nat.add_comm]

/-! ## Around a line -/

/-- Lines with a line feed behind each. -/
def closed (ls : List Text) : Text := ls.flatMap (· ++ ['\n'])

/-- Lines with a line feed in front of each. -/
def opened (ls : List Text) : Text := ls.flatMap ('\n' :: ·)

@[simp] theorem closed_nil : closed [] = [] := rfl

@[simp] theorem closed_cons (l : Text) (ls : List Text) :
    closed (l :: ls) = l ++ '\n' :: closed ls := by
  simp [closed]

@[simp] theorem opened_nil : opened [] = [] := rfl

@[simp] theorem opened_cons (l : Text) (ls : List Text) :
    opened (l :: ls) = '\n' :: (l ++ opened ls) := by
  simp [opened]

theorem intercalate_cons_eq (l : Text) (ls : List Text) :
    ['\n'].intercalate (l :: ls) = l ++ opened ls := by
  induction ls generalizing l with
  | nil => simp
  | cons m ls ih =>
    rw [List.intercalate_cons_cons, ih, opened_cons, List.append_assoc]
    rfl

theorem intercalate_eq_around (before : List Text) (line : Text) (behind : List Text) :
    ['\n'].intercalate (before ++ line :: behind) =
      closed before ++ (line ++ opened behind) := by
  induction before with
  | nil => rw [List.nil_append, intercalate_cons_eq, closed_nil, List.nil_append]
  | cons l before ih =>
    cases before with
    | nil =>
      rw [List.cons_append, List.nil_append, List.intercalate_cons_cons, intercalate_cons_eq]
      simp
    | cons m before =>
      rw [List.cons_append, List.cons_append, List.intercalate_cons_cons, ← List.cons_append,
        ih, closed_cons l]
      simp

/-- **A text around one of its lines.** -/
theorem eq_around_line {t line : Text} {i : Nat} (h : (lines t)[i]? = some line) :
    t = closed ((lines t).take i) ++ (line ++ opened ((lines t).drop (i + 1))) := by
  obtain ⟨within, rfl⟩ := List.getElem?_eq_some_iff.mp h
  have parts : (lines t).take i ++ (lines t)[i] :: (lines t).drop (i + 1) = lines t := by
    rw [← List.drop_eq_getElem_cons within, List.take_append_drop]
  rw [← intercalate_eq_around, parts, intercalate_lines]

theorem byteLength_closed (ls : List Text) :
    byteLength (closed ls) = total (byteLength · + 1) ls := by
  induction ls with
  | nil => rfl
  | cons l ls ih =>
    rw [closed_cons, byteLength_append, byteLength_cons, ih, total_cons]
    simp only [show '\n'.utf8Size = 1 from rfl]
    omega

theorem byteLength_opened (ls : List Text) :
    byteLength (opened ls) = total (byteLength · + 1) ls := by
  induction ls with
  | nil => rfl
  | cons l ls ih =>
    rw [opened_cons, byteLength_cons, byteLength_append, ih, total_cons]
    simp only [show '\n'.utf8Size = 1 from rfl]
    omega

/-- A walk over a line stays on it. -/
theorem advance_line (start : Location) {line : Text} (unfed : '\n' ∉ line) :
    start.advance line = ⟨start.line, start.offset + byteLength line⟩ := by
  rw [Location.advance_eq_ite, if_neg unfed]

/-- A walk over closed lines ends at the start of the line behind them. -/
theorem advance_closed (n : Nat) {ls : List Text} (unfed : ∀ l ∈ ls, '\n' ∉ l) :
    (⟨n, 0⟩ : Location).advance (closed ls) = ⟨n + ls.length, 0⟩ := by
  induction ls generalizing n with
  | nil => rfl
  | cons l ls ih =>
    rw [closed_cons, Location.advance_append, Location.advance_cons, Location.step_newline,
      advance_line _ (unfed l List.mem_cons_self),
      ih _ fun m hm => unfed m (List.mem_cons_of_mem _ hm),
      List.length_cons, Nat.add_assoc, Nat.add_comm 1]

theorem count_closed {ls : List Text} (unfed : ∀ l ∈ ls, '\n' ∉ l) :
    (closed ls).count '\n' = ls.length := by
  induction ls with
  | nil => rfl
  | cons l ls ih =>
    rw [closed_cons, List.count_append, List.count_cons_self,
      List.count_eq_zero.mpr (unfed l List.mem_cons_self),
      ih fun m hm => unfed m (List.mem_cons_of_mem _ hm), List.length_cons, Nat.zero_add]

/-! ## Reading a line -/

/-- **The reading of a line is never refused**: its bytes begin where a walk over the
closed lines before it ends, at a boundary, and end at one. -/
theorem lineText?_eq (t : Text) (i : Nat) : lineText? t i = (lines t)[i]? := by
  unfold lineText? lineLength?
  cases found : (lines t)[i]? with
  | none => rfl
  | some line =>
    obtain ⟨within, -⟩ := List.getElem?_eq_some_iff.mp found
    have start : origin.advance (closed ((lines t).take i)) = ⟨i, 0⟩ := by
      have unfed : ∀ l ∈ (lines t).take i, '\n' ∉ l := fun l hl =>
        newline_not_mem_line (List.mem_of_mem_take hl)
      have walked := advance_closed 0 unfed
      rwa [List.length_take, Nat.min_eq_left (Nat.le_of_lt within), Nat.zero_add] at walked
    have range := (cut_eq_ok_iff t ⟨i, 0⟩ (byteLength line) _ line _).mpr
      ⟨eq_around_line found, start, rfl⟩
    simp [readAt, range, bind, Except.bind, Except.toOption]

theorem byteLength_lines (t : Text) :
    total (byteLength · + 1) (lines t) = byteLength t + 1 := by
  cases cut : lines t with
  | nil => exact absurd cut (lines_ne_nil t)
  | cons first rest =>
    have whole : t = first ++ opened rest := by
      rw [← intercalate_cons_eq, ← cut, intercalate_lines]
    rw [total_cons, whole, byteLength_append, byteLength_opened]
    omega

theorem total_lengths (ls : List Text) :
    total (byteLength · + 1) ls = (ls.map byteLength).sum + ls.length := by
  induction ls with
  | nil => rfl
  | cons l ls ih =>
    rw [total_cons, ih, List.map_cons, List.sum_cons, List.length_cons]
    omega

theorem filterMap_range_getElem? (ls : List Text) :
    (List.range ls.length).filterMap (ls[·]?) = ls := by
  induction ls with
  | nil => rfl
  | cons l ls ih =>
    have first : (l :: ls)[0]? = some l := rfl
    rw [List.length_cons, List.range_succ_eq_map, List.filterMap_cons_some first,
      List.filterMap_map]
    exact congrArg (l :: ·) ih

theorem filterMap_lineText? (t : Text) :
    (List.range t.lineCount).filterMap t.lineText? = lines t := by
  rw [show t.lineText? = fun i => (lines t)[i]? from funext (lineText?_eq t)]
  exact filterMap_range_getElem? (lines t)

theorem filterMap_lineLength? (t : Text) :
    (List.range t.lineCount).filterMap t.lineLength? = (lines t).map byteLength := by
  rw [← filterMap_lineText? t, List.map_filterMap,
    show t.lineText? = fun i => (lines t)[i]? from funext (lineText?_eq t)]
  rfl

/-- Each line ends one byte before the next one starts, and the last one at the end. -/
theorem lineLength?_eq_span {t : Text} {i : Nat} (within : i < lineCount t) :
    lineLength? t i =
      some ((if i + 1 < lineCount t then lineStart t (i + 1) - 1 else byteLength t) -
        lineStart t i) := by
  have found : (lines t)[i]? = some (lines t)[i] := List.getElem?_eq_getElem within
  have next : lineStart t (i + 1) = lineStart t i + (byteLength (lines t)[i] + 1) := by
    unfold lineStart
    rw [List.take_add_one, found, Option.toList_some, total_append, total_cons, total_nil,
      Nat.add_zero]
  unfold lineLength?
  rw [found, Option.map_some]
  congr 1
  split
  · omega
  · rename_i last
    have whole : lineStart t (i + 1) = byteLength t + 1 := by
      rw [← byteLength_lines, lineStart,
        List.take_of_length_le (by unfold lineCount at last; omega)]
    omega

/-- Without a line feed in it, a part of a text is within one line; the other lines are
those of the text without the part. -/
theorem lines_around_part (a : Text) {part : Text} (b : Text) (unfed : '\n' ∉ part) :
    ∃ before x y behind, lines (a ++ b) = before ++ (x ++ y) :: behind ∧
      lines (a ++ part ++ b) = before ++ (x ++ part ++ y) :: behind ∧
      origin.advance a = ⟨before.length, byteLength x⟩ := by
  obtain ⟨before, x, cut_a⟩ : ∃ before x, lines a = before ++ [x] :=
    ⟨_, _, (List.dropLast_append_getLast (lines_ne_nil a)).symm⟩
  obtain ⟨y, behind, cut_b⟩ := List.exists_cons_of_ne_nil (lines_ne_nil b)
  have unfed_a : ∀ l ∈ before ++ [x], '\n' ∉ l := fun l hl => newline_not_mem_line (cut_a ▸ hl)
  have unfed_b : ∀ l ∈ y :: behind, '\n' ∉ l := fun l hl => newline_not_mem_line (cut_b ▸ hl)
  have whole_a : a = closed before ++ x := by
    rw [← intercalate_lines a, cut_a, intercalate_eq_around, opened_nil, List.append_nil]
  have whole_b : b = y ++ opened behind := by
    rw [← intercalate_lines b, cut_b, intercalate_cons_eq]
  have joined : ∀ m : Text, '\n' ∉ m →
      lines (a ++ m ++ b) = before ++ (x ++ m ++ y) :: behind := by
    intro m hm
    have parts : a ++ m ++ b = ['\n'].intercalate (before ++ (x ++ m ++ y) :: behind) := by
      rw [intercalate_eq_around, whole_a, whole_b]
      simp only [List.append_assoc]
    rw [parts, lines_intercalate (by simp)]
    intro l hl
    rcases List.mem_append.mp hl with front | back
    · exact unfed_a l (List.mem_append_left _ front)
    · rcases List.mem_cons.mp back with rfl | back
      · have hx := unfed_a x (by simp)
        have hy := unfed_b y List.mem_cons_self
        simp [hx, hm, hy]
      · exact unfed_b l (List.mem_cons_of_mem _ back)
  refine ⟨before, x, y, behind, ?_, joined part unfed, ?_⟩
  · simpa using joined [] (by simp)
  · have closed_before : origin.advance (closed before) = ⟨0 + before.length, 0⟩ :=
      advance_closed 0 fun l hl => unfed_a l (List.mem_append_left _ hl)
    rw [whole_a, Location.advance_append, closed_before, advance_line _ (unfed_a x (by simp)),
      Nat.zero_add, Nat.zero_add]

/-- A text read by the numbers of its lines. -/
structure ReadsByLine (t : Text) : Prop where
  /-- There is one line more than there are bytes of line feeds. -/
  count : lineCount t = t.bytes.count 10 + 1
  /-- Each line is read, and has no line feed and the length that the table says. -/
  read : ∀ i < lineCount t, ∃ line, t.lineText? i = some line ∧
    t.lineLength? i = some line.byteLength ∧ '\n' ∉ line
  /-- Past the last line there is nothing. -/
  past : ∀ i, lineCount t ≤ i → t.lineText? i = none ∧ t.lineLength? i = none
  /-- Joined with line feeds the lines are the text. -/
  joined : ['\n'].intercalate ((List.range t.lineCount).filterMap t.lineText?) = t
  /-- With a byte for each line feed between them, they take the bytes of the text. -/
  summed :
    ((List.range t.lineCount).filterMap t.lineLength?).sum + (t.lineCount - 1) = t.byteLength
  /-- No other texts without line feeds give the text when they are joined. -/
  only : ∀ ls : List Text, ls ≠ [] → (∀ l ∈ ls, '\n' ∉ l) → ['\n'].intercalate ls = t →
    ∀ i, t.lineText? i = ls[i]?
  /-- A line is what the table says that the text holds there: from its start, up to the
  line feed before the next start or up to the end. -/
  spans : ∀ i < lineCount t, ∃ front line back, t = front ++ line ++ back ∧
    t.lineText? i = some line ∧ front.byteLength = t.lineStart i ∧ front.count '\n' = i ∧
    line.byteLength =
      (if i + 1 < t.lineCount then t.lineStart (i + 1) - 1 else t.byteLength) - t.lineStart i
  /-- Whatever has no line feed, be it a carriage return or a line separator of Unicode,
  ends no line: without it, there are the same lines, of which one is shorter. -/
  unbroken : ∀ a part b, t = a ++ part ++ b → '\n' ∉ part →
    lineCount (a ++ b) = lineCount t ∧
    (∃ x y, lineText? (a ++ b) (origin.advance a).line = some (x ++ y) ∧
      t.lineText? (origin.advance a).line = some (x ++ part ++ y) ∧
      byteLength x = (origin.advance a).offset) ∧
    ∀ i, i ≠ (origin.advance a).line → lineText? (a ++ b) i = t.lineText? i

end Text

/-- **A text is its lines**, which are what stands between its line feeds, and each of
them is read as the line table says: in the empty text, around line feeds that follow
each other, and behind a last one. -/
theorem text_is_its_lines (t : Text) : t.ReadsByLine where
  count := by rw [Text.lineCount_eq_count, Text.count_bytes]
  read i within := by
    have found : t.lines[i]? = some t.lines[i] := List.getElem?_eq_getElem within
    refine ⟨t.lines[i], ?_, ?_, Text.newline_not_mem_line (List.getElem_mem within)⟩
    · rw [Text.lineText?_eq, found]
    · rw [Text.lineLength?, found, Option.map_some]
  past i behind := by
    have nothing : t.lines[i]? = none := List.getElem?_eq_none behind
    rw [Text.lineText?_eq, Text.lineLength?, nothing]
    exact ⟨rfl, rfl⟩
  joined := by rw [Text.filterMap_lineText?, Text.intercalate_lines]
  summed := by
    have bytes := Text.byteLength_lines t
    have lines : 0 < t.lines.length := List.length_pos_of_ne_nil (Text.lines_ne_nil t)
    rw [Text.total_lengths] at bytes
    rw [Text.filterMap_lineLength?, Text.lineCount]
    omega
  only ls some_line unfed whole i := by
    rw [Text.lineText?_eq, ← whole, Text.lines_intercalate some_line unfed]
  spans i within := by
    have found : t.lines[i]? = some t.lines[i] := List.getElem?_eq_getElem within
    refine ⟨Text.closed (t.lines.take i), t.lines[i], Text.opened (t.lines.drop (i + 1)),
      ?_, ?_, ?_, ?_, ?_⟩
    · rw [List.append_assoc]
      exact Text.eq_around_line found
    · rw [Text.lineText?_eq, found]
    · exact Text.byteLength_closed _
    · rw [Text.count_closed fun l hl => Text.newline_not_mem_line (List.mem_of_mem_take hl),
        List.length_take]
      exact Nat.min_eq_left (Nat.le_of_lt within)
    · have span := Text.lineLength?_eq_span within
      rw [Text.lineLength?, found] at span
      exact Option.some.inj span
  unbroken a part b whole unfed := by
    obtain ⟨before, x, y, behind, without, cut, place⟩ := Text.lines_around_part a b unfed
    rw [whole, place]
    simp only [Text.lineCount, Text.lineText?_eq, without, cut]
    refine ⟨by simp, ⟨x, y, by simp, by simp, rfl⟩, fun i other => ?_⟩
    rcases Nat.lt_or_gt_of_ne other with front | back
    · rw [List.getElem?_append_left front, List.getElem?_append_left front]
    · obtain ⟨k, rfl⟩ := Nat.exists_eq_add_of_lt back
      rw [Nat.add_assoc, List.getElem?_append_right (by omega),
        List.getElem?_append_right (by omega), Nat.add_sub_cancel_left,
        List.getElem?_cons_succ, List.getElem?_cons_succ]

/-- A carriage return stays at the end of its line, a line separator within it; behind
the last line feed there is an empty line. -/
example : Text.lineText? ['a', '\r', '\n', 'b', '\u2028', '\n'] 0 = some ['a', '\r'] ∧
    Text.lineText? ['a', '\r', '\n', 'b', '\u2028', '\n'] 1 = some ['b', '\u2028'] ∧
    Text.lineText? ['a', '\r', '\n', 'b', '\u2028', '\n'] 2 = some [] ∧
    Text.lineCount ['a', '\r', '\n', 'b', '\u2028', '\n'] = 3 := ⟨rfl, rfl, rfl, rfl⟩

end EditJournal
