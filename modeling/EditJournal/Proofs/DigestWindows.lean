/-
EditJournal.Proofs.DigestWindows — texts that differ in three bytes next to each other have
different digests, and a history is not taken over by the wrong one of them.

* `Text.gap u v` — how far apart two states of the digest are.
* `Text.DifferWithin width s t` — the texts have the same length in bytes, and all bytes in
  which they differ are within a window of that width.
* `JournalFile.asWritten f` — the file that is read where `f` was written; its digest and its
  length are those of `f`.

`digest_tells_apart` is the main result.

## How the proof goes

A step of the digest can be undone, its factor being odd (`Text.digestStep_injective`), so
that the bytes before and behind the window do not matter. A byte is mixed into the low
eight bits of a state only, and moves it by less than 256 (`Text.mix_near`); so two states
whose bytes differ move apart by an `e` of at most 510, and then the factor takes their gap
along. From the same state on, the gap in front of the third factor is `e₀ * p² + e₁ * p + e₂`.
Since `p` is 2⁴⁰ + 435, its square is 870 * 2⁴⁰ + 189225 up to a multiple of 2⁶⁴: no sum of
this form is such a multiple but the one of zeros (`Text.gaps_eq_zero`).
-/
import Mathlib.Algebra.Group.Nat.Defs
import Mathlib.Data.List.Basic
import EditJournal.Proofs.ByteSplices
import EditJournal.Proofs.Lifetimes
import EditJournal.Proofs.RefusedFiles

namespace EditJournal

namespace Text

/-! ## Steps that can be undone -/

/-- The inverse of the factor of a step. -/
def digestInverse : UInt64 := 0xce965057aff6957b

theorem digestFactor_mul_inverse : digestFactor * digestInverse = 1 := by decide

theorem mul_digestFactor_injective {u v : UInt64}
    (same : u * digestFactor = v * digestFactor) :
    u = v := by
  have undone (w : UInt64) : w * digestFactor * digestInverse = w := by
    rw [UInt64.mul_assoc, digestFactor_mul_inverse, UInt64.mul_one]
  rw [← undone u, same, undone v]

/-- A step from different states leads to different ones. -/
theorem digestStep_injective {u v : UInt64} {byte : UInt8}
    (same : digestStep u byte = digestStep v byte) : u = v :=
  (UInt64.xor_left_inj _).mp (mul_digestFactor_injective same)

/-- So do the steps over a list of bytes. -/
theorem foldl_digestStep_injective {u v : UInt64} {l : List UInt8}
    (same : l.foldl digestStep u = l.foldl digestStep v) : u = v := by
  induction l generalizing u v with
  | nil => exact same
  | cons byte rest ih => exact digestStep_injective (ih same)

/-! ## Gaps between states -/

/-- How far apart two states are. -/
def gap (u v : UInt64) : Int := (u.toNat : Int) - v.toNat

theorem gap_self (u : UInt64) : gap u u = 0 := Int.sub_self _

theorem gap_eq_zero_iff {u v : UInt64} : gap u v = 0 ↔ u = v := by
  rw [gap, Int.sub_eq_zero, Int.ofNat_inj, UInt64.toNat_inj]

/-- A byte that is mixed in moves a state by less than 256. -/
theorem mix_near (u : UInt64) (byte : UInt8) :
    ∃ e : Int, -255 ≤ e ∧ e ≤ 255 ∧ ((u ^^^ byte.toUInt64).toNat : Int) = u.toNat + e := by
  have small : byte.toNat / 2 ^ 8 = 0 := Nat.div_eq_of_lt byte.toNat_lt
  have high : (u ^^^ byte.toUInt64).toNat / 2 ^ 8 = u.toNat / 2 ^ 8 := by
    rw [UInt64.toNat_xor, UInt8.toNat_toUInt64, Nat.xor_div_two_pow, small, Nat.xor_zero]
  refine ⟨(u ^^^ byte.toUInt64).toNat - u.toNat, ?_, ?_, ?_⟩ <;> omega

/-- Bytes that are mixed in move two states apart by 510 at most. -/
theorem gap_mix (u v : UInt64) (a b : UInt8) :
    ∃ e : Int, -510 ≤ e ∧ e ≤ 510 ∧ gap (u ^^^ a.toUInt64) (v ^^^ b.toUInt64) =
      gap u v + e := by
  obtain ⟨x, x_ge, x_le, hx⟩ := mix_near u a
  obtain ⟨y, y_ge, y_le, hy⟩ := mix_near v b
  refine ⟨x - y, ?_, ?_, ?_⟩
  · omega
  · omega
  · rw [gap, gap, hx, hy]
    omega

/-- The factor of a step is that of the gap, up to a multiple of 2⁶⁴. -/
theorem gap_mul (u v : UInt64) :
    ∃ k : Int, gap (u * digestFactor) (v * digestFactor) =
      gap u v * 0x100000001b3 + 0x10000000000000000 * k := by
  have times (w : UInt64) :
      (w * digestFactor).toNat = w.toNat * 0x100000001b3 % 0x10000000000000000 := by
    rw [UInt64.toNat_mul]
    rfl
  refine ⟨(v.toNat * 0x100000001b3 / 0x10000000000000000 : Nat) -
    (u.toNat * 0x100000001b3 / 0x10000000000000000 : Nat), ?_⟩
  rw [gap, gap, times, times]
  omega

/-- A step moves two states apart before the factor takes their gap along. -/
theorem gap_digestStep (u v : UInt64) (a b : UInt8) :
    ∃ e k : Int, (-510 ≤ e ∧ e ≤ 510) ∧
      gap (u ^^^ a.toUInt64) (v ^^^ b.toUInt64) = gap u v + e ∧
      gap (digestStep u a) (digestStep v b) =
        (gap u v + e) * 0x100000001b3 + 0x10000000000000000 * k := by
  obtain ⟨e, e_ge, e_le, mixed⟩ := gap_mix u v a b
  obtain ⟨k, multiplied⟩ := gap_mul (u ^^^ a.toUInt64) (v ^^^ b.toUInt64)
  exact ⟨e, k, ⟨e_ge, e_le⟩, mixed, by rw [digestStep, digestStep, multiplied, mixed]⟩

/-- Where the gap in front of the third factor is none, none was made. -/
theorem gaps_eq_zero {e₀ e₁ e₂ k₀ k₁ : Int} (small₀ : -510 ≤ e₀ ∧ e₀ ≤ 510)
    (small₁ : -510 ≤ e₁ ∧ e₁ ≤ 510) (small₂ : -510 ≤ e₂ ∧ e₂ ≤ 510)
    (closed : (e₀ * 0x100000001b3 + 0x10000000000000000 * k₀ + e₁) * 0x100000001b3 +
      0x10000000000000000 * k₁ + e₂ = 0) : e₀ = 0 ∧ e₁ = 0 ∧ e₂ = 0 := by
  -- the terms below 2⁴⁰, and those that 2⁴⁰ divides
  obtain ⟨k, split⟩ : ∃ k : Int, 189225 * e₀ + 435 * e₁ + e₂ +
      0x10000000000 * (870 * e₀ + e₁) = 0x10000000000000000 * k :=
    ⟨-(65536 * e₀ + 0x100000001b3 * k₀ + k₁), by omega⟩
  have low : 189225 * e₀ + 435 * e₁ + e₂ = 0 := by omega
  have high : 870 * e₀ + e₁ = 0 := by omega
  omega

/-- States whose gap is none were mixed from the same byte. -/
theorem eq_of_gap_mix {u : UInt64} {a b : UInt8}
    (closed : gap (u ^^^ a.toUInt64) (u ^^^ b.toUInt64) = 0) : a = b := by
  have mixed := (UInt64.xor_right_inj u).mp (gap_eq_zero_iff.mp closed)
  have values := congrArg UInt64.toNat mixed
  rw [UInt8.toNat_toUInt64, UInt8.toNat_toUInt64] at values
  exact UInt8.toNat_inj.mp values

/-- **Three bytes are told by the state they lead to.** -/
theorem three_digestSteps_injective {h : UInt64} {a₀ a₁ a₂ b₀ b₁ b₂ : UInt8}
    (same : [a₀, a₁, a₂].foldl digestStep h = [b₀, b₁, b₂].foldl digestStep h) :
    [a₀, a₁, a₂] = [b₀, b₁, b₂] := by
  simp only [List.foldl_cons, List.foldl_nil] at same
  obtain ⟨e₀, k₀, small₀, mixed₀, gap₀⟩ := gap_digestStep h h a₀ b₀
  obtain ⟨e₁, k₁, small₁, mixed₁, gap₁⟩ :=
    gap_digestStep (digestStep h a₀) (digestStep h b₀) a₁ b₁
  obtain ⟨e₂, -, small₂, mixed₂, -⟩ := gap_digestStep (digestStep (digestStep h a₀) a₁)
    (digestStep (digestStep h b₀) b₁) a₂ b₂
  have closed := gap_eq_zero_iff.mpr (mul_digestFactor_injective same)
  rw [mixed₂, gap₁, gap₀, gap_self, Int.zero_add] at closed
  obtain ⟨rfl, rfl, rfl⟩ := gaps_eq_zero small₀ small₁ small₂ closed
  -- the states are the same again behind each byte
  obtain rfl := eq_of_gap_mix (mixed₀.trans (by rw [gap_self, Int.add_zero]))
  obtain rfl := eq_of_gap_mix (mixed₁.trans (by rw [gap_self, Int.add_zero]))
  obtain rfl := eq_of_gap_mix (mixed₂.trans (by rw [gap_self, Int.add_zero]))
  rfl

/-! ## Windows -/

/-- So are as many bytes as fit in the window: zeros make up for those that lack. -/
theorem window_injective {h : UInt64} {a b : List UInt8} (lengths : a.length = b.length)
    (short : a.length ≤ 3) (same : a.foldl digestStep h = b.foldl digestStep h) : a = b := by
  have filled {l : List UInt8} (length : l.length = a.length) :
      (l ++ List.replicate (3 - a.length) 0).length = 3 := by
    rw [List.length_append, List.length_replicate]
    omega
  obtain ⟨a₀, a₁, a₂, ha⟩ := List.length_eq_three.mp (filled rfl)
  obtain ⟨b₀, b₁, b₂, hb⟩ := List.length_eq_three.mp (filled lengths.symm)
  have steps : [a₀, a₁, a₂].foldl digestStep h = [b₀, b₁, b₂].foldl digestStep h := by
    rw [← ha, ← hb, List.foldl_append, List.foldl_append, same]
  have whole := three_digestSteps_injective steps
  rw [← ha, ← hb] at whole
  exact List.append_cancel_right whole

/-- Lists of one length that differ within a window only are the same before and behind it. -/
theorem exists_window {α : Type} {l m : List α} {start width : Nat}
    (lengths : l.length = m.length)
    (inside : ∀ i, l[i]? ≠ m[i]? → start ≤ i ∧ i < start + width) :
    ∃ front a b back, l = front ++ a ++ back ∧ m = front ++ b ++ back ∧ a.length = b.length ∧
      a.length ≤ width := by
  have before : m.take start = l.take start := by
    refine List.ext_getElem? fun i => ?_
    rw [List.getElem?_take, List.getElem?_take]
    split
    · by_contra differ
      have := inside i (Ne.symm differ)
      omega
    · rfl
  have behind : m.drop (start + width) = l.drop (start + width) := by
    refine List.ext_getElem? fun i => ?_
    rw [List.getElem?_drop, List.getElem?_drop]
    by_contra differ
    have := inside (start + width + i) (Ne.symm differ)
    omega
  have parts (k : List α) :
      k = k.take start ++ (k.drop start).take width ++ k.drop (start + width) := by
    rw [List.append_assoc, ← List.drop_drop, List.take_append_drop, List.take_append_drop]
  refine ⟨l.take start, (l.drop start).take width, (m.drop start).take width,
    l.drop (start + width), parts l, ?_, ?_, ?_⟩
  · rw [← before, ← behind]
    exact parts m
  · simp [lengths]
  · exact List.length_take_le _ _

/-- The texts have the same length in bytes and are not the same, and all bytes in which
they differ are within a window. -/
structure DifferWithin (width : Nat) (s t : Text) : Prop where
  length : s.byteLength = t.byteLength
  differ : s ≠ t
  inside : ∃ start, ∀ i, (bytes s)[i]? ≠ (bytes t)[i]? → start ≤ i ∧ i < start + width

theorem bytes_injective {s t : Text} (same : bytes s = bytes t) : s = t := by
  have encoded : s.utf8Encode = t.utf8Encode := congrArg List.toByteArray same
  have decoded := congrArg ByteArray.utf8Decode? encoded
  rw [List.utf8Decode?_utf8Encode, List.utf8Decode?_utf8Encode] at decoded
  simpa using decoded

theorem digestWord_ne {s t : Text} (h : DifferWithin 3 s t) : digestWord s ≠ digestWord t := by
  intro same
  have lengths : (bytes s).length = (bytes t).length := by
    rw [length_bytes, length_bytes, h.length]
  obtain ⟨start, inside⟩ := h.inside
  obtain ⟨front, a, b, back, hs, ht, long, short⟩ := exists_window lengths inside
  simp only [digestWord, hs, ht, List.foldl_append] at same
  have window := window_injective long short (foldl_digestStep_injective same)
  exact h.differ (bytes_injective (by rw [hs, ht, window]))

/-! ## Digits -/

theorem digitChar_injective {m n : Nat} (hm : m < 16) (hn : n < 16)
    (same : m.digitChar = n.digitChar) : m = n := by
  have all : ∀ m < 16, ∀ n < 16, m.digitChar = n.digitChar → m = n := by decide
  exact all m hm n hn same

/-- Digits tell a number up to what they leave out. -/
theorem hexDigits_injective {count m n : Nat} (same : hexDigits count m = hexDigits count n) :
    m % 16 ^ count = n % 16 ^ count := by
  induction count generalizing m n with
  | zero => simp [Nat.mod_one]
  | succ count ih =>
    obtain ⟨higher, lowest⟩ := List.append_inj' same rfl
    have digit : m % 16 = n % 16 :=
      digitChar_injective (Nat.mod_lt _ (by decide)) (Nat.mod_lt _ (by decide))
        (by simpa using lowest)
    rw [Nat.pow_succ', Nat.mod_mul, Nat.mod_mul, digit, ih higher]

theorem digest_eq_iff {s t : Text} : s.digest = t.digest ↔ digestWord s = digestWord t := by
  constructor
  · intro same
    have digits := hexDigits_injective same
    have sixteen (w : UInt64) : w.toNat < 16 ^ 16 := by
      have bits := w.toNat_lt
      omega
    rw [Nat.mod_eq_of_lt (sixteen _), Nat.mod_eq_of_lt (sixteen _)] at digits
    exact UInt64.toNat_inj.mp digits
  · intro same
    rw [digest, digest, same]

/-- **Texts that differ in three bytes next to each other have different digests.** -/
theorem DifferWithin.digest_ne {s t : Text} (h : DifferWithin 3 s t) : s.digest ≠ t.digest :=
  fun same => digestWord_ne h (digest_eq_iff.mp same)

end Text

/-! ## Files of other texts -/

/-- The change that is read where this one was written: a replacement is written as an
insertion. -/
def Edit.asWritten (e : Edit) : Edit :=
  { e with kind := if e.kind = .replace then .insert else e.kind }

def EntryRecord.asWritten (r : EntryRecord) : EntryRecord :=
  { r with edits := r.edits.map Edit.asWritten }

namespace JournalFile

/-- The file that is read where this one was written. -/
def asWritten (f : JournalFile) : JournalFile :=
  { f with entries := f.entries.map EntryRecord.asWritten }

variable {f : JournalFile}

theorem editJson_asWritten (e : Edit) : editJson e.asWritten = editJson e := by
  cases e with
  | mk kind place payload run => cases kind <;> rfl

theorem entryJson_asWritten (r : EntryRecord) : entryJson r.asWritten = entryJson r := by
  simp [entryJson, EntryRecord.asWritten, Function.comp_def, editJson_asWritten]

theorem print_asWritten (f : JournalFile) : f.asWritten.print = f.print := by
  simp [print, toJson, asWritten, Function.comp_def, entryJson_asWritten]

theorem plain_asWritten (f : JournalFile) : f.asWritten.Plain := by
  intro r hr
  obtain ⟨record, -, rfl⟩ := List.mem_map.mp hr
  intro e he
  obtain ⟨edit, -, rfl⟩ := List.mem_map.mp he
  unfold Edit.asWritten
  split <;> simp_all

theorem Fits.asWritten (fits : f.Fits) : f.asWritten.Fits where
  version := fits.version
  savedAt := fits.savedAt
  length := fits.length
  position := fits.position
  baseVersion := fits.baseVersion
  nextVersion := fits.nextVersion
  savedVersion := fits.savedVersion
  entries := by
    intro r hr
    obtain ⟨record, member, rfl⟩ := List.mem_map.mp hr
    have old := fits.entries record member
    exact ⟨old.version, old.timestamp, old.group,
      List.forall_mem_map.mpr fun e he => old.edits e he⟩

/-- **A file whose numbers fit is read, whatever changes it has.** -/
theorem parse?_print (fits : f.Fits) : parse? f.print = some f.asWritten := by
  rw [← print_asWritten]
  exact (parse?_print_eq_some_iff f.plain_asWritten _).mpr ⟨rfl, fits.asWritten⟩

end JournalFile

section Foreign

variable {f : JournalFile} {path : Path} {d : Directory}

/-- Where the text of a file that a journal wrote is read, there is a file of its text. -/
theorem JournalFile.exists_at_of_save {w : Journal} {contents : Text}
    {savedVersion savedAt : Nat} {place : Path} {disk disk' : Directory}
    (saved : (w.save contents savedVersion savedAt place disk).value = (.ok (), disk'))
    (fits : (ofJournal w contents savedVersion savedAt).Fits)
    (kept : d.readText? path = disk'.readText? place) :
    ∃ f : JournalFile, f.At d path ∧ f.version = 1 ∧ f.IsOf contents := by
  obtain ⟨content, -, text⟩ := Journal.readText?_of_save saved
  have found : (ofJournal w contents savedVersion savedAt).asWritten.At d path :=
    ⟨_, Directory.readText?_eq_some_iff.mp (kept.trans text), parse?_print fits⟩
  exact ⟨_, found, rfl, rfl, rfl⟩

/-- The history of another text is refused. -/
theorem Journal.load_of_foreign (j : Journal) {contents : Text} (found : f.At d path)
    (known : f.version = 1) (foreign : ¬ f.IsOf contents) :
    (j.load contents path d).value = .error (.digestMismatch f.digest contents.digest) := by
  have differs : f.digest ≠ contents.digest ∨ f.length ≠ contents.byteLength :=
    Decidable.not_and_iff_not_or_not.mp foreign
  have loaded := JournalFile.load_eq_ok_some_iff_at.mpr found
  simp [load, loaded, takeOver, JournalFile.formatVersion, known, differs, Except.map]

theorem Buffer.loadHistory_of_foreign {b : Buffer Text} (found : f.At d path)
    (known : f.version = 1) (foreign : ¬ f.IsOf b.contents) :
    (b.loadHistory path d).value =
      (.error (.digestMismatch f.digest b.contents.digest), b) := by
  have answer := loadHistory_of_judged (.foreign f found known foreign)
  have untouched : (b.loadHistory path d).value.2 = b :=
    loadHistory_untouched (by simp [answer])
  exact Prod.ext answer untouched

end Foreign

/-- **The digest tells texts apart that differ in three bytes next to each other**, whatever
stands before and behind them. So a history that was saved with one of them is refused with
the other one, as it is with a text of another length, and leaves journal and buffer as they
are. The numbers of the file fit in words. -/
theorem digest_tells_apart (s : Text) :
    (∀ t : Text, s.DifferWithin 3 t → s.digest ≠ t.digest) ∧
    ∀ (w : Journal) (savedVersion savedAt : Nat) (place : Path) (disk disk' : Directory),
      (w.save s savedVersion savedAt place disk).value = (.ok (), disk') →
      (JournalFile.ofJournal w s savedVersion savedAt).Fits →
      ∀ (path : Path) (d : Directory), d.readText? path = disk'.readText? place →
      ∀ t : Text, s.DifferWithin 3 t ∨ s.byteLength ≠ t.byteLength →
        (∀ j : Journal,
          (j.load t path d).value = .error (.digestMismatch s.digest t.digest) ∧
          j.loaded t path d = j) ∧
        ∀ b : Buffer Text, b.contents = t →
          (b.loadHistory path d).value = (.error (.digestMismatch s.digest t.digest), b) := by
  refine ⟨fun t window => window.digest_ne, ?_⟩
  intro w savedVersion savedAt place disk disk' saved fits path d kept t other
  obtain ⟨f, found, known, written⟩ := JournalFile.exists_at_of_save saved fits kept
  have foreign : ¬ f.IsOf t := by
    intro own
    rcases other with window | length
    · exact window.digest_ne (written.1.symm.trans own.1)
    · exact length (written.2.symm.trans own.2)
  rw [← written.1]
  constructor
  · intro j
    have refused := j.load_of_foreign found known foreign
    exact ⟨refused, by rw [Journal.loaded, refused]⟩
  · intro b contents
    subst contents
    exact Buffer.loadHistory_of_foreign found known foreign

/-- A history that was saved with `aéb` is refused with `azzb`, which has other bytes for the
second letter, and with `aéb` behind a line break. -/
theorem changedLetter_is_told :
    let s : Text := ['a', 'é', 'b']
    let w : Journal :=
      { entries := [{ first := ⟨.insert, ⟨0, 1⟩, ['é'], none⟩, timestamp := 7, version := 1 }]
        position := 1, capacity := 1, config := {}, nextVersion := 2 }
    let stored := (w.save s 0 9 [['j']] {}).value
    let changed : Buffer Text := (Buffer.create [] ['a', 'z', 'z', 'b']).value
    let longer : Buffer Text := (Buffer.create [] ['\n', 'a', 'é', 'b']).value
    s.digest ≠ changed.contents.digest ∧ stored.1 = .ok () ∧
      (changed.loadHistory [['j']] stored.2).value =
        (.error (.digestMismatch s.digest changed.contents.digest), changed) ∧
      (longer.loadHistory [['j']] stored.2).value =
        (.error (.digestMismatch s.digest longer.contents.digest), longer) ∧
      (w.load changed.contents [['j']] stored.2).value =
        .error (.digestMismatch s.digest changed.contents.digest) := by
  intro s w stored changed longer
  have window : s.DifferWithin 3 changed.contents := by
    refine ⟨by decide, by decide, 1, ?_⟩
    intro i differ
    have behind {t : Text} (length : (Text.bytes t).length = 4) (past : 4 ≤ i) :
        (Text.bytes t)[i]? = none := List.getElem?_eq_none (by omega)
    constructor
    · refine Nat.pos_of_ne_zero fun first => differ ?_
      rw [first]
      rfl
    · refine Nat.lt_of_not_le fun past => differ ?_
      exact (behind rfl past).trans (behind rfl past).symm
  obtain ⟨told, refused⟩ := digest_tells_apart s
  have saved : (w.save s 0 9 [['j']] {}).value = (.ok (), stored.2) := by rfl
  have elsewhere := refused w 0 9 [['j']] {} stored.2 saved (by decide) [['j']] stored.2 rfl
  obtain ⟨journal, buffer⟩ := elsewhere changed.contents (.inl window)
  have length : s.byteLength ≠ longer.contents.byteLength := by decide
  exact ⟨told _ window, congrArg Prod.fst saved, buffer changed rfl,
    (elsewhere _ (.inr length)).2 longer rfl, (journal w).1⟩

end EditJournal
