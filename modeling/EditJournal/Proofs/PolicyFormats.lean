/-
EditJournal.Proofs.PolicyFormats — the same settings make the same policy, in TOML
and in JSON.

* `Policy.Setting` — one limit and its value, with its name and its value in writing.
* `Policy.tomlText`, `Policy.jsonText` — settings with one line each, and settings as the
  members of an object, with any blanks between them.
* `Policy.Follows p settings` — `p` has the values of the settings, and the usual ones where
  nothing was set. There is one such policy (`Policy.under`, `Follows.unique`).

`same_settings_same_policy` is the main result: any choice of the limits, in any order, is
read from both formats as the policy that follows it.

## How the proof goes

Each text is read as its names and values: this is `Toml.parse?_document` and
`Json.parse?_object`. What is left is to look up five names in a list of settings. Both formats
ask for the first setting of a name, and `Policy.find?_own` says for every limit what
this is: the policy's own setting of that limit, or none, and then the policy has the usual
value. The order does not matter, since following settings speaks of each of them
alone.
-/
import Mathlib.Data.List.Nodup
import EditJournal.Policy.Reading
import EditJournal.Proofs.FileFormat
import EditJournal.Proofs.TomlText

namespace EditJournal

namespace Policy

/-! ## Settings -/

/-- The limits that are numbers. -/
inductive Count where
  | initialCapacity
  | maxEntries
  | maxEntryBytes
  | windowMs
  deriving DecidableEq, Repr

namespace Count

def name : Count → String
  | initialCapacity => "initial_capacity"
  | maxEntries => "max_entries"
  | maxEntryBytes => "max_entry_bytes"
  | windowMs => "coalesce_window_ms"

/-- The number of a policy. -/
def of (p : Policy) : Count → Nat
  | initialCapacity => p.initialCapacity
  | maxEntries => p.maxEntries
  | maxEntryBytes => p.maxEntryBytes
  | windowMs => p.windowMs

/-- The policy with another number. -/
def set (n : Nat) (p : Policy) : Count → Policy
  | initialCapacity => { p with initialCapacity := n }
  | maxEntries => { p with maxEntries := n }
  | maxEntryBytes => { p with maxEntryBytes := n }
  | windowMs => { p with windowMs := n }

theorem name_inj {k l : Count} (h : k.name = l.name) : k = l := by
  revert h
  cases k <;> cases l <;> decide

theorem name_ne (k : Count) : k.name ≠ "merge_across_words" := by
  cases k <;> decide

@[simp] theorem of_set (k : Count) (n : Nat) (p : Policy) : k.of (k.set n p) = n := by
  cases k <;> rfl

theorem of_set_of_ne {k l : Count} (h : k ≠ l) (n : Nat) (p : Policy) :
    k.of (l.set n p) = k.of p := by
  cases k <;> cases l <;> first | rfl | exact absurd rfl h

@[simp] theorem acrossWords_set (k : Count) (n : Nat) (p : Policy) :
    (k.set n p).acrossWords = p.acrossWords := by
  cases k <;> rfl

end Count

/-- One limit and its value. -/
inductive Setting where
  | count (key : Count) (n : Nat)
  | acrossWords (b : Bool)
  deriving DecidableEq, Repr

namespace Setting

def name : Setting → String
  | count key _ => key.name
  | acrossWords _ => "merge_across_words"

/-- The value in writing, which is the same in both formats. -/
def written : Setting → Text
  | count _ n => Nat.toDigits 10 n
  | acrossWords true => "true".toList
  | acrossWords false => "false".toList

def toToml : Setting → Toml
  | count _ n => .integer n
  | acrossWords b => .boolean b

def toJson : Setting → Json
  | count _ n => .ofNat n
  | acrossWords b => .bool b

/-- A number has 63 bits at most. -/
def Fits : Setting → Prop
  | count _ n => n < Word.half
  | acrossWords _ => True

instance : (s : Setting) → Decidable s.Fits
  | count _ n => inferInstanceAs (Decidable (n < Word.half))
  | acrossWords _ => inferInstanceAs (Decidable True)

/-- The policy with the limit set. -/
def make (p : Policy) : Setting → Policy
  | count key n => key.set n p
  | acrossWords b => { p with acrossWords := b }

/-- The policy's own setting of the same limit. -/
def ownOf (p : Policy) : Setting → Setting
  | count key _ => count key (key.of p)
  | acrossWords _ => acrossWords p.acrossWords

/-- The policy has the value of the setting. -/
def HeldBy (p : Policy) : Setting → Prop
  | count key n => key.of p = n
  | acrossWords b => p.acrossWords = b

end Setting

/-- The usual policy with limits set; where one is set twice, the first counts. -/
def under (settings : List Setting) : Policy := settings.foldr (fun s p => s.make p) {}

/-- The policy has the values of the settings, and the usual ones where nothing was set. -/
structure Follows (p : Policy) (settings : List Setting) : Prop where
  set : ∀ s ∈ settings, s.HeldBy p
  usual : ∀ s : Setting, s.HeldBy {} → (∀ t ∈ settings, t.name ≠ s.name) → s.HeldBy p

/-! ## Settings in writing -/

/-- Settings in TOML, with one line each, and a line break behind the last if `closed`. -/
def tomlText (closed : Bool) (settings : List Setting) : Text :=
  Toml.document closed (settings.map fun s => Toml.pair s.name.toList s.written)

/-- Settings in JSON, as members of an object. -/
def jsonText (sp : Json.Spacing) (settings : List Setting) : Text :=
  sp.object (settings.map fun s => (s.name.toList, s.written))

/-! ## The policy of settings -/

namespace Setting

/-- Settings of one name are settings of one limit. -/
theorem ownOf_of_name {s t : Setting} (h : t.name = s.name) (p : Policy) :
    t.ownOf p = s.ownOf p := by
  cases s with
  | count k n => cases t with
    | count l m => rw [ownOf, ownOf, Count.name_inj h]
    | acrossWords b => exact absurd h.symm k.name_ne
  | acrossWords b => cases t with
    | count l m => exact absurd h l.name_ne
    | acrossWords c => rfl

/-- A policy has the value of a setting if its own setting is this one. -/
theorem heldBy_iff (p : Policy) (s : Setting) : s.HeldBy p ↔ s.ownOf p = s := by
  cases s <;> simp [HeldBy, ownOf]

@[simp] theorem name_ownOf (s : Setting) (p : Policy) : (s.ownOf p).name = s.name := by
  cases s <;> rfl

/-- Setting one limit leaves the others. -/
theorem ownOf_make_of_ne {s t : Setting} (h : t.name ≠ s.name) (p : Policy) :
    s.ownOf (t.make p) = s.ownOf p := by
  cases s with
  | count k n => cases t with
    | count l m =>
      have hne : k ≠ l := fun heq => h (congrArg Count.name heq.symm)
      rw [ownOf, ownOf, make, Count.of_set_of_ne hne]
    | acrossWords b => cases k <;> rfl
  | acrossWords b => cases t with
    | count l m => rw [ownOf, ownOf, make, Count.acrossWords_set]
    | acrossWords c => exact absurd rfl h

theorem ownOf_make (s : Setting) (p : Policy) : s.ownOf (s.make p) = s := by
  cases s with
  | count k n => rw [ownOf, make, Count.of_set]
  | acrossWords b => rfl

end Setting

/-- **The first setting of a name is the policy's own**, and where there is none, the policy
has the usual value. -/
theorem find?_own (settings : List Setting) (s : Setting) :
    (settings.find? (·.name == s.name) = none ∧ s.ownOf (under settings) = s.ownOf {}) ∨
      settings.find? (·.name == s.name) = some (s.ownOf (under settings)) := by
  induction settings with
  | nil => exact Or.inl ⟨rfl, rfl⟩
  | cons t settings ih =>
    have hmake : under (t :: settings) = t.make (under settings) := rfl
    by_cases h : t.name = s.name
    · rw [List.find?_cons_of_pos (by simpa using h), hmake,
        ← Setting.ownOf_of_name h, t.ownOf_make]
      exact Or.inr rfl
    · rw [List.find?_cons_of_neg (by simpa using h), hmake, Setting.ownOf_make_of_ne h]
      exact ih

/-- The usual policy with limits set follows the settings. -/
theorem under_follows {settings : List Setting}
    (distinct : (settings.map Setting.name).Nodup) :
    (under settings).Follows settings where
  set s hs := by
    rcases find?_own settings s with ⟨hnone, -⟩ | hfound
    · exact absurd (List.find?_eq_none.mp hnone s hs) (by simp)
    · exact (s.heldBy_iff _).mpr (List.inj_on_of_nodup_map distinct
        (List.mem_of_find?_eq_some hfound) hs (s.name_ownOf _))
  usual s hs hnew := by
    rcases find?_own settings s with ⟨-, husual⟩ | hfound
    · rw [Setting.heldBy_iff] at hs ⊢
      exact husual.trans hs
    · exact absurd (s.name_ownOf _) (hnew _ (List.mem_of_find?_eq_some hfound))

/-- A policy is its settings. -/
theorem eq_of_ownOf {p q : Policy} (h : ∀ s : Setting, s.ownOf p = s.ownOf q) : p = q := by
  have count (k : Count) : k.of p = k.of q := (Setting.count.inj (h (.count k 0))).2
  have capacity := count .initialCapacity
  have entries := count .maxEntries
  have bytes := count .maxEntryBytes
  have window := count .windowMs
  have words := Setting.acrossWords.inj (h (.acrossWords false))
  cases p
  cases q
  simp_all [Count.of]

/-- Settings are followed by one policy only. -/
theorem Follows.unique {p q : Policy} {settings : List Setting} (hp : p.Follows settings)
    (hq : q.Follows settings) : p = q := by
  refine eq_of_ownOf fun s => ?_
  by_cases h : ∃ t ∈ settings, t.name = s.name
  · obtain ⟨t, ht, hname⟩ := h
    have setP : t.ownOf p = t := (t.heldBy_iff p).mp (hp.set t ht)
    have setQ : t.ownOf q = t := (t.heldBy_iff q).mp (hq.set t ht)
    rw [← Setting.ownOf_of_name hname p, ← Setting.ownOf_of_name hname q, setP, setQ]
  · -- the usual setting of the limit is held by both
    have hname : (s.ownOf {}).name = s.name := s.name_ownOf {}
    have hnew : ∀ t ∈ settings, t.name ≠ (s.ownOf {}).name :=
      fun t ht heq => h ⟨t, ht, heq.trans hname⟩
    have husual : (s.ownOf {}).HeldBy {} :=
      (Setting.heldBy_iff ..).mpr (Setting.ownOf_of_name hname {})
    have usualP := (Setting.heldBy_iff ..).mp (hp.usual _ husual hnew)
    have usualQ := (Setting.heldBy_iff ..).mp (hq.usual _ husual hnew)
    rw [← Setting.ownOf_of_name hname p, ← Setting.ownOf_of_name hname q, usualP, usualQ]

/-- The order of settings does not matter. -/
theorem Follows.perm {p : Policy} {l m : List Setting} (hp : p.Follows l) (h : l.Perm m) :
    p.Follows m where
  set s hs := hp.set s (h.mem_iff.mpr hs)
  usual s hs hnew := hp.usual s hs fun t ht => hnew t (h.mem_iff.mp ht)

/-! ## Looking settings up -/

/-- What a reader finds under the name of a number. -/
theorem find?_count (settings : List Setting) (k : Count) :
    (settings.find? (·.name == k.name) = none ∧ k.of (under settings) = k.of {}) ∨
      settings.find? (·.name == k.name) = some (.count k (k.of (under settings))) := by
  simpa [Setting.ownOf, Setting.name] using find?_own settings (.count k 0)

/-- What a reader finds under the name of the flag. -/
theorem find?_acrossWords (settings : List Setting) :
    (settings.find? (·.name == "merge_across_words") = none ∧
        (under settings).acrossWords = ({} : Policy).acrossWords) ∨
      settings.find? (·.name == "merge_across_words") =
        some (.acrossWords (under settings).acrossWords) := by
  simpa [Setting.ownOf, Setting.name] using find?_own settings (.acrossWords false)

section Toml

/-- Settings as members of a table. -/
def tomlMembers (settings : List Setting) : Toml.Members :=
  settings.map fun s => (s.name.toList, s.toToml)

theorem get?_tomlMembers (settings : List Setting) (name : String) :
    (tomlMembers settings).get? name.toList =
      (settings.find? (·.name == name)).map Setting.toToml := by
  have same (s : Setting) : (s.name.toList == name.toList) = (s.name == name) := by
    rw [Bool.eq_iff_iff]
    simp [String.toList_inj]
  simp [tomlMembers, Toml.Members.get?, List.find?_map, Function.comp_def, same]

theorem tomlMember?_count (settings : List Setting) (k : Count) :
    tomlMember? (k.of {}) countOfToml? (tomlMembers settings) k.name =
      some (k.of (under settings)) := by
  rw [tomlMember?, get?_tomlMembers]
  rcases find?_count settings k with ⟨hnone, husual⟩ | hfound
  · rw [hnone, husual]
    rfl
  · rw [hfound]
    rfl

theorem tomlMember?_acrossWords (settings : List Setting) :
    tomlMember? ({} : Policy).acrossWords flagOfToml?
      (tomlMembers settings) "merge_across_words" = some (under settings).acrossWords := by
  rw [tomlMember?, get?_tomlMembers]
  rcases find?_acrossWords settings with ⟨hnone, husual⟩ | hfound
  · rw [hnone, husual]
    rfl
  · rw [hfound]
    rfl

theorem ofToml?_tomlMembers (settings : List Setting) :
    ofToml? (tomlMembers settings) = some (under settings) := by
  have capacity := tomlMember?_count settings .initialCapacity
  have entries := tomlMember?_count settings .maxEntries
  have bytes := tomlMember?_count settings .maxEntryBytes
  have window := tomlMember?_count settings .windowMs
  have words := tomlMember?_acrossWords settings
  simp only [Count.of, Count.name] at capacity entries bytes window words
  simp only [ofToml?, capacity, entries, bytes, window, words, Option.bind_eq_bind,
    Option.bind_some, Option.pure_def]

end Toml

section Json

/-- Settings as members of an object. -/
def jsonMembers (settings : List Setting) : List (String × Json) :=
  settings.map fun s => (s.name, s.toJson)

theorem find?_jsonMembers (settings : List Setting) (name : String) :
    ((jsonMembers settings).find? (·.1 == name)).map (·.2) =
      (settings.find? (·.name == name)).map Setting.toJson := by
  simp [jsonMembers, List.find?_map, Function.comp_def]

variable {settings : List Setting}

theorem withDefault?_count (fits : ∀ s ∈ settings, s.Fits) (k : Count) :
    Json.withDefault? (k.of {}) Json.nat?
      ((settings.find? (·.name == k.name)).map Setting.toJson) =
      some (k.of (under settings)) := by
  rcases find?_count settings k with ⟨hnone, husual⟩ | hfound
  · rw [hnone, husual]
    rfl
  · have hfit : k.of (under settings) < Word.half := fits _ (List.mem_of_find?_eq_some hfound)
    have hword : k.of (under settings) < Word.size :=
      Nat.lt_trans hfit (by decide)
    rw [hfound]
    simp [Json.withDefault?, Setting.toJson, Json.nat?_ofNat, hword]

theorem withDefault?_acrossWords (settings : List Setting) :
    Json.withDefault? ({} : Policy).acrossWords Json.bool?
        ((settings.find? (·.name == "merge_across_words")).map Setting.toJson) =
      some (under settings).acrossWords := by
  rcases find?_acrossWords settings with ⟨hnone, husual⟩ | hfound
  · rw [hnone, husual]
    rfl
  · rw [hfound]
    rfl

theorem ofJson?_jsonMembers (distinct : (settings.map Setting.name).Nodup)
    (fits : ∀ s ∈ settings, s.Fits) :
    ofJson? (Json.record (jsonMembers settings)) = some (under settings) := by
  have named : ((jsonMembers settings).map (·.1)).Nodup := by
    simpa [jsonMembers, Function.comp_def] using distinct
  have members := Json.members?_record names named
  have capacity := withDefault?_count fits .initialCapacity
  have entries := withDefault?_count fits .maxEntries
  have bytes := withDefault?_count fits .maxEntryBytes
  have window := withDefault?_count fits .windowMs
  have words := withDefault?_acrossWords settings
  simp only [find?_jsonMembers, names, List.map_cons, List.map_nil] at members
  simp only [Count.of, Count.name] at capacity entries bytes window words
  rw [ofJson?, names, members]
  simp only [capacity, entries, bytes, window, words, Option.bind_eq_bind, Option.bind_some,
    Option.pure_def]

end Json

/-! ## Reading settings -/

namespace Setting

theorem name_mem (s : Setting) : s.name ∈ names := by
  cases s with
  | count k n => cases k <;> simp [name, Count.name, names]
  | acrossWords b => simp [name, names]

/-- The names of the limits need no quotes in TOML. -/
theorem bareKey_name (s : Setting) : Toml.Reader.BareKey s.name.toList := by
  have bare : ∀ name ∈ names, name.toList ≠ [] ∧ name.toList.all Toml.isBare := by decide
  obtain ⟨nonempty, all⟩ := bare _ s.name_mem
  exact ⟨nonempty, List.all_eq_true.mp all⟩

/-- The names of the limits need no escapes in JSON. -/
theorem escape_name (s : Setting) : Json.Literal.escape s.name.toList = s.name.toList := by
  have plain : ∀ name ∈ names, Json.Literal.escape name.toList = name.toList := by decide
  exact plain _ s.name_mem

theorem reads_toToml {s : Setting} (h : s.Fits) : Toml.Reader.Reads s.written s.toToml := by
  cases s with
  | count k n => exact Toml.Reader.reads_digits h
  | acrossWords b => cases b with
    | false => exact Toml.Reader.reads_false
    | true => exact Toml.Reader.reads_true

theorem compact_toJson (s : Setting) : s.toJson.compact = s.written := by
  cases s with
  | count k n => rfl
  | acrossWords b => cases b <;> rfl

theorem legible_toJson (s : Setting) : s.toJson.Legible := by
  cases s with
  | count k n => exact Json.legible_ofNat n
  | acrossWords b => exact Json.legible_bool b

end Setting

variable {settings : List Setting}

/-- **Settings in TOML are read as the policy under them.** -/
theorem parse_tomlText (distinct : (settings.map Setting.name).Nodup)
    (fits : ∀ s ∈ settings, s.Fits) (closed : Bool) :
    parse .toml (tomlText closed settings) = .ok (under settings) := by
  have names : (settings.map fun s => s.name.toList).Nodup := by
    simpa [Function.comp_def] using distinct.map fun _ _ => String.toList_inj.mp
  have read := Toml.parse?_document (fun s _ => s.bareKey_name)
    (fun s hs => Setting.reads_toToml (fits s hs)) names closed
  rw [parse, tomlText, read]
  have made := ofToml?_tomlMembers settings
  rw [tomlMembers] at made
  simp [made]

/-- **Settings in JSON are read as the policy under them.** -/
theorem parse_jsonText (distinct : (settings.map Setting.name).Nodup)
    (fits : ∀ s ∈ settings, s.Fits) (sp : Json.Spacing) :
    parse .json (jsonText sp settings) = .ok (under settings) := by
  have values : ∀ m ∈ jsonMembers settings, Json.Reader.Reads m.2.compact m.2 :=
    List.forall_mem_map.mpr fun s _ => s.legible_toJson.compact
  have read := Json.parse?_object sp values
  simp only [jsonMembers, List.map_map, Function.comp_def, Setting.escape_name,
    Setting.compact_toJson] at read
  have made := ofJson?_jsonMembers distinct fits
  rw [jsonMembers] at made
  simp [parse, jsonText, read, made]

end Policy

open Policy in
/-- **The same settings make the same policy in both formats**: in any order, also two
different ones, and with any blanks in the JSON text. The policy has the values of the
settings, and those of a journal that nobody set up for every other limit. -/
theorem same_settings_same_policy {l m : List Setting} (distinct : (l.map Setting.name).Nodup)
    (fits : ∀ s ∈ l, s.Fits) (same : l.Perm m) (closed : Bool) (sp : Json.Spacing) :
    ∃ p : Policy, p.Follows l ∧ (∀ q : Policy, q.Follows l → q = p) ∧
      Policy.parse .toml (tomlText closed l) = .ok p ∧
      Policy.parse .json (jsonText sp m) = .ok p ∧
      ({} : Policy).toConfig = {} ∧
      (Policy.parse .toml (tomlText closed l)).map toConfig =
        (Policy.parse .json (jsonText sp m)).map toConfig := by
  have fromToml := parse_tomlText distinct fits closed
  have distinct' : (m.map Setting.name).Nodup := (same.map _).nodup_iff.mp distinct
  have fromJson := parse_jsonText distinct' (fun s hs => fits s (same.mem_iff.mpr hs)) sp
  have agree : under m = under l :=
    (under_follows distinct').unique ((under_follows distinct).perm same)
  rw [agree] at fromJson
  refine ⟨under l, under_follows distinct, fun q hq => hq.unique (under_follows distinct),
    fromToml, fromJson, rfl, ?_⟩
  rw [fromToml, fromJson]

namespace Policy

/-- Three of the limits; one number is the greatest that fits. -/
def threeSettings : List Setting :=
  [.count .windowMs 9223372036854775807, .acrossWords true, .count .maxEntries 0]

/-- Each member on its line, a line break behind the object. -/
def memberLines : Json.Spacing where
  before := []
  inside := ['\n', ' ', ' ']
  colon := [' ']
  comma := ['\n', ' ', ' ']
  close := ['\n']
  behind := ['\n']
  blank := by decide

end Policy

open Policy in
theorem threeSettings_same_policy :
    ∃ p : Policy, p.maxEntries = 0 ∧ p.windowMs = 9223372036854775807 ∧ p.acrossWords = true ∧
      p.initialCapacity = ({} : Config).initialCapacity ∧
      p.maxEntryBytes = ({} : MergeRules).maxEntryBytes ∧
      Policy.parse .toml ("coalesce_window_ms = 9223372036854775807\n".toList ++
        "merge_across_words = true\nmax_entries = 0\n".toList) = .ok p ∧
      Policy.parse .json (
        "\x7b\n  \"max_entries\": 0,\n  \"merge_across_words\": true,\n".toList ++
        "  \"coalesce_window_ms\": 9223372036854775807\n\x7d\n".toList) = .ok p := by
  obtain ⟨p, hp, -, toml, json, -⟩ := same_settings_same_policy (l := threeSettings)
    (by decide) (by decide) (List.reverse_perm threeSettings).symm true memberLines
  refine ⟨p, hp.set (.count .maxEntries 0) (by decide),
    hp.set (.count .windowMs _) (by decide), hp.set (.acrossWords true) (by decide),
    ?_, ?_, ?_, ?_⟩
  · exact hp.usual (.count .initialCapacity _) rfl (by decide)
  · exact hp.usual (.count .maxEntryBytes _) rfl (by decide)
  · exact toml
  · exact json

end EditJournal
