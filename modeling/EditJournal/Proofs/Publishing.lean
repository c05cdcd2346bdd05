/-
EditJournal.Proofs.Publishing — how deep the display brackets are, and when the
screen is redrawn.

* `BracketCall` — what is done to brackets and scopes, as data; `Display.call` and
  `Display.after` do it to a depth, a screen and the open scopes.
* `BracketCall.count`, `BracketCall.publishes` — the depth behind a call, and whether
  the call redraws.
* `BracketCall.openScopes` — the open scopes, and which of them were opened since the
  last abort.
* `BracketCall.Balanced n calls` — brackets in pairs, of which `n` are outermost.

`brackets_publish_once` is the main result. Each call counts as it should, and no other
one than an outermost commit or an abort redraws. So an abort inside a scope leaves
outer scopes behind that are committed later, but none of these commits closes a newer
bracket; and brackets in pairs redraw once for each outermost one.

## How the proof goes

A run follows the two functions on depths (`Display.Open.call`), and what is left is to
be proved of them. Scopes end in the order in which an abort made them stale: behind
every call the ones opened since are the innermost ones, and as many as the depth
(`BracketCall.openScopes_eq`).
-/
import EditJournal.Display.Brackets

namespace EditJournal

/-- What is done to the brackets of a display. -/
inductive BracketCall where
  | begin
  | commit
  | abort
  /-- A scope is opened. -/
  | enter
  /-- The innermost scope is ended. -/
  | finish (how : ScopeEnd)
  deriving DecidableEq, Repr

/-- A depth, a screen, and the open scopes, the innermost one first. -/
structure Display where
  depth : EditDepth := {}
  screen : Screen := {}
  scopes : List EditScope := []
  deriving DecidableEq, Repr

namespace Display

/-- Does one call. Where no scope is open, there is none to end. -/
def call (s : Display) : BracketCall → Narrated Display
  | .begin => do
    let (_, depth) ← s.depth.begin
    return { s with depth }
  | .commit => do
    let (_, depth, screen) ← s.depth.commit s.screen
    return { s with depth, screen }
  | .abort => do
    let (depth, screen) ← s.depth.abort s.screen
    return { s with depth, screen }
  | .enter => do
    let (scope, depth) ← EditScope.enter s.depth
    return { s with depth, scopes := scope :: s.scopes }
  | .finish how =>
    match s.scopes with
    | [] => return s
    | scope :: scopes => do
      let (_, depth, screen) ← scope.finish how s.depth s.screen
      return { depth, screen, scopes }

/-- The display behind some calls. -/
def after (s : Display) (calls : List BracketCall) : Display :=
  calls.foldl (fun s c => (s.call c).value) s

@[simp] theorem after_nil (s : Display) : s.after [] = s := rfl

@[simp] theorem after_cons (s : Display) (c : BracketCall) (rest : List BracketCall) :
    s.after (c :: rest) = (s.call c).value.after rest := rfl

theorem after_append (s : Display) (first second : List BracketCall) :
    s.after (first ++ second) = (s.after first).after second :=
  List.foldl_append

end Display

namespace BracketCall

/-! ## What a call does to the depth -/

/-- The depth behind a call that finds the depth `n`. -/
def count (n : Nat) : BracketCall → Nat
  | .begin | .enter => n + 1
  | .commit | .finish .commit | .finish .drop => n - 1
  | .abort | .finish .abort => 0

/-- Does a call that finds the depth `n` redraw the screen? -/
def publishes (n : Nat) : BracketCall → Bool
  | .begin | .enter => false
  | .commit | .finish .commit | .finish .drop => n ≤ 1
  | .abort | .finish .abort => true

/-- The depth behind some calls. -/
def depthBehind (n : Nat) (calls : List BracketCall) : Nat := calls.foldl count n

/-- How many of some calls redraw the screen. -/
def redraws (n : Nat) : List BracketCall → Nat
  | [] => 0
  | c :: rest => (c.publishes n).toNat + redraws (c.count n) rest

@[simp] theorem depthBehind_nil (n : Nat) : depthBehind n [] = n := rfl

@[simp] theorem depthBehind_cons (n : Nat) (c : BracketCall) (rest : List BracketCall) :
    depthBehind n (c :: rest) = depthBehind (c.count n) rest := rfl

theorem depthBehind_append (n : Nat) (first second : List BracketCall) :
    depthBehind n (first ++ second) = depthBehind (depthBehind n first) second :=
  List.foldl_append

@[simp] theorem redraws_nil (n : Nat) : redraws n [] = 0 := rfl

@[simp] theorem redraws_cons (n : Nat) (c : BracketCall) (rest : List BracketCall) :
    redraws n (c :: rest) = (c.publishes n).toNat + redraws (c.count n) rest := rfl

theorem redraws_append (n : Nat) (first second : List BracketCall) :
    redraws n (first ++ second) = redraws n first + redraws (depthBehind n first) second := by
  induction first generalizing n with
  | nil => simp
  | cons c first ih =>
    rw [List.cons_append, redraws_cons, redraws_cons, depthBehind_cons, ih]
    omega

/-! ## Scopes that are open -/

/-- How many scopes are open behind a call. -/
def scopesBehind (n : Nat) : BracketCall → Nat
  | .enter => n + 1
  | .finish _ => n - 1
  | .begin | .commit | .abort => n

/-- Is a scope ended? -/
def endsScope : BracketCall → Bool
  | .finish _ => true
  | _ => false

/-- Every scope that is ended is open, where `n` scopes are open before the calls. -/
def Lexical (n : Nat) : List BracketCall → Prop
  | [] => True
  | c :: rest => (c.endsScope = true → 0 < n) ∧ Lexical (c.scopesBehind n) rest

instance decidableLexical (n : Nat) : (calls : List BracketCall) → Decidable (Lexical n calls)
  | [] => isTrue trivial
  | c :: rest =>
    have : Decidable (Lexical (c.scopesBehind n) rest) := decidableLexical _ rest
    inferInstanceAs (Decidable (_ ∧ _))

theorem lexical_append {n : Nat} {first second : List BracketCall} :
    Lexical n (first ++ second) ↔
      Lexical n first ∧ Lexical (first.foldl scopesBehind n) second := by
  induction first generalizing n with
  | nil => simp [Lexical]
  | cons c first ih => simp [Lexical, ih, and_assoc]

/-- The open scopes behind a call, the innermost one first: was each of them opened since
the last abort? -/
def mark (opened : List Bool) : BracketCall → List Bool
  | .enter => true :: opened
  | .finish .commit | .finish .drop => opened.tail
  | .finish .abort => opened.tail.map fun _ => false
  | .abort => opened.map fun _ => false
  | .begin | .commit => opened

/-- The open scopes behind some calls, as `mark` has them. -/
def openScopes (calls : List BracketCall) : List Bool := calls.foldl mark []

/-- Is it a call of a scope, or an abort? -/
def ofScopes : BracketCall → Bool
  | .begin | .commit => false
  | _ => true

/-- With scopes only, those opened since the last abort are the innermost ones, and as
many as the depth. -/
theorem mark_foldl_eq {calls : List BracketCall} (alone : ∀ c ∈ calls, c.ofScopes = true)
    (n stale : Nat) :
    ∃ left, calls.foldl mark (List.replicate n true ++ List.replicate stale false) =
      List.replicate (depthBehind n calls) true ++ List.replicate left false := by
  induction calls generalizing n stale with
  | nil => exact ⟨stale, rfl⟩
  | cons c rest ih =>
    rw [List.forall_mem_cons] at alone
    obtain ⟨one, others⟩ := alone
    -- it is enough that one call keeps the shape
    have keeps : ∃ m, mark (List.replicate n true ++ List.replicate stale false) c =
        List.replicate (c.count n) true ++ List.replicate m false := by
      cases c with
      | begin => simp [ofScopes] at one
      | commit => simp [ofScopes] at one
      | abort => exact ⟨n + stale, by simp [mark, count, List.replicate_append_replicate]⟩
      | enter => exact ⟨stale, by simp [mark, count, List.replicate_succ]⟩
      | finish how =>
        cases n with
        | zero =>
          refine ⟨stale - 1, ?_⟩
          cases how <;> simp [mark, count]
        | succ n =>
          cases how with
          | commit => exact ⟨stale, by simp [mark, count, List.replicate_succ]⟩
          | drop => exact ⟨stale, by simp [mark, count, List.replicate_succ]⟩
          | abort =>
            refine ⟨n + stale, ?_⟩
            simp [mark, count, List.replicate_succ, List.replicate_append_replicate]
    obtain ⟨m, shape⟩ := keeps
    rw [List.foldl_cons, shape, depthBehind_cons]
    exact ih others _ _

theorem openScopes_eq {calls : List BracketCall} (alone : ∀ c ∈ calls, c.ofScopes = true) :
    ∃ stale, openScopes calls =
      List.replicate (depthBehind 0 calls) true ++ List.replicate stale false :=
  mark_foldl_eq alone 0 0

theorem length_openScopes (calls : List BracketCall) :
    (openScopes calls).length = calls.foldl scopesBehind 0 := by
  have lengths (opened : List Bool) :
      (calls.foldl mark opened).length = calls.foldl scopesBehind opened.length := by
    induction calls generalizing opened with
    | nil => rfl
    | cons c rest ih =>
      have one : (mark opened c).length = c.scopesBehind opened.length := by
        cases c with
        | finish how => cases how <;> simp [mark, scopesBehind]
        | _ => simp [mark, scopesBehind]
      rw [List.foldl_cons, List.foldl_cons, ih, one]
  exact lengths []

/-! ## Brackets in pairs -/

/-- Does a call open a bracket? -/
def opens : BracketCall → Bool
  | .begin | .enter => true
  | _ => false

/-- Does a call close a bracket? -/
def closes : BracketCall → Bool
  | .commit | .finish .commit | .finish .drop => true
  | _ => false

/-- Brackets in pairs, one in the other or one behind the other; `n` of them are
outermost. -/
inductive Balanced : Nat → List BracketCall → Prop
  | nil : Balanced 0 []
  | pair {opening closing : BracketCall} {m n : Nat} {inner rest : List BracketCall}
      (opens : opening.opens = true) (closes : closing.closes = true)
      (inside : Balanced m inner) (behind : Balanced n rest) :
      Balanced (n + 1) (opening :: (inner ++ closing :: rest))

variable {c : BracketCall} {n m : Nat} {calls : List BracketCall}

theorem count_of_opens (h : c.opens = true) (n : Nat) : c.count n = n + 1 := by
  cases c with
  | begin => rfl
  | enter => rfl
  | _ => simp [opens] at h

theorem publishes_of_opens (h : c.opens = true) (n : Nat) : c.publishes n = false := by
  cases c with
  | begin => rfl
  | enter => rfl
  | _ => simp [opens] at h

theorem count_of_closes (h : c.closes = true) (n : Nat) : c.count n = n - 1 := by
  cases c with
  | commit => rfl
  | finish how => cases how <;> simp [closes] at h <;> rfl
  | _ => simp [closes] at h

theorem publishes_of_closes (h : c.closes = true) (n : Nat) :
    c.publishes n = decide (n ≤ 1) := by
  cases c with
  | commit => rfl
  | finish how => cases how <;> simp [closes] at h <;> rfl
  | _ => simp [closes] at h

/-- **Brackets in pairs lead back to the depth before them.** -/
theorem Balanced.depthBehind_eq (h : Balanced n calls) (m : Nat) :
    depthBehind m calls = m := by
  induction h generalizing m with
  | nil => rfl
  | pair opens closes inside behind ih ih' =>
    rw [depthBehind_cons, depthBehind_append, depthBehind_cons, count_of_opens opens, ih,
      count_of_closes closes, ih', Nat.add_sub_cancel]

/-- **They redraw once for each outermost one**, and never inside another bracket. -/
theorem Balanced.redraws_eq (h : Balanced n calls) (m : Nat) :
    redraws m calls = if m = 0 then n else 0 := by
  induction h generalizing m with
  | nil => simp
  | @pair opening closing k n inner rest opens closes inside behind ih ih' =>
    have inner_redraws : redraws (m + 1) inner = 0 := by rw [ih, if_neg (Nat.succ_ne_zero m)]
    rw [redraws_cons, redraws_append, redraws_cons, publishes_of_opens opens,
      count_of_opens opens, inner_redraws, inside.depthBehind_eq, publishes_of_closes closes,
      count_of_closes closes, Nat.add_sub_cancel, ih']
    by_cases outermost : m = 0
    · simp [outermost, Nat.add_comm]
    · have nested : ¬ m + 1 ≤ 1 := by omega
      simp [outermost, nested]

end BracketCall

open BracketCall

/-! ## Brackets and scopes -/

/-- The screen behind a forced redraw. -/
def Screen.redrawn (s : Screen) : Screen :=
  { dirty := false, redraws := s.redraws + 1, forced := s.forced + 1 }

@[simp] theorem Screen.publish_eq_redrawn (s : Screen) : s.publish = s.redrawn := rfl

theorem EditDepth.value_commit (d : EditDepth) (screen : Screen) :
    (d.commit screen).value =
      (decide (d.level ≤ 1), ⟨d.level - 1⟩,
        if d.level ≤ 1 then screen.redrawn else screen) := by
  unfold EditDepth.commit
  by_cases last : d.level ≤ 1
  · have outermost : ¬ 1 < d.level := Nat.not_lt.mpr last
    by_cases unmatched : d.level = 0
    · simp [unmatched]
    · simp [last, outermost, unmatched]
  · have nested : 1 < d.level := Nat.lt_of_not_le last
    have matched : d.level ≠ 0 := Nat.ne_of_gt (Nat.zero_lt_of_lt nested)
    simp [last, nested, matched]

namespace EditScope

variable {scope : EditScope} (d : EditDepth) (screen : Screen)

/-- A scope that was committed or aborted does nothing more when it is left. -/
theorem leave_of_finished (h : scope.finished = true) :
    scope.leave d screen = pure (d, screen) := by
  simp [leave, h]

/-- One that was neither is committed then. -/
theorem leave_of_unfinished (h : scope.finished = false) :
    (scope.leave d screen).value = (d.commit screen).value.2 ∧
      (scope.leave d screen).notes = (d.commit screen).notes := by
  simp [leave, h]

theorem value_finish (scope : EditScope) (h : scope.finished = false) (how : ScopeEnd) :
    (scope.finish how d screen).value.2 =
      match how with
      | .commit | .drop => (d.commit screen).value.2
      | .abort => (d.abort screen).value := by
  cases how with
  | commit => rfl
  | abort => rfl
  | drop => exact (leave_of_unfinished d screen h).1

end EditScope

/-! ## Runs -/

namespace Display

/-- There are `n` open scopes, and none of them is finished. -/
structure Open (s : Display) (n : Nat) : Prop where
  length : s.scopes.length = n
  unfinished : ∀ scope ∈ s.scopes, scope.finished = false

/-- A call found the display `s` and left the display `t`: the depth counts, and the
screen is redrawn where that publishes. -/
structure Counts (c : BracketCall) (s t : Display) : Prop where
  level : t.depth.level = c.count s.depth.level
  screen : t.screen = if c.publishes s.depth.level then s.screen.redrawn else s.screen

variable {s t : Display} {n : Nat} {c : BracketCall}

theorem Counts.redraws (h : Counts c s t) :
    t.screen.redraws = s.screen.redraws + (c.publishes s.depth.level).toNat := by
  rw [h.screen]
  cases c.publishes s.depth.level <;> rfl

theorem Counts.forced (h : Counts c s t) :
    t.screen.forced = s.screen.forced + (c.publishes s.depth.level).toNat := by
  rw [h.screen]
  cases c.publishes s.depth.level <;> rfl

/-- **What one call does**, if it ends no scope but an open one. -/
theorem Open.call (h : s.Open n) (lexical : c.endsScope = true → 0 < n) :
    Counts c s (s.call c).value ∧ (s.call c).value.Open (c.scopesBehind n) := by
  cases c with
  | begin => exact ⟨⟨rfl, rfl⟩, h.length, h.unfinished⟩
  | commit =>
    have committed := s.depth.value_commit s.screen
    refine ⟨⟨?_, ?_⟩, h.length, h.unfinished⟩
    · simp [Display.call, committed, count]
    · simp [Display.call, committed, publishes]
  | abort => exact ⟨⟨rfl, rfl⟩, h.length, h.unfinished⟩
  | enter =>
    refine ⟨⟨rfl, rfl⟩, congrArg (· + 1) h.length, ?_⟩
    intro scope member
    rcases List.mem_cons.mp member with rfl | member
    · rfl
    · exact h.unfinished scope member
  | finish how =>
    have some_open := lexical rfl
    have length := h.length
    cases hs : s.scopes with
    | nil =>
      rw [hs, List.length_nil] at length
      omega
    | cons scope outer =>
      have unfinished : ∀ scope' ∈ scope :: outer, scope'.finished = false := hs ▸ h.unfinished
      have ended :=
        EditScope.value_finish s.depth s.screen scope (unfinished scope (by simp)) how
      have value : (s.call (.finish how)).value =
          { depth := (scope.finish how s.depth s.screen).value.2.1
            screen := (scope.finish how s.depth s.screen).value.2.2
            scopes := outer } := by
        simp [Display.call, hs]
      rw [value, ended]
      refine ⟨?_, ?_, ?_⟩
      · have committed := s.depth.value_commit s.screen
        cases how with
        | commit => exact ⟨by simp [committed, count], by simp [committed, publishes]⟩
        | drop => exact ⟨by simp [committed, count], by simp [committed, publishes]⟩
        | abort => exact ⟨rfl, rfl⟩
      · rw [hs, List.length_cons] at length
        show outer.length = n - 1
        omega
      · intro scope' member
        exact unfinished scope' (List.mem_cons_of_mem _ member)

/-- **What a run does.** -/
theorem Open.after (h : s.Open n) {calls : List BracketCall} (lexical : Lexical n calls) :
    (s.after calls).Open (calls.foldl scopesBehind n) ∧
      (s.after calls).depth.level = depthBehind s.depth.level calls ∧
      (s.after calls).screen.redraws = s.screen.redraws + redraws s.depth.level calls ∧
      (s.after calls).screen.forced = s.screen.forced + redraws s.depth.level calls := by
  induction calls generalizing s n with
  | nil => exact ⟨h, rfl, rfl, rfl⟩
  | cons c rest ih =>
    obtain ⟨counts, opened⟩ := h.call lexical.1
    obtain ⟨behind, level, redrawn, forced⟩ := ih opened lexical.2
    rw [counts.level] at level redrawn forced
    refine ⟨behind, level, ?_, ?_⟩
    · rw [after_cons, redrawn, counts.redraws, redraws_cons, Nat.add_assoc]
    · rw [after_cons, forced, counts.forced, redraws_cons, Nat.add_assoc]

end Display

/-- **The depth counts brackets, and the screen is redrawn once for each outermost one and
for each abort.** The calls are any, but that every scope that is ended is open. -/
theorem brackets_publish_once (depth : EditDepth) (screen : Screen) (calls : List BracketCall)
    (lexical : Lexical 0 calls) :
    let start : Display := { depth, screen }
    let s := start.after calls
    -- each call of the run
    (∀ front c back, calls = front ++ c :: back →
      Display.Counts c (start.after front) (start.after (front ++ [c]))) ∧
    -- a scope that was committed or aborted is done; any other one is committed when left
    (∀ (scope : EditScope) (d : EditDepth) (shown : Screen),
      (scope.commit d shown).value.2.1.leave d shown = pure (d, shown) ∧
      (scope.abort d shown).value.1.leave d shown = pure (d, shown) ∧
      (scope.finished = false →
        (scope.leave d shown).value = (d.commit shown).value.2 ∧
          (scope.leave d shown).notes = (d.commit shown).notes)) ∧
    (∀ scope ∈ s.scopes, scope.finished = false) ∧
    -- with scopes only
    (depth.level = 0 → (∀ c ∈ calls, c.ofScopes = true) →
      (openScopes calls).length = s.scopes.length ∧
        s.depth.level = (openScopes calls).count true) ∧
    -- in pairs
    ∀ n, Balanced n calls → depth.level = 0 →
      s.depth.level = 0 ∧ s.screen.redraws = screen.redraws + n ∧
        s.screen.forced = screen.forced + n := by
  intro start s
  have fresh : start.Open 0 := ⟨rfl, by simp [start]⟩
  obtain ⟨opened, level, redrawn, forced⟩ := fresh.after lexical
  refine ⟨?_, ?_, opened.unfinished, ?_, ?_⟩
  · rintro front c back rfl
    obtain ⟨front_lexical, one, -⟩ := lexical_append.mp lexical
    obtain ⟨before, -⟩ := fresh.after front_lexical
    rw [Display.after_append]
    exact (before.call one).1
  · intro scope d shown
    refine ⟨?_, ?_, fun unfinished => scope.leave_of_unfinished d shown unfinished⟩
    · exact EditScope.leave_of_finished d shown rfl
    · exact EditScope.leave_of_finished d shown rfl
  · intro closed alone
    obtain ⟨stale, shape⟩ := openScopes_eq alone
    have here : s.depth.level = depthBehind 0 calls := by rw [← closed]; exact level
    refine ⟨?_, ?_⟩
    · rw [length_openScopes, opened.length]
    · rw [here, shape, List.count_append, List.count_replicate, List.count_replicate]
      simp
  · intro n balanced closed
    have here : start.depth.level = 0 := closed
    rw [here] at level redrawn forced
    rw [balanced.depthBehind_eq] at level
    rw [balanced.redraws_eq, if_pos rfl] at redrawn forced
    exact ⟨level, redrawn, forced⟩

/-- A scope is aborted in another one, which is stale from then on. A newer one is opened
and left in it, and then the stale one is left. -/
def abortedInside : List BracketCall :=
  [.enter, .enter, .finish .abort, .enter, .finish .drop, .finish .drop]

/-- A bracket with a scope in it, and another scope behind it. -/
def sideBySide : List BracketCall :=
  [.begin, .enter, .finish .drop, .commit, .enter, .finish .commit]

/-- The newer scope is at depth 1; the stale one finds depth 0 when it is left, and
redraws. The brackets in pairs redraw twice. -/
theorem abortedInside_publishes_once :
    let newer := ({} : Display).after (abortedInside.take 4)
    let s := ({} : Display).after sideBySide
    Lexical 0 abortedInside ∧
      newer.depth.level = (openScopes (abortedInside.take 4)).count true ∧
      newer.depth.level = 1 ∧
      Display.Counts (.finish .drop) (({} : Display).after (abortedInside.take 5))
        (({} : Display).after abortedInside) ∧
      ((({} : EditScope).leave {} {}).value = (EditDepth.commit {} {}).value.2) ∧
      Lexical 0 sideBySide ∧ Balanced 2 sideBySide ∧ s.depth.level = 0 ∧ s.screen.redraws = 2 ∧
        s.screen.forced = 2 := by
  intro newer s
  obtain ⟨-, -, -, alone, -⟩ := brackets_publish_once {} {} (abortedInside.take 4) (by decide)
  obtain ⟨-, level⟩ := alone rfl (by decide)
  obtain ⟨calls, leaving, -, -, -⟩ := brackets_publish_once {} {} abortedInside (by decide)
  obtain ⟨-, -, left⟩ := leaving {} {} {}
  have dropped : Balanced 1 [.enter, .finish .drop] :=
    @Balanced.pair _ _ _ _ [] [] rfl rfl .nil .nil
  have committed : Balanced 1 [.enter, .finish .commit] :=
    @Balanced.pair _ _ _ _ [] [] rfl rfl .nil .nil
  have pairs : Balanced 2 sideBySide := @Balanced.pair _ _ _ _ _ _ rfl rfl dropped committed
  obtain ⟨-, -, -, -, paired⟩ := brackets_publish_once {} {} sideBySide (by decide)
  refine ⟨by decide, level, by decide, ?_, (left rfl).1, by decide, pairs, paired 2 pairs rfl⟩
  exact calls (abortedInside.take 5) (.finish .drop) [] rfl

end EditJournal
