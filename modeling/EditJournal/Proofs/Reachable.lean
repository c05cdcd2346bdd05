/-
EditJournal.Proofs.Reachable — the buffers that come about, whatever is done.

* `Journal.Sound.load` — a journal stays sound whatever file it takes over.
* `Buffer.Reachable` — the buffers that come about by any actions, by other
  limits, and by taking over any file.
* `Buffer.Native` — those of them whose history is their own: they have taken over
  no file, and journaled no change that was made elsewhere.

`Buffer.Reachable.sound` is the main result: their journals are sound. For those
with a history of their own, `Buffer.Native.covers` gives a ledger besides.
-/
import EditJournal.Proofs.Acceptance
import EditJournal.Proofs.Operations

namespace EditJournal

/-- A journal stays sound whatever file it takes over. -/
theorem Journal.Sound.load {j l : Journal} (h : j.Sound) {contents : Text} {path : Path}
    {d : Directory} {version : Nat}
    (loaded : (j.load contents path d).value = .ok (some (version, l))) : l.Sound := by
  obtain ⟨file, entries, found, suits, -, rfl⟩ := Journal.load_eq_ok_some_iff.mp loaded
  exact h.restore (suits.plain (JournalFile.sound_of_load found).1) _ _ _

/-! ## Buffers -/

/-- The buffers that come about, on any texts and screens. -/
inductive Buffer.Reachable : Buffer Text → Prop
  | create (name text : Text) (config : Config) (refusals : List Bool) :
      Reachable (Buffer.create name text config refusals).value
  | act (s : Session Text) (action : Action) (h : Reachable s.buffer) :
      Reachable (s.act action).value.2.buffer
  | withConfig (b : Buffer Text) (config : Config) (refusals : List Bool) (h : Reachable b) :
      Reachable (b.withConfig config refusals).value
  | load (b : Buffer Text) (path : Path) (d : Directory) (h : Reachable b) :
      Reachable (b.loadHistory path d).value.2
  /-- Display brackets are opened and closed around the changes. -/
  | displayed (b : Buffer Text) (depth : EditDepth) (h : Reachable b) :
      Reachable { b with depth }

/-- **The journal of every buffer that comes about is sound.** -/
theorem Buffer.Reachable.sound {b : Buffer Text} (h : b.Reachable) : b.journal.Sound := by
  induction h with
  | create name text config refusals => exact Journal.sound_create config refusals
  | act s action h ih =>
    exact (s.act_becomes action).sound ih
  | withConfig b config refusals h ih => exact Journal.sound_create config refusals
  | load b path d h ih =>
    simp only [Buffer.loadHistory, Narrated.value_bind]
    split
    · exact ih
    · exact ih
    · rename_i version journal hload
      exact ih.load hload
  | displayed b depth h ih => exact ih

theorem Buffer.Reachable.after {s : Session Text} (h : s.buffer.Reachable)
    (actions : List Action) : (s.after actions).buffer.Reachable := by
  induction actions generalizing s with
  | nil => exact h
  | cons action rest ih => exact ih (h.act s action)

theorem Buffer.Reachable.of_loadHistory {b c : Buffer Text} (h : b.Reachable) {path : Path}
    {d : Directory} {result : Except JournalFile.Error Bool}
    (loaded : (b.loadHistory path d).value = (result, c)) : c.Reachable := by
  have step := h.load b path d
  rwa [loaded] at step

/-! ## Buffers with a history of their own -/

/-- The buffers that come about without files, by changes that they made themselves. -/
inductive Buffer.Native : Buffer Text → Prop
  | create (name text : Text) (config : Config) (refusals : List Bool) :
      Native (Buffer.create name text config refusals).value
  | act (s : Session Text) (action : Action) (own : action.isForeign = false)
      (h : Native s.buffer) : Native (s.act action).value.2.buffer
  | withConfig (b : Buffer Text) (config : Config) (refusals : List Bool) (h : Native b) :
      Native (b.withConfig config refusals).value
  | displayed (b : Buffer Text) (depth : EditDepth) (h : Native b) : Native { b with depth }

namespace Buffer.Native

theorem reachable {b : Buffer Text} (h : b.Native) : b.Reachable := by
  induction h with
  | create name text config refusals => exact .create name text config refusals
  | act s action own h ih => exact ih.act s action
  | withConfig b config refusals h ih => exact ih.withConfig b config refusals
  | displayed b depth h ih => exact ih.displayed b depth

theorem after {s : Session Text} (h : s.buffer.Native) {actions : List Action}
    (own : ∀ action ∈ actions, action.isForeign = false) :
    (s.after actions).buffer.Native := by
  induction actions generalizing s with
  | nil => exact h
  | cons action rest ih =>
    rw [List.forall_mem_cons] at own
    exact ih (h.act s action own.1) own.2

/-- **A history of its own is accounted for by a ledger.** -/
theorem covers {b : Buffer Text} (h : b.Native) : ∃ ledger : Ledger, ledger.Covers b := by
  induction h with
  | create name text config refusals =>
    exact ⟨_, Session.opened_covers name text config refusals⟩
  | act s action own h ih =>
    obtain ⟨ledger, covers⟩ := ih
    obtain ⟨later, carries⟩ := Session.act_carries covers own
    exact ⟨later, carries.covers⟩
  | withConfig b config refusals h ih =>
    -- the new journal is empty, and the text as it is now counts as saved
    obtain ⟨capacity, rest, -, created⟩ := Journal.value_create config refusals
    refine ⟨fun _ => b.contents, ?_⟩
    simp only [Buffer.withConfig, Narrated.value_bind, Narrated.value_pure, created]
    exact ⟨.fresh b.contents rfl rfl rfl Nat.zero_lt_one, Nat.zero_lt_one⟩
  | displayed b depth h ih =>
    obtain ⟨ledger, covers⟩ := ih
    exact ⟨ledger, covers.explains, covers.saved_lt⟩

end Buffer.Native

end EditJournal
