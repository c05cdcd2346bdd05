/-
EditJournal.Narrated — a value together with what was told on the way to it.

Operations are pure: instead of writing to a log, they hand over their notes
in order. `value_bind` and `notes_bind` say what running one after the other
means; statements about values never see the notes.
-/
import EditJournal.Event

namespace EditJournal

/-- A value, and the notes told on the way to it, oldest first. -/
structure Narrated (α : Type) where
  value : α
  notes : List Note := []

namespace Narrated

variable {α β : Type}

instance : Monad Narrated where
  pure a := ⟨a, []⟩
  bind x f :=
    let y := f x.value
    ⟨y.value, x.notes ++ y.notes⟩

/-- Tells an event. -/
def tell (event : Event) : Narrated Unit := ⟨(), [⟨event, none⟩]⟩

/-- Puts a history step around the notes that have none. -/
def within (span : Span) (x : Narrated α) : Narrated α :=
  { x with notes := x.notes.map fun n => { n with span := n.span.or (some span) } }

@[simp] theorem value_pure (a : α) : (pure a : Narrated α).value = a := rfl

@[simp] theorem notes_pure (a : α) : (pure a : Narrated α).notes = [] := rfl

@[simp] theorem value_bind (x : Narrated α) (f : α → Narrated β) :
    (x >>= f).value = (f x.value).value := rfl

@[simp] theorem notes_bind (x : Narrated α) (f : α → Narrated β) :
    (x >>= f).notes = x.notes ++ (f x.value).notes := rfl

@[simp] theorem value_map (g : α → β) (x : Narrated α) : (g <$> x).value = g x.value := rfl

@[simp] theorem notes_map (g : α → β) (x : Narrated α) : (g <$> x).notes = x.notes := by
  show x.notes ++ [] = x.notes
  simp

@[simp] theorem value_tell (e : Event) : (tell e).value = () := rfl

@[simp] theorem notes_tell (e : Event) : (tell e).notes = [⟨e, none⟩] := rfl

@[simp] theorem value_within (s : Span) (x : Narrated α) : (within s x).value = x.value := rfl

end Narrated

end EditJournal
