/-
EditJournal.Total — adding up a measure over a list.

Bytes of a text, sizes of entries and starts of lines are all totals; the
lemmas here are what is needed of them: a total over a joined list is the
total over its parts (`total_append`), and order does not matter
(`total_reverse`).
-/

namespace EditJournal

variable {α : Type}

/-- The sum of a measure over a list. -/
def total (measure : α → Nat) (items : List α) : Nat :=
  items.foldr (fun item sum => measure item + sum) 0

@[simp] theorem total_nil (measure : α → Nat) : total measure [] = 0 := rfl

@[simp] theorem total_cons (measure : α → Nat) (item : α) (items : List α) :
    total measure (item :: items) = measure item + total measure items := rfl

@[simp] theorem total_append (measure : α → Nat) (front back : List α) :
    total measure (front ++ back) = total measure front + total measure back := by
  induction front with
  | nil => simp
  | cons item front ih =>
    rw [List.cons_append, total_cons, total_cons, ih]
    omega

@[simp] theorem total_reverse (measure : α → Nat) (items : List α) :
    total measure items.reverse = total measure items := by
  induction items with
  | nil => rfl
  | cons item items ih =>
    rw [List.reverse_cons, total_append, total_cons, total_nil, total_cons, ih]
    omega

end EditJournal
