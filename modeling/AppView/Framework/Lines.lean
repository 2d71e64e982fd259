import Mathlib

/-!
# Texts of complete lines

A text over any characters, of which one ends a line.
-/

namespace AppView.Framework

variable {α : Type*} {newline : α}

/-- Empty, or with a line end at the end. -/
def Complete (newline : α) (text : List α) : Prop := ∀ c ∈ text.getLast?, c = newline

instance Complete.decidable [DecidableEq α] (newline : α) (text : List α) :
    Decidable (Complete newline text) :=
  inferInstanceAs (Decidable (∀ c ∈ text.getLast?, c = newline))

theorem Complete.tail {c : α} {cs : List α} (h : Complete newline (c :: cs)) :
    Complete newline cs := by
  intro x hx
  refine h x ?_
  have hcs : cs ≠ [] := by
    rintro rfl
    cases hx
  rwa [List.getLast?_cons_of_ne_nil hcs]

theorem Complete.ne_nil {c : α} {cs : List α} (h : Complete newline (c :: cs))
    (hc : c ≠ newline) : cs ≠ [] := by
  rintro rfl
  exact hc (h c rfl)

theorem Complete.drop {text : List α} (h : Complete newline text) (n : ℕ) :
    Complete newline (text.drop n) := by
  induction n generalizing text with
  | zero => exact h
  | succ n ih =>
    cases text with
    | nil => exact h
    | cons c cs => exact ih h.tail

end AppView.Framework
