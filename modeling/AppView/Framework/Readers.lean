import Mathlib

/-!
# Readers that take from the front

A reader takes a value off the front of a list and returns it with what is left.
-/

namespace AppView.Framework

open Option

variable {α β γ : Type*}

abbrev Reader (α β : Type*) := List α → Option (β × List α)

structure Reader.Local (p : Reader α β) : Prop where
  rest : ∀ {s x r}, p s = some (x, r) → r <:+ s
  cut : ∀ {s b x r}, p (s ++ b) = some (x, r ++ b) → p s = some (x, r)

/-- Something is taken whenever something is read. -/
def Reader.Strict (p : Reader α β) : Prop :=
  ∀ ⦃s x r⦄, p s = some (x, r) → r.length < s.length

namespace Reader

variable {p : Reader α β}

theorem Strict.ne_append (hp : Strict p) {b r : List α} {x : β} : p b ≠ some (x, r ++ b) := by
  intro h
  have hlt := hp h
  rw [List.length_append] at hlt
  omega

theorem Local.bind (hp : Local p) {f : β → Reader α γ} (hf : ∀ x, Local (f x)) :
    Local (fun s => (p s).bind fun y => f y.1 y.2) where
  rest := by
    intro s z r h
    obtain ⟨⟨x, r₁⟩, hx, hz⟩ := bind_eq_some_iff.1 h
    exact ((hf x).rest hz).trans (hp.rest hx)
  cut := by
    intro s b z r h
    obtain ⟨⟨x, r₁⟩, hx, hz⟩ := bind_eq_some_iff.1 h
    -- the second reader left `r ++ b`, so the first one stopped before the end `b`
    obtain ⟨a, rfl⟩ := (hf x).rest hz
    rw [← List.append_assoc] at hx hz
    rw [hp.cut hx]
    exact (hf x).cut hz

theorem Local.map (hp : Local p) (g : β → γ) :
    Local (fun s => (p s).map fun y => (g y.1, y.2)) where
  rest := by
    intro s z r h
    obtain ⟨⟨x, r₁⟩, hx, hz⟩ := map_eq_some_iff.1 h
    cases hz
    exact hp.rest hx
  cut := by
    intro s b z r h
    obtain ⟨⟨x, r₁⟩, hx, hz⟩ := map_eq_some_iff.1 h
    obtain ⟨rfl, rfl⟩ : g x = z ∧ r₁ = r ++ b := by simpa using hz
    rw [hp.cut hx]
    rfl

end Reader

end AppView.Framework
