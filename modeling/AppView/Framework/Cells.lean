import Mathlib

/-!
# Cells that threads fill and empty

A memory of cells, in which zero means that a cell is empty. `contents` is what the cells hold:
a value stored in an empty cell adds to it, a cell that is cleared takes its value away.
-/

namespace AppView.Framework

open Function

theorem sum_update {κ β M : Type*} [DecidableEq κ] [AddCommMonoid M] {s : Finset κ} {i : κ}
    (hi : i ∈ s) (g : β → M) (f : κ → β) (v : β) :
    ∑ j ∈ s, g (update f i v j) + g (f i) = ∑ j ∈ s, g (f j) + g v := by
  have hcomp : ∀ j, g (update f i v j) = update (fun j => g (f j)) i (g v) j :=
    apply_update (fun _ => g) f i v
  simp only [hcomp]
  rw [Finset.sum_update_of_mem hi, ← Finset.sum_sdiff (Finset.singleton_subset_iff.mpr hi),
    Finset.sum_singleton, add_comm (g v), add_right_comm]

/-! ## What the cells hold -/

section Contents

variable {α : Type*} [Zero α] [DecidableEq α]

def cell (v : α) : Multiset α := if v = 0 then 0 else {v}

@[simp] theorem cell_zero : cell (0 : α) = 0 := if_pos rfl

variable {v : α}

theorem cell_of_ne (hv : v ≠ 0) : cell v = {v} := if_neg hv

/-- The values in the first `m` cells. -/
def contents (m : ℕ) (memory : ℕ → α) : Multiset α := ∑ i ∈ Finset.range m, cell (memory i)

variable {m i : ℕ} {memory : ℕ → α}

theorem contents_update (hi : i < m) (v : α) :
    contents m (update memory i v) + cell (memory i) = contents m memory + cell v :=
  sum_update (Finset.mem_range.mpr hi) cell memory v

theorem contents_store (hi : i < m) (hempty : memory i = 0) (hv : v ≠ 0) :
    contents m (update memory i v) = contents m memory + {v} := by
  have h : contents m (update memory i v) + cell (memory i) = _ :=
    contents_update hi v
  rwa [hempty, cell_zero, add_zero, cell_of_ne hv] at h

theorem contents_clear (hi : i < m) (hv : v ≠ 0) (hfull : memory i = v) :
    contents m (update memory i 0) + {v} = contents m memory := by
  have h : contents m (update memory i 0) + cell (memory i) = _ :=
    contents_update hi 0
  rwa [hfull, cell_zero, add_zero, cell_of_ne hv] at h

theorem contents_zero : contents m (fun _ => (0 : α)) = 0 :=
  Finset.sum_eq_zero fun _ _ => cell_zero

theorem eq_zero_of_contents (h : contents m memory = 0) (hi : i < m) : memory i = 0 := by
  by_contra hne
  have hclear := contents_clear hi hne rfl
  rw [h] at hclear
  exact absurd (congrArg Multiset.card hclear) (by simp)

end Contents

/-! ## How many threads are at a place -/

section Counted

variable {τ π : Type*}

/-- Exactly `n` threads are at the place. -/
def Counted (place : π → Prop) (pc : τ → π) (n : ℕ) : Prop :=
  ∃ ts : Finset τ, (∀ t, t ∈ ts ↔ place (pc t)) ∧ ts.card = n

variable {place : π → Prop} {pc : τ → π} {n : ℕ} {t : τ} {pc' : π}

theorem Counted.eq_zero (h : Counted place pc n) (hnone : ∀ t, ¬ place (pc t)) : n = 0 := by
  obtain ⟨ts, hts, hcard⟩ := h
  rw [← hcard, Finset.card_eq_zero]
  exact Finset.eq_empty_of_forall_notMem fun t ht => hnone t ((hts t).mp ht)

theorem counted_zero (hnone : ∀ t, ¬ place (pc t)) : Counted place pc 0 :=
  ⟨∅, fun t => by simp [hnone t], rfl⟩

variable [DecidableEq τ]

theorem Counted.same (h : Counted place pc n) (hsame : place pc' ↔ place (pc t)) :
    Counted place (update pc t pc') n := by
  obtain ⟨ts, hts, hcard⟩ := h
  refine ⟨ts, fun u => ?_, hcard⟩
  by_cases hu : u = t
  · subst hu
    rw [update_self, hsame, hts]
  · rw [update_of_ne hu, hts]

theorem Counted.enter (h : Counted place pc n) (hout : ¬ place (pc t)) (hin : place pc') :
    Counted place (update pc t pc') (n + 1) := by
  obtain ⟨ts, hts, hcard⟩ := h
  refine ⟨insert t ts, fun u => ?_, ?_⟩
  · by_cases hu : u = t
    · subst hu
      simp [hin]
    · rw [update_of_ne hu, Finset.mem_insert, hts]
      simp [hu]
  · rw [Finset.card_insert_of_notMem fun hmem => hout ((hts t).mp hmem), hcard]

theorem Counted.leave (h : Counted place pc n) (hin : place (pc t)) (hout : ¬ place pc') :
    ∃ k, n = k + 1 ∧ Counted place (update pc t pc') k := by
  obtain ⟨ts, hts, hcard⟩ := h
  have hmem : t ∈ ts := (hts t).mpr hin
  refine ⟨(ts.erase t).card, ?_, ts.erase t, fun u => ?_, rfl⟩
  · rw [Finset.card_erase_add_one hmem, hcard]
  · by_cases hu : u = t
    · subst hu
      simp [hout]
    · rw [update_of_ne hu, Finset.mem_erase, hts]
      simp [hu]

end Counted

end AppView.Framework
