import Mathlib

/-!
# Searching with skips

A search that tests candidate positions from left to right and, after a failed test, jumps
ahead by a precomputed distance.
-/

namespace AppView.Framework

/-- Positions `j`, `j + skip j`, ... are tested while they stay below `bound`. -/
def skipSearch (test : ℕ → Bool) (skip : ℕ → ℕ) (bound : ℕ) : ℕ → ℕ → Option ℕ
  | 0, _ => none
  | fuel + 1, j =>
    if j < bound then
      if test j then some j else skipSearch test skip bound fuel (j + skip j)
    else none

/-- Jumps make progress and never pass over a position that passes the test. -/
structure SafeSkip (test : ℕ → Bool) (skip : ℕ → ℕ) (bound : ℕ) : Prop where
  progress : ∀ j, 0 < skip j
  safe : ∀ j k, j < bound → test j = false → j < k → k < j + skip j →
    k < bound → test k = false

variable {test : ℕ → Bool} {skip : ℕ → ℕ} {bound : ℕ} {fuel : ℕ}

theorem skipSearch_some {j i : ℕ} (h : skipSearch test skip bound fuel j = some i) :
    j ≤ i ∧ i < bound ∧ test i = true := by
  induction fuel generalizing j with
  | zero => simp [skipSearch] at h
  | succ fuel ih =>
    simp only [skipSearch] at h
    split at h
    · rename_i hj
      split at h
      · rename_i ht
        obtain rfl : j = i := by simpa using h
        exact ⟨le_rfl, hj, ht⟩
      · obtain ⟨hle, hlt, ht⟩ := ih h
        exact ⟨by omega, hlt, ht⟩
    · simp at h

theorem skipSearch_least (hs : SafeSkip test skip bound) {j : ℕ} (hf : bound < fuel + j) :
    ∀ k, j ≤ k → k < bound → test k = true →
      ∃ i, skipSearch test skip bound fuel j = some i ∧ i ≤ k := by
  induction fuel generalizing j with
  | zero =>
    intro k hjk hk _
    omega
  | succ fuel ih =>
    intro k hjk hk ht
    have hj : j < bound := by omega
    by_cases htj : test j = true
    · exact ⟨j, by simp [skipSearch, hj, htj], hjk⟩
    · have hjf : test j = false := by simpa using htj
      -- `k` passes, so the jump from `j` cannot have gone beyond it
      have hge : j + skip j ≤ k := by
        by_contra hlt
        rcases Nat.eq_or_lt_of_le hjk with rfl | hlt'
        · rw [hjf] at ht
          exact Bool.noConfusion ht
        · have := hs.safe j k hj hjf hlt' (by omega) hk
          rw [this] at ht
          exact Bool.noConfusion ht
      have hp := hs.progress j
      obtain ⟨i, hi, hik⟩ := ih (j := j + skip j) (by omega) k hge hk ht
      exact ⟨i, by simp [skipSearch, hj, hjf, hi], hik⟩

theorem skipSearch_eq_some (hs : SafeSkip test skip bound) {i : ℕ} (hf : bound < fuel) :
    skipSearch test skip bound fuel 0 = some i ↔
      i < bound ∧ test i = true ∧ ∀ k < i, test k = false := by
  constructor
  · intro h
    obtain ⟨-, hlt, ht⟩ := skipSearch_some h
    refine ⟨hlt, ht, fun k hk => ?_⟩
    by_contra hne
    obtain ⟨i', hi', hle⟩ := skipSearch_least hs
      (show bound < fuel + 0 by omega) k (Nat.zero_le _) (by omega) (by simpa using hne)
    rw [h] at hi'
    obtain rfl : i = i' := by simpa using hi'
    omega
  · rintro ⟨hlt, ht, hmin⟩
    obtain ⟨i', hi', hle⟩ := skipSearch_least hs
      (show bound < fuel + 0 by omega) i (Nat.zero_le _) hlt ht
    obtain ⟨-, -, ht'⟩ := skipSearch_some hi'
    rcases Nat.eq_or_lt_of_le hle with rfl | hlt'
    · exact hi'
    · rw [hmin i' hlt'] at ht'
      exact Bool.noConfusion ht'

end AppView.Framework
