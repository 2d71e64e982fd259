import Mathlib

/-!
# `backoff.c`: when a connection is attempted

**`backoff_schedule`**: after a reset the first call is allowed, and the gaps between the allowed
calls double from a second up to 256 seconds, each with the jitter drawn at its start.
-/

namespace AppView.Backoff

structure State where
  backoffBase : ℕ
  backoffLimit : ℕ
  msCount : ℕ

def backoffBaseMax : ℕ := 64 * 4 * 1000

def backoffReset (_ : State) : State := ⟨1000, 1, 0⟩

/-- `rand` is what `appview_rand` returns, if it is called. -/
def backoffAlgoAllowsConnect (backoff : State) (rand : ℕ) : State × Bool :=
  let msCount := (backoff.msCount + 1) % 2 ^ 32
  if msCount ≥ backoff.backoffLimit then
    ({ backoffLimit := (backoff.backoffBase + rand % 1000) % 2 ^ 32
       backoffBase := if backoff.backoffBase < backoffBaseMax then backoff.backoffBase * 2 % 2 ^ 32
         else backoff.backoffBase
       msCount := 0 }, true)
  else ({ backoff with msCount := msCount }, false)

/-- The state after a reset and `n` calls; `rands n` is there for the next one. -/
def after (rands : ℕ → ℕ) (backoff : State) : ℕ → State
  | 0 => backoffReset backoff
  | n + 1 => (backoffAlgoAllowsConnect (after rands backoff n) (rands n)).1

def allowed (rands : ℕ → ℕ) (backoff : State) (n : ℕ) : Bool :=
  (backoffAlgoAllowsConnect (after rands backoff n) (rands n)).2

def base (k : ℕ) : ℕ := min (1000 * 2 ^ k) 256000

/-- The number of calls before an allowed one with `k` allowed ones before it. -/
def callsBefore (rands : ℕ → ℕ) : ℕ → ℕ
  | 0 => 0
  | k + 1 => callsBefore rands k + (base k + rands (callsBefore rands k) % 1000)

theorem base_succ (k : ℕ) :
    (if base k < backoffBaseMax then base k * 2 % 2 ^ 32 else base k) = base (k + 1) := by
  -- below the maximum the base is at most half of it
  have hhalf : 2 ^ k < 2 ^ 8 → 2 ^ (k + 1) ≤ 2 ^ 8 := fun hlt =>
    Nat.pow_le_pow_right (by decide) ((Nat.pow_lt_pow_iff_right (by decide)).1 hlt)
  have hpow : 2 ^ (k + 1) = 2 * 2 ^ k := Nat.pow_succ'
  unfold base backoffBaseMax
  split_ifs <;> omega

variable {limit i : ℕ}

theorem allows_early (b r : ℕ) (hi : i + 1 < limit) (hlimit : limit ≤ 256999) :
    backoffAlgoAllowsConnect ⟨b, limit, i⟩ r = (⟨b, limit, i + 1⟩, false) := by
  simp only [backoffAlgoAllowsConnect]
  rw [Nat.mod_eq_of_lt (by omega), if_neg (by omega)]

theorem allows_due (k r : ℕ) (hi : i < 256999) :
    backoffAlgoAllowsConnect ⟨base k, i + 1, i⟩ r =
      (⟨base (k + 1), base k + r % 1000, 0⟩, true) := by
  have hbase : base k ≤ 256000 := Nat.min_le_right _ _
  simp only [backoffAlgoAllowsConnect, base_succ]
  rw [Nat.mod_eq_of_lt (by omega), if_pos le_rfl, Nat.mod_eq_of_lt (by omega)]

section Runs

variable (rands : ℕ → ℕ) (backoff : State) (k : ℕ)

theorem gap_bounds : 1000 ≤ base k + rands (callsBefore rands k) % 1000 ∧
    base k + rands (callsBefore rands k) % 1000 ≤ 256999 := by
  have hpow : 1 ≤ 2 ^ k := Nat.one_le_two_pow
  unfold base
  omega

theorem after_gap (h : after rands backoff (callsBefore rands k) = ⟨base k, i + 1, i⟩)
    (hi : i < 256999) : ∀ m < base k + rands (callsBefore rands k) % 1000,
      after rands backoff (callsBefore rands k + 1 + m) =
        ⟨base (k + 1), base k + rands (callsBefore rands k) % 1000, m⟩ := by
  intro m hm
  induction m with
  | zero => rw [Nat.add_zero, after, h, allows_due k _ hi]
  | succ m ih =>
    rw [← Nat.add_assoc, after, ih (by omega), allows_early _ _ hm (gap_bounds rands k).2]

theorem after_callsBefore :
    ∃ i < 256999, after rands backoff (callsBefore rands k) = ⟨base k, i + 1, i⟩ := by
  induction k with
  | zero => exact ⟨0, by decide, rfl⟩
  | succ k ih =>
    obtain ⟨i, hi, h⟩ := ih
    obtain ⟨hlow, hhigh⟩ := gap_bounds rands k
    -- the call is due when one millisecond of the gap is left
    have hlast := after_gap rands backoff k h hi _ (Nat.sub_one_lt_of_lt hlow)
    refine ⟨base k + rands (callsBefore rands k) % 1000 - 1, by omega, ?_⟩
    rw [callsBefore, Nat.sub_add_cancel (by omega), ← hlast]
    congr 1
    omega

/-- **The back-off schedule.** After a reset in any state the first call is allowed, and of the
calls after an allowed one the next to be allowed is the one at the end of its gap. -/
theorem backoff_schedule : callsBefore rands 0 = 0 ∧ ∀ k,
    allowed rands backoff (callsBefore rands k) = true ∧
      (∀ n, callsBefore rands k < n → n < callsBefore rands (k + 1) →
        allowed rands backoff n = false) ∧
      callsBefore rands (k + 1) = callsBefore rands k +
        (min (1000 * 2 ^ k) 256000 + rands (callsBefore rands k) % 1000) ∧
      callsBefore rands (k + 1) ≤ callsBefore rands k + 256999 := by
  refine ⟨rfl, fun k => ?_⟩
  obtain ⟨i, hi, h⟩ := after_callsBefore rands backoff k
  have hgap := gap_bounds rands k
  refine ⟨by rw [allowed, h, allows_due k _ hi], fun n hn hnext => ?_, rfl, ?_⟩
  · rw [callsBefore] at hnext
    obtain ⟨m, rfl⟩ := Nat.exists_eq_add_of_le (Nat.succ_le_of_lt hn)
    rw [allowed, after_gap rands backoff k h hi m (by omega),
      allows_early _ _ (by omega) hgap.2]
  · rw [callsBefore]
    omega

end Runs

end AppView.Backoff
