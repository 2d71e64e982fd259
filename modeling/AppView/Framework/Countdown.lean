import Mathlib

/-!
# A text cut into pieces that count down

A sender that cuts a text gives each piece with how much of the text was left before it, and
with a mark on the last.
-/

namespace AppView.Framework

open List

variable {α : Type*}

structure Piece (α : Type*) where
  last : Bool
  remain : ℕ
  data : List α

/-- The text is the data of the pieces one after another. -/
inductive Cut : List α → List (Piece α) → Prop where
  | last {xs : List α} : xs ≠ [] → Cut xs [⟨true, xs.length, xs⟩]
  | more {xs rest : List α} {ps : List (Piece α)} : xs ≠ [] → Cut rest ps →
      Cut (xs ++ rest) (⟨false, (xs ++ rest).length, xs⟩ :: ps)

variable {xs : List α} {ps : List (Piece α)}

theorem Cut.remain_le (h : Cut xs ps) : ∀ p ∈ ps, p.remain ≤ xs.length := by
  induction h with
  | last => simp
  | @more xs rest ps _ _ ih =>
    intro p hp
    rcases mem_cons.1 hp with rfl | hp
    · exact Nat.le_refl (xs ++ rest).length
    · calc p.remain ≤ rest.length := ih p hp
        _ ≤ (xs ++ rest).length := by simp

theorem Cut.remain_head {p : Piece α} (h : Cut xs (p :: ps)) : p.remain = xs.length := by
  cases h <;> rfl

theorem Cut.remains_decrease (h : Cut xs ps) : (ps.map Piece.remain).Pairwise (· > ·) := by
  induction h with
  | last => simp
  | @more xs rest ps hxs hrest ih =>
    refine pairwise_cons.2 ⟨?_, ih⟩
    intro r hr
    obtain ⟨p, hp, rfl⟩ := mem_map.1 hr
    calc p.remain ≤ rest.length := hrest.remain_le p hp
      _ < (xs ++ rest).length := by simpa using length_pos_iff.2 hxs

theorem Cut.data_ne_nil (h : Cut xs ps) : ∀ p ∈ ps, p.data ≠ [] := by
  induction h with
  | last hxs => simpa using hxs
  | more hxs _ ih => simpa using ⟨hxs, ih⟩

theorem Cut.marks (h : Cut xs ps) :
    ∃ init p, ps = init ++ [p] ∧ p.last = true ∧ ∀ q ∈ init, q.last = false := by
  induction h with
  | last => exact ⟨[], _, rfl, rfl, by simp⟩
  | more _ _ ih =>
    obtain ⟨init, p, rfl, hp, hinit⟩ := ih
    refine ⟨_ :: init, p, rfl, hp, ?_⟩
    intro q hq
    rcases mem_cons.1 hq with rfl | hq
    · rfl
    · exact hinit q hq

theorem Cut.take {k : ℕ} (hk : 0 < k) (hxs : xs ≠ []) (h : Cut (xs.drop k) ps) :
    Cut xs (⟨false, xs.length, xs.take k⟩ :: ps) := by
  have hne : xs.take k ≠ [] := by simp [hxs, Nat.ne_of_gt hk]
  have hcut := Cut.more hne h
  rwa [take_append_drop] at hcut

end AppView.Framework
