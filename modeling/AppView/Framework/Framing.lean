import Mathlib

/-!
# Self-delimiting frames

A stream is cut into frames whose size can be read off their first elements. A `Framer` is that
reading; it answers `none` while too little is there, and more input never changes an answer.
-/

namespace AppView.Framework

open List

/-- The size of the frame an input starts with, as soon as it is known. -/
structure Framer (α : Type*) where
  size : List α → Option ℕ
  size_pos : ∀ {bs n}, size bs = some n → 0 < n
  size_append : ∀ {bs n} cs, size bs = some n → size (bs ++ cs) = some n

namespace Framer

variable {α : Type*} (F : Framer α)

/-- Exactly one frame. -/
def IsFrame (f : List α) : Prop := F.size f = some f.length

/-- No frame is complete yet. -/
def Incomplete (r : List α) : Prop := ∀ n, F.size r = some n → r.length < n

/-- The complete frames of an input, and what is left. -/
structure Splits (bs : List α) (fs : List (List α)) (r : List α) : Prop where
  bytes : bs = fs.flatten ++ r
  frames : ∀ f ∈ fs, F.IsFrame f
  rest : F.Incomplete r

variable {F} {f : List α}

theorem Incomplete.not_frame_append {r : List α} (hf : F.IsFrame f) : ¬ F.Incomplete (f ++ r) := by
  intro hinc
  have := hinc _ (F.size_append r hf)
  rw [length_append] at this
  omega

theorem Incomplete.lt_frame {r s t : List α} (hr : F.Incomplete r) (hf : F.IsFrame f)
    (h : r ++ s = f ++ t) : r <+: f ∧ r.length < f.length := by
  rcases append_eq_append_iff.mp h with ⟨a, ha, -⟩ | ⟨c, hc, -⟩
  · refine ⟨⟨a, ha.symm⟩, ?_⟩
    rcases eq_nil_or_concat a with rfl | ⟨_, _, rfl⟩
    · rw [append_nil] at ha
      subst ha
      exact absurd (by simpa using hr) (Incomplete.not_frame_append (r := []) hf)
    · rw [ha]
      simp
  · exact absurd (hc ▸ hr) (Incomplete.not_frame_append hf)

theorem frame_eq_of_append {g s t : List α} (hf : F.IsFrame f) (hg : F.IsFrame g)
    (h : f ++ s = g ++ t) : f = g ∧ s = t := by
  have hsize : some f.length = some g.length := by
    rw [← F.size_append s hf, h, F.size_append t hg]
  exact append_inj h (Option.some.inj hsize)

namespace Splits

variable {r bs : List α} {fs gs : List (List α)}

theorem nil_of_incomplete (h : F.Incomplete r) : F.Splits r [] r :=
  ⟨rfl, by simp, h⟩

theorem cons (hf : F.IsFrame f) (h : F.Splits bs fs r) : F.Splits (f ++ bs) (f :: fs) r := by
  refine ⟨by rw [h.bytes]; simp, ?_, h.rest⟩
  intro g hg
  rcases mem_cons.mp hg with rfl | hg
  · exact hf
  · exact h.frames g hg

/-- **There is one way to read an input.** -/
theorem unique {r' : List α} (h : F.Splits bs fs r) (h' : F.Splits bs gs r') :
    fs = gs ∧ r = r' := by
  induction fs generalizing bs gs with
  | nil =>
    cases gs with
    | nil => exact ⟨rfl, h.bytes.symm.trans h'.bytes⟩
    | cons g gs =>
      have hr : r = g ++ (gs.flatten ++ r') := by
        rw [← append_assoc]
        exact h.bytes.symm.trans h'.bytes
      exact absurd (hr ▸ h.rest) (Incomplete.not_frame_append (h'.frames g (by simp)))
  | cons f fs ih =>
    have hf := h.frames f (by simp)
    have hbs : bs = f ++ (fs.flatten ++ r) := by
      rw [h.bytes, flatten_cons, append_assoc]
    cases gs with
    | nil =>
      have hr' : r' = f ++ (fs.flatten ++ r) := h'.bytes.symm.trans hbs
      exact absurd (hr' ▸ h'.rest) (Incomplete.not_frame_append hf)
    | cons g gs =>
      have hbs' : bs = g ++ (gs.flatten ++ r') := by
        rw [h'.bytes, flatten_cons, append_assoc]
      obtain ⟨rfl, htail⟩ :=
        frame_eq_of_append hf (h'.frames g (by simp)) (hbs.symm.trans hbs')
      have hfs : F.Splits (fs.flatten ++ r) fs r :=
        ⟨rfl, fun x hx => h.frames x (by simp [hx]), h.rest⟩
      have hgs : F.Splits (fs.flatten ++ r) gs r' :=
        ⟨htail, fun x hx => h'.frames x (by simp [hx]), h'.rest⟩
      obtain ⟨rfl, rfl⟩ := ih hfs hgs
      exact ⟨rfl, rfl⟩

/-- **Reading on**: what is left of the first input is read together with the
next one. -/
theorem append {cs r' : List α} (h : F.Splits bs fs r) (h' : F.Splits (r ++ cs) gs r') :
    F.Splits (bs ++ cs) (fs ++ gs) r' := by
  refine ⟨?_, ?_, h'.rest⟩
  · rw [h.bytes, append_assoc, h'.bytes, flatten_append, append_assoc]
  · intro f hf
    rcases mem_append.mp hf with hf | hf
    · exact h.frames f hf
    · exact h'.frames f hf

theorem rest_of_append {cs s : List α} {gs' : List (List α)} (h : F.Splits bs gs s)
    (h' : F.Splits (bs ++ cs) (gs ++ gs') r) : (gs' = [] ∧ s <+: r) ∨
      ∃ f fs, gs' = f :: fs ∧ s <+: f ∧ s.length < f.length := by
  have hrest : s ++ cs = gs'.flatten ++ r := by
    have := h'.bytes
    rw [h.bytes, flatten_append, append_assoc, append_assoc] at this
    exact append_cancel_left this
  cases gs' with
  | nil => exact Or.inl ⟨rfl, ⟨cs, hrest⟩⟩
  | cons f fs =>
    refine Or.inr ⟨f, fs, rfl, ?_⟩
    rw [flatten_cons, append_assoc] at hrest
    exact h.rest.lt_frame (h'.frames f (by simp)) hrest

end Splits

end Framer

end AppView.Framework
