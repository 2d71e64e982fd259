import AppView.Framework.Cells

/-!
# Threads over shared memory

Any number of threads, each with a state of its own, take atomic steps on a memory they share.
-/

namespace AppView.Framework

open List Function

structure World (ι σ τ : Type*) where
  shared : σ
  threads : ι → τ

variable {ι σ τ α β : Type*} [DecidableEq ι] (f : σ → τ → α → Option (σ × τ))

namespace World

def step (w : World ι σ τ) (a : ι × α) : World ι σ τ :=
  match f w.shared (w.threads a.1) a.2 with
  | none => w
  | some r => ⟨r.1, Function.update w.threads a.1 r.2⟩

def run (w : World ι σ τ) (as : List (ι × α)) : World ι σ τ :=
  as.foldl (step f) w

theorem step_cases (w : World ι σ τ) (a : ι × α) : w.step f a = w ∨
      ∃ s l, f w.shared (w.threads a.1) a.2 = some (s, l) ∧
        w.step f a = ⟨s, update w.threads a.1 l⟩ := by
  rw [step]
  cases h : f w.shared (w.threads a.1) a.2 with
  | none => exact Or.inl rfl
  | some r => exact Or.inr ⟨r.1, r.2, rfl, rfl⟩

variable {w : World ι σ τ} {f}

theorem run_invariant {I : World ι σ τ → Prop} (keep : ∀ w a, I w → I (w.step f a)) (hw : I w)
    (as : List (ι × α)) : I (w.run f as) := by
  induction as generalizing w with
  | nil => exact hw
  | cons a as ih => exact ih (keep w a hw)

theorem run_shared {P : σ → Prop} {R : α → Prop}
    (keep : ∀ s l x s' l', R x → f s l x = some (s', l') → P s → P s') (hw : P w.shared)
    {as : List (ι × α)} (has : ∀ a ∈ as, R a.2) : P (w.run f as).shared := by
  induction as generalizing w with
  | nil => exact hw
  | cons a as ih =>
    rw [forall_mem_cons] at has
    refine ih ?_ has.2
    rcases step_cases f w a with hsame | ⟨s, l, hstep, hnext⟩
    · rw [hsame]
      exact hw
    · rw [hnext]
      exact keep _ _ _ _ _ has.1 hstep hw

variable (f)

/-- One thread while no other takes a step. -/
def alone (r : σ × τ) (xs : List α) : σ × τ :=
  xs.foldl (fun r x => (f r.1 r.2 x).getD r) r

theorem run_alone (w : World ι σ τ) (t : ι) (xs : List α) :
    w.run f (xs.map (Prod.mk t)) = ⟨(alone f (w.shared, w.threads t) xs).1,
        update w.threads t (alone f (w.shared, w.threads t) xs).2⟩ := by
  induction xs generalizing w with
  | nil =>
    rw [alone, foldl_nil, update_eq_self]
    rfl
  | cons x xs ih =>
    have hrun : w.run f ((x :: xs).map (Prod.mk t)) =
        (w.step f (t, x)).run f (xs.map (Prod.mk t)) := rfl
    rw [hrun, ih, alone, alone, foldl_cons, step]
    cases f w.shared (w.threads t) x with
    | none => rfl
    | some r =>
      dsimp only
      rw [update_self, update_idem, Option.getD_some]

variable {f}

/-! ## Invariants of the memory, of each thread and of any two -/

structure Holds (G : σ → Prop) (L : σ → τ → Prop) (X : τ → τ → Prop) (w : World ι σ τ) :
    Prop where
  shared : G w.shared
  thread : ∀ t, L w.shared (w.threads t)
  pair : ∀ t u, t ≠ u → X (w.threads t) (w.threads u)

/-- One step keeps the invariant, for the thread that takes it and for any other. -/
structure Keeps (f : σ → τ → α → Option (σ × τ)) (G : σ → Prop) (L : σ → τ → Prop)
    (X : τ → τ → Prop) : Prop where
  symm : ∀ l m, X l m → X m l
  own : ∀ s l x s' l', f s l x = some (s', l') → G s → L s l → G s' ∧ L s' l'
  other : ∀ s l x s' l' m, f s l x = some (s', l') → G s → L s l → L s m → X l m →
    L s' m ∧ X l' m

variable {G : σ → Prop} {L : σ → τ → Prop} {X : τ → τ → Prop}

theorem Holds.step (hk : Keeps f G L X) (h : Holds G L X w) (a : ι × α) :
    Holds G L X (w.step f a) := by
  rcases step_cases f w a with hsame | ⟨s, l, hstep, hw⟩
  · rw [hsame]
    exact h
  have hown := hk.own _ _ _ _ _ hstep h.shared (h.thread a.1)
  have hother : ∀ u, u ≠ a.1 → L s (w.threads u) ∧ X l (w.threads u) := fun u hu =>
    hk.other _ _ _ _ _ _ hstep h.shared (h.thread a.1) (h.thread u) (h.pair a.1 u (Ne.symm hu))
  rw [hw]
  refine ⟨hown.1, fun t => ?_, fun t u htu => ?_⟩
  · by_cases ht : t = a.1
    · subst ht
      simpa using hown.2
    · simpa [update_of_ne ht] using (hother t ht).1
  · dsimp only
    by_cases ht : t = a.1
    · subst ht
      rw [update_self, update_of_ne (Ne.symm htu)]
      exact (hother u (Ne.symm htu)).2
    · rw [update_of_ne ht]
      by_cases hu : u = a.1
      · subst hu
        rw [update_self]
        exact hk.symm _ _ (hother t ht).2
      · rw [update_of_ne hu]
        exact h.pair t u htu

/-- **The invariant holds after every schedule.** -/
theorem Holds.run (hk : Keeps f G L X) (h : Holds G L X w) (as : List (ι × α)) :
    Holds G L X (w.run f as) :=
  run_invariant (fun _ a hw => hw.step hk a) h as

/-! ## Things that need a thread -/

/-- Each thing that the memory says needs a thread has one. -/
def Covered (C : σ → β → Prop) (Q : τ → β → Prop) (w : World ι σ τ) : Prop :=
  ∀ b, C w.shared b → ∃ t, Q (w.threads t) b

theorem Covered.step {C : σ → β → Prop} {Q : τ → β → Prop} (h : Covered C Q w) (a : ι × α)
    (hstep : ∀ s l, f w.shared (w.threads a.1) a.2 = some (s, l) → ∀ b, C s b →
      Q l b ∨ (C w.shared b ∧ ¬ Q (w.threads a.1) b)) :
    Covered C Q (w.step f a) := by
  rcases step_cases f w a with hsame | ⟨s, l, hf, hw⟩
  · rw [hsame]
    exact h
  rw [hw]
  intro b hb
  rcases hstep s l hf b hb with hq | ⟨hc, hnot⟩
  · refine ⟨a.1, ?_⟩
    dsimp only
    rwa [update_self]
  · -- the thread that has it is another one
    obtain ⟨t, ht⟩ := h b hc
    have hne : t ≠ a.1 := by
      rintro rfl
      exact hnot ht
    refine ⟨t, ?_⟩
    dsimp only
    rwa [update_of_ne hne]

end World

/-! ## Processes -/

section Processes

variable {π γ : Type*}

/-- One process takes a step, and what it leaves behind comes last. -/
def spawn (g : π → γ → Option (π × Option π)) (ps : List π) (a : ℕ × γ) : List π :=
  match ps[a.1]? with
  | none => ps
  | some p =>
    match g p a.2 with
    | none => ps
    | some r => ps.set a.1 r.1 ++ r.2.toList

variable {g : π → γ → Option (π × Option π)} {I : π → Prop} {ps : List π}

theorem forall_spawn (keep : ∀ p x p' c, I p → g p x = some (p', c) → I p' ∧ ∀ q ∈ c, I q)
    (hps : ∀ p ∈ ps, I p) (a : ℕ × γ) : ∀ p ∈ spawn g ps a, I p := by
  rw [spawn]
  cases hp : ps[a.1]? with
  | none => exact hps
  | some p =>
    dsimp only
    cases hg : g p a.2 with
    | none => exact hps
    | some r =>
      have hkeep := keep p a.2 r.1 r.2 (hps p (mem_of_getElem? hp)) hg
      intro q hq
      rcases mem_append.1 hq with hq | hq
      · rcases mem_or_eq_of_mem_set hq with hq | rfl
        · exact hps q hq
        · exact hkeep.1
      · exact hkeep.2 q (Option.mem_toList.1 hq)

theorem forall_foldl_spawn
    (keep : ∀ p x p' c, I p → g p x = some (p', c) → I p' ∧ ∀ q ∈ c, I q) (hps : ∀ p ∈ ps, I p)
    (as : List (ℕ × γ)) : ∀ p ∈ as.foldl (spawn g) ps, I p := by
  induction as generalizing ps with
  | nil => exact hps
  | cons a as ih => exact ih (forall_spawn keep hps a)

end Processes

end AppView.Framework
