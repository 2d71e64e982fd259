import Mathlib

/-!
# Runs of a machine with outputs

A deterministic machine reads inputs one after another and gives one output for each.
-/

namespace AppView.Framework

open List

variable {σ ι ω : Type*}

/-- The state after all inputs, and the output of each of them. -/
def run (step : σ → ι → σ × ω) : σ → List ι → σ × List ω
  | s, [] => (s, [])
  | s, a :: as =>
    let r := step s a
    let t := run step r.1 as
    (t.1, r.2 :: t.2)

variable {step : σ → ι → σ × ω}

@[simp] theorem run_nil (s : σ) : run step s [] = (s, []) := rfl

theorem run_cons (s : σ) (a : ι) (as : List ι) : run step s (a :: as) =
      ((run step (step s a).1 as).1, (step s a).2 :: (run step (step s a).1 as).2) :=
  rfl

theorem run_append (s : σ) (as bs : List ι) : run step s (as ++ bs) =
      ((run step (run step s as).1 bs).1,
       (run step s as).2 ++ (run step (run step s as).1 bs).2) := by
  induction as generalizing s with
  | nil => rfl
  | cons a as ih =>
    rw [cons_append, run_cons, ih, run_cons]
    rfl

theorem length_run (s : σ) (as : List ι) : (run step s as).2.length = as.length := by
  induction as generalizing s with
  | nil => rfl
  | cons a as ih => rw [run_cons, length_cons, length_cons, ih]

variable {s : σ} {τ : Type*}

variable {I : σ → Prop} {P : σ → ι → Prop} {as : List ι} {R : σ → τ → Prop} {t : τ}

theorem run_invariant (keep : ∀ s a, I s → I (step s a).1) (hs : I s) (as : List ι) :
    I (run step s as).1 := by
  induction as generalizing s with
  | nil => exact hs
  | cons a as ih => exact ih (keep s a hs)

theorem run_outputs {Q : ω → Prop} (keep : ∀ s a, I s → I (step s a).1)
    (out : ∀ s a, I s → Q (step s a).2) (hs : I s) (as : List ι) :
    ∀ o ∈ (run step s as).2, Q o := by
  induction as generalizing s with
  | nil => exact forall_mem_nil _
  | cons a as ih =>
    rw [run_cons, forall_mem_cons]
    exact ⟨out s a hs, ih (keep s a hs)⟩

theorem run_map {step' : τ → ι → τ × ω} (g : σ → τ)
    (h : ∀ s a, step' (g s) a = (g (step s a).1, (step s a).2)) (s : σ) (as : List ι) :
    run step' (g s) as = (g (run step s as).1, (run step s as).2) := by
  induction as generalizing s with
  | nil => rfl
  | cons a as ih => rw [run_cons, run_cons, h, ih]

/-- Every step of the run meets the condition. -/
def Along (step : σ → ι → σ × ω) (P : σ → ι → Prop) : σ → List ι → Prop
  | _, [] => True
  | s, a :: as => P s a ∧ Along step P (step s a).1 as

@[simp] theorem along_nil (P : σ → ι → Prop) (s : σ) : Along step P s [] := trivial

@[simp] theorem along_cons (P : σ → ι → Prop) (s : σ) (a : ι) (as : List ι) :
    Along step P s (a :: as) ↔ P s a ∧ Along step P (step s a).1 as :=
  Iff.rfl

instance Along.decidable (P : σ → ι → Prop) [∀ s a, Decidable (P s a)] :
    ∀ (s : σ) (as : List ι), Decidable (Along step P s as)
  | _, [] => inferInstanceAs (Decidable True)
  | s, a :: as =>
    have := Along.decidable P (step s a).1 as
    inferInstanceAs (Decidable (P s a ∧ Along step P (step s a).1 as))

theorem along_append (P : σ → ι → Prop) (s : σ) (as bs : List ι) : Along step P s (as ++ bs) ↔
      Along step P s as ∧ Along step P (run step s as).1 bs := by
  induction as generalizing s with
  | nil => simp
  | cons a as ih =>
    rw [cons_append, along_cons, along_cons, ih, run_cons, and_assoc]

theorem Along.mono {Q : σ → ι → Prop} (hPQ : ∀ s a, P s a → Q s a) (h : Along step P s as) :
    Along step Q s as := by
  induction as generalizing s with
  | nil => trivial
  | cons a as ih => exact ⟨hPQ s a h.1, ih h.2⟩

theorem along_of_forall (h : ∀ s a, P s a) (s : σ) (as : List ι) : Along step P s as := by
  induction as generalizing s with
  | nil => trivial
  | cons a as ih => exact ⟨h s a, ih _⟩

/-- **Two machines in step with each other**: if every step keeps a relation between them
and gives related outputs exactly under a condition, then all outputs are related exactly
if the condition is met along the run. -/
theorem run_outputs_iff {ψ : Type*} {step' : τ → ι → τ × ψ} {f : ψ → ω} {P : τ → ι → Prop}
    (keep : ∀ s t a, R s t → R (step s a).1 (step' t a).1)
    (same : ∀ s t a, R s t → ((step s a).2 = f (step' t a).2 ↔ P t a)) (h : R s t)
    (as : List ι) : (run step s as).2 = (run step' t as).2.map f ↔ Along step' P t as := by
  induction as generalizing s t with
  | nil => simp
  | cons a as ih =>
    rw [run_cons, run_cons, map_cons, List.cons.injEq, along_cons, same s t a h, ih (keep s t a h)]

/-- **Two machines that agree all along**: if a step keeps a relation between them where its
condition is met and makes them disagree where it is not, then they agree after every initial
part of the inputs exactly if the condition is met along the run. Only inputs that are
`Possible` occur. -/
theorem prefixes_iff {step : σ → ι → σ} {step' : τ → ι → τ} {Agrees : σ → τ → Prop}
    {P Possible : τ → ι → Prop} (agrees : ∀ s t, R s t → Agrees s t)
    (keep : ∀ s t a, R s t → Possible t a → P t a → R (step s a) (step' t a))
    (wrong : ∀ s t a, R s t → Possible t a → ¬ P t a → ¬ Agrees (step s a) (step' t a))
    (h : R s t) (hpossible : Along (fun t a => (step' t a, ())) Possible t as) :
    (∀ before, before <+: as → Agrees (before.foldl step s) (before.foldl step' t)) ↔
      Along (fun t a => (step' t a, ())) P t as := by
  induction as generalizing s t with
  | nil =>
    refine ⟨fun _ => trivial, fun _ before hbefore => ?_⟩
    rw [prefix_nil.1 hbefore]
    exact agrees s t h
  | cons a as ih =>
    constructor
    · intro hall
      have hP : P t a := by
        by_contra hP
        exact wrong s t a h hpossible.1 hP (hall [a] ⟨as, rfl⟩)
      refine ⟨hP, (ih (keep s t a h hpossible.1 hP) hpossible.2).1 ?_⟩
      intro before hbefore
      exact hall (a :: before) (cons_prefix_cons.2 ⟨rfl, hbefore⟩)
    · rintro ⟨hP, hrest⟩ before hbefore
      rcases before with _ | ⟨b, before⟩
      · exact agrees s t h
      · obtain ⟨rfl, htail⟩ := cons_prefix_cons.1 hbefore
        exact (ih (keep s t b h hpossible.1 hP) hpossible.2).2 hrest before htail

/-- The sum over a run of what each step contributes. -/
def sumAlong (step : σ → ι → σ × ω) (f : σ → ι → ℕ) : σ → List ι → ℕ
  | _, [] => 0
  | s, a :: as => f s a + sumAlong step f (step s a).1 as

@[simp] theorem sumAlong_nil (f : σ → ι → ℕ) (s : σ) : sumAlong step f s [] = 0 := rfl

@[simp] theorem sumAlong_cons (f : σ → ι → ℕ) (s : σ) (a : ι) (as : List ι) :
    sumAlong step f s (a :: as) = f s a + sumAlong step f (step s a).1 as := rfl

/-- What each step of a run contributes, in order. -/
def gather {β : Type*} (step : σ → ι → σ × ω) (f : σ → ι → List β) : σ → List ι → List β
  | _, [] => []
  | s, a :: as => f s a ++ gather step f (step s a).1 as

theorem gather_filter {β : Type*} (p : β → Bool) (f : σ → ι → List β) (s : σ) (as : List ι) :
    gather step (fun s a => (f s a).filter p) s as = (gather step f s as).filter p := by
  induction as generalizing s with
  | nil => rfl
  | cons a as ih => rw [gather, gather, ih, filter_append]

end AppView.Framework
