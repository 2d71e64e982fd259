import Mathlib

/-!
# Computations that read a memory

A computation is given by the stretches of memory it reads, one after another, and by what it
does with their contents.
-/

namespace AppView.Framework

open List

/-- A stretch of an object. -/
structure Access (ι : Type*) where
  object : ι
  start : ℕ
  len : ℕ
  deriving DecidableEq, Repr

/-- Every place of the stretch is below `size`. -/
def Access.Below {ι : Type*} (size : ℕ) (a : Access ι) : Prop := a.start + a.len ≤ size

instance {ι : Type*} (size : ℕ) (a : Access ι) : Decidable (a.Below size) :=
  inferInstanceAs (Decidable (_ ≤ _))

variable {ι β : Type}

def Access.contents (mem : ι → ℕ → β) (a : Access ι) : List β :=
  (List.range' a.start a.len).map (mem a.object)

@[simp] theorem Access.length_contents (mem : ι → ℕ → β) (a : Access ι) :
    (a.contents mem).length = a.len := by
  simp [Access.contents]

theorem Access.drop_contents (mem : ι → ℕ → β) (object : ι) (start len k : ℕ) :
    (Access.contents mem ⟨object, start, len⟩).drop k =
      Access.contents mem ⟨object, start + k, len - k⟩ := by
  rw [Access.contents, Access.contents, ← map_drop, drop_range', Nat.mul_one]

inductive Reads (ι β α : Type) where
  | done (result : α)
  | read (a : Access ι) (next : List β → Reads ι β α)

namespace Reads

variable {α γ : Type} (mem : ι → ℕ → β)

/-- The result over a memory. -/
def run : Reads ι β α → α
  | done result => result
  | read a next => run (next (a.contents mem))

/-- What is read on the way to the result. -/
def accesses : Reads ι β α → List (Access ι)
  | done _ => []
  | read a next => a :: accesses (next (a.contents mem))

/-- Sequential composition. -/
def andThen : Reads ι β α → (α → Reads ι β γ) → Reads ι β γ
  | done result, f => f result
  | read a next, f => read a fun bs => andThen (next bs) f

instance : Monad (Reads ι β) where
  pure := done
  bind := andThen

@[simp] theorem run_pure (x : α) : (pure x : Reads ι β α).run mem = x := rfl

@[simp] theorem accesses_pure (x : α) : (pure x : Reads ι β α).accesses mem = [] := rfl

@[simp] theorem run_bind (p : Reads ι β α) (f : α → Reads ι β γ) :
    (p >>= f).run mem = (f (p.run mem)).run mem := by
  induction p with
  | done result => rfl
  | read a next ih => exact ih (a.contents mem)

@[simp] theorem accesses_bind (p : Reads ι β α) (f : α → Reads ι β γ) :
    (p >>= f).accesses mem = p.accesses mem ++ (f (p.run mem)).accesses mem := by
  induction p with
  | done result => rfl
  | read a next ih => exact congrArg (a :: ·) (ih (a.contents mem))

/-! ## Where a computation may read -/

/-- Every stretch that is read is as `P` says. -/
def Keeps (P : Access ι → Prop) (p : Reads ι β α) : Prop := ∀ a ∈ p.accesses mem, P a

variable {mem} {P : Access ι → Prop}

@[simp] theorem keeps_pure (x : α) : (pure x : Reads ι β α).Keeps mem P := by
  simp [Keeps]

variable {p : Reads ι β α}

@[simp] theorem keeps_bind {f : α → Reads ι β γ} :
    (p >>= f).Keeps mem P ↔ p.Keeps mem P ∧ (f (p.run mem)).Keeps mem P := by
  simp [Keeps, or_imp, forall_and]

theorem keeps_read {a : Access ι} {next : List β → Reads ι β α} :
    (read a next).Keeps mem P ↔ P a ∧ (next (a.contents mem)).Keeps mem P := by
  simp [Keeps, accesses]

theorem Keeps.imp {Q : Access ι → Prop} (h : p.Keeps mem P) (hPQ : ∀ a, P a → Q a) :
    p.Keeps mem Q :=
  fun a ha => hPQ a (h a ha)

/-- **What is not read does not matter.** Memories that agree where the computation reads
one of them give the same result. -/
theorem run_congr {mem' : ι → ℕ → β} (h : p.Keeps mem P)
    (hsame : ∀ a, P a → a.contents mem' = a.contents mem) : p.run mem' = p.run mem := by
  induction p with
  | done result => rfl
  | read a next ih =>
    obtain ⟨ha, hnext⟩ := keeps_read.1 h
    show (next (a.contents mem')).run mem' = (next (a.contents mem)).run mem
    rw [hsame a ha]
    exact ih (a.contents mem) hnext

end Reads

/-! ## A memory that holds a list -/

/-- The list is at the start of the object. -/
def Holds (mem : ι → ℕ → β) (object : ι) (l : List β) : Prop :=
  ∀ i, (hi : i < l.length) → mem object i = l[i]

theorem holds_getD (l : List β) (d : β) (object : ι) : Holds (fun _ i => l.getD i d) object l := by
  intro i hi
  exact getD_eq_getElem l d hi

theorem Holds.contents {mem : ι → ℕ → β} {l : List β} {a : Access ι} (h : Holds mem a.object l)
    (ha : a.Below l.length) : a.contents mem = (l.drop a.start).take a.len := by
  have hlen : a.start + a.len ≤ l.length := ha
  apply ext_getElem
  · rw [Access.length_contents, length_take, length_drop]
    omega
  · intro i hi _
    rw [Access.length_contents] at hi
    rw [getElem_take, getElem_drop]
    simp only [Access.contents, getElem_map, getElem_range', Nat.one_mul]
    exact h _ _

theorem Reads.run_eq_of_holds {α : Type} {mem mem' : ι → ℕ → β} {l : List β}
    (h : ∀ x, Holds mem x l) (h' : ∀ x, Holds mem' x l) {p : Reads ι β α}
    (hp : p.Keeps mem (Access.Below l.length)) : p.run mem' = p.run mem :=
  Reads.run_congr hp fun a ha => ((h' a.object).contents ha).trans ((h a.object).contents ha).symm

end AppView.Framework
