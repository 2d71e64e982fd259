import AppView.Framework.Cells
import AppView.Framework.Runs

/-!
# Ledgers: entries, totals, and a queue between them

An amount is recorded twice, in the entry of its source and in a total. From
there it is reported on one of three ways: an entry is posted to a queue and sent
from it later, an entry is remitted directly, or a total is flushed. Sending and
remitting deduct the amount from the total, a deduction stops at zero, and an
addition stops at a cap. Nothing in the machine itself makes these fit together:
what is posted may be a copy of the entry, or even of the total.

Two accounts of what has been recorded are kept.

* `run_le` and `run_ge` are about the **totals**: they bound what is emitted from
  above if every deduction is covered by its total, and from below if no addition
  reaches the cap.
* `run_settles` is about the **queue**: while every entry is moved to the queue
  as it is recorded, the queue holds exactly what has not been emitted, for every
  set of sources.
-/

namespace AppView.Framework.Ledger

open List Function

variable {φ ι : Type}

/-- The entries of the sources, the totals, and the posted amounts. -/
@[ext]
structure Books (φ ι : Type) where
  entry : φ → ℕ
  total : ι → ℕ
  queued : List (φ × ι × ℕ)

inductive Act (φ ι : Type) : Type where
  /-- Record an amount. -/
  | add (f : φ) (i : ι) (x : ℕ)
  /-- Record an amount, and move the entry to the queue. -/
  | settle (f : φ) (i : ι) (x : ℕ)
  /-- Copy the entry to the queue. -/
  | post (f : φ) (i : ι)
  /-- Copy the total to the queue. -/
  | postTotal (f : φ) (i : ι)
  /-- Overwrite an entry. -/
  | set (f : φ) (n : ℕ)
  /-- Take a posted amount from the queue, and forget it. -/
  | drop
  /-- Take a posted amount from the queue, emit and deduct it. -/
  | send
  /-- Emit an entry and deduct it. -/
  | remit (f : φ) (i : ι)
  /-- Emit a total, and start it again. -/
  | flush (i : ι)

/-- What is emitted: the source, unless it is a total, and the amount. -/
abbrev Emitted (φ : Type) : Type := List (Option φ × ℕ)

/-- The amount that an act records. -/
def Act.added : Act φ ι → ℕ
  | .add _ _ x => x
  | .settle _ _ x => x
  | _ => 0

/-- An act that emits nothing. -/
def Act.quiet : Act φ ι → Bool
  | .send | .remit _ _ | .flush _ => false
  | _ => true

/-- An act that deducts from a total. -/
def Act.deducts : Act φ ι → Bool
  | .send | .remit _ _ => true
  | _ => false

theorem Act.not_deducts_of_quiet {a : Act φ ι} (h : a.quiet = true) : a.deducts = false := by
  cases a <;> first | rfl | exact absurd h (by simp [Act.quiet])

/-- The sum of what is emitted. -/
def amount (out : Emitted φ) : ℕ := (out.map Prod.snd).sum

@[simp] theorem amount_nil : amount ([] : Emitted φ) = 0 := rfl

@[simp] theorem amount_cons (x : Option φ × ℕ) (out : Emitted φ) :
    amount (x :: out) = x.2 + amount out := rfl

@[simp] theorem amount_append (out out' : Emitted φ) :
    amount (out ++ out') = amount out + amount out' := by
  simp [amount]

section Machine

variable [DecidableEq φ] [DecidableEq ι]

def step (cap : ℕ) (b : Books φ ι) : Act φ ι → Books φ ι × Emitted φ
  | .add f i x =>
    (⟨update b.entry f (min (b.entry f + x) cap),
      update b.total i (min (b.total i + x) cap), b.queued⟩, [])
  | .settle f i x =>
    (⟨update b.entry f 0,
      update b.total i (min (b.total i + x) cap),
      b.queued ++ [(f, i, min (b.entry f + x) cap)]⟩, [])
  | .post f i => ({ b with queued := b.queued ++ [(f, i, b.entry f)] }, [])
  | .postTotal f i => ({ b with queued := b.queued ++ [(f, i, b.total i)] }, [])
  | .set f n => ({ b with entry := update b.entry f n }, [])
  | .drop => ({ b with queued := b.queued.tail }, [])
  | .send =>
    match b.queued with
    | [] => (b, [])
    | (f, i, v) :: queued =>
      (⟨b.entry, update b.total i (b.total i - v), queued⟩, [(some f, v)])
  | .remit f i =>
    (⟨update b.entry f 0,
      update b.total i (b.total i - b.entry f), b.queued⟩,
      [(some f, b.entry f)])
  | .flush i => ({ b with total := update b.total i 0 }, [(none, b.total i)])

theorem run_quiet (cap : ℕ) (b : Books φ ι) {as : List (Act φ ι)}
    (h : ∀ a ∈ as, a.quiet = true) : (run (step cap) b as).2.flatten = [] := by
  induction as generalizing b with
  | nil => rfl
  | cons a as ih =>
    obtain ⟨ha, has⟩ := forall_mem_cons.mp h
    rw [run_cons, flatten_cons, ih _ has, append_nil]
    cases a <;> first | rfl | exact absurd ha (by simp [Act.quiet])

theorem step_settle (cap : ℕ) (b : Books φ ι) (f : φ) (i : ι) (x : ℕ) :
    (step cap b (.settle f i x)).1 = (run (step cap) b [.add f i x, .post f i, .set f 0]).1 := by
  simp [run, step]

end Machine

/-! ## The totals -/

section Totals

/-- No deduction that an act makes is more than the total it is made from. -/
def Covered (b : Books φ ι) : Act φ ι → Prop
  | .send => ∀ q ∈ b.queued.head?, q.2.2 ≤ b.total q.2.1
  | .remit f i => b.entry f ≤ b.total i
  | _ => True

theorem covered_of_not_deducts (b : Books φ ι) {a : Act φ ι} (h : a.deducts = false) :
    Covered b a := by
  cases a <;> trivial

section

variable [DecidableEq φ] [DecidableEq ι]

theorem along_covered (cap : ℕ) (b : Books φ ι) {as : List (Act φ ι)}
    (h : ∀ a ∈ as, a.deducts = false) : Along (step cap) Covered b as := by
  induction as generalizing b with
  | nil => trivial
  | cons a as ih =>
    obtain ⟨ha, has⟩ := forall_mem_cons.mp h
    exact ⟨covered_of_not_deducts b ha, ih _ has⟩

end

variable [Fintype ι]

/-- All totals together. -/
def held (b : Books φ ι) : ℕ := ∑ i, b.total i

variable [DecidableEq ι] [DecidableEq φ]

/-- **What an act does to the totals**: they grow by what is recorded at most; what
they lose has been emitted if the deduction is covered; and nothing is lost below
the cap. -/
theorem step_held (cap : ℕ) (b : Books φ ι) (a : Act φ ι) :
    held (step cap b a).1 ≤ held b + a.added ∧
    (Covered b a → held (step cap b a).1 + amount (step cap b a).2 ≤ held b + a.added) ∧
    (held b + a.added ≤ cap →
      held b + a.added ≤ held (step cap b a).1 + amount (step cap b a).2) := by
  have upd : ∀ i v, ∑ j, update b.total i v j + b.total i = ∑ j, b.total j + v := fun i =>
    sum_update (Finset.mem_univ i) id b.total
  have le : ∀ i, b.total i ≤ held b := fun i =>
    Finset.single_le_sum (fun _ _ => Nat.zero_le _) (Finset.mem_univ i)
  cases a with
  | add f i x | settle f i x =>
    have := upd i (min (b.total i + x) cap)
    have := le i
    simp only [step, held, amount_nil, Act.added, Covered, true_implies] at *
    omega
  | post f i | postTotal f i | set f n | drop =>
    exact ⟨le_rfl, fun _ => le_rfl, fun _ => le_rfl⟩
  | send =>
    obtain ⟨entry, total, queued⟩ := b
    rcases queued with _ | ⟨⟨f, i, v⟩, queued⟩
    · exact ⟨le_rfl, fun _ => le_rfl, fun _ => le_rfl⟩
    · have := upd i (total i - v)
      simp only [step, held, amount_cons, amount_nil, Act.added, Covered,
        List.head?_cons, Option.mem_def, Option.some.injEq, forall_eq'] at this ⊢
      omega
  | remit f i =>
    have := upd i (b.total i - b.entry f)
    simp only [step, held, amount_cons, amount_nil, Act.added, Covered] at *
    omega
  | flush i =>
    have := upd i 0
    simp only [step, held, amount_cons, amount_nil, Act.added, Covered, true_implies] at *
    omega

variable {cap : ℕ} {as : List (Act φ ι)}

/-- **A run, from above**: nothing is emitted that was not recorded. -/
theorem run_le {b : Books φ ι} (h : Along (step cap) Covered b as) :
    held (run (step cap) b as).1 + amount (run (step cap) b as).2.flatten ≤
      held b + (as.map Act.added).sum := by
  induction as generalizing b with
  | nil => exact le_rfl
  | cons a as ih =>
    have hstep := (step_held cap b a).2.1 h.1
    have hrest := ih h.2
    simp only [run_cons, flatten_cons, amount_append, map_cons, sum_cons]
    omega

/-- **A run, from below**: nothing that was recorded is lost. -/
theorem run_ge {b : Books φ ι} (h : held b + (as.map Act.added).sum ≤ cap) :
    held b + (as.map Act.added).sum ≤
      held (run (step cap) b as).1 + amount (run (step cap) b as).2.flatten := by
  induction as generalizing b with
  | nil => exact le_rfl
  | cons a as ih =>
    rw [map_cons, sum_cons] at h
    obtain ⟨hgrow, -, hstep⟩ := step_held cap b a
    have hstep := hstep (by omega)
    have hrest := ih (b := (step cap b a).1) (by omega)
    simp only [run_cons, flatten_cons, amount_append, map_cons, sum_cons]
    omega

end Totals

/-! ## The queue -/

section Queue

/-- No entry holds anything. -/
def Clean (b : Books φ ι) : Prop := ∀ f, b.entry f = 0

variable (p : Option φ → Bool)

/-- What is queued for the chosen sources. -/
def queuedFor (b : Books φ ι) : ℕ :=
  ((b.queued.filter fun q => p (some q.1)).map fun q => q.2.2).sum

/-- What is emitted for the chosen sources. -/
def amountFor (out : Emitted φ) : ℕ := amount (out.filter fun x => p x.1)

/-- What an act records for the chosen sources. -/
def Act.addedFor : Act φ ι → ℕ
  | .add f _ x => if p (some f) then x else 0
  | .settle f _ x => if p (some f) then x else 0
  | _ => 0

/-- The acts that leave nothing in an entry and drop nothing. -/
def Settles (cap : ℕ) (b : Books φ ι) : Act φ ι → Prop
  | .settle _ _ x => x ≤ cap
  | .set _ n => n = 0
  | .drop => ∀ q ∈ b.queued.head?, q.2.2 = 0
  | .send | .remit _ _ => True
  | .add .. | .post _ _ | .postTotal _ _ | .flush _ => False

/-- The acts that clear entries, and do not touch the queue. -/
def Act.clears : Act φ ι → Bool
  | .set _ n => n = 0
  | .remit _ _ => true
  | _ => false

theorem amountFor_append (out out' : Emitted φ) :
    amountFor p (out ++ out') = amountFor p out + amountFor p out' := by
  simp [amountFor]

variable [DecidableEq φ] {b : Books φ ι}

theorem Clean.update_zero (h : Clean b) (f : φ) : update b.entry f 0 = b.entry := by
  rw [update_eq_self_iff]
  exact (h f).symm

variable [DecidableEq ι] {as : List (Act φ ι)} {cap : ℕ}

theorem run_clears (cap : ℕ) (b : Books φ ι) (h : ∀ a ∈ as, a.clears = true) :
    Along (step cap) (Settles cap) b as ∧
    (run (step cap) b as).1.queued = b.queued ∧ (as.map (Act.addedFor p)).sum = 0 := by
  induction as generalizing b with
  | nil => exact ⟨trivial, rfl, rfl⟩
  | cons a as ih =>
    obtain ⟨ha, has⟩ := forall_mem_cons.mp h
    obtain ⟨hsettles, hqueued, hadded⟩ := ih (step cap b a).1 has
    cases a with
    | set f n =>
      refine ⟨⟨?_, hsettles⟩, hqueued, ?_⟩
      · show n = 0
        simpa [Act.clears] using ha
      · simpa [Act.addedFor] using hadded
    | remit f i =>
      refine ⟨⟨trivial, hsettles⟩, hqueued, ?_⟩
      simpa [Act.addedFor] using hadded
    | _ => simp [Act.clears] at ha

/-- **One act**: the queue holds what has been recorded and not emitted. -/
theorem step_settles {a : Act φ ι} (hb : Clean b) (ha : Settles cap b a) : Clean (step cap b a).1 ∧
    queuedFor p (step cap b a).1 + amountFor p (step cap b a).2 = queuedFor p b + a.addedFor p := by
  cases a with
  | settle f i x =>
    have hx : min (b.entry f + x) cap = x := by
      rw [hb f, Nat.zero_add]
      exact min_eq_left ha
    simp only [step, hb.update_zero, hx]
    refine ⟨hb, ?_⟩
    by_cases hf : p (some f) = true <;>
      simp [queuedFor, amountFor, Act.addedFor, filter_append, hf]
  | set f n =>
    obtain rfl : n = 0 := ha
    simp only [step, hb.update_zero]
    exact ⟨hb, rfl⟩
  | drop =>
    refine ⟨hb, ?_⟩
    obtain ⟨entry, total, queued⟩ := b
    rcases queued with _ | ⟨⟨f, i, v⟩, queued⟩
    · rfl
    · obtain rfl : v = 0 := ha _ rfl
      by_cases hf : p (some f) = true <;>
        simp [step, queuedFor, amountFor, Act.addedFor, hf]
  | send =>
    obtain ⟨entry, total, queued⟩ := b
    rcases queued with _ | ⟨⟨f, i, v⟩, queued⟩
    · exact ⟨hb, rfl⟩
    · refine ⟨hb, ?_⟩
      by_cases hf : p (some f) = true
      · simp [step, queuedFor, amountFor, Act.addedFor, hf, Nat.add_comm]
      · simp [step, queuedFor, amountFor, Act.addedFor, hf]
  | remit f i =>
    simp only [step, hb.update_zero]
    refine ⟨hb, ?_⟩
    by_cases hf : p (some f) = true <;>
      simp [queuedFor, amountFor, Act.addedFor, hf, hb f]
  | add f i x | post f i | postTotal f i | flush i => exact ha.elim

/-- **A run**: the queue holds what has been recorded and not emitted. -/
theorem run_settles (hb : Clean b) (h : Along (step cap) (Settles cap) b as) :
    Clean (run (step cap) b as).1 ∧
    queuedFor p (run (step cap) b as).1 + amountFor p (run (step cap) b as).2.flatten =
      queuedFor p b + (as.map (Act.addedFor p)).sum := by
  induction as generalizing b with
  | nil => exact ⟨hb, rfl⟩
  | cons a as ih =>
    obtain ⟨hclean, hstep⟩ := step_settles p hb h.1
    obtain ⟨hclean', hrest⟩ := ih hclean h.2
    refine ⟨hclean', ?_⟩
    simp only [run_cons, flatten_cons, amountFor_append, map_cons, sum_cons]
    omega

end Queue

end AppView.Framework.Ledger
