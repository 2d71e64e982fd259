import Mathlib

/-!
# Places that own allocated cells

Cells are numbered as they are allocated and are never numbered anew. A place holds a cell or
nothing. A cell that is used or released after it was released is a fault.
-/

namespace AppView.Framework

open List Function Option

structure Heap (P : Type*) where
  own : P → Option ℕ
  released : List ℕ
  allocated : ℕ
  faults : ℕ

namespace Heap

variable {P Q : Type*}

/-- Nothing is allocated. -/
def empty : Heap P := ⟨fun _ => none, [], 0, 0⟩

/-- A pointer is followed; one that is `none` is not. -/
def touch (h : Heap P) (cell : Option ℕ) : Heap P :=
  match cell with
  | some id => if id ∈ h.released then { h with faults := h.faults + 1 } else h
  | none => h

/-- What is done with the cell of a place. -/
inductive Command (P : Type*) where
  /-- It is read or written. -/
  | use (p : P)
  /-- It is released, and the place holds nothing. -/
  | release (p : P)
  /-- It is released for a new one. -/
  | renew (p : P)
  /-- It is handed to an owner that is no place. -/
  | give (p : P)

/-- The same at another place. -/
def Command.map (f : P → Q) : Command P → Command Q
  | .use p => .use (f p)
  | .release p => .release (f p)
  | .renew p => .renew (f p)
  | .give p => .give (f p)

/-- Releasing a cell; a second time is a fault. -/
def drop (h : Heap P) (cell : Option ℕ) : Heap P :=
  match cell with
  | some id => { h.touch cell with released := id :: h.released }
  | none => h

def exec [DecidableEq P] (h : Heap P) : Command P → Heap P
  | .use p => h.touch (h.own p)
  | .release p => { h.drop (h.own p) with own := Function.update h.own p none }
  | .renew p =>
    { h.drop (h.own p) with
      own := Function.update h.own p (some h.allocated)
      allocated := h.allocated + 1 }
  | .give p => { h.touch (h.own p) with own := Function.update h.own p none }

/-- Which places hold something after a command. -/
def Command.holds [DecidableEq P] (f : P → Bool) : Command P → P → Bool
  | .use _ => f
  | .release p | .give p => Function.update f p false
  | .renew p => Function.update f p true

/-- Each place gets a copy of what the place `f` says holds. -/
def copy (h : Heap P) (f : P → P) : Heap P := { h with own := fun p => h.own (f p) }

/-- What some places hold is forgotten, without being released. -/
def clear (h : Heap P) (c : P → Bool) : Heap P :=
  { h with own := fun p => if c p then none else h.own p }

structure Sound (h : Heap P) : Prop where
  /-- What is held is allocated and not released. -/
  live : ∀ p id, h.own p = some id → id < h.allocated ∧ id ∉ h.released
  /-- No cell has two owners. -/
  unique : ∀ p q id, h.own p = some id → h.own q = some id → p = q
  old : ∀ id ∈ h.released, id < h.allocated
  faults : h.faults = 0

theorem sound_empty : Sound (empty : Heap P) where
  live _ _ hp := absurd hp (some_ne_none _).symm
  unique _ _ _ hp := absurd hp (some_ne_none _).symm
  old _ hid := absurd hid not_mem_nil
  faults := rfl

variable {h : Heap P}

theorem Sound.touch_own (hs : h.Sound) (p : P) : h.touch (h.own p) = h := by
  cases hown : h.own p with
  | none => rfl
  | some id => exact if_neg (hs.live p id hown).2

theorem Sound.drop_own (hs : h.Sound) (p : P) :
    h.drop (h.own p) = { h with released := (h.own p).toList ++ h.released } := by
  have htouch := hs.touch_own p
  cases hown : h.own p with
  | none => rfl
  | some id =>
    rw [hown] at htouch
    rw [drop, htouch]
    rfl

theorem Sound.forget (hs : h.Sound) {own : P → Option ℕ}
    (hown : ∀ p, own p = none ∨ own p = h.own p) : Sound { h with own := own } := by
  have hkept : ∀ p id, own p = some id → h.own p = some id := by
    intro p id hp
    rcases hown p with hnone | hsame
    · rw [hnone] at hp
      cases hp
    · rw [← hsame, hp]
  exact ⟨fun p id hp => hs.live p id (hkept p id hp),
    fun p q id hp hq => hs.unique p q id (hkept p id hp) (hkept q id hq), hs.old, hs.faults⟩

theorem Sound.clear (hs : h.Sound) (c : P → Bool) : (h.clear c).Sound := by
  refine hs.forget fun p => ?_
  by_cases hp : c p = true
  · exact .inl (if_pos hp)
  · exact .inr (if_neg hp)

theorem Sound.update [DecidableEq P] (hs : h.Sound) (p : P) {cell : Option ℕ} {gone : List ℕ}
    {n : ℕ} (hn : h.allocated ≤ n) (hgone : gone ⊆ (h.own p).toList)
    (hcell : ∀ id ∈ cell, h.allocated ≤ id ∧ id < n) :
    Sound { h with
      own := update h.own p cell
      released := gone ++ h.released
      allocated := n } := by
  have hheld : ∀ id ∈ gone, h.own p = some id := fun id hid =>
    mem_toList.1 (hgone hid)
  have hold : ∀ id ∈ gone ++ h.released, id < h.allocated := by
    intro id hid
    rcases mem_append.1 hid with hid | hid
    · exact (hs.live p id (hheld id hid)).1
    · exact hs.old id hid
  -- another place holds what it held, which is not what goes
  have hother : ∀ q id, q ≠ p → h.own q = some id → id < h.allocated ∧ id ∉ gone ++ h.released := by
    intro q id hq hid
    refine ⟨(hs.live q id hid).1, fun hmem => ?_⟩
    rcases mem_append.1 hmem with hmem | hmem
    · exact hq (hs.unique q p id hid (hheld id hmem))
    · exact (hs.live q id hid).2 hmem
  refine ⟨fun q id hq => ?_, fun q r id hq hr => ?_, fun id hid => ?_, hs.faults⟩
  · dsimp only at hq ⊢
    by_cases hqp : q = p
    · rw [hqp, update_self] at hq
      obtain ⟨hge, hlt⟩ := hcell id hq
      exact ⟨hlt, fun hmem => absurd (hold id hmem) (Nat.not_lt.2 hge)⟩
    · rw [update_of_ne hqp] at hq
      obtain ⟨hlt, hnot⟩ := hother q id hqp hq
      exact ⟨Nat.lt_of_lt_of_le hlt hn, hnot⟩
  · dsimp only at hq hr
    by_cases hqp : q = p <;> by_cases hrp : r = p
    · rw [hqp, hrp]
    · rw [hqp, update_self] at hq
      rw [update_of_ne hrp] at hr
      exact absurd (hs.live r id hr).1 (Nat.not_lt.2 (hcell id hq).1)
    · rw [hrp, update_self] at hr
      rw [update_of_ne hqp] at hq
      exact absurd (hs.live q id hq).1 (Nat.not_lt.2 (hcell id hr).1)
    · rw [update_of_ne hqp] at hq
      rw [update_of_ne hrp] at hr
      exact hs.unique q r id hq hr
  · exact Nat.lt_of_lt_of_le (hold id hid) hn

theorem own_touch (cell : Option ℕ) : (h.touch cell).own = h.own := by
  cases cell with
  | none => rfl
  | some id =>
    rw [touch]
    split_ifs <;> rfl

theorem faults_le_touch (h : Heap P) (cell : Option ℕ) : h.faults ≤ (h.touch cell).faults := by
  cases cell with
  | none => exact Nat.le_refl _
  | some id =>
    rw [touch]
    split_ifs
    · exact Nat.le_succ _
    · exact Nat.le_refl _

section Exec

variable [DecidableEq P]

/-- **A command keeps a sound heap sound.** -/
theorem Sound.exec (hs : h.Sound) (c : Command P) : (h.exec c).Sound := by
  cases c with
  | use p =>
    rw [Heap.exec, hs.touch_own p]
    exact hs
  | release p =>
    rw [Heap.exec, hs.drop_own p]
    exact hs.update p (Nat.le_refl _) (Subset.refl _) fun id hid => by cases hid
  | renew p =>
    rw [Heap.exec, hs.drop_own p]
    refine hs.update p (Nat.le_succ _) (Subset.refl _) fun id hid => ?_
    rw [← some.inj hid]
    exact ⟨Nat.le_refl _, Nat.lt_succ_self _⟩
  | give p =>
    rw [Heap.exec, hs.touch_own p]
    exact hs.update p (Nat.le_refl _) (nil_subset _) fun id hid => by cases hid

/-- **Commands keep a sound heap sound.** -/
theorem Sound.foldl (hs : h.Sound) (cs : List (Command P)) : (cs.foldl Heap.exec h).Sound := by
  induction cs generalizing h with
  | nil => exact hs
  | cons c cs ih => exact ih (hs.exec c)

theorem own_release_foldl (h : Heap P) (ps : List P) (q : P) :
    ((ps.map Command.release).foldl Heap.exec h).own q = if q ∈ ps then none else h.own q := by
  induction ps generalizing h with
  | nil => rfl
  | cons p ps ih =>
    rw [map_cons, foldl_cons, ih]
    by_cases hmem : q ∈ ps
    · rw [if_pos hmem, if_pos (mem_cons_of_mem _ hmem)]
    · rw [if_neg hmem, exec]
      by_cases hq : q = p
      · rw [hq, if_pos mem_cons_self]
        exact update_self ..
      · rw [if_neg fun h => (mem_cons.1 h).elim hq hmem]
        exact update_of_ne hq _ _

/-! ## A released cell that is still held -/

theorem released_subset_foldl (h : Heap P) (ps : List P) :
    h.released ⊆ ((ps.map Command.release).foldl Heap.exec h).released := by
  induction ps generalizing h with
  | nil => exact Subset.refl _
  | cons p ps ih =>
    refine Subset.trans ?_ (ih _)
    rw [exec]
    cases hown : h.own p with
    | none => exact Subset.refl _
    | some id => exact subset_cons_self _ _

theorem faults_le_foldl (h : Heap P) (ps : List P) :
    h.faults ≤ ((ps.map Command.release).foldl Heap.exec h).faults := by
  induction ps generalizing h with
  | nil => exact Nat.le_refl _
  | cons p ps ih =>
    refine Nat.le_trans ?_ (ih _)
    rw [exec]
    cases hown : h.own p with
    | none => exact Nat.le_refl _
    | some id => exact faults_le_touch h (some id)

variable {p q : P} {id : ℕ} {ps : List P}

theorem mem_released_foldl (hown : h.own p = some id) (hp : p ∈ ps) :
    id ∈ ((ps.map Command.release).foldl Heap.exec h).released := by
  induction ps generalizing h with
  | nil => cases hp
  | cons q ps ih =>
    rw [map_cons, foldl_cons]
    by_cases hq : p = q
    · refine released_subset_foldl _ ps ?_
      rw [← hq, exec, hown]
      exact mem_cons_self
    · refine ih ?_ ((mem_cons.1 hp).resolve_left hq)
      rw [exec]
      exact (update_of_ne hq _ _).trans hown

/-- **A released cell that a place still holds is a fault as soon as the place is released.** -/
theorem faults_of_dangling (hown : h.own p = some id) (hid : id ∈ h.released) (hp : p ∈ ps) :
    0 < ((ps.map Command.release).foldl Heap.exec h).faults := by
  induction ps generalizing h with
  | nil => cases hp
  | cons q ps ih =>
    rw [map_cons, foldl_cons]
    by_cases hq : p = q
    · refine Nat.lt_of_lt_of_le ?_ (faults_le_foldl _ ps)
      rw [← hq, exec, hown]
      dsimp only [drop, touch]
      rw [if_pos hid]
      exact Nat.succ_pos _
    · refine ih ?_ ?_ ((mem_cons.1 hp).resolve_left hq)
      · rw [exec]
        exact (update_of_ne hq _ _).trans hown
      · exact released_subset_foldl h [q] hid

/-! ## The commands of some places -/

variable {g : Q → P}

theorem own_exec_map (hq : ∀ x, g x ≠ q) (c : Command Q) : (h.exec (c.map g)).own q = h.own q := by
  cases c with
  | use x => rw [Command.map, exec, own_touch]
  | release x | renew x | give x =>
    exact update_of_ne (hq x).symm _ _

theorem own_foldl_map (hq : ∀ x, g x ≠ q) (cs : List (Command Q)) :
    ((cs.map (Command.map g)).foldl Heap.exec h).own q = h.own q := by
  induction cs generalizing h with
  | nil => rfl
  | cons c cs ih => rw [map_cons, foldl_cons, ih, own_exec_map hq]

variable [DecidableEq Q]

theorem isSome_exec_map (hg : Injective g) (c : Command Q) :
    (fun q => ((h.exec (c.map g)).own (g q)).isSome) = c.holds fun q => (h.own (g q)).isSome := by
  cases c with
  | use x => rw [Command.map, exec, own_touch, Command.holds]
  | release x | renew x | give x =>
    refine (congrArg (isSome ∘ ·) (update_comp_eq_of_injective h.own hg x _)).trans ?_
    exact comp_update ..

theorem isSome_foldl_map (hg : Injective g) (cs : List (Command Q)) :
    (fun q => (((cs.map (Command.map g)).foldl Heap.exec h).own (g q)).isSome) =
      cs.foldl Command.holds fun q => (h.own (g q)).isSome := by
  induction cs generalizing h with
  | nil => rfl
  | cons c cs ih => rw [map_cons, foldl_cons, ih, isSome_exec_map hg, foldl_cons]

end Exec

end Heap

end AppView.Framework
