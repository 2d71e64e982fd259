import AppView.Framework.Threads

/-!
# The pool of stacks for regular expressions

Matching runs on a stack of its own. The model has one step for every access to the pool and to
the allocator, which may fail at any time. **`stack_pool_safe`** says for every schedule that a
stack belongs to one thread, that only stacks from outside the pool are released, each once,
and that an entry is marked as used exactly while a thread has it.
-/

namespace AppView.StackPool

open AppView.Framework Function Option

def poolMax : ℕ := 48

structure Entry (A : Type) where
  used : Bool
  addr : Option A

structure Memory (A : Type) where
  pool : Fin poolMax → Entry A
  live : A → Bool
  errors : ℕ

/-- A thread in `get_stack` or `free_stack`, or with the stack it got: what it does next. The
entry that a stack came from is a note. -/
inductive Thread (A : Type) where
  | idle
  | look (i : ℕ)
  | grabUnused (i : Fin poolMax)
  | readAddr (i : Fin poolMax)
  | malloc (i : Fin poolMax)
  | setAddr (i : Fin poolMax) (addr : Option A)
  | checkAddr (i : Fin poolMax)
  | putBack (i : Fin poolMax)
  | returnAddr (i : Fin poolMax)
  | mallocOutside
  | holds (addr : A) (origin : Option (Fin poolMax))
  | scan (addr : A) (origin : Option (Fin poolMax)) (i : ℕ)
  | putUnused (addr : A) (origin : Option (Fin poolMax)) (i : Fin poolMax)
  | free (addr : A) (origin : Option (Fin poolMax))

section Model

variable {A : Type} [DecidableEq A]

namespace Memory

def used (s : Memory A) (i : Fin poolMax) : Bool := (s.pool i).used

def addr (s : Memory A) (i : Fin poolMax) : Option A := (s.pool i).addr

def setUsed (s : Memory A) (i : Fin poolMax) (used : Bool) : Memory A :=
  { s with pool := Function.update s.pool i { s.pool i with used := used } }

def setAddr (s : Memory A) (i : Fin poolMax) (addr : Option A) : Memory A :=
  { s with pool := Function.update s.pool i { s.pool i with addr := addr } }

def fresh (s : Memory A) : Option A → Bool
  | none => true
  | some a => !s.live a

def allocate (s : Memory A) : Option A → Memory A
  | none => s
  | some a => { s with live := Function.update s.live a true }

def free (s : Memory A) (a : A) : Memory A :=
  { s with live := Function.update s.live a false }

def setUnused (s : Memory A) (i : Fin poolMax) : Memory A :=
  if s.used i = true then s.setUsed i false else { s with errors := s.errors + 1 }

end Memory

def returned (addr : Option A) (origin : Option (Fin poolMax)) : Thread A :=
  match addr with
  | none => .idle
  | some a => .holds a origin

def step (s : Memory A) (l : Thread A) (answer : Option A) : Option (Memory A × Thread A) :=
  match l with
  | .idle => some (s, .look 0)
  | .look i =>
    if h : i < poolMax then
      if s.used ⟨i, h⟩ = true then some (s, .look (i + 1)) else some (s, .grabUnused ⟨i, h⟩)
    else some (s, .mallocOutside)
  | .grabUnused i =>
    if s.used i = false then some (s.setUsed i true, .readAddr i) else some (s, .look (i + 1))
  | .readAddr i => if s.addr i ≠ none then some (s, .returnAddr i) else some (s, .malloc i)
  | .malloc i =>
    if s.fresh answer then some (s.allocate answer, .setAddr i answer) else none
  | .setAddr i addr => some (s.setAddr i addr, .checkAddr i)
  | .checkAddr i => if s.addr i ≠ none then some (s, .returnAddr i) else some (s, .putBack i)
  | .putBack i => some (s.setUnused i, .mallocOutside)
  | .returnAddr i => some (s, returned (s.addr i) (some i))
  | .mallocOutside =>
    if s.fresh answer then some (s.allocate answer, returned answer none) else none
  | .holds a origin => some (s, .scan a origin 0)
  | .scan a origin i =>
    if h : i < poolMax then
      if s.addr ⟨i, h⟩ = some a then some (s, .putUnused a origin ⟨i, h⟩)
      else some (s, .scan a origin (i + 1))
    else some (s, .free a origin)
  | .putUnused _ _ i => some (s.setUnused i, .idle)
  | .free a _ => some (s.free a, .idle)

def init {ι : Type} : World ι (Memory A) (Thread A) :=
  ⟨⟨fun _ => ⟨false, none⟩, fun _ => false, 0⟩, fun _ => .idle⟩

/-! ## What a step does -/

inductive Move (s : Memory A) : Thread A → Memory A → Thread A → Prop where
  | start : Move s .idle s (.look 0)
  | usedEntry {i : ℕ} : Move s (.look i) s (.look (i + 1))
  | unusedEntry {i : Fin poolMax} : Move s (.look i) s (.grabUnused i)
  | noEntry {i} : Move s (.look i) s .mallocOutside
  | grabbed {i} : s.used i = false → Move s (.grabUnused i) (s.setUsed i true) (.readAddr i)
  | late {i : Fin poolMax} : Move s (.grabUnused i) s (.look (i + 1))
  | hasAddr {i} : s.addr i ≠ none → Move s (.readAddr i) s (.returnAddr i)
  | noAddr {i} : s.addr i = none → Move s (.readAddr i) s (.malloc i)
  | malloc {i answer} : s.fresh answer = true →
      Move s (.malloc i) (s.allocate answer) (.setAddr i answer)
  | setAddr {i addr} : Move s (.setAddr i addr) (s.setAddr i addr) (.checkAddr i)
  | allocated {i} : s.addr i ≠ none → Move s (.checkAddr i) s (.returnAddr i)
  | notAllocated {i} : Move s (.checkAddr i) s (.putBack i)
  | putBack {i} : Move s (.putBack i) (s.setUnused i) .mallocOutside
  | returnAddr {i} : Move s (.returnAddr i) s (returned (s.addr i) (some i))
  | mallocOutside {answer} : s.fresh answer = true →
      Move s .mallocOutside (s.allocate answer) (returned answer none)
  | done {a origin} : Move s (.holds a origin) s (.scan a origin 0)
  | found {a origin i} : s.addr i = some a →
      Move s (.scan a origin i) s (.putUnused a origin i)
  | other {a origin} {i : Fin poolMax} : s.addr i ≠ some a →
      Move s (.scan a origin i) s (.scan a origin (i + 1))
  | notInPool {a origin i} : poolMax ≤ i → Move s (.scan a origin i) s (.free a origin)
  | putUnused {a origin i} : Move s (.putUnused a origin i) (s.setUnused i) .idle
  | free {a origin} : Move s (.free a origin) (s.free a) .idle

theorem move_of_step {s s' : Memory A} {l l' : Thread A} {answer : Option A}
    (h : step s l answer = some (s', l')) : Move s l s' l' := by
  cases l with
  | look i =>
    rw [step] at h
    split_ifs at h with hi
    · cases h
      exact .usedEntry
    · cases h
      exact .unusedEntry (i := ⟨i, hi⟩)
    · cases h
      exact .noEntry
  | grabUnused i =>
    rw [step] at h
    split_ifs at h with hused
    · cases h
      exact .grabbed hused
    · cases h
      exact .late
  | readAddr i =>
    rw [step] at h
    split_ifs at h with haddr
    · cases h
      exact .hasAddr haddr
    · cases h
      exact .noAddr (not_not.1 haddr)
  | malloc i =>
    rw [step] at h
    split_ifs at h with hfresh
    cases h
    exact .malloc hfresh
  | checkAddr i =>
    rw [step] at h
    split_ifs at h with haddr
    · cases h
      exact .allocated haddr
    · cases h
      exact .notAllocated
  | mallocOutside =>
    rw [step] at h
    split_ifs at h with hfresh
    cases h
    exact .mallocOutside hfresh
  | scan a origin i =>
    rw [step] at h
    split_ifs at h with hi haddr
    · cases h
      exact .found haddr
    · cases h
      exact .other (i := ⟨i, hi⟩) haddr
    · cases h
      exact .notInPool (Nat.le_of_not_lt hi)
  | idle =>
    cases h
    exact .start
  | setAddr i addr =>
    cases h
    exact .setAddr
  | putBack i =>
    cases h
    exact .putBack
  | returnAddr i =>
    cases h
    exact .returnAddr
  | holds a origin =>
    cases h
    exact .done
  | putUnused a origin i =>
    cases h
    exact .putUnused
  | free a origin =>
    cases h
    exact .free

end Model

/-! ## What a thread has -/

section Ownership

variable {A : Type}

def Thread.entry : Thread A → Option (Fin poolMax)
  | .readAddr i => some i
  | .malloc i => some i
  | .setAddr i _ => some i
  | .checkAddr i => some i
  | .putBack i => some i
  | .returnAddr i => some i
  | .holds _ origin => origin
  | .scan _ origin _ => origin
  | .putUnused _ origin _ => origin
  | .free _ origin => origin
  | _ => none

def Thread.stack : Thread A → Option A
  | .holds a _ => some a
  | .scan a _ _ => some a
  | .putUnused a _ _ => some a
  | .free a _ => some a
  | _ => none

def Thread.outside : Thread A → Option A
  | .setAddr _ addr => addr
  | .holds a none => some a
  | .scan a none _ => some a
  | .putUnused a none _ => some a
  | .free a none => some a
  | _ => none

structure PoolOk (s : Memory A) : Prop where
  live : ∀ i a, s.addr i = some a → s.live a = true
  once : ∀ i j a, s.addr i = some a → s.addr j = some a → i = j
  errors : s.errors = 0

def Knows (s : Memory A) : Thread A → Prop
  | .malloc i => s.addr i = none
  | .setAddr i _ => s.addr i = none
  | .returnAddr i => s.addr i ≠ none
  | .scan a _ n => ∀ j : Fin poolMax, (j : ℕ) < n → s.addr j ≠ some a
  | .putUnused a _ i => s.addr i = some a
  | .free _ origin => origin = none
  | _ => True

structure Owns (s : Memory A) (l : Thread A) : Prop where
  used : ∀ i, l.entry = some i → s.used i = true
  pooled : ∀ a i, l.stack = some a → l.entry = some i → s.addr i = some a
  outside : ∀ a, l.outside = some a → s.live a = true ∧ ∀ j, s.addr j ≠ some a
  knows : Knows s l

structure Apart (l m : Thread A) : Prop where
  entry : ∀ i, l.entry = some i → m.entry ≠ some i
  outside : ∀ a, l.outside = some a → m.outside ≠ some a

variable {l : Thread A} {a : A}

theorem outside_of_stack (hstack : l.stack = some a) (hentry : l.entry = none) :
    l.outside = some a := by
  cases l with
  | holds b origin | scan b origin n | putUnused b origin i | free b origin =>
    rw [← hstack, show origin = none from hentry]; rfl
  | _ => cases hstack

theorem Owns.stack_cases {s : Memory A} (h : Owns s l) (hstack : l.stack = some a) :
    (∃ i, l.entry = some i ∧ s.addr i = some a) ∨
      (l.outside = some a ∧ ∀ j, s.addr j ≠ some a) := by
  cases hentry : l.entry with
  | some i => exact .inl ⟨i, rfl, h.pooled a i hstack hentry⟩
  | none =>
    have hout := outside_of_stack hstack hentry
    exact .inr ⟨hout, (h.outside a hout).2⟩

theorem Owns.origin {s : Memory A} (hs : PoolOk s) {origin : Option (Fin poolMax)}
    {i : Fin poolMax} (h : Owns s (.putUnused a origin i)) : origin = some i := by
  have haddr : s.addr i = some a := h.knows
  cases origin with
  | none => exact absurd haddr ((h.outside a rfl).2 i)
  | some k => rw [hs.once k i a (h.pooled a k rfl rfl) haddr]

end Ownership

/-! ## What a step changes -/

namespace Memory

variable {A : Type} (s : Memory A) (i : Fin poolMax)

variable (b : Bool) (addr : Option A) (j : Fin poolMax) (answer : Option A)

theorem used_setUsed : (s.setUsed i b).used j = if j = i then b else s.used j := by
  rw [Memory.used, setUsed]
  dsimp only
  rw [update_apply]
  split_ifs <;> rfl

@[simp] theorem addr_setUsed : (s.setUsed i b).addr = s.addr := by
  funext j
  rw [Memory.addr, setUsed]
  dsimp only
  rw [update_apply]
  split_ifs with h
  · rw [h]
    rfl
  · rfl

@[simp] theorem used_setAddr : (s.setAddr i addr).used = s.used := by
  funext j
  rw [Memory.used, setAddr]
  dsimp only
  rw [update_apply]
  split_ifs with h
  · rw [h]
    rfl
  · rfl

theorem addr_setAddr : (s.setAddr i addr).addr j = if j = i then addr else s.addr j := by
  rw [Memory.addr, setAddr]
  dsimp only
  rw [update_apply]
  split_ifs <;> rfl

theorem setUnused_eq (h : s.used i = true) : s.setUnused i = s.setUsed i false := by
  rw [setUnused, if_pos h]

@[simp] theorem live_setUnused : (s.setUnused i).live = s.live := by
  rw [setUnused]
  split_ifs <;> rfl

theorem live_of_fresh {a : A} (h : s.fresh (some a) = true) : s.live a = false := by
  rwa [fresh, Bool.not_eq_true'] at h

variable [DecidableEq A]

@[simp] theorem used_allocate : (s.allocate answer).used = s.used := by
  cases answer <;> rfl

@[simp] theorem addr_allocate : (s.allocate answer).addr = s.addr := by
  cases answer <;> rfl

@[simp] theorem errors_allocate : (s.allocate answer).errors = s.errors := by
  cases answer <;> rfl

theorem live_allocate (a : A) :
    (s.allocate answer).live a = if answer = some a then true else s.live a := by
  cases answer with
  | none => rfl
  | some b =>
    rw [allocate]
    dsimp only
    rw [update_apply]
    simp [eq_comm]

theorem live_free (a b : A) : (s.free a).live b = if b = a then false else s.live b := by
  rw [free]
  dsimp only
  rw [update_apply]

end Memory

section Invariants

variable {A : Type} [DecidableEq A]

inductive Effect (s : Memory A) (l : Thread A) (l' : Thread A) : Memory A → Prop where
  | keep : l'.entry = l.entry → l'.outside = l.outside → Effect s l l' s
  | grab {i} : s.used i = false → l.entry = none → l'.entry = some i → l.outside = none →
      l'.outside = none → Effect s l l' (s.setUsed i true)
  | allocate {answer} : s.fresh answer = true → l'.entry = l.entry → l.outside = none →
      l'.outside = answer → Effect s l l' (s.allocate answer)
  | store {i addr} : s.addr i = none → l.entry = some i → l'.entry = some i →
      l.outside = addr → l'.outside = none → Effect s l l' (s.setAddr i addr)
  | putBack {i} : l.entry = some i → l'.entry = none → l.outside = none →
      l'.outside = none → Effect s l l' (s.setUsed i false)
  | release {a} : l.entry = none → l'.entry = none → l.outside = some a →
      l'.outside = none → Effect s l l' (s.free a)

omit [DecidableEq A] in
theorem entry_returned (answer : Option A) :
    (returned answer none).entry = none ∧ (returned answer none).outside = answer := by
  cases answer <;> exact ⟨rfl, rfl⟩

variable {s' : Memory A} {l l' m : Thread A} {a : A} {s : Memory A}

theorem Move.effect (h : Move s l s' l') (hs : PoolOk s) (hl : Owns s l) : Effect s l l' s' := by
  cases h with
  | grabbed hused => exact .grab hused rfl rfl rfl rfl
  | malloc hfresh => exact .allocate hfresh rfl rfl rfl
  | setAddr => exact .store hl.knows rfl rfl rfl rfl
  | @putBack i =>
    rw [s.setUnused_eq i (hl.used i rfl)]
    exact .putBack rfl rfl rfl rfl
  | @returnAddr i =>
    obtain ⟨a, ha⟩ := ne_none_iff_exists'.1 hl.knows
    rw [ha]
    exact .keep rfl rfl
  | @mallocOutside answer hfresh =>
    exact .allocate hfresh (entry_returned answer).1 rfl (entry_returned answer).2
  | @found a origin i _ | @done a origin | @other a origin i _ | @notInPool a origin i _ =>
    cases origin <;> exact .keep rfl rfl
  | @putUnused a origin i =>
    obtain rfl := hl.origin hs
    rw [s.setUnused_eq i (hl.used i rfl)]
    exact .putBack rfl rfl rfl rfl
  | @free a origin =>
    obtain rfl : origin = none := hl.knows
    exact .release rfl rfl rfl rfl
  | _ => exact .keep rfl rfl

/-! ## The invariant -/

theorem Effect.pool (h : Effect s l l' s') (hs : PoolOk s) (hl : Owns s l) : PoolOk s' := by
  cases h with
  | keep _ _ => exact hs
  | grab _ _ _ _ _ | putBack _ _ _ _ =>
    exact ⟨by rw [s.addr_setUsed]; exact hs.live, by rw [s.addr_setUsed]; exact hs.once, hs.errors⟩
  | @allocate answer _ _ _ _ =>
    refine ⟨fun i a ha => ?_, by rw [s.addr_allocate]; exact hs.once,
      by rw [s.errors_allocate]; exact hs.errors⟩
    rw [s.addr_allocate] at ha
    rw [s.live_allocate]
    split_ifs
    · rfl
    · exact hs.live i a ha
  | @store i addr _ _ _ hout _ =>
    refine ⟨fun j a ha => ?_, fun j k a hj hk => ?_, hs.errors⟩
    · rw [s.addr_setAddr] at ha
      split_ifs at ha
      · exact (hl.outside a (hout.trans ha)).1
      · exact hs.live j a ha
    · rw [s.addr_setAddr] at hj hk
      split_ifs at hj hk with hji hki hki
      · exact hji.trans hki.symm
      · exact absurd hk ((hl.outside a (hout.trans hj)).2 k)
      · exact absurd hj ((hl.outside a (hout.trans hk)).2 j)
      · exact hs.once j k a hj hk
  | @release a _ _ hout _ =>
    refine ⟨fun i b hb => ?_, hs.once, hs.errors⟩
    rw [s.live_free, if_neg, hs.live i b hb]
    rintro rfl
    exact (hl.outside b hout).2 i hb

theorem Effect.used (h : Effect s l l' s') (hl : Owns s l) :
    ∀ i, l'.entry = some i → s'.used i = true := by
  intro i hi
  cases h with
  | keep hentry _ => exact hl.used i (hentry ▸ hi)
  | @grab k _ _ hentry _ _ =>
    rw [hentry] at hi
    cases hi
    rw [s.used_setUsed, if_pos rfl]
  | allocate _ hentry _ _ =>
    rw [s.used_allocate]
    exact hl.used i (hentry ▸ hi)
  | store _ hold hentry _ _ =>
    rw [s.used_setAddr]
    exact hl.used i (hold.trans (hentry.symm.trans hi))
  | putBack _ hentry _ _ | release _ hentry _ _ =>
    rw [hentry] at hi
    cases hi

theorem Effect.outside (h : Effect s l l' s') (hs : PoolOk s) (hl : Owns s l) :
    ∀ a, l'.outside = some a → s'.live a = true ∧ ∀ j, s'.addr j ≠ some a := by
  intro a ha
  cases h with
  | keep _ hout => exact hl.outside a (hout ▸ ha)
  | grab _ _ _ _ hout | store _ _ _ _ hout | putBack _ _ _ hout | release _ _ _ hout =>
    rw [hout] at ha
    cases ha
  | @allocate answer hfresh _ _ hout =>
    rw [hout] at ha
    rw [s.live_allocate, if_pos ha, s.addr_allocate]
    refine ⟨rfl, fun j hj => ?_⟩
    -- what is in the pool is allocated, and the new stack was not
    rw [ha] at hfresh
    have hlive := s.live_of_fresh hfresh
    rw [hs.live j a hj] at hlive
    cases hlive

theorem Move.pooled {s s' : Memory A} {l l' : Thread A} (h : Move s l s' l') (hl : Owns s l) :
    ∀ a i, l'.stack = some a → l'.entry = some i → s'.addr i = some a := by
  intro a i hstack hentry
  cases h with
  | @returnAddr k =>
    cases haddr : s.addr k with
    | none =>
      rw [haddr] at hstack
      cases hstack
    | some b =>
      rw [haddr] at hstack hentry
      cases hstack
      cases hentry
      exact haddr
  | @mallocOutside answer _ =>
    rw [(entry_returned answer).1] at hentry
    cases hentry
  | done | found _ | other _ | notInPool _ => exact hl.pooled a i hstack hentry
  | _ => cases hstack

theorem Move.knows {s s' : Memory A} {l l' : Thread A} (h : Move s l s' l') (hl : Owns s l) :
    Knows s' l' := by
  cases h with
  | hasAddr haddr => exact haddr
  | noAddr haddr => exact haddr
  | @malloc i answer _ =>
    rw [Knows, s.addr_allocate]
    exact hl.knows
  | allocated haddr => exact haddr
  | @returnAddr i => cases s.addr i <;> trivial
  | @mallocOutside answer _ => cases answer <;> trivial
  | done => exact fun j hj => absurd hj (Nat.not_lt_zero j)
  | found haddr => exact haddr
  | @other a origin i haddr =>
    intro j hj
    rcases Nat.lt_succ_iff_lt_or_eq.1 hj with hlt | heq
    · exact hl.knows j hlt
    · rw [Fin.ext heq]
      exact haddr
  | @notInPool a origin i hi =>
    -- a stack from the pool would have been found
    cases origin with
    | none => rfl
    | some k => exact absurd (hl.pooled a k rfl rfl) (hl.knows k (Nat.lt_of_lt_of_le k.2 hi))
  | _ => trivial

theorem Effect.addr (h : Effect s l l' s') (j : Fin poolMax) :
    s'.addr j = s.addr j ∨ (l.entry = some j ∧ s.addr j = none ∧ s'.addr j = l.outside) := by
  cases h with
  | keep _ _ | release _ _ _ _ => exact .inl rfl
  | grab _ _ _ _ _ | putBack _ _ _ _ => exact .inl (by rw [s.addr_setUsed])
  | allocate _ _ _ _ => exact .inl (by rw [s.addr_allocate])
  | @store i addr haddr hentry _ hout _ =>
    rw [s.addr_setAddr]
    split_ifs with hj
    · rw [hj]
      exact .inr ⟨hentry, haddr, hout.symm⟩
    · exact .inl rfl

theorem Effect.knows_other (h : Effect s l l' s') (hl : Owns s l)
    (hm : Owns s m) (hx : Apart l m) : Knows s' m := by
  have hentry : ∀ j, m.entry = some j → s'.addr j = s.addr j := by
    intro j hj
    rcases h.addr j with hsame | ⟨hl, -⟩
    · exact hsame
    · exact absurd hj (hx.entry j hl)
  have hknows := hm.knows
  cases m with
  | malloc j | setAddr j _ | returnAddr j =>
    rw [Knows, hentry j rfl]
    exact hknows
  | scan b origin n =>
    intro j hj hb
    rcases h.addr j with hsame | ⟨-, -, hnew⟩
    · exact hknows j hj (hsame ▸ hb)
    · -- the stack that is stored is not the one of this thread
      have hout : l.outside = some b := hnew.symm.trans hb
      rcases hm.stack_cases rfl with ⟨k, -, hk⟩ | ⟨hmine, -⟩
      · exact (hl.outside b hout).2 k hk
      · exact hx.outside b hout hmine
  | putUnused b origin j =>
    rcases h.addr j with hsame | ⟨-, hnone, -⟩
    · rw [Knows, hsame]
      exact hknows
    · rw [Knows, hnone] at hknows
      cases hknows
  | free b origin => exact hknows
  | _ => trivial

theorem Effect.owns_other (h : Effect s l l' s') (hl : Owns s l) (hm : Owns s m)
    (hx : Apart l m) : Owns s' m := by
  refine ⟨fun j hj => ?_, fun a j hstack hj => ?_, fun a ha => ⟨?_, fun j hb => ?_⟩,
    h.knows_other hl hm hx⟩
  · have hused := hm.used j hj
    cases h with
    | keep _ _ => exact hused
    | grab _ _ _ _ _ =>
      rw [s.used_setUsed]
      split_ifs
      · rfl
      · exact hused
    | allocate _ _ _ _ =>
      rw [s.used_allocate]
      exact hused
    | store _ _ _ _ _ =>
      rw [s.used_setAddr]
      exact hused
    | @putBack i hentry _ _ _ =>
      rw [s.used_setUsed, if_neg]
      · exact hused
      · rintro rfl
        exact hx.entry j hentry hj
    | release _ _ _ _ => exact hused
  · rcases h.addr j with hsame | ⟨hentry, -⟩
    · rw [hsame]
      exact hm.pooled a j hstack hj
    · exact absurd hj (hx.entry j hentry)
  · have hlive := (hm.outside a ha).1
    cases h with
    | keep _ _ => exact hlive
    | grab _ _ _ _ _ => exact hlive
    | allocate _ _ _ _ =>
      rw [s.live_allocate]
      split_ifs
      · rfl
      · exact hlive
    | store _ _ _ _ _ => exact hlive
    | putBack _ _ _ _ => exact hlive
    | @release b _ _ hout _ =>
      rw [s.live_free, if_neg, hlive]
      rintro rfl
      exact hx.outside a hout ha
  · rcases h.addr j with hsame | ⟨-, -, hnew⟩
    · exact (hm.outside a ha).2 j (hsame ▸ hb)
    · exact hx.outside a (hnew.symm.trans hb) ha

theorem Effect.apart (h : Effect s l l' s') (hm : Owns s m) (hx : Apart l m) : Apart l' m := by
  cases h with
  | keep hentry hout => exact ⟨hentry ▸ hx.entry, hout ▸ hx.outside⟩
  | @grab i hused _ hentry _ hout =>
    refine ⟨fun j hj hmj => ?_, fun a ha => ?_⟩
    · rw [hentry] at hj
      cases hj
      rw [hm.used i hmj] at hused
      cases hused
    · rw [hout] at ha
      cases ha
  | @allocate answer hfresh hentry _ hout =>
    refine ⟨hentry ▸ hx.entry, fun a ha hma => ?_⟩
    rw [hout] at ha
    rw [ha] at hfresh
    have hlive := s.live_of_fresh hfresh
    rw [(hm.outside a hma).1] at hlive
    cases hlive
  | store _ hold hentry _ hout =>
    refine ⟨fun j hj => hx.entry j (hold.trans (hentry.symm.trans hj)), fun a ha => ?_⟩
    rw [hout] at ha
    cases ha
  | putBack _ hentry _ hout | release _ hentry _ hout =>
    refine ⟨fun j hj => ?_, fun a ha => ?_⟩
    · rw [hentry] at hj
      cases hj
    · rw [hout] at ha
      cases ha

theorem keeps_pool : World.Keeps (step (A := A)) PoolOk Owns Apart where
  symm _ _ h := ⟨fun i hm hl => h.entry i hl hm, fun a hm hl => h.outside a hl hm⟩
  own _ _ _ _ _ h hs hl := by
    have hmove := move_of_step h
    have heffect := hmove.effect hs hl
    exact ⟨heffect.pool hs hl, heffect.used hl, hmove.pooled hl, heffect.outside hs hl,
      hmove.knows hl⟩
  other _ _ _ _ _ _ h hs hl hm hx := by
    have heffect := (move_of_step h).effect hs hl
    exact ⟨heffect.owns_other hl hm hx, heffect.apart hm hx⟩

/-! ## Nothing is lost -/

theorem Effect.covers_used (h : Effect s l l' s') (i : Fin poolMax) (hi : s'.used i = true) :
    l'.entry = some i ∨ (s.used i = true ∧ l.entry ≠ some i) := by
  cases h with
  | keep hentry _ =>
    rw [hentry]
    exact or_iff_not_imp_left.2 fun hne => ⟨hi, hne⟩
  | @grab k _ hold hentry _ _ =>
    rw [s.used_setUsed] at hi
    split_ifs at hi with hik
    · rw [hik]
      exact .inl hentry
    · rw [hold]
      exact .inr ⟨hi, (some_ne_none i).symm⟩
  | allocate _ hentry _ _ =>
    rw [s.used_allocate] at hi
    rw [hentry]
    exact or_iff_not_imp_left.2 fun hne => ⟨hi, hne⟩
  | store _ hold hentry _ _ =>
    rw [s.used_setAddr] at hi
    rw [hentry, ← hold]
    exact or_iff_not_imp_left.2 fun hne => ⟨hi, hne⟩
  | @putBack k hold _ _ _ =>
    rw [s.used_setUsed] at hi
    split_ifs at hi with hik
    refine .inr ⟨hi, fun heq => hik ?_⟩
    exact some.inj (heq.symm.trans hold)
  | release hold _ _ _ =>
    rw [hold]
    exact .inr ⟨hi, (some_ne_none i).symm⟩

def Outside (s : Memory A) (a : A) : Prop := s.live a = true ∧ ∀ j, s.addr j ≠ some a

theorem Effect.covers_outside (h : Effect s l l' s') (a : A) (ha : Outside s' a) :
    l'.outside = some a ∨ (Outside s a ∧ l.outside ≠ some a) := by
  cases h with
  | keep _ hout =>
    rw [hout]
    exact or_iff_not_imp_left.2 fun hne => ⟨ha, hne⟩
  | grab _ _ _ hold _ | putBack _ _ hold _ =>
    rw [Outside, s.addr_setUsed] at ha
    rw [hold]
    exact .inr ⟨ha, (some_ne_none a).symm⟩
  | @allocate answer _ _ hold hout =>
    rw [Outside, s.live_allocate, s.addr_allocate] at ha
    by_cases hanswer : answer = some a
    · exact .inl (hout.trans hanswer)
    · rw [if_neg hanswer] at ha
      rw [hold]
      exact .inr ⟨ha, (some_ne_none a).symm⟩
  | @store i addr hnone _ _ hold _ =>
    refine .inr ⟨⟨ha.1, fun j hj => ha.2 j ?_⟩, fun hout => ha.2 i ?_⟩
    · rw [s.addr_setAddr, if_neg, hj]
      rintro rfl
      rw [hnone] at hj
      cases hj
    · rw [s.addr_setAddr, if_pos rfl, ← hold, hout]
  | @release b _ _ hold _ =>
    obtain ⟨hlive, haddr⟩ := ha
    rw [s.live_free] at hlive
    split_ifs at hlive with hab
    refine .inr ⟨⟨hlive, haddr⟩, fun hout => hab ?_⟩
    exact some.inj (hout.symm.trans hold)

/-! ## All schedules -/

structure Sound {ι : Type} (w : World ι (Memory A) (Thread A)) : Prop where
  holds : World.Holds PoolOk Owns Apart w
  used : World.Covered (fun s i => s.used i = true) (fun l i => l.entry = some i) w
  outside : World.Covered Outside (fun l a => l.outside = some a) w

omit [DecidableEq A] in
theorem sound_init {ι : Type} : Sound (init : World ι (Memory A) (Thread A)) where
  holds := by
    refine ⟨⟨fun _ _ h => (by cases h), fun _ _ _ h => (by cases h), rfl⟩, fun t => ?_,
      fun t u _ => ⟨fun _ h => (by cases h), fun _ h => (by cases h)⟩⟩
    exact ⟨fun _ h => (by cases h), fun _ _ h => (by cases h), fun _ h => (by cases h), trivial⟩
  used _ h := by cases h
  outside _ h := by cases h.1

omit [DecidableEq A] in
theorem absent_of_live {ι : Type} {w : World ι (Memory A) (Thread A)} (hw : Sound w)
    (ha : w.shared.live a = false) :
    (∀ t, (w.threads t).stack ≠ some a) ∧ ∀ i, w.shared.addr i ≠ some a := by
  have haddr : ∀ i, w.shared.addr i ≠ some a := by
    intro i hi
    rw [hw.holds.shared.live i a hi] at ha
    cases ha
  refine ⟨fun t ht => ?_, haddr⟩
  rcases (hw.holds.thread t).stack_cases ht with ⟨i, -, hi⟩ | ⟨hout, -⟩
  · exact haddr i hi
  · rw [((hw.holds.thread t).outside a hout).1] at ha
    cases ha

omit [DecidableEq A] in
theorem Sound.stack_ne {ι : Type} {w : World ι (Memory A) (Thread A)} (hw : Sound w) {t u : ι}
    (htu : t ≠ u) (ht : (w.threads t).stack = some a) : (w.threads u).stack ≠ some a := by
  intro hu
  have hapart := hw.holds.pair t u htu
  rcases (hw.holds.thread t).stack_cases ht with ⟨i, hti, hi⟩ | ⟨hout, hnone⟩
  · rcases (hw.holds.thread u).stack_cases hu with ⟨j, huj, hj⟩ | ⟨-, hnone⟩
    · rw [hw.holds.shared.once i j a hi hj] at hti
      exact hapart.entry j hti huj
    · exact hnone i hi
  · rcases (hw.holds.thread u).stack_cases hu with ⟨j, -, hj⟩ | ⟨hout', -⟩
    · exact hnone j hj
    · exact hapart.outside a hout hout'

section Schedules

variable {ι : Type} [DecidableEq ι] {w : World ι (Memory A) (Thread A)}

theorem Sound.step (h : Sound w) (x : ι × Option A) : Sound (w.step step x) := by
  have heffect : ∀ s l, StackPool.step w.shared (w.threads x.1) x.2 = some (s, l) →
      Effect w.shared (w.threads x.1) l s := fun s l hstep =>
    (move_of_step hstep).effect h.holds.shared (h.holds.thread x.1)
  exact ⟨h.holds.step keeps_pool x,
    h.used.step x fun s l hstep i hi => (heffect s l hstep).covers_used i hi,
    h.outside.step x fun s l hstep a ha => (heffect s l hstep).covers_outside a ha⟩

theorem live_of_step {a : A} (s : Memory A) (l : Thread A) (answer : Option A) (s' : Memory A)
    (l' : Thread A) (hanswer : answer ≠ some a) (h : step s l answer = some (s', l'))
    (ha : s.live a = false) : s'.live a = false := by
  cases move_of_step h with
  | malloc _ =>
    rw [step] at h
    split_ifs at h
    cases congrArg Prod.snd (some.inj h)
    rw [s.live_allocate, if_neg hanswer, ha]
  | @mallocOutside answer' _ =>
    rw [step] at h
    split_ifs at h
    have hout := congrArg (fun r => Thread.outside r.2) (some.inj h)
    rw [(entry_returned answer).2, (entry_returned answer').2] at hout
    rw [s.live_allocate, ← hout, if_neg hanswer, ha]
  | putBack | putUnused => rw [s.live_setUnused, ha]
  | free =>
    rw [s.live_free]
    split_ifs
    · rfl
    · exact ha
  | _ => exact ha

def OneHolder (w : World ι (Memory A) (Thread A)) : Prop :=
  ∀ t u a, t ≠ u → (w.threads t).stack = some a → (w.threads u).stack ≠ some a

def ReleasedOnce (w : World ι (Memory A) (Thread A)) : Prop :=
  ∀ t a origin, w.threads t = .free a origin →
    origin = none ∧ w.shared.live a = true ∧ (∀ i, w.shared.addr i ≠ some a) ∧
    ∀ answer bs, (∀ b ∈ bs, b.2 ≠ some a) →
      let w' := (w.step step (t, answer)).run step bs
      (∀ u, (w'.threads u).stack ≠ some a) ∧ ∀ i, w'.shared.addr i ≠ some a

def NoneLost (w : World ι (Memory A) (Thread A)) : Prop :=
  (∀ t a origin i, w.threads t = .putUnused a origin i → origin = some i) ∧
  ∀ a, w.shared.live a = true →
    (∃ i, w.shared.addr i = some a) ∨ ∃ t, (w.threads t).outside = some a

def EntriesMarked (w : World ι (Memory A) (Thread A)) : Prop :=
  ∀ i, w.shared.used i = true ↔ ∃ t, (w.threads t).entry = some i

theorem Sound.releasedOnce (hw : Sound w) : ReleasedOnce w := by
  intro t a origin ht
  have howns := hw.holds.thread t
  rw [ht] at howns
  obtain rfl : origin = none := howns.knows
  obtain ⟨hlive, haddr⟩ := howns.outside a rfl
  refine ⟨rfl, hlive, haddr, ?_⟩
  intro answer bs hbs w'
  have hw' : Sound w' :=
    World.run_invariant (I := Sound) (fun w x h => h.step x) (hw.step (t, answer)) bs
  refine absent_of_live hw' (World.run_shared (R := fun b => b ≠ some a) live_of_step ?_ hbs)
  rw [World.step]
  rw [ht]
  exact update_self a false w.shared.live

omit [DecidableEq ι] in
theorem Sound.noneLost (hw : Sound w) : NoneLost w := by
  constructor
  · intro t a origin i ht
    have howns := hw.holds.thread t
    rw [ht] at howns
    exact howns.origin hw.holds.shared
  · intro a ha
    by_cases hpool : ∃ i, w.shared.addr i = some a
    · exact .inl hpool
    · exact .inr (hw.outside a ⟨ha, fun j hj => hpool ⟨j, hj⟩⟩)

def after (as : List (ι × Option A)) : World ι (Memory A) (Thread A) := init.run step as

/-- **The pool of stacks under every interleaving**, with any answers of the allocator. -/
theorem stack_pool_safe (as : List (ι × Option A)) :
    OneHolder (after as) ∧ ReleasedOnce (after as) ∧ NoneLost (after as) ∧
      EntriesMarked (after as) ∧ (after as).shared.errors = 0 := by
  have hw : Sound (after as) :=
    World.run_invariant (I := Sound) (fun w x h => h.step x) sound_init as
  refine ⟨fun t u a htu ht => hw.stack_ne htu ht, hw.releasedOnce, hw.noneLost, fun i => ?_,
    hw.holds.shared.errors⟩
  exact ⟨fun hi => hw.used i hi, fun ⟨t, ht⟩ => (hw.holds.thread t).used i ht⟩

end Schedules

end Invariants

end AppView.StackPool
