import AppView.Framework.Threads

/-!
# The thread that reports periodically

`threadNow` starts the reporting thread, once in a process, between two compare-and-swaps on a
flag. **`reporting_thread`**: no process ever has two reporting threads, and in one that has
none a call of `threadNow` tries to create it exactly if `pthread_create` was found and the fork
that made the process did not cut off another thread inside.
-/

namespace AppView.Periodic

open AppView.Framework

/-- What a fork leaves in the child, as a note: nothing that matters, the flag of a thread that
does not exist there, or a thread that will note a reporting thread that is not there. -/
inductive Cut where
  | none
  | lock
  | once
  deriving DecidableEq

/-- The memory of a process. The counts are notes, and `resetting` holds in a child until
`doReset`. -/
structure Memory where
  serialize : Bool
  once : Bool
  reporters : ℕ
  attempts : ℕ
  resetting : Bool
  cut : Cut
  deriving DecidableEq

inductive Pc where
  | outside
  | lock
  | readOnce
  | create
  | setOnce
  | unlock
  deriving DecidableEq

def Pc.inside : Pc → Bool
  | .outside => false
  | .lock => false
  | _ => true

inductive Input where
  | call
  | go (created : Bool)

def step (resolved : Bool) (s : Memory) (pc : Pc) (x : Input) : Option (Memory × Pc) :=
  if s.resetting then none
  else
    match x, pc with
    | .call, .outside => some (s, .lock)
    | .call, _ => none
    | .go _, .outside => none
    | .go _, .lock =>
      if s.serialize = false then some ({ s with serialize := true }, .readOnce)
      else some (s, .outside)
    | .go _, .readOnce => if s.once then some (s, .unlock) else some (s, .create)
    | .go created, .create =>
      if resolved then
        if created then
          some ({ s with attempts := s.attempts + 1, reporters := s.reporters + 1 }, .setOnce)
        else some ({ s with attempts := s.attempts + 1 }, .unlock)
      else some (s, .setOnce)
    | .go _, .setOnce => some ({ s with once := true }, .unlock)
    | .go _, .unlock =>
      -- where the flag is not set this only leaves a debug message
      some ({ s with serialize := false }, .outside)

section Processes

variable {ι : Type} [DecidableEq ι]

abbrev Process (ι : Type) := World ι Memory Pc

def cutOf (p : Process ι) (t : ι) : Cut :=
  if p.threads t = .setOnce then .once
  else if p.shared.serialize = true ∧ (p.threads t).inside = false then .lock
  else .none

def child (p : Process ι) (t : ι) : Process ι where
  shared := { p.shared with
    reporters := 0, attempts := 0, resetting := true, cut := cutOf p t }
  threads u := if u = t then p.threads t else .outside

def doReset (p : Process ι) : Process ι where
  shared := { p.shared with once := false, resetting := false }
  threads := p.threads

inductive Action (ι : Type) where
  | thread (t : ι) (x : Input)
  | fork (t : ι)
  | reset

def act (resolved : Bool) (p : Process ι) : Action ι → Option (Process ι × Option (Process ι))
  | .thread t x => some (p.step (step resolved) (t, x), none)
  | .fork t => some (p, some (child p t))
  | .reset => if p.shared.resetting then some (doReset p, none) else none

def first : Process ι := ⟨⟨false, false, 0, 0, false, .none⟩, fun _ => .outside⟩

end Processes

/-! ## What a step does -/

inductive Move (resolved : Bool) (s : Memory) : Pc → Memory → Pc → Prop where
  | call : Move resolved s .outside s .lock
  | locked : s.serialize = false →
      Move resolved s .lock { s with serialize := true } .readOnce
  | busy : Move resolved s .lock s .outside
  | already : s.once = true → Move resolved s .readOnce s .unlock
  | missing : s.once = false → Move resolved s .readOnce s .create
  | created : resolved = true → Move resolved s .create
      { s with attempts := s.attempts + 1, reporters := s.reporters + 1 } .setOnce
  | failed : resolved = true →
      Move resolved s .create { s with attempts := s.attempts + 1 } .unlock
  | unresolved : resolved = false → Move resolved s .create s .setOnce
  | noted : Move resolved s .setOnce { s with once := true } .unlock
  | unlocked : Move resolved s .unlock { s with serialize := false } .outside

variable {resolved : Bool} {s s' : Memory} {pc pc' : Pc}

theorem move_of_step {x : Input} (h : step resolved s pc x = some (s', pc')) :
    s.resetting = false ∧ Move resolved s pc s' pc' := by
  unfold step at h
  by_cases hreset : s.resetting = true
  · rw [if_pos hreset] at h
    cases h
  rw [if_neg hreset] at h
  refine ⟨Bool.eq_false_of_not_eq_true hreset, ?_⟩
  cases x with
  | call =>
    cases pc with
    | outside =>
      cases h
      exact .call
    | _ => cases h
  | go created =>
    cases pc with
    | outside => cases h
    | lock =>
      dsimp only at h
      split_ifs at h with hlock
      · cases h
        exact .locked hlock
      · cases h
        exact .busy
    | readOnce =>
      dsimp only at h
      split_ifs at h with honce
      · cases h
        exact .already honce
      · cases h
        exact .missing (Bool.eq_false_of_not_eq_true honce)
    | create =>
      dsimp only at h
      split_ifs at h with hresolved hcreated
      · cases h
        exact .created hresolved
      · cases h
        exact .failed hresolved
      · cases h
        exact .unresolved (Bool.eq_false_of_not_eq_true hresolved)
    | setOnce =>
      cases h
      exact .noted
    | unlock =>
      cases h
      exact .unlocked

/-! ## The invariant -/

structure MemoryOk (resolved : Bool) (s : Memory) : Prop where
  le_one : s.reporters ≤ 1
  fresh : s.resetting = true → s.reporters = 0
  unlocked : s.serialize = false → s.once = false → s.reporters = 0
  told : s.cut = .none → resolved = true → s.resetting = false → s.once = true →
    s.reporters ≠ 0
  stuck : s.cut = .lock → s.serialize = true
  blind : s.cut = .once →
    s.reporters = 0 ∧ (s.serialize = true ∨ (s.resetting = false ∧ s.once = true))

structure PcOk (resolved : Bool) (s : Memory) (pc : Pc) : Prop where
  inside : pc.inside = true → s.serialize = true ∧ s.cut ≠ .lock
  rest : pc = .readOnce ∨ pc = .unlock → (s.once = false → s.reporters = 0) ∧
    (s.cut = .once → s.resetting = false ∧ s.once = true)
  create : pc = .create → s.reporters = 0 ∧ s.once = false ∧ s.cut ≠ .once
  setOnce : pc = .setOnce → s.cut = .none → resolved = true → s.reporters ≠ 0

def Exclusive (pc pc' : Pc) : Prop := pc.inside = true → pc'.inside = false

theorem pcOk_of_outside (h : pc.inside = false) : PcOk resolved s pc := by
  cases pc with
  | outside | lock => exact ⟨fun h => (by cases h), fun h => (by simp at h), fun h => (by cases h),
      fun h => (by cases h)⟩
  | _ => cases h

theorem Move.memory_own (h : Move resolved s pc s' pc') (hreset : s.resetting = false)
    (hs : MemoryOk resolved s) (hpc : PcOk resolved s pc) : MemoryOk resolved s' := by
  have hfresh : ∀ n : ℕ, s.resetting = true → n = 0 := by
    intro n h
    rw [hreset] at h
    cases h
  cases h with
  | locked hlock =>
    exact ⟨hs.le_one, hs.fresh, fun h => (by cases h), hs.told, fun _ => rfl,
      fun hcut => ⟨(hs.blind hcut).1, .inl rfl⟩⟩
  | created hresolved =>
    obtain ⟨hnone, honce, hcut⟩ := hpc.create rfl
    obtain ⟨hlock, -⟩ := hpc.inside rfl
    refine ⟨by rw [hnone], hfresh _, fun h => ?_, fun _ _ _ h => ?_, hs.stuck,
      fun h => absurd h hcut⟩
    · rw [hlock] at h
      cases h
    · rw [honce] at h
      cases h
  | failed hresolved => exact ⟨hs.le_one, hs.fresh, hs.unlocked, hs.told, hs.stuck, hs.blind⟩
  | noted =>
    obtain ⟨hlock, -⟩ := hpc.inside rfl
    exact ⟨hs.le_one, hs.fresh, fun _ h => (by cases h),
      fun hcut hresolved _ _ => hpc.setOnce rfl hcut hresolved, hs.stuck,
      fun hcut => ⟨(hs.blind hcut).1, .inl hlock⟩⟩
  | unlocked =>
    obtain ⟨hnone, hblind⟩ := hpc.rest (.inr rfl)
    exact ⟨hs.le_one, hs.fresh, fun _ => hnone, hs.told, fun hcut => absurd hcut (hpc.inside rfl).2,
      fun hcut => ⟨(hs.blind hcut).1, .inr (hblind hcut)⟩⟩
  | _ => exact hs

theorem Move.pc_own (h : Move resolved s pc s' pc') (hreset : s.resetting = false)
    (hs : MemoryOk resolved s) (hpc : PcOk resolved s pc) : PcOk resolved s' pc' := by
  cases h with
  | call | busy | unlocked => exact pcOk_of_outside rfl
  | locked hlock =>
    have hcut : s.cut ≠ .lock := by
      intro hcut
      rw [hs.stuck hcut] at hlock
      cases hlock
    refine ⟨fun _ => ⟨rfl, hcut⟩, fun _ => ⟨hs.unlocked hlock, fun hcut => ?_⟩,
      fun h => (by cases h), fun h => (by cases h)⟩
    rcases (hs.blind hcut).2 with h | h
    · rw [hlock] at h
      cases h
    · exact h
  | already honce =>
    exact ⟨fun _ => hpc.inside rfl, fun _ => hpc.rest (.inl rfl), fun h => (by cases h),
      fun h => (by cases h)⟩
  | missing honce =>
    obtain ⟨hnone, hblind⟩ := hpc.rest (.inl rfl)
    refine ⟨fun _ => hpc.inside rfl, fun h => (by simp at h),
      fun _ => ⟨hnone honce, honce, fun hcut => ?_⟩, fun h => (by cases h)⟩
    rw [(hblind hcut).2] at honce
    cases honce
  | created hresolved =>
    exact ⟨fun _ => hpc.inside rfl, fun h => (by simp at h), fun h => (by cases h),
      fun _ _ _ => Nat.succ_ne_zero _⟩
  | failed hresolved =>
    obtain ⟨hnone, -, hcut⟩ := hpc.create rfl
    exact ⟨fun _ => hpc.inside rfl, fun _ => ⟨fun _ => hnone, fun h => absurd h hcut⟩,
      fun h => (by cases h), fun h => (by cases h)⟩
  | unresolved hresolved =>
    refine ⟨fun _ => hpc.inside rfl, fun h => (by simp at h), fun h => (by cases h),
      fun _ _ h => ?_⟩
    rw [hresolved] at h
    cases h
  | noted =>
    exact ⟨fun _ => hpc.inside rfl, fun _ => ⟨fun h => (by cases h), fun _ => ⟨hreset, rfl⟩⟩,
      fun h => (by cases h), fun h => (by cases h)⟩

theorem Move.alone {other : Pc} (h : Move resolved s pc s' pc')
    (hother : PcOk resolved s other) (hx : Exclusive pc other) :
    (s' = s ∧ pc.inside = false ∧ pc'.inside = false) ∨ other.inside = false := by
  cases h with
  | call | busy => exact .inl ⟨rfl, rfl, rfl⟩
  | locked hlock =>
    refine .inr (Bool.eq_false_of_not_eq_true fun hin => ?_)
    rw [(hother.inside hin).1] at hlock
    cases hlock
  | _ => exact .inr (hx rfl)

theorem keeps_process (resolved : Bool) :
    World.Keeps (step resolved) (MemoryOk resolved) (PcOk resolved) Exclusive where
  symm pc other h hother := by
    refine Bool.eq_false_of_not_eq_true fun hpc => ?_
    rw [h hpc] at hother
    cases hother
  own s pc x s' pc' h hs hpc := by
    obtain ⟨hreset, hmove⟩ := move_of_step h
    exact ⟨hmove.memory_own hreset hs hpc, hmove.pc_own hreset hs hpc⟩
  other s pc x s' pc' other h hs hpc hother hx := by
    rcases (move_of_step h).2.alone hother hx with ⟨rfl, -, hout⟩ | hout
    · refine ⟨hother, fun hin => ?_⟩
      rw [hout] at hin
      cases hin
    · exact ⟨pcOk_of_outside hout, fun _ => hout⟩

def Locked (s : Memory) (_ : Unit) : Prop := s.serialize = true ∧ s.cut = .none

theorem Move.locked_own (h : Move resolved s pc s' pc') (hlock : Locked s' ()) :
    pc'.inside = true ∨ (Locked s () ∧ ¬ pc.inside = true) := by
  cases h with
  | call | busy => exact .inr ⟨hlock, Bool.false_ne_true⟩
  | unlocked => cases hlock.1
  | _ => exact .inl rfl

section Runs

variable {ι : Type}

structure ProcessOk (resolved : Bool) (p : Process ι) : Prop where
  holds : World.Holds (MemoryOk resolved) (PcOk resolved) Exclusive p
  locked : World.Covered Locked (fun pc _ => pc.inside = true) p

theorem processOk_first (resolved : Bool) : ProcessOk resolved (first : Process ι) where
  holds := by
    refine ⟨⟨Nat.zero_le 1, fun _ => rfl, fun _ _ => rfl, fun _ _ _ h => ?_, fun h => ?_,
      fun h => ?_⟩, fun _ => pcOk_of_outside rfl, fun _ _ _ _ => rfl⟩
    · cases h
    · cases h
    · cases h
  locked _ h := by cases h.1

variable {resolved : Bool} {p : Process ι} {t : ι}

theorem ProcessOk.doReset (h : ProcessOk resolved p) (hreset : p.shared.resetting = true) :
    ProcessOk resolved (doReset p) := by
  have hs := h.holds.shared
  have hnone := hs.fresh hreset
  refine ⟨⟨⟨hs.le_one, fun h => (by cases h), fun _ _ => hnone, fun _ _ _ h => (by cases h),
    hs.stuck, fun hcut => ⟨hnone, ?_⟩⟩, fun u => ?_, h.holds.pair⟩, h.locked⟩
  · rcases (hs.blind hcut).2 with hlock | ⟨hnot, -⟩
    · exact .inl hlock
    · rw [hreset] at hnot
      cases hnot
  · have hpc := h.holds.thread u
    refine ⟨hpc.inside, fun hat => ⟨fun _ => hnone, fun hcut => ?_⟩,
      fun hat => ⟨hnone, rfl, (hpc.create hat).2.2⟩,
      fun hat hcut hresolved => absurd hnone (hpc.setOnce hat hcut hresolved)⟩
    -- a thread that was forked before it could note is the only one inside
    have hnot := ((hpc.rest hat).2 hcut).1
    rw [hreset] at hnot
    cases hnot

theorem cutOf_once (h : cutOf p t = .once) : p.threads t = .setOnce := by
  rw [cutOf] at h
  split_ifs at h with honce
  exact honce

theorem cutOf_lock (h : cutOf p t = .lock) :
    p.shared.serialize = true ∧ (p.threads t).inside = false := by
  rw [cutOf] at h
  split_ifs at h with honce hlock
  exact hlock

theorem cutOf_none (h : cutOf p t = .none) :
    p.threads t ≠ .setOnce ∧ (p.shared.serialize = true → (p.threads t).inside = true) := by
  rw [cutOf] at h
  split_ifs at h with honce hlock
  exact ⟨honce, fun hset => Bool.eq_true_of_not_eq_false fun hout => hlock ⟨hset, hout⟩⟩

variable [DecidableEq ι]

theorem ProcessOk.step (h : ProcessOk resolved p) (x : ι × Input) :
    ProcessOk resolved (p.step (step resolved) x) :=
  ⟨h.holds.step (keeps_process resolved) x,
    h.locked.step x fun _ _ hstep _ hlock => (move_of_step hstep).2.locked_own hlock⟩

theorem PcOk.child (h : PcOk resolved p.shared (p.threads t)) :
    PcOk resolved (child p t).shared (p.threads t) := by
  refine ⟨fun hin => ⟨(h.inside hin).1, fun hcut => ?_⟩, fun hat => ⟨fun _ => rfl, fun hcut => ?_⟩,
    fun hat => ⟨rfl, (h.create hat).2.1, fun hcut => ?_⟩, fun hat hcut _ => ?_⟩
  · rw [(cutOf_lock hcut).2] at hin
    cases hin
  · rw [cutOf_once hcut] at hat
    simp at hat
  · rw [cutOf_once hcut] at hat
    cases hat
  · exact absurd hat (cutOf_none hcut).1

theorem ProcessOk.child (h : ProcessOk resolved p) (t : ι) : ProcessOk resolved (child p t) := by
  have hpc := h.holds.thread t
  have hself : (Periodic.child p t).threads t = p.threads t := if_pos rfl
  have hothers : ∀ u, u ≠ t → (Periodic.child p t).threads u = .outside := fun u hu => if_neg hu
  refine ⟨⟨⟨Nat.zero_le 1, fun _ => rfl, fun _ _ => rfl, fun _ _ h => (by cases h),
    fun hcut => (cutOf_lock hcut).1, fun hcut => ⟨rfl, .inl ?_⟩⟩,
    fun u => ?_, fun u v huv hin => ?_⟩, fun _ hlock => ⟨t, ?_⟩⟩
  · refine (hpc.inside ?_).1
    rw [cutOf_once hcut]
    rfl
  · by_cases hu : u = t
    · subst hu
      rw [hself]
      exact hpc.child
    · rw [hothers u hu]
      exact pcOk_of_outside rfl
  · by_cases hv : v = t
    · rw [hothers u (by rw [← hv]; exact huv)] at hin
      cases hin
    · rw [hothers v hv]
      rfl
  · rw [hself]
    exact (cutOf_none hlock.2).2 hlock.1

theorem ProcessOk.act (p : Process ι) (x : Action ι) (p' : Process ι) (c : Option (Process ι))
    (h : ProcessOk resolved p) (hact : act resolved p x = some (p', c)) :
    ProcessOk resolved p' ∧ ∀ q ∈ c, ProcessOk resolved q := by
  cases x with
  | thread t x =>
    cases hact
    exact ⟨h.step (t, x), fun q hq => by cases hq⟩
  | fork t =>
    cases hact
    refine ⟨h, fun q hq => ?_⟩
    cases hq
    exact h.child t
  | reset =>
    rw [Periodic.act] at hact
    split_ifs at hact with hreset
    cases hact
    exact ⟨h.doReset hreset, fun q hq => by cases hq⟩

/-! ## A call that no other thread gets in the way of -/

def threadNow (created : Bool) : List Input := .call :: List.replicate 5 (.go created)

def Attempts (resolved : Bool) (p : Process ι) (t : ι) (created : Bool) : Prop :=
  p.shared.attempts <
    (p.run (step resolved) ((threadNow created).map (Prod.mk t))).shared.attempts

theorem attempts_iff (resolved : Bool) (created : Bool) (hreset : p.shared.resetting = false)
    (ht : p.threads t = .outside) : Attempts resolved p t created ↔
      resolved = true ∧ p.shared.serialize = false ∧ p.shared.once = false := by
  rw [Attempts, World.run_alone, ht]
  obtain ⟨⟨serialize, once, reporters, attempts, resetting, cut⟩, threads⟩ := p
  obtain rfl : resetting = false := hreset
  cases serialize <;> cases once <;> cases resolved <;> cases created <;>
    simp [World.alone, threadNow, step, List.replicate]

/-! ## Every run -/

def processes (resolved : Bool) (as : List (ℕ × Action ι)) : List (Process ι) :=
  as.foldl (spawn (act resolved)) [first]

/-- **The reporting thread.** After every run, in every process: there is at most one; and if
there is none, `doReset` is over and no thread is in `threadNow`, then a call tries to create it
exactly if `pthread_create` was found and the fork that made the process left neither the flag
of another thread nor a thread about to note what exists in the parent only. -/
theorem reporting_thread (resolved : Bool) (as : List (ℕ × Action ι)) (p : Process ι)
    (hp : p ∈ processes resolved as) : p.shared.reporters ≤ 1 ∧
      (p.shared.resetting = false → p.shared.reporters = 0 → (∀ u, p.threads u = .outside) →
        ∀ t created, Attempts resolved p t created ↔ resolved = true ∧ p.shared.cut = .none) := by
  have hok : ProcessOk resolved p := by
    refine forall_foldl_spawn ProcessOk.act ?_ as p hp
    rw [List.forall_mem_singleton]
    exact processOk_first resolved
  have hs := hok.holds.shared
  refine ⟨hs.le_one, fun hreset hnone hout t created => ?_⟩
  have hfree : p.shared.cut = .none → p.shared.serialize = false := by
    intro hcut
    refine Bool.eq_false_of_not_eq_true fun hlock => ?_
    obtain ⟨u, hu⟩ := hok.locked () ⟨hlock, hcut⟩
    rw [hout u] at hu
    cases hu
  rw [attempts_iff resolved created hreset (hout t)]
  constructor
  · rintro ⟨hresolved, hlock, honce⟩
    refine ⟨hresolved, ?_⟩
    cases hcut : p.shared.cut with
    | none => rfl
    | lock =>
      rw [hs.stuck hcut] at hlock
      cases hlock
    | once =>
      rcases (hs.blind hcut).2 with h | h
      · rw [hlock] at h
        cases h
      · rw [honce] at h
        cases h.2
  · rintro ⟨hresolved, hcut⟩
    refine ⟨hresolved, hfree hcut, Bool.eq_false_of_not_eq_true fun honce => ?_⟩
    exact hs.told hcut hresolved hreset honce hnone

end Runs

/-- A child that was forked while no thread was inside. -/
theorem reporting_thread_child :
    let p : Process Bool := doReset (child first false)
    p ∈ processes true [(0, .fork false), (1, .reset)] ∧ p.shared.reporters = 0 ∧
      Attempts true p false true := by
  intro p
  have hp : p ∈ processes true [(0, .fork false), (1, .reset)] :=
    List.mem_of_getElem? (i := 1) rfl
  refine ⟨hp, rfl, ?_⟩
  refine ((reporting_thread true _ p hp).2 rfl rfl (fun u => ?_) false true).2 ⟨rfl, rfl⟩
  cases u <;> rfl

/-- A child that is forked while another thread is inside never tries. -/
theorem reporting_thread_forked : ∃ p : Process Bool,
      p ∈ processes true [(0, .thread true .call), (0, .thread true (.go true)),
        (0, .fork false), (1, .reset)] ∧
      p.shared.resetting = false ∧ p.shared.reporters = 0 ∧ (∀ u, p.threads u = .outside) ∧
      ∀ t created, ¬ Attempts true p t created := by
  refine ⟨_, List.mem_of_getElem? (i := 1) rfl, rfl, rfl, fun u => ?_, fun t created h => ?_⟩
  · cases u <;> rfl
  · rw [attempts_iff true created rfl (by cases t <;> rfl)] at h
    cases h.2.1

end AppView.Periodic
