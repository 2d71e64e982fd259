import AppView.Framework.Threads

/-!
# The table of debug messages

Every place in the source that reports something unexpected has a line in a table, with a count
and the first and the latest message. The model has one step for every access to the memory
that threads share, so a schedule of such steps is an interleaving of the calls.
**`dbg_table_safe`** says for every schedule that a key has one line at most, that the lines in
use are the first ones, that a key stays where it is, that the counts are those of the calls,
and that a message is released once and not before it has left the table.
-/

namespace AppView.Dbg

open AppView.Framework Function Option

def maxInstancesPerLine : ℕ := 2
def maxNumLines : ℕ := 256

structure Occurrence (A : Type) where
  time : Int64
  err : Int32
  str : Option A

structure Line (K A : Type) where
  key : Option K
  count : ℕ
  instances : Fin maxInstancesPerLine → Occurrence A

/-- The table, and which messages are allocated. How many calls were made and turned away is a
note. -/
structure Memory (K A : Type) where
  lines : Fin maxNumLines → Line K A
  live : A → Bool
  calls : ℕ
  refused : ℕ

inductive Thread (K A : Type) where
  | idle
  | search (key : K) (str : Option A) (i : ℕ)
  | compare (key : K) (str : Option A) (i : Fin maxNumLines)
  | placeKey (key : K) (str : Option A) (i : Fin maxNumLines)
  | readCount (str : Option A) (i : Fin maxNumLines)
  | addCount (str : Option A) (i : Fin maxNumLines) (origCount : ℕ)
  | setTime (str : Option A) (i : Fin maxNumLines) (j : Fin maxInstancesPerLine)
  | setErr (str : Option A) (i : Fin maxNumLines) (j : Fin maxInstancesPerLine)
  | readStr (str : Option A) (i : Fin maxNumLines) (j : Fin maxInstancesPerLine)
  | swapStr (str : Option A) (i : Fin maxNumLines) (j : Fin maxInstancesPerLine)
      (prevStr : Option A)
  | free (str : A)

inductive Input (K A : Type) where
  | call (key : K) (str : Option A)
  | go (time : Int64) (err : Int32)

section Model

variable {K A : Type} [DecidableEq K] [DecidableEq A]

namespace Memory

def key (s : Memory K A) (i : Fin maxNumLines) : Option K := (s.lines i).key

def count (s : Memory K A) (i : Fin maxNumLines) : ℕ := (s.lines i).count

def str (s : Memory K A) (i : Fin maxNumLines) (j : Fin maxInstancesPerLine) : Option A :=
  ((s.lines i).instances j).str

def setLine (s : Memory K A) (i : Fin maxNumLines) (line : Line K A) : Memory K A :=
  { s with lines := Function.update s.lines i line }

def setKey (s : Memory K A) (i : Fin maxNumLines) (key : K) : Memory K A :=
  s.setLine i { s.lines i with key := some key }

def setCount (s : Memory K A) (i : Fin maxNumLines) (count : ℕ) : Memory K A :=
  s.setLine i { s.lines i with count := count }

def setInstance (s : Memory K A) (i : Fin maxNumLines) (j : Fin maxInstancesPerLine)
    (o : Occurrence A) : Memory K A :=
  s.setLine i { s.lines i with instances := Function.update (s.lines i).instances j o }

def setTime (s : Memory K A) (i : Fin maxNumLines) (j : Fin maxInstancesPerLine) (time : Int64) :
    Memory K A :=
  s.setInstance i j { (s.lines i).instances j with time := time }

def setErr (s : Memory K A) (i : Fin maxNumLines) (j : Fin maxInstancesPerLine) (err : Int32) :
    Memory K A :=
  s.setInstance i j { (s.lines i).instances j with err := err }

def setStr (s : Memory K A) (i : Fin maxNumLines) (j : Fin maxInstancesPerLine)
    (str : Option A) : Memory K A :=
  s.setInstance i j { (s.lines i).instances j with str := str }

def fresh (s : Memory K A) : Option A → Bool
  | none => true
  | some a => !s.live a

def allocate (s : Memory K A) : Option A → Memory K A
  | none => { s with calls := s.calls + 1 }
  | some a => { s with live := Function.update s.live a true, calls := s.calls + 1 }

def free (s : Memory K A) (a : A) : Memory K A :=
  { s with live := Function.update s.live a false }

def refuse (s : Memory K A) : Memory K A := { s with refused := s.refused + 1 }

end Memory

def release : Option A → Thread K A
  | none => .idle
  | some a => .free a

def instanceOf (origCount : ℕ) : Fin maxInstancesPerLine :=
  if h : origCount < maxInstancesPerLine then ⟨origCount, h⟩
  else ⟨maxInstancesPerLine - 1, by decide⟩

def advance (s : Memory K A) (time : Int64) (err : Int32) :
    Thread K A → Option (Memory K A × Thread K A)
  | .idle => none
  | .search key str i =>
    if h : i < maxNumLines then
      match s.key ⟨i, h⟩ with
      | none => some (s, .placeKey key str ⟨i, h⟩)
      | some _ => some (s, .compare key str ⟨i, h⟩)
    else some (s.refuse, release str)
  | .compare key str i =>
    if s.key i = some key then some (s, .readCount str i)
    else some (s, .search key str (i + 1))
  | .placeKey key str i =>
    if s.key i = none then some (s.setKey i key, .readCount str i)
    else some (s, .search key str 0)
  | .readCount str i => some (s, .addCount str i (s.count i))
  | .addCount str i origCount =>
    if s.count i = origCount then
      some (s.setCount i ((origCount + 1) % 2 ^ 64), .setTime str i (instanceOf origCount))
    else some (s, .readCount str i)
  | .setTime str i j => some (s.setTime i j time, .setErr str i j)
  | .setErr str i j => some (s.setErr i j err, .readStr str i j)
  | .readStr str i j => some (s, .swapStr str i j (s.str i j))
  | .swapStr str i j prevStr =>
    if s.str i j = prevStr then some (s.setStr i j str, release prevStr)
    else some (s, .readStr str i j)
  | .free a => some (s.free a, .idle)

def step (s : Memory K A) (l : Thread K A) (x : Input K A) : Option (Memory K A × Thread K A) :=
  match x with
  | .call key str =>
    match l with
    | .idle => if s.fresh str then some (s.allocate str, .search key str 0) else none
    | _ => none
  | .go time err => advance s time err l

def emptyLine : Line K A := ⟨none, 0, fun _ => ⟨0, 0, none⟩⟩

def init {ι : Type} : World ι (Memory K A) (Thread K A) :=
  ⟨⟨fun _ => emptyLine, fun _ => false, 0, 0⟩, fun _ => .idle⟩

/-! ## What a step does -/

inductive Move (s : Memory K A) : Thread K A → Memory K A → Thread K A → Prop where
  | call {key str} : s.fresh str = true → Move s .idle (s.allocate str) (.search key str 0)
  | freeLine {key str i} : s.key i = none →
      Move s (.search key str i) s (.placeKey key str i)
  | usedLine {key str i} : s.key i ≠ none →
      Move s (.search key str i) s (.compare key str i)
  | full {key str i} : maxNumLines ≤ i → Move s (.search key str i) s.refuse (release str)
  | same {key str i} : s.key i = some key →
      Move s (.compare key str i) s (.readCount str i)
  | different {key str} {i : Fin maxNumLines} : s.key i ≠ some key →
      Move s (.compare key str i) s (.search key str (i + 1))
  | placed {key str i} : s.key i = none →
      Move s (.placeKey key str i) (s.setKey i key) (.readCount str i)
  | late {key str i} : s.key i ≠ none → Move s (.placeKey key str i) s (.search key str 0)
  | readCount {str i} : Move s (.readCount str i) s (.addCount str i (s.count i))
  | added {str i} : Move s (.addCount str i (s.count i))
      (s.setCount i ((s.count i + 1) % 2 ^ 64)) (.setTime str i (instanceOf (s.count i)))
  | addAgain {str i n} : s.count i ≠ n → Move s (.addCount str i n) s (.readCount str i)
  | setTime {str i j time} : Move s (.setTime str i j) (s.setTime i j time) (.setErr str i j)
  | setErr {str i j err} : Move s (.setErr str i j) (s.setErr i j err) (.readStr str i j)
  | readStr {str i j} : Move s (.readStr str i j) s (.swapStr str i j (s.str i j))
  | swapped {str i j} : Move s (.swapStr str i j (s.str i j)) (s.setStr i j str)
      (release (s.str i j))
  | swapAgain {str i j prevStr} : s.str i j ≠ prevStr →
      Move s (.swapStr str i j prevStr) s (.readStr str i j)
  | free {a} : Move s (.free a) (s.free a) .idle

theorem move_of_step {s s' : Memory K A} {l l' : Thread K A} {x : Input K A}
    (h : step s l x = some (s', l')) : Move s l s' l' := by
  cases x with
  | call key str =>
    cases l with
    | idle =>
      rw [step] at h
      split_ifs at h with hfresh
      cases h
      exact .call hfresh
    | _ => cases h
  | go time err =>
    rw [step] at h
    cases l with
    | idle => cases h
    | search key str i =>
      rw [advance] at h
      split_ifs at h with hi
      · cases hkey : s.key ⟨i, hi⟩ with
        | none =>
          rw [hkey] at h
          cases h
          exact .freeLine hkey
        | some k =>
          rw [hkey] at h
          cases h
          exact .usedLine (i := ⟨i, hi⟩) (by rw [hkey]; exact some_ne_none k)
      · cases h
        exact .full (Nat.le_of_not_lt hi)
    | compare key str i =>
      rw [advance] at h
      split_ifs at h with hkey
      · cases h
        exact .same hkey
      · cases h
        exact .different hkey
    | placeKey key str i =>
      rw [advance] at h
      split_ifs at h with hkey
      · cases h
        exact .placed hkey
      · cases h
        exact .late hkey
    | readCount str i =>
      cases h
      exact .readCount
    | addCount str i n =>
      rw [advance] at h
      split_ifs at h with hcount
      · subst hcount
        cases h
        exact .added
      · cases h
        exact .addAgain hcount
    | setTime str i j =>
      cases h
      exact .setTime
    | setErr str i j =>
      cases h
      exact .setErr
    | readStr str i j =>
      cases h
      exact .readStr
    | swapStr str i j prevStr =>
      rw [advance] at h
      split_ifs at h with hstr
      · subst hstr
        cases h
        exact .swapped
      · cases h
        exact .swapAgain hstr
    | free a =>
      cases h
      exact .free

end Model

/-! ## What a step leaves alone -/

section Frames

variable {K A : Type}

namespace Memory

theorem setLine_same {β : Type} (g : Line K A → β) {s : Memory K A} {i : Fin maxNumLines}
    {line : Line K A} (h : g line = g (s.lines i)) (j : Fin maxNumLines) :
    g ((s.setLine i line).lines j) = g (s.lines j) := by
  rw [setLine]
  dsimp only
  by_cases hj : j = i
  · subst hj
    rw [update_self, h]
  · rw [update_of_ne hj]

theorem setLine_apply (s : Memory K A) (i : Fin maxNumLines) (line : Line K A)
    (j : Fin maxNumLines) :
    (s.setLine i line).lines j = if j = i then line else s.lines j := by
  rw [setLine]
  dsimp only
  rw [update_apply]

variable (s : Memory K A) (i : Fin maxNumLines) (j : Fin maxInstancesPerLine)

variable (n : ℕ) (key : K) (o : Occurrence A)

theorem key_setKey (j : Fin maxNumLines) :
    (s.setKey i key).key j = if j = i then some key else s.key j := by
  rw [Memory.key, setKey, setLine_apply]
  split_ifs <;> rfl

@[simp] theorem key_setCount : (s.setCount i n).key = s.key :=
  funext (setLine_same Line.key rfl)

@[simp] theorem key_setInstance : (s.setInstance i j o).key = s.key :=
  funext (setLine_same Line.key rfl)

@[simp] theorem count_setKey : (s.setKey i key).count = s.count :=
  funext (setLine_same Line.count rfl)

@[simp] theorem count_setInstance : (s.setInstance i j o).count = s.count :=
  funext (setLine_same Line.count rfl)

theorem count_setCount : (s.setCount i n).count = update s.count i n := by
  funext j
  rw [Memory.count, setCount, setLine_apply, update_apply]
  split_ifs <;> rfl

@[simp] theorem str_setKey : (s.setKey i key).str = s.str := by
  funext k j
  refine setLine_same (fun line => (line.instances j).str) ?_ k
  rfl

@[simp] theorem str_setCount : (s.setCount i n).str = s.str := by
  funext k j
  refine setLine_same (fun line => (line.instances j).str) ?_ k
  rfl

theorem str_setInstance (k : Fin maxNumLines) (m : Fin maxInstancesPerLine) :
    (s.setInstance i j o).str k m = if k = i ∧ m = j then o.str else s.str k m := by
  rw [Memory.str, setInstance, setLine_apply]
  by_cases hk : k = i
  · subst hk
    rw [if_pos rfl]
    dsimp only
    rw [update_apply]
    by_cases hm : m = j
    · rw [if_pos hm, if_pos ⟨rfl, hm⟩]
    · rw [if_neg hm, if_neg fun h => hm h.2]
      rfl
  · rw [if_neg hk, if_neg fun h => hk h.1]
    rfl

theorem str_setInstance_same {o : Occurrence A}
    (h : o.str = s.str i j) : (s.setInstance i j o).str = s.str := by
  funext k m
  rw [str_setInstance]
  split_ifs with hkm
  · rw [h, hkm.1, hkm.2]
  · rfl

end Memory

/-! ## Keys -/

structure KeysOk (keys : Fin maxNumLines → Option K) : Prop where
  unique : ∀ i j k, keys i = some k → keys j = some k → i = j
  front : ∀ i j, i < j → keys j ≠ none → keys i ≠ none

def Passed (keys : Fin maxNumLines → Option K) (key : K) (n : ℕ) : Prop :=
  ∀ j : Fin maxNumLines, (j : ℕ) < n → ∃ k, keys j = some k ∧ k ≠ key

def Searching (keys : Fin maxNumLines → Option K) : Thread K A → Prop
  | .search key _ i => Passed keys key i
  | .compare key _ i => Passed keys key i ∧ keys i ≠ none
  | .placeKey key _ i => Passed keys key i
  | _ => True

def Grows (keys keys' : Fin maxNumLines → Option K) : Prop :=
  ∀ i k, keys i = some k → keys' i = some k

variable {keys keys' : Fin maxNumLines → Option K}

theorem Grows.passed (h : Grows keys keys') {key : K} {n : ℕ} (hp : Passed keys key n) :
    Passed keys' key n := by
  intro j hj
  obtain ⟨k, hk, hne⟩ := hp j hj
  exact ⟨k, h j k hk, hne⟩

theorem Grows.searching (h : Grows keys keys') {l : Thread K A} (hl : Searching keys l) :
    Searching keys' l := by
  cases l with
  | search key str i | placeKey key str i => exact h.passed hl
  | compare key str i =>
    obtain ⟨k, hk⟩ := ne_none_iff_exists'.1 hl.2
    refine ⟨h.passed hl.1, ?_⟩
    rw [h i k hk]
    exact some_ne_none k
  | _ => trivial

theorem KeysOk.place (h : KeysOk keys) {key : K} {i : Fin maxNumLines}
    (hpassed : Passed keys key i) (hfree : keys i = none)
    (hkeys : ∀ j, keys' j = if j = i then some key else keys j) : KeysOk keys' := by
  -- no other line has the key: not one before, and behind a free line all are free
  have hother : ∀ j, j ≠ i → keys j ≠ some key := by
    intro j hj hk
    rcases lt_or_gt_of_ne hj with hlt | hgt
    · obtain ⟨k, hk', hne⟩ := hpassed j hlt
      rw [hk] at hk'
      exact hne (some.inj hk').symm
    · exact h.front i j hgt (by rw [hk]; exact some_ne_none key) hfree
  constructor
  · intro j j' k hj hj'
    rw [hkeys] at hj hj'
    split_ifs at hj with hji
    · by_cases hji' : j' = i
      · rw [hji, hji']
      · rw [if_neg hji', ← hj] at hj'
        exact absurd hj' (hother j' hji')
    · by_cases hji' : j' = i
      · rw [if_pos hji', ← hj] at hj'
        exact absurd hj'.symm (hother j hji)
      · rw [if_neg hji'] at hj'
        exact h.unique j j' k hj hj'
  · intro j j' hlt hj'
    rw [hkeys] at hj' ⊢
    split_ifs with hji
    · exact some_ne_none key
    · by_cases hji' : j' = i
      · obtain ⟨k, hk, -⟩ := hpassed j (hji' ▸ hlt)
        rw [hk]
        exact some_ne_none k
      · rw [if_neg hji'] at hj'
        exact h.front j j' hlt hj'

end Frames

section Invariants

variable {K A : Type} [DecidableEq A] {s' : Memory K A} {l l' : Thread K A} {s : Memory K A}

theorem Move.keys (h : Move s l s' l') : s'.key = s.key ∨
      ∃ key str i, l = .placeKey key str i ∧ l' = .readCount str i ∧ s.key i = none ∧
        ∀ j, s'.key j = if j = i then some key else s.key j := by
  cases h with
  | @call key str _ =>
    refine .inl ?_
    cases str <;> rfl
  | placed hfree => exact .inr ⟨_, _, _, rfl, rfl, hfree, s.key_setKey _ _⟩
  | added => exact .inl (s.key_setCount _ _)
  | setTime | setErr | swapped => exact .inl (s.key_setInstance ..)
  | _ => exact .inl rfl

theorem Move.grows (h : Move s l s' l') : Grows s.key s'.key := by
  intro i k hk
  rcases h.keys with hsame | ⟨key, str, i', -, -, hfree, hkeys⟩
  · rw [hsame, hk]
  · rw [hkeys, if_neg, hk]
    rintro rfl
    rw [hfree] at hk
    cases hk

theorem Move.searching (h : Move s l s' l') (hl : Searching s.key l) : Searching s'.key l' := by
  cases h with
  | call _ | late _ => exact fun j hj => absurd hj (Nat.not_lt_zero j)
  | freeLine _ => exact hl
  | usedLine hused => exact ⟨hl, hused⟩
  | @full key str i _ => cases str <;> trivial
  | @different key str i hother =>
    intro j hj
    rcases Nat.lt_succ_iff_lt_or_eq.1 hj with hlt | heq
    · exact hl.1 j hlt
    · obtain ⟨k, hk⟩ := ne_none_iff_exists'.1 hl.2
      rw [Fin.ext heq]
      refine ⟨k, hk, ?_⟩
      rintro rfl
      exact hother hk
  | @swapped str i j => cases s.str i j <;> trivial
  | _ => trivial

/-! ## Messages -/

def Thread.held : Thread K A → Option A
  | .idle => none
  | .search _ str _ => str
  | .compare _ str _ => str
  | .placeKey _ str _ => str
  | .readCount str _ => str
  | .addCount str _ _ => str
  | .setTime str _ _ => str
  | .setErr str _ _ => str
  | .readStr str _ _ => str
  | .swapStr str .. => str
  | .free a => some a

structure StrsOk (s : Memory K A) : Prop where
  live : ∀ i j a, s.str i j = some a → s.live a = true
  once : ∀ i j i' j' a, s.str i j = some a → s.str i' j' = some a → i = i' ∧ j = j'

def Holding (s : Memory K A) (l : Thread K A) : Prop :=
  ∀ a, l.held = some a → s.live a = true ∧ ∀ i j, s.str i j ≠ some a

def Apart (l m : Thread K A) : Prop := ∀ a, l.held = some a → m.held ≠ some a

omit [DecidableEq A] in
@[simp] theorem held_release (str : Option A) : (release str : Thread K A).held = str := by
  cases str <;> rfl

theorem Move.strings (h : Move s l s' l') : (s'.str = s.str ∧ s'.live = s.live ∧ l'.held = l.held) ∨
    (∃ a, s.live a = false ∧ s'.str = s.str ∧ s'.live = update s.live a true ∧
      l = .idle ∧ l'.held = some a) ∨
    (∃ i j, s'.live = s.live ∧ l'.held = s.str i j ∧
      ∀ i' j', s'.str i' j' = if i' = i ∧ j' = j then l.held else s.str i' j') ∨
    (∃ a, s'.str = s.str ∧ s'.live = update s.live a false ∧ l.held = some a ∧ l'.held = none) := by
  cases h with
  | @call key str hfresh =>
    cases str with
    | none => exact .inl ⟨rfl, rfl, rfl⟩
    | some a =>
      refine .inr (.inl ⟨a, ?_, rfl, rfl, rfl, rfl⟩)
      rwa [Memory.fresh, Bool.not_eq_true'] at hfresh
  | full _ => exact .inl ⟨rfl, rfl, held_release _⟩
  | placed _ => exact .inl ⟨s.str_setKey _ _, rfl, rfl⟩
  | added => exact .inl ⟨s.str_setCount _ _, rfl, rfl⟩
  | setTime | setErr => exact .inl ⟨s.str_setInstance_same _ _ rfl, rfl, rfl⟩
  | @swapped str i j =>
    exact .inr (.inr (.inl ⟨i, j, rfl, held_release _, s.str_setInstance i j _⟩))
  | @free a => exact .inr (.inr (.inr ⟨a, rfl, rfl, rfl, rfl⟩))
  | _ => exact .inl ⟨rfl, rfl, rfl⟩

theorem Move.strs_own (h : Move s l s' l') (hs : StrsOk s) (hl : Holding s l) :
    StrsOk s' ∧ Holding s' l' := by
  rcases h.strings with ⟨hstr, hlive, hheld⟩ | ⟨a, hnew, hstr, hlive, -, hheld⟩ |
    ⟨i, j, hlive, hheld, hstr⟩ | ⟨a, hstr, hlive, hold, hheld⟩
  · constructor
    · exact ⟨by rw [hstr, hlive]; exact hs.live, by rw [hstr]; exact hs.once⟩
    · rw [Holding, hheld, hstr, hlive]
      exact hl
  · -- the new message is nowhere yet
    have hnone : ∀ i j, s.str i j ≠ some a := by
      intro i j hij
      rw [hs.live i j a hij] at hnew
      cases hnew
    refine ⟨⟨?_, by rw [hstr]; exact hs.once⟩, ?_⟩
    · intro i j b hb
      rw [hstr] at hb
      rw [hlive, update_apply]
      split_ifs
      · rfl
      · exact hs.live i j b hb
    · intro b hb
      rw [hheld] at hb
      cases hb
      rw [hlive, hstr, update_self]
      exact ⟨rfl, hnone⟩
  · refine ⟨⟨?_, ?_⟩, ?_⟩
    · intro i' j' b hb
      rw [hstr] at hb
      rw [hlive]
      split_ifs at hb
      · exact (hl b hb).1
      · exact hs.live i' j' b hb
    · intro i₁ j₁ i₂ j₂ b h₁ h₂
      rw [hstr] at h₁ h₂
      split_ifs at h₁ h₂ with hat₁ hat₂ hat₂
      · exact ⟨hat₁.1.trans hat₂.1.symm, hat₁.2.trans hat₂.2.symm⟩
      · exact absurd h₂ ((hl b h₁).2 i₂ j₂)
      · exact absurd h₁ ((hl b h₂).2 i₁ j₁)
      · exact hs.once i₁ j₁ i₂ j₂ b h₁ h₂
    · intro b hb
      rw [hheld] at hb
      rw [hlive]
      refine ⟨hs.live i j b hb, fun i' j' hb' => ?_⟩
      rw [hstr] at hb'
      split_ifs at hb' with hat
      · exact (hl b hb').2 i j hb
      · exact hat ⟨(hs.once i j i' j' b hb hb').1.symm, (hs.once i j i' j' b hb hb').2.symm⟩
  · refine ⟨⟨?_, by rw [hstr]; exact hs.once⟩, ?_⟩
    · intro i j b hb
      rw [hstr] at hb
      rw [hlive, update_apply, if_neg]
      · exact hs.live i j b hb
      · rintro rfl
        exact (hl b hold).2 i j hb
    · intro b hb
      rw [hheld] at hb
      cases hb

theorem Move.strs_other {m : Thread K A} (h : Move s l s' l')
    (hm : Holding s m) (hx : Apart l m) : Holding s' m ∧ Apart l' m := by
  rcases h.strings with ⟨hstr, hlive, hheld⟩ | ⟨a, hnew, hstr, hlive, -, hheld⟩ |
    ⟨i, j, hlive, hheld, hstr⟩ | ⟨a, hstr, hlive, hold, hheld⟩
  · rw [Holding, Apart, hstr, hlive, hheld]
    exact ⟨hm, hx⟩
  · constructor
    · intro b hb
      rw [hstr, hlive, update_apply]
      refine ⟨?_, (hm b hb).2⟩
      split_ifs
      · rfl
      · exact (hm b hb).1
    · intro b hb hb'
      rw [hheld] at hb
      cases hb
      rw [(hm a hb').1] at hnew
      cases hnew
  · constructor
    · intro b hb
      rw [hlive]
      refine ⟨(hm b hb).1, fun i' j' hb' => ?_⟩
      rw [hstr] at hb'
      split_ifs at hb'
      · exact hx b hb' hb
      · exact (hm b hb).2 i' j' hb'
    · intro b hb hb'
      rw [hheld] at hb
      exact (hm b hb').2 i j hb
  · constructor
    · intro b hb
      rw [hstr, hlive, update_apply, if_neg]
      · exact hm b hb
      · rintro rfl
        exact hx b hold hb
    · intro b hb
      rw [hheld] at hb
      cases hb

/-! ## Counts -/

def Thread.pending : Thread K A → ℕ
  | .search .. => 1
  | .compare .. => 1
  | .placeKey .. => 1
  | .readCount _ _ => 1
  | .addCount .. => 1
  | _ => 0

omit [DecidableEq A] in
@[simp] theorem pending_release (str : Option A) : (release str : Thread K A).pending = 0 := by
  cases str <;> rfl

theorem Move.counts (h : Move s l s' l') :
    (s'.count = s.count ∧ s'.calls = s.calls ∧ s'.refused = s.refused ∧ l'.pending = l.pending) ∨
    (s'.count = s.count ∧ s'.calls = s.calls + 1 ∧ s'.refused = s.refused ∧
      l.pending = 0 ∧ l'.pending = 1) ∨
    (s'.count = s.count ∧ s'.calls = s.calls ∧ s'.refused = s.refused + 1 ∧
      l.pending = 1 ∧ l'.pending = 0) ∨
    (∃ i, s'.count = update s.count i ((s.count i + 1) % 2 ^ 64) ∧
      s'.calls = s.calls ∧ s'.refused = s.refused ∧ l.pending = 1 ∧ l'.pending = 0) := by
  cases h with
  | @call key str _ => cases str <;> exact .inr (.inl ⟨rfl, rfl, rfl, rfl, rfl⟩)
  | full _ => exact .inr (.inr (.inl ⟨rfl, rfl, rfl, rfl, pending_release _⟩))
  | placed _ => exact .inl ⟨s.count_setKey _ _, rfl, rfl, rfl⟩
  | @added str i =>
    exact .inr (.inr (.inr ⟨i, s.count_setCount i _, rfl, rfl, rfl, rfl⟩))
  | setTime | setErr => exact .inl ⟨s.count_setInstance .., rfl, rfl, rfl⟩
  | swapped => exact .inl ⟨s.count_setInstance .., rfl, rfl, pending_release _⟩
  | _ => exact .inl ⟨rfl, rfl, rfl, rfl⟩

/-! ## All schedules -/

def total (s : Memory K A) : ℕ := ∑ i, s.count i

def Counted {ι : Type} [Fintype ι] (w : World ι (Memory K A) (Thread K A)) : Prop :=
  ∃ n, w.shared.calls = w.shared.refused + n + ∑ t, (w.threads t).pending ∧
    total w.shared ≡ n [MOD 2 ^ 64] ∧ (n < 2 ^ 64 → total w.shared = n)

variable {ι : Type}

omit [DecidableEq A] in
theorem keys_init : World.Holds (fun s => KeysOk s.key) (fun s => Searching s.key)
    (fun _ _ => True) (init : World ι (Memory K A) (Thread K A)) where
  shared := ⟨fun _ _ _ h => (by cases h), fun _ _ _ h => absurd rfl h⟩
  thread _ := trivial
  pair _ _ _ := trivial

omit [DecidableEq A] in
theorem strs_init :
    World.Holds StrsOk Holding Apart (init : World ι (Memory K A) (Thread K A)) where
  shared := ⟨fun _ _ _ h => (by cases h), fun _ _ _ _ _ h => (by cases h)⟩
  thread _ _ h := by cases h
  pair _ _ _ _ h := by cases h

omit [DecidableEq A] in
theorem counted_init [Fintype ι] : Counted (init : World ι (Memory K A) (Thread K A)) := by
  have hpending : ∑ t : ι, ((init : World ι (Memory K A) (Thread K A)).threads t).pending = 0 :=
    Finset.sum_eq_zero fun _ _ => rfl
  have htotal : total (init : World ι (Memory K A) (Thread K A)).shared = 0 :=
    Finset.sum_eq_zero fun _ _ => rfl
  refine ⟨0, ?_, ?_, fun _ => htotal⟩
  · rw [hpending]
    rfl
  · rw [htotal]

omit [DecidableEq A] in
theorem absent_of_live {w : World ι (Memory K A) (Thread K A)}
    (hw : World.Holds StrsOk Holding Apart w) {a : A} (ha : w.shared.live a = false) :
    (∀ t, (w.threads t).held ≠ some a) ∧ ∀ i j, w.shared.str i j ≠ some a := by
  constructor
  · intro t ht
    rw [(hw.thread t a ht).1] at ha
    cases ha
  · intro i j hij
    rw [hw.shared.live i j a hij] at ha
    cases ha

variable [DecidableEq K]

theorem keeps_keys : World.Keeps (step (K := K) (A := A)) (fun s => KeysOk s.key)
    (fun s => Searching s.key) (fun _ _ => True) where
  symm _ _ _ := trivial
  own s l x s' l' h hg hl := by
    have hmove := move_of_step h
    refine ⟨?_, hmove.searching hl⟩
    rcases hmove.keys with hsame | ⟨key, str, i, rfl, rfl, hfree, hkeys⟩
    · rw [hsame]
      exact hg
    · exact hg.place hl hfree hkeys
  other s l x s' l' m h _ _ hm _ := ⟨(move_of_step h).grows.searching hm, trivial⟩

theorem keeps_strs : World.Keeps (step (K := K) (A := A)) StrsOk Holding Apart where
  symm _ _ h a hm hl := h a hl hm
  own _ _ _ _ _ h hs hl := (move_of_step h).strs_own hs hl
  other _ _ _ _ _ _ h _ _ hm hx := (move_of_step h).strs_other hm hx

def Input.message : Input K A → Option A
  | .call _ str => str
  | .go _ _ => none

theorem live_of_step {a : A} (s : Memory K A) (l : Thread K A) (x : Input K A)
    (s' : Memory K A) (l' : Thread K A) (hx : x.message ≠ some a)
    (h : step s l x = some (s', l')) (ha : s.live a = false) : s'.live a = false := by
  rcases (move_of_step h).strings with ⟨-, hlive, -⟩ | ⟨b, -, -, hlive, rfl, hheld⟩ |
    ⟨-, -, hlive, -⟩ | ⟨b, -, hlive, -⟩
  · rw [hlive, ha]
  · -- only a call allocates, and its message is another one
    cases x with
    | go time err => cases h
    | call key str =>
      rw [step] at h
      split_ifs at h
      cases h
      rw [hlive, update_of_ne, ha]
      rintro rfl
      exact hx hheld
  · rw [hlive, ha]
  · rw [hlive, update_apply]
    split_ifs
    · rfl
    · exact ha

section Schedules

variable {ι : Type} [DecidableEq ι] [Fintype ι]

theorem Counted.step {w : World ι (Memory K A) (Thread K A)} (h : Counted w)
    (a : ι × Input K A) : Counted (w.step step a) := by
  rcases World.step_cases Dbg.step w a with hsame | ⟨s, l, hstep, hw⟩
  · rw [hsame]
    exact h
  obtain ⟨n, hcalls, hmod, hexact⟩ := h
  have hpending := sum_update (Finset.mem_univ a.1) Thread.pending w.threads l
  rw [hw]
  rcases (move_of_step hstep).counts with ⟨hcount, hc, hr, hp⟩ | ⟨hcount, hc, hr, hp, hp'⟩ |
    ⟨hcount, hc, hr, hp, hp'⟩ | ⟨i, hcount, hc, hr, hp, hp'⟩
  case inl | inr.inl | inr.inr.inl =>
    refine ⟨n, ?_, ?_⟩
    · dsimp only
      omega
    · rw [total, hcount]
      exact ⟨hmod, hexact⟩
  · -- the total grows by one, or by one less `2 ^ 64`
    have htotal :=
      sum_update (Finset.mem_univ i) id w.shared.count ((w.shared.count i + 1) % 2 ^ 64)
    simp only [id_eq] at htotal
    rw [← hcount] at htotal
    change total s + _ = total w.shared + _ at htotal
    refine ⟨n + 1, ?_, ?_, fun hn => ?_⟩
    · dsimp only
      omega
    · rw [Nat.ModEq] at hmod ⊢
      dsimp only
      omega
    · have hsum := hexact (by omega)
      dsimp only
      omega

def AllReturned (w : World ι (Memory K A) (Thread K A)) : Prop := ∀ t, w.threads t = .idle

end Schedules

end Invariants

end AppView.Dbg
