import AppView.Framework.Runs

/-!
# The linked list among threads

The list is Harris's: a node is deleted logically by a mark in the low bit of its `next`, and
is unlinked afterwards, by the deleter or by any `search` that comes by. If that fails it calls
`search` again, into the same variable `right_node`, and releases what it finds there: never
the node it marked, which `search` has unlinked, but the next one with a key not below.
**`list_release`**: in every run in which the unlinking does not fail, and in which no memory
is used after it was released (`Safe`), every deletion releases the node it marked.
-/

namespace AppView.LinkList

open AppView.Framework List Function

/-! ## Memory -/

structure Ref where
  addr : ℕ
  marked : Bool
  deriving DecidableEq, Repr

def Ref.of (a : ℕ) : Ref := ⟨a, false⟩

structure Element where
  key : UInt64
  data : ℕ
  next : Ref
  deriving DecidableEq, Repr

/-! ## Where a thread is -/

inductive Caller where
  | insert (key : UInt64) (newNode : ℕ)
  | delete (key : UInt64)
  /-- After the unlinking has failed: the key of the call, and the one searched for. -/
  | retry (key again : UInt64)
  | find (key : UInt64)
  deriving DecidableEq, Repr

def Caller.searchKey : Caller → UInt64
  | .insert key _ | .delete key | .retry _ key | .find key => key

inductive Pc where
  | idle
  /-- `search`: before `left_node_next = head->next`. -/
  | enter (c : Caller)
  /-- `search_again`: before `t_next = head->next`. -/
  | again (c : Caller) (left : ℕ) (leftNext : Ref)
  /-- At the top of the inner loop. -/
  | walk (c : Caller) (left : ℕ) (leftNext : Ref) (t : ℕ) (tNext : Ref)
  /-- At the second half of the loop's condition, before `t->key`. -/
  | key (c : Caller) (left : ℕ) (leftNext : Ref) (t : ℕ) (tNext : Ref)
  /-- Before the last look at `right_node->next`. -/
  | recheck (c : Caller) (left : ℕ) (leftNext : Ref) (right : ℕ)
  /-- Before the compare-and-swap C1. -/
  | unlinkMarked (c : Caller) (left : ℕ) (leftNext : Ref) (right : ℕ)
  /-- `lstInsert`, back from `search`: before the test T1. -/
  | insertTest (key : UInt64) (newNode left right : ℕ)
  | insertFree (newNode : ℕ)
  /-- Before `new_node->next = right_node`. -/
  | insertStore (key : UInt64) (newNode left right : ℕ)
  /-- Before C2. -/
  | insertCas (key : UInt64) (newNode left right : ℕ)
  /-- `lstDelete`, back from `search`: before the test T1. -/
  | deleteTest (key : UInt64) (left right : ℕ)
  /-- Before `right_node_next = right_node->next`. -/
  | deleteNext (key : UInt64) (left right : ℕ)
  /-- Before C3. -/
  | deleteMark (key : UInt64) (left right : ℕ) (rightNext : Ref)
  /-- Before C4. -/
  | deleteUnlink (key : UInt64) (left right : ℕ) (rightNext : Ref)
  /-- C4 has failed: before `right_node->key`, to search again. -/
  | deleteRetry (key : UInt64) (right : ℕ)
  /-- Before `delete_fn`. -/
  | deleteData (key : UInt64) (right : ℕ)
  /-- Before `free`, with what was passed to `delete_fn`. -/
  | deleteFree (key : UInt64) (right : ℕ) (passed : Option ℕ)
  /-- `lstFind`, back from `search`. -/
  | findTest (key : UInt64) (right : ℕ)
  | findData (right : ℕ)
  deriving DecidableEq, Repr

structure State (τ : Type) where
  cell : ℕ → Element
  live : ℕ → Bool
  head : ℕ
  pc : τ → Pc

def lstCreate (τ : Type) : State τ :=
  { cell := fun _ => ⟨0, 0, Ref.of 0⟩, live := fun a => a = 1, head := 1, pc := fun _ => .idle }

inductive Act (τ : Type) where
  /-- A thread that is in none of the functions calls one; `addr` is what `calloc`
  returns. -/
  | lstInsert (t : τ) (key : UInt64) (data addr : ℕ)
  | lstDelete (t : τ) (key : UInt64)
  | lstFind (t : τ) (key : UInt64)
  /-- A thread takes its next step. -/
  | advance (t : τ)

inductive Event (τ : Type) where
  /-- C3 has succeeded. -/
  | marked (t : τ) (node : ℕ)
  /-- `lstDelete` releases a node, if there is one, and returns TRUE; with what it has
  passed to `delete_fn`. -/
  | deleted (t : τ) (key : UInt64) (node : ℕ) (passed : Option ℕ)
  /-- `lstInsert` releases its new node and returns FALSE. -/
  | dropped (t : τ) (node : ℕ)
  | inserted (t : τ) (ok : Bool)
  | notFound (t : τ)
  | found (t : τ) (data : ℕ)
  /-- `right_node->data` with `right_node` NULL. -/
  | fault (t : τ)
  deriving DecidableEq, Repr

/-! ## The steps -/

def Caller.back (c : Caller) (left right : ℕ) : Pc :=
  match c with
  | .insert key newNode => .insertTest key newNode left right
  | .delete key => .deleteTest key left right
  | .retry key _ => .deleteData key right
  | .find key => .findTest key right

def adjacent (c : Caller) (left : ℕ) (leftNext : Ref) (right : ℕ) : Pc :=
  if leftNext = Ref.of right then
    if right = 0 then c.back left right else .recheck c left leftNext right
  else .unlinkMarked c left leftNext right

section Step

variable {τ : Type} [DecidableEq τ]

def State.goto (s : State τ) (t : τ) (pc : Pc) : State τ :=
  { s with pc := Function.update s.pc t pc }

def State.setNext (s : State τ) (a : ℕ) (r : Ref) : State τ :=
  { s with cell := Function.update s.cell a { s.cell a with next := r } }

def State.free (s : State τ) (a : ℕ) : State τ :=
  { s with live := Function.update s.live a false }

def State.alloc (s : State τ) (a : ℕ) (key : UInt64) (data : ℕ) : State τ :=
  { s with live := Function.update s.live a true
           cell := Function.update s.cell a ⟨key, data, Ref.of 0⟩ }

def advance (deleteFn : Bool) (s : State τ) (t : τ) : Pc → State τ × Option (Event τ)
  | .idle => (s, none)
  | .enter c => (s.goto t (.again c s.head (s.cell s.head).next), none)
  | .again c left leftNext =>
    (s.goto t (.walk c left leftNext s.head (s.cell s.head).next), none)
  | .walk c left leftNext u uNext =>
    let left := if uNext.marked then left else u
    let leftNext := if uNext.marked then leftNext else uNext
    let u := uNext.addr
    -- at the end
    if u = 0 then (s.goto t (adjacent c left leftNext 0), none)
    else
      let uNext := (s.cell u).next
      if uNext.marked then (s.goto t (.walk c left leftNext u uNext), none)
      else (s.goto t (.key c left leftNext u uNext), none)
  | .key c left leftNext u uNext =>
    if (s.cell u).key < c.searchKey then (s.goto t (.walk c left leftNext u uNext), none)
    else (s.goto t (adjacent c left leftNext u), none)
  | .recheck c left leftNext right =>
    if (s.cell right).next.marked then (s.goto t (.again c left leftNext), none)
    else (s.goto t (c.back left right), none)
  | .unlinkMarked c left leftNext right =>
    if (s.cell left).next = leftNext then
      ((s.setNext left (Ref.of right)).goto t
        (if right = 0 then c.back left right else .recheck c left leftNext right), none)
    else (s.goto t (.again c left leftNext), none)
  | .insertTest key new left right =>
    if right ≠ 0 ∧ (s.cell right).key = key then (s.goto t (.insertFree new), none)
    else (s.goto t (.insertStore key new left right), none)
  | .insertFree new => ((s.free new).goto t .idle, some (.dropped t new))
  | .insertStore key new left right =>
    ((s.setNext new (Ref.of right)).goto t (.insertCas key new left right), none)
  | .insertCas key new left right =>
    if (s.cell left).next = Ref.of right then
      ((s.setNext left (Ref.of new)).goto t .idle, some (.inserted t true))
    else (s.goto t (.enter (.insert key new)), none)
  | .deleteTest key left right =>
    if right = 0 ∨ (s.cell right).key ≠ key then (s.goto t .idle, some (.notFound t))
    else (s.goto t (.deleteNext key left right), none)
  | .deleteNext key left right =>
    let rightNext := (s.cell right).next
    if rightNext.marked then (s.goto t (.enter (.delete key)), none)
    else (s.goto t (.deleteMark key left right rightNext), none)
  | .deleteMark key left right rightNext =>
    if (s.cell right).next = rightNext then
      ((s.setNext right { rightNext with marked := true }).goto t
        (.deleteUnlink key left right rightNext), some (.marked t right))
    else (s.goto t (.enter (.delete key)), none)
  | .deleteUnlink key left right rightNext =>
    if (s.cell left).next = Ref.of right then
      ((s.setNext left rightNext).goto t (.deleteData key right), none)
    else (s.goto t (.deleteRetry key right), none)
  | .deleteRetry key right => (s.goto t (.enter (.retry key (s.cell right).key)), none)
  | .deleteData key right =>
    if deleteFn then
      if right = 0 then (s.goto t .idle, some (.fault t))
      else
        let data := (s.cell right).data
        (s.goto t (.deleteFree key right (if data = 0 then none else some data)), none)
    else (s.goto t (.deleteFree key right none), none)
  | .deleteFree key right passed =>
    ((if right = 0 then s else s.free right).goto t .idle,
     some (.deleted t key right passed))
  | .findTest key right =>
    if right = 0 ∨ (s.cell right).key ≠ key then (s.goto t .idle, some (.notFound t))
    else (s.goto t (.findData right), none)
  | .findData right => (s.goto t .idle, some (.found t (s.cell right).data))

def step (deleteFn : Bool) (s : State τ) : Act τ → State τ × Option (Event τ)
  | .lstInsert t key data addr =>
    if s.pc t = .idle then
      if addr = 0 then (s, some (.inserted t false))
      else ((s.alloc addr key data).goto t (.enter (.insert key addr)), none)
    else (s, none)
  | .lstDelete t key =>
    if s.pc t = .idle then (s.goto t (.enter (.delete key)), none) else (s, none)
  | .lstFind t key =>
    if s.pc t = .idle then (s.goto t (.enter (.find key)), none) else (s, none)
  | .advance t => advance deleteFn s t (s.pc t)

end Step

/-! ## What is asked of a run -/

def Caller.newNode : Caller → Option ℕ
  | .insert _ new => some new
  | _ => none

def Pc.newNode : Pc → Option ℕ
  | .enter c | .again c _ _ | .walk c _ _ _ _ | .key c _ _ _ _ | .recheck c _ _ _
  | .unlinkMarked c _ _ _ => c.newNode
  | .insertTest _ new _ _ | .insertFree new | .insertStore _ new _ _ | .insertCas _ new _ _ =>
    some new
  | _ => none

def Pc.nexts : Pc → List ℕ
  | .walk _ _ _ _ tNext => [tNext.addr]
  | .key _ _ _ u uNext => [u, uNext.addr]
  | .recheck _ _ _ right | .unlinkMarked _ _ _ right | .insertTest _ _ _ right
  | .insertStore _ _ _ right | .insertCas _ _ _ right | .deleteTest _ _ right
  | .deleteNext _ _ right | .deleteRetry _ right | .deleteData _ right | .deleteFree _ right _
  | .findTest _ right | .findData right => [right]
  | .deleteMark _ _ right rightNext | .deleteUnlink _ _ right rightNext =>
    [right, rightNext.addr]
  | _ => []

def Pc.touches (head : ℕ) : Pc → List ℕ
  | .idle => []
  | .enter _ | .again _ _ _ => [head]
  | .walk _ _ _ _ tNext => [tNext.addr]
  | .key _ _ _ u _ => [u]
  | .unlinkMarked _ left _ _ | .insertCas _ _ left _ | .deleteUnlink _ left _ _ => [left]
  | .recheck _ _ _ right | .insertTest _ _ _ right | .deleteTest _ _ right
  | .deleteNext _ _ right | .deleteMark _ _ right _ | .deleteRetry _ right
  | .deleteData _ right | .findTest _ right | .findData right => [right]
  | .insertStore _ new _ _ => [new]
  -- what a step releases is not assumed to be allocated
  | .deleteFree .. | .insertFree _ => []

section Safe

variable {τ : Type}

def Unlinks (s : State τ) : Pc → Prop
  | .deleteUnlink _ left right _ => (s.cell left).next = Ref.of right
  | _ => True

def Safe (s : State τ) : Act τ → Prop
  | .lstInsert _ _ _ addr =>
    addr ≠ 0 → s.live addr = false ∧ (∀ c, s.live c = true → (s.cell c).next.addr ≠ addr) ∧
      ∀ u, addr ∉ (s.pc u).nexts
  | .lstDelete _ _ | .lstFind _ _ => True
  | .advance t =>
    (∀ a ∈ (s.pc t).touches s.head, a ≠ 0 → s.live a = true) ∧ Unlinks s (s.pc t)

def noteMark [DecidableEq τ] (last : τ → Option ℕ) : Option (Event τ) → τ → Option ℕ
  | some (.marked t a) => Function.update last t (some a)
  | _ => last

def lastMarked [DecidableEq τ] (out : List (Option (Event τ))) : τ → Option ℕ :=
  out.foldl noteMark fun _ => none

def State.Linked (s : State τ) (a : ℕ) : Prop := ∃ c, s.live c = true ∧ (s.cell c).next.addr = a

def passedFor (deleteFn : Bool) (e : Element) : Option ℕ :=
  if deleteFn ∧ e.data ≠ 0 then some e.data else none

/-- What is claimed of what a step gives out. A deletion releases the node it has marked,
which has its key, with its data; a node is released while it is allocated; and no node is
released that is in the list and not marked. -/
def Proper (deleteFn : Bool) (s : State τ) (last : τ → Option ℕ) : Event τ → Prop
  | .deleted t key a passed =>
    last t = some a ∧ (s.cell a).key = key ∧ passed = passedFor deleteFn (s.cell a) ∧
      s.live a = true ∧ (s.cell a).next.marked = true
  | .dropped _ a => s.live a = true ∧ ¬ s.Linked a
  | .fault _ => False
  | _ => True

end Safe

def Event.releases {τ : Type} : Event τ → Option ℕ
  | .deleted _ _ a _ => if a = 0 then none else some a
  | .dropped _ a => some a
  | _ => none

/-! ## The invariant -/

def Pc.unmarked : Pc → List Ref
  | .again _ _ leftNext | .walk _ _ leftNext _ _ | .key _ _ leftNext _ _
  | .recheck _ _ leftNext _ | .unlinkMarked _ _ leftNext _ => [leftNext]
  | .deleteMark _ _ _ rightNext | .deleteUnlink _ _ _ rightNext => [rightNext]
  | _ => []

def Pc.chosen : Pc → Option (UInt64 × ℕ)
  | .deleteNext k _ right | .deleteMark k _ right _ => some (k, right)
  | _ => none

def Pc.owned : Pc → Option (UInt64 × ℕ)
  | .deleteUnlink k _ right _ | .deleteData k right | .deleteFree k right _ =>
    some (k, right)
  | _ => none

variable {k : UInt64}

theorem Pc.chosen_mem {pc : Pc} {a : ℕ} (h : pc.chosen = some (k, a)) : a ∈ pc.nexts := by
  cases pc <;> simp_all [Pc.chosen, Pc.nexts]

theorem Pc.owned_mem {pc : Pc} {a : ℕ} (h : pc.owned = some (k, a)) : a ∈ pc.nexts := by
  cases pc <;> simp_all [Pc.owned, Pc.nexts]

def Caller.retries : Caller → Bool
  | .retry _ _ => true
  | _ => false

def Pc.retries : Pc → Bool
  | .enter c | .again c _ _ | .walk c _ _ _ _ | .key c _ _ _ _ | .recheck c _ _ _
  | .unlinkMarked c _ _ _ => c.retries
  | .deleteRetry _ _ => true
  | _ => false

open Pc

section Inv

variable {τ : Type}

def State.Hidden (s : State τ) (a : ℕ) : Prop := a = s.head ∨ ∃ t, (s.pc t).newNode = some a

structure Fine (deleteFn : Bool) (s : State τ) (last : Option ℕ) (pc : Pc) : Prop where
  nexts : ∀ a ∈ pc.nexts, ¬ s.Hidden a
  unmarked : ∀ r ∈ pc.unmarked, r.marked = false
  chosen : ∀ key a, pc.chosen = some (key, a) → a ≠ 0 ∧ (s.cell a).key = key
  owned : ∀ key a, pc.owned = some (key, a) →
    (a ≠ 0 ∧ s.live a = true ∧ (s.cell a).next.marked = true) ∧ (s.cell a).key = key ∧
      last = some a
  retries : pc.retries = false
  passed : ∀ key a p, pc = .deleteFree key a p → p = passedFor deleteFn (s.cell a)

def State.IsNew (s : State τ) (a : ℕ) : Prop :=
  a ≠ 0 ∧ a ≠ s.head ∧ s.live a = true ∧ (s.cell a).next.marked = false

structure State.Fresh (s : State τ) (a : ℕ) : Prop where
  isNew : s.IsNew a
  news : ∀ t, (s.pc t).newNode ≠ some a
  links : ∀ c, s.live c = true → (s.cell c).next.addr ≠ a
  nexts : ∀ t, a ∉ (s.pc t).nexts

structure Inv (deleteFn : Bool) (s : State τ) (last : τ → Option ℕ) : Prop where
  head_ne : s.head ≠ 0
  head_live : s.live s.head = true
  head_unmarked : (s.cell s.head).next.marked = false
  cells : ∀ c, s.live c = true → ¬ s.Hidden (s.cell c).next.addr
  news : ∀ t a, (s.pc t).newNode = some a → s.IsNew a
  new_inj : ∀ t u a, (s.pc t).newNode = some a → (s.pc u).newNode = some a → t = u
  owned_inj : ∀ t u key key' a, (s.pc t).owned = some (key, a) →
    (s.pc u).owned = some (key', a) → t = u
  fine : ∀ t, Fine deleteFn s (last t) (s.pc t)

variable {deleteFn : Bool} {s : State τ} {last : τ → Option ℕ} {t : τ}

theorem Inv.not_hidden_zero (h : Inv deleteFn s last) : ¬ s.Hidden 0 := by
  rintro (h0 | ⟨t, ht⟩)
  · exact h.head_ne h0.symm
  · exact (h.news t 0 ht).1 rfl

variable {a : ℕ} {pc' : Pc}

theorem Inv.not_hidden_of_marked (h : Inv deleteFn s last) (ha : (s.cell a).next.marked = true) :
    ¬ s.Hidden a := by
  rintro (rfl | ⟨t, ht⟩)
  · rw [h.head_unmarked] at ha
    cases ha
  · rw [(h.news t a ht).2.2.2] at ha
    cases ha

variable [DecidableEq τ]

theorem goto_pc_self (s : State τ) (t : τ) (pc' : Pc) : (s.goto t pc').pc t = pc' :=
  update_self ..

theorem goto_pc_of_ne (s : State τ) (pc' : Pc) {u : τ} (hut : u ≠ t) :
    (s.goto t pc').pc u = s.pc u :=
  update_of_ne hut _ _

theorem hidden_goto (ha : (s.goto t pc').Hidden a) : s.Hidden a ∨ pc'.newNode = some a := by
  rcases ha with ha | ⟨u, hu⟩
  · exact .inl (.inl ha)
  · by_cases hut : u = t
    · subst hut
      rw [goto_pc_self] at hu
      exact .inr hu
    · rw [goto_pc_of_ne s pc' hut] at hu
      exact .inl (.inr ⟨u, hu⟩)

theorem Inv.move (h : Inv deleteFn s last) {last' : τ → Option ℕ}
    (hlast : ∀ u ≠ t, last' u = last u)
    (hnew : ∀ a, pc'.newNode = some a → (s.pc t).newNode = some a ∨ s.Fresh a)
    (howned : ∀ key a, pc'.owned = some (key, a) → ∀ u ≠ t, ∀ key', (s.pc u).owned ≠ some (key', a))
    (hfine : Fine deleteFn (s.goto t pc') (last' t) pc') : Inv deleteFn (s.goto t pc') last' := by
  have hidden_of : ∀ a, (s.goto t pc').Hidden a → s.Hidden a ∨ s.Fresh a := by
    intro a ha
    rcases hidden_goto ha with ha | ha
    · exact .inl ha
    · exact (hnew a ha).imp_left fun ht => .inr ⟨t, ht⟩
  have new_of : ∀ u a, ((s.goto t pc').pc u).newNode = some a →
      (s.pc u).newNode = some a ∨ u = t ∧ s.Fresh a := by
    intro u a hu
    by_cases hut : u = t
    · subst hut
      rw [goto_pc_self] at hu
      exact (hnew a hu).imp_right fun hfresh => ⟨rfl, hfresh⟩
    · rw [goto_pc_of_ne s pc' hut] at hu
      exact .inl hu
  constructor
  case head_ne => exact h.head_ne
  case head_live => exact h.head_live
  case head_unmarked => exact h.head_unmarked
  case cells =>
    intro c hc hh
    rcases hidden_of _ hh with hh | hh
    · exact h.cells c hc hh
    · exact hh.links c hc rfl
  case news =>
    intro u a hu
    rcases new_of u a hu with hu | ⟨-, hfresh⟩
    · exact h.news u a hu
    · exact hfresh.isNew
  case new_inj =>
    intro u w a hu hw
    rcases new_of u a hu with hu | ⟨rfl, hfresh⟩
    · rcases new_of w a hw with hw | ⟨-, hfresh⟩
      · exact h.new_inj u w a hu hw
      · exact absurd hu (hfresh.news u)
    · rcases new_of w a hw with hw | ⟨rfl, -⟩
      · exact absurd hw (hfresh.news w)
      · rfl
  case owned_inj =>
    intro u w key key' a hu hw
    by_cases hut : u = t
    · by_cases hwt : w = t
      · rw [hut, hwt]
      · subst hut
        rw [goto_pc_self] at hu
        rw [goto_pc_of_ne s pc' hwt] at hw
        exact absurd hw (howned key a hu w hwt key')
    · rw [goto_pc_of_ne s pc' hut] at hu
      by_cases hwt : w = t
      · subst hwt
        rw [goto_pc_self] at hw
        exact absurd hu (howned key' a hw u hut key)
      · rw [goto_pc_of_ne s pc' hwt] at hw
        exact h.owned_inj u w key key' a hu hw
  case fine =>
    intro u
    by_cases hut : u = t
    · subst hut
      rwa [goto_pc_self]
    · rw [goto_pc_of_ne s pc' hut, hlast u hut]
      have hf := h.fine u
      refine ⟨?_, hf.unmarked, hf.chosen, hf.owned, hf.retries, hf.passed⟩
      intro a ha hh
      rcases hidden_of a hh with hh | hh
      · exact hf.nexts a ha hh
      · exact hh.nexts u ha

theorem Fine.goto {l : Option ℕ} {pc : Pc} (hf : Fine deleteFn s l pc)
    (hnew : pc'.newNode = (s.pc t).newNode ∨ pc'.newNode = none) :
    Fine deleteFn (s.goto t pc') l pc := by
  refine ⟨?_, hf.unmarked, hf.chosen, hf.owned, hf.retries, hf.passed⟩
  intro a ha hh
  rcases hidden_goto hh with hh | hh
  · exact hf.nexts a ha hh
  · rcases hnew with hnew | hnew
    · exact hf.nexts a ha (.inr ⟨t, hnew ▸ hh⟩)
    · rw [hnew] at hh
      cases hh

theorem Inv.goto (h : Inv deleteFn s last)
    (hnew : pc'.newNode = (s.pc t).newNode ∨ pc'.newNode = none)
    (howned : pc'.owned = (s.pc t).owned ∨ pc'.owned = none)
    (hfine : Fine deleteFn s (last t) pc') : Inv deleteFn (s.goto t pc') last := by
  refine h.move (fun _ _ => rfl) ?_ ?_ (hfine.goto hnew)
  · intro a ha
    rcases hnew with hnew | hnew
    · exact .inl (hnew ▸ ha)
    · rw [hnew] at ha
      cases ha
  · intro key a ha u hut key' hu
    rcases howned with howned | howned
    · exact hut (h.owned_inj u t key' key a hu (howned ▸ ha))
    · rw [howned] at ha
      cases ha

omit [DecidableEq τ] in
theorem Inv.memory (h : Inv deleteFn s last) {s' : State τ} (hpc : s'.pc = s.pc)
    (hhead : s'.head = s.head) (hlive : s'.live s.head = true)
    (hmark : (s'.cell s.head).next.marked = false)
    (hcells : ∀ c, s'.live c = true → ¬ s.Hidden (s'.cell c).next.addr)
    (hkeep : ∀ t, ∀ a ∈ (s.pc t).nexts,
      (s'.cell a).key = (s.cell a).key ∧ (s'.cell a).data = (s.cell a).data)
    (hnews : ∀ t a, (s.pc t).newNode = some a → s'.live a = true ∧ (s'.cell a).next.marked = false)
    (howned : ∀ t key a, (s.pc t).owned = some (key, a) →
      s'.live a = true ∧ (s'.cell a).next.marked = true) : Inv deleteFn s' last := by
  have hidden : ∀ a, s'.Hidden a ↔ s.Hidden a := by
    intro a
    simp [State.Hidden, hpc, hhead]
  constructor
  case head_ne => exact hhead ▸ h.head_ne
  case head_live => exact hhead ▸ hlive
  case head_unmarked => exact hhead ▸ hmark
  case cells => exact fun c hc hh => hcells c hc ((hidden _).1 hh)
  case news =>
    intro t a ha
    rw [hpc] at ha
    exact ⟨(h.news t a ha).1, hhead ▸ (h.news t a ha).2.1, hnews t a ha⟩
  case new_inj => exact hpc ▸ h.new_inj
  case owned_inj => exact hpc ▸ h.owned_inj
  case fine =>
    intro t
    rw [hpc]
    have hf := h.fine t
    constructor
    case nexts => exact fun a ha hh => hf.nexts a ha ((hidden a).1 hh)
    case unmarked => exact hf.unmarked
    case chosen =>
      intro key a ha
      rw [(hkeep t a (chosen_mem ha)).1]
      exact hf.chosen key a ha
    case owned =>
      intro key a ha
      obtain ⟨⟨hne, -, -⟩, hrest⟩ := hf.owned key a ha
      rw [(hkeep t a (owned_mem ha)).1]
      exact ⟨⟨hne, howned t key a ha⟩, hrest⟩
    case retries => exact hf.retries
    case passed =>
      intro key a p hp
      have ha : a ∈ (s.pc t).nexts := owned_mem (k := key) (by rw [hp]; rfl)
      rw [hf.passed key a p hp, passedFor, passedFor, (hkeep t a ha).2]

omit [DecidableEq τ] in
@[simp] theorem setNext_next (s : State τ) (a c : ℕ) (r : Ref) :
    ((s.setNext a r).cell c).next = if c = a then r else (s.cell c).next := by
  by_cases hca : c = a
  · subst hca
    simp [State.setNext]
  · simp [State.setNext, hca]

omit [DecidableEq τ] in
theorem setNext_keeps (s : State τ) (a c : ℕ) (r : Ref) :
    ((s.setNext a r).cell c).key = (s.cell c).key ∧
      ((s.setNext a r).cell c).data = (s.cell c).data := by
  by_cases hca : c = a
  · subst hca
    simp [State.setNext]
  · simp [State.setNext, hca]

omit [DecidableEq τ] in
theorem Inv.setNext (h : Inv deleteFn s last) {r : Ref} (ha : (s.cell a).next.marked = false)
    (hr : r.marked = false) (hhidden : ¬ s.Hidden r.addr) : Inv deleteFn (s.setNext a r) last := by
  have unmarked : ∀ c, (s.cell c).next.marked = false →
      ((s.setNext a r).cell c).next.marked = false := by
    intro c hc
    rw [setNext_next]
    split
    · exact hr
    · exact hc
  refine h.memory rfl rfl h.head_live (unmarked _ h.head_unmarked) ?_
    (fun _ c _ => setNext_keeps s a c r) ?_ ?_
  · intro c hc
    rw [setNext_next]
    split
    · exact hhidden
    · exact h.cells c hc
  · exact fun t c hc => ⟨(h.news t c hc).2.2.1, unmarked c (h.news t c hc).2.2.2⟩
  · intro t key c hc
    obtain ⟨⟨-, hlive, hmarked⟩, -⟩ := (h.fine t).owned key c hc
    refine ⟨hlive, ?_⟩
    -- the node stored into is another one, for it is not marked
    have hca : c ≠ a := by
      rintro rfl
      rw [ha] at hmarked
      cases hmarked
    rwa [setNext_next, if_neg hca]

omit [DecidableEq τ] in
theorem Inv.free (h : Inv deleteFn s last) (hhidden : ¬ s.Hidden a)
    (howned : ∀ t key, (s.pc t).owned ≠ some (key, a)) : Inv deleteFn (s.free a) last := by
  have live_of : ∀ c, c ≠ a → (s.free a).live c = s.live c :=
    fun c hc => update_of_ne hc _ _
  have hhead : s.head ≠ a := fun heq => hhidden (.inl heq.symm)
  refine h.memory rfl rfl ?_ h.head_unmarked ?_ (fun _ _ _ => ⟨rfl, rfl⟩) ?_ ?_
  · rw [live_of _ hhead]
    exact h.head_live
  · intro c hc
    by_cases hca : c = a
    · subst hca
      simp [State.free] at hc
    · exact h.cells c (live_of c hca ▸ hc)
  · intro t c hc
    have hca : c ≠ a := fun heq => hhidden (.inr ⟨t, heq ▸ hc⟩)
    rw [live_of c hca]
    exact (h.news t c hc).2.2
  · intro t key c hc
    have hca : c ≠ a := fun heq => howned t key (heq ▸ hc)
    rw [live_of c hca]
    exact ((h.fine t).owned key c hc).1.2

theorem Inv.mark (h : Inv deleteFn s last) {key : UInt64} {left : ℕ} {r : Ref}
    (hpc : s.pc t = .deleteMark key left a r) (hlive : s.live a = true)
    (hnext : (s.cell a).next = r) :
    Inv deleteFn ((s.setNext a { r with marked := true }).goto t (.deleteUnlink key left a r))
      (update last t (some a)) := by
  have hf := hpc ▸ h.fine t
  obtain ⟨hne, hkey⟩ := hf.chosen key a rfl
  have hhidden : ¬ s.Hidden a := hf.nexts a (by simp [nexts])
  have hr : r.marked = false := hf.unmarked r (by simp [unmarked])
  have not_owned : ∀ u key', (s.pc u).owned ≠ some (key', a) := by
    intro u key' hu
    have := ((h.fine u).owned key' a hu).1.2.2
    rw [hnext, hr] at this
    cases this
  have keeps : ∀ c, c ≠ a → ((s.setNext a { r with marked := true }).cell c).next =
      (s.cell c).next := fun c hc => by rw [setNext_next, if_neg hc]
  have hinv : Inv deleteFn (s.setNext a { r with marked := true }) last := by
    refine h.memory rfl rfl h.head_live ?_ ?_ (fun _ c _ => setNext_keeps ..) ?_ ?_
    · rw [keeps _ fun heq => hhidden (.inl heq.symm)]
      exact h.head_unmarked
    · intro c hc
      rw [setNext_next]
      split
      · exact hf.nexts r.addr (by simp [nexts])
      · exact h.cells c hc
    · intro u c hc
      rw [keeps c fun heq => hhidden (.inr ⟨u, heq ▸ hc⟩)]
      exact (h.news u c hc).2.2
    · intro u key' c hc
      rw [keeps c fun heq => not_owned u key' (heq ▸ hc)]
      exact ((h.fine u).owned key' c hc).1.2
  refine hinv.move (fun u hut => update_of_ne hut _ _) (by simp [newNode]) ?_ ?_
  · rintro key' c ⟨⟩ u - key''
    exact not_owned u key''
  · rw [update_self]
    refine Fine.goto ?_ (.inr rfl)
    constructor
    case nexts => exact hf.nexts
    case unmarked => exact hf.unmarked
    case chosen => simp [chosen]
    case owned =>
      rintro key' c ⟨⟩
      refine ⟨⟨hne, hlive, ?_⟩, ?_, rfl⟩
      · rw [setNext_next, if_pos rfl]
      · rw [(setNext_keeps s a a _).1, hkey]
    case retries => rfl
    case passed => simp

theorem Inv.alloc (h : Inv deleteFn s last) (key : UInt64) (data : ℕ) (hne : a ≠ 0)
    (hlive : s.live a = false) (hlinks : ∀ c, s.live c = true → (s.cell c).next.addr ≠ a)
    (hnexts : ∀ u, a ∉ (s.pc u).nexts) :
    Inv deleteFn ((s.alloc a key data).goto t (.enter (.insert key a))) last := by
  have ne_of_live : ∀ c, s.live c = true → c ≠ a := by
    rintro c hc rfl
    rw [hlive] at hc
    cases hc
  have cell_of : ∀ c, c ≠ a → (s.alloc a key data).cell c = s.cell c :=
    fun c hc => update_of_ne hc _ _
  have live_of : ∀ c, c ≠ a → (s.alloc a key data).live c = s.live c :=
    fun c hc => update_of_ne hc _ _
  have hself : (s.alloc a key data).cell a = ⟨key, data, Ref.of 0⟩ := update_self ..
  have hinv : Inv deleteFn (s.alloc a key data) last := by
    refine h.memory rfl rfl ?_ ?_ ?_ ?_ ?_ ?_
    · rw [live_of _ (ne_of_live _ h.head_live)]
      exact h.head_live
    · rw [cell_of _ (ne_of_live _ h.head_live)]
      exact h.head_unmarked
    · intro c hc
      by_cases hca : c = a
      · rw [hca, hself]
        exact h.not_hidden_zero
      · rw [cell_of c hca]
        exact h.cells c (live_of c hca ▸ hc)
    · intro u c hc
      rw [cell_of c (fun heq => hnexts u (heq ▸ hc))]
      exact ⟨rfl, rfl⟩
    · intro u c hc
      have hca := ne_of_live c (h.news u c hc).2.2.1
      rw [live_of c hca, cell_of c hca]
      exact (h.news u c hc).2.2
    · intro u key' c hc
      have hca := ne_of_live c ((h.fine u).owned key' c hc).1.2.1
      rw [live_of c hca, cell_of c hca]
      exact ((h.fine u).owned key' c hc).1.2
  have hfresh : (s.alloc a key data).Fresh a := by
    constructor
    case isNew =>
      refine ⟨hne, (ne_of_live _ h.head_live).symm, update_self .., ?_⟩
      rw [hself]
      rfl
    case news => exact fun u hu => ne_of_live a (h.news u a hu).2.2.1 rfl
    case links =>
      intro c hc
      by_cases hca : c = a
      · rw [hca, hself]
        exact hne.symm
      · rw [cell_of c hca]
        exact hlinks c (live_of c hca ▸ hc)
    case nexts => exact hnexts
  refine hinv.move (fun _ _ => rfl) ?_ (by simp [owned]) ?_
  · rintro b ⟨⟩
    exact .inr hfresh
  · constructor <;> simp [nexts, unmarked, chosen, owned, retries, Caller.retries]

end Inv

/-! ## Every step keeps it -/

section StepInv

variable {τ : Type} {deleteFn : Bool} {s : State τ} {last : τ → Option ℕ} {t : τ}

structure Follows (deleteFn : Bool) (s : State τ) (l : Option ℕ) (c : Caller) (pc : Pc) :
    Prop where
  fine : Fine deleteFn s l pc
  newNode : pc.newNode = c.newNode
  owned : pc.owned = none

variable {l : Option ℕ} {pc : Pc} {c : Caller} {left right a : ℕ} {leftNext : Ref}

theorem Fine.of_free_hands (hnexts : ∀ a ∈ pc.nexts, ¬ s.Hidden a)
    (hunmarked : ∀ r ∈ pc.unmarked, r.marked = false) (hchosen : pc.chosen = none)
    (howned : pc.owned = none) (hretries : pc.retries = false) : Fine deleteFn s l pc := by
  constructor
  case nexts => exact hnexts
  case unmarked => exact hunmarked
  case chosen =>
    intro key a ha
    rw [hchosen] at ha
    cases ha
  case owned =>
    intro key a ha
    rw [howned] at ha
    cases ha
  case retries => exact hretries
  case passed =>
    rintro key a p rfl
    cases howned

theorem fine_idle : Fine deleteFn s l .idle :=
  .of_free_hands (forall_mem_nil _) (forall_mem_nil _) rfl rfl rfl

theorem follows_enter (hc : c.retries = false) : Follows deleteFn s l c (.enter c) :=
  ⟨.of_free_hands (forall_mem_nil _) (forall_mem_nil _) rfl rfl hc, rfl, rfl⟩

theorem follows_again (hc : c.retries = false) (hl : leftNext.marked = false) :
    Follows deleteFn s l c (.again c left leftNext) :=
  ⟨.of_free_hands (forall_mem_nil _) (forall_mem_singleton.2 hl) rfl rfl hc, rfl, rfl⟩

variable {u : ℕ} {uNext : Ref} {s' : State τ}

section

variable (hc : c.retries = false)

include hc

theorem follows_walk (hl : leftNext.marked = false)
    (hu : ¬ s.Hidden uNext.addr) :
    Follows deleteFn s l c (.walk c left leftNext u uNext) := by
  refine ⟨.of_free_hands ?_ ?_ rfl rfl hc, rfl, rfl⟩
  · exact forall_mem_singleton.2 hu
  · exact forall_mem_singleton.2 hl

theorem follows_key (hl : leftNext.marked = false) (hu : ¬ s.Hidden u)
    (hnext : ¬ s.Hidden uNext.addr) :
    Follows deleteFn s l c (.key c left leftNext u uNext) := by
  refine ⟨.of_free_hands ?_ ?_ rfl rfl hc, rfl, rfl⟩
  · exact forall_mem_cons.2 ⟨hu, forall_mem_singleton.2 hnext⟩
  · exact forall_mem_singleton.2 hl

theorem follows_recheck (hl : leftNext.marked = false)
    (hr : ¬ s.Hidden right) : Follows deleteFn s l c (.recheck c left leftNext right) := by
  refine ⟨.of_free_hands ?_ ?_ rfl rfl hc, rfl, rfl⟩
  · exact forall_mem_singleton.2 hr
  · exact forall_mem_singleton.2 hl

theorem follows_back (hr : ¬ s.Hidden right) :
    Follows deleteFn s l c (c.back left right) := by
  have hright : ∀ a ∈ [right], ¬ s.Hidden a := forall_mem_singleton.2 hr
  cases c with
  | retry key again => cases hc
  | insert key new | delete key | find key =>
    exact ⟨.of_free_hands hright (forall_mem_nil _) rfl rfl rfl, rfl, rfl⟩

theorem follows_adjacent (hl : leftNext.marked = false)
    (hr : ¬ s.Hidden right) : Follows deleteFn s l c (adjacent c left leftNext right) := by
  unfold adjacent
  split
  · split
    · exact follows_back hc hr
    · exact follows_recheck hc hl hr
  · refine ⟨.of_free_hands ?_ ?_ rfl rfl hc, rfl, rfl⟩
    · exact forall_mem_singleton.2 hr
    · exact forall_mem_singleton.2 hl

end

def Pc.caller : Pc → Option Caller
  | .enter c | .again c _ _ | .walk c _ _ _ _ | .key c _ _ _ _ | .recheck c _ _ _
  | .unlinkMarked c _ _ _ => some c
  | _ => none

theorem Pc.newNode_of_caller (h : pc.caller = some c) : pc.newNode = c.newNode := by
  cases pc <;> simp_all [caller, newNode]

theorem Pc.retries_of_caller (h : pc.caller = some c) : pc.retries = c.retries := by
  cases pc <;> simp_all [caller, retries]

variable [DecidableEq τ]

theorem Inv.follow (h : Inv deleteFn s last) {pc' : Pc} (hnew : (s.pc t).newNode = c.newNode)
    (hfollows : Follows deleteFn s (last t) c pc') : Inv deleteFn (s.goto t pc') last :=
  h.goto (.inl (hfollows.newNode.trans hnew.symm)) (.inr hfollows.owned) hfollows.fine

def Kept (deleteFn : Bool) (s : State τ) (last : τ → Option ℕ)
    (r : State τ × Option (Event τ)) : Prop :=
  Inv deleteFn r.1 (noteMark last r.2) ∧ ∀ e ∈ r.2, Proper deleteFn s last e

theorem kept_silent (h : Inv deleteFn s' last) : Kept deleteFn s last (s', none) :=
  ⟨h, by simp⟩

section

variable (h : Inv deleteFn s last)

include h

theorem Inv.kept_goto_idle {e : Event τ}
    (he : Proper deleteFn s last e) (hmark : noteMark last (some e) = last) :
    Kept deleteFn s last (s.goto t .idle, some e) := by
  refine ⟨?_, by simpa using he⟩
  rw [hmark]
  exact h.goto (.inr rfl) (.inr rfl) fine_idle

theorem Inv.kept_follow {pc' : Pc}
    (hcaller : (s.pc t).caller = some c) (hfollows : Follows deleteFn s (last t) c pc') :
    Kept deleteFn s last (s.goto t pc', none) :=
  kept_silent (h.follow (newNode_of_caller hcaller) hfollows)

theorem search_kept (hsafe : Safe s (.advance t))
    (hcaller : (s.pc t).caller = some c) :
    Kept deleteFn s last (advance deleteFn s t (s.pc t)) := by
  have hf := h.fine t
  have hc : c.retries = false := retries_of_caller hcaller ▸ hf.retries
  have hc' := hcaller
  generalize hpc : s.pc t = pc at hf hc' ⊢
  cases pc with
  | enter c' =>
    cases hc'
    exact h.kept_follow hcaller (follows_again hc h.head_unmarked)
  | again c' left leftNext =>
    cases hc'
    have hl : leftNext.marked = false := hf.unmarked _ (by simp [unmarked])
    exact h.kept_follow hcaller (follows_walk hc hl (h.cells _ h.head_live))
  | walk c' left leftNext u uNext =>
    cases hc'
    have hu : ¬ s.Hidden uNext.addr := hf.nexts _ (by simp [nexts])
    have hl : (if uNext.marked then leftNext else uNext).marked = false := by
      split
      · exact hf.unmarked _ (by simp [unmarked])
      · next hm => simpa using hm
    simp only [advance]
    split
    · exact h.kept_follow hcaller (follows_adjacent hc hl h.not_hidden_zero)
    · next hne =>
      have hlive : s.live uNext.addr = true := hsafe.1 _ (by simp [hpc, touches]) hne
      split
      · exact h.kept_follow hcaller (follows_walk hc hl (h.cells _ hlive))
      · exact h.kept_follow hcaller (follows_key hc hl hu (h.cells _ hlive))
  | key c' left leftNext u uNext =>
    cases hc'
    have hl : leftNext.marked = false := hf.unmarked _ (by simp [unmarked])
    simp only [advance]
    split
    · have hu : ¬ s.Hidden uNext.addr := hf.nexts _ (by simp [nexts])
      exact h.kept_follow hcaller (follows_walk hc hl hu)
    · have hu : ¬ s.Hidden u := hf.nexts _ (by simp [nexts])
      exact h.kept_follow hcaller (follows_adjacent hc hl hu)
  | recheck c' left leftNext right =>
    cases hc'
    have hl : leftNext.marked = false := hf.unmarked _ (by simp [unmarked])
    have hr : ¬ s.Hidden right := hf.nexts _ (by simp [nexts])
    simp only [advance]
    split
    · exact h.kept_follow hcaller (follows_again hc hl)
    · exact h.kept_follow hcaller (follows_back hc hr)
  | unlinkMarked c' left leftNext right =>
    cases hc'
    have hl : leftNext.marked = false := hf.unmarked _ (by simp [unmarked])
    have hr : ¬ s.Hidden right := hf.nexts _ (by simp [nexts])
    simp only [advance]
    split
    · next hcas =>
      -- C1 stores into a node that is not marked
      have hinv : Inv deleteFn (s.setNext left (Ref.of right)) last :=
        h.setNext (hcas ▸ hl) rfl hr
      refine kept_silent (hinv.follow (newNode_of_caller hcaller) ?_)
      split
      · exact follows_back hc hr
      · exact follows_recheck hc hl hr
    · exact h.kept_follow hcaller (follows_again hc hl)
  | _ => cases hc'

theorem insert_kept (hcaller : (s.pc t).caller = none)
    (hnew : (s.pc t).newNode = some a) : Kept deleteFn s last (advance deleteFn s t (s.pc t)) := by
  have hf := h.fine t
  obtain ⟨hne, hhead, hlive, hmark⟩ := h.news t a hnew
  -- once the thread has let go of the node, nothing hides it
  have hidle : Inv deleteFn (s.goto t .idle) last := h.goto (.inr rfl) (.inr rfl) fine_idle
  have hshown : ¬ (s.goto t .idle).Hidden a := by
    rintro (rfl | ⟨u, hu⟩)
    · exact hhead rfl
    · by_cases hut : u = t
      · rw [hut, goto_pc_self] at hu
        cases hu
      · rw [goto_pc_of_ne s .idle hut] at hu
        exact hut (h.new_inj u t a hu hnew)
  have hn := hnew
  generalize hpc : s.pc t = pc at hf hcaller hn ⊢
  cases pc with
  | insertTest key new left right =>
    cases hn
    have hr : ¬ s.Hidden right := hf.nexts _ (by simp [nexts])
    simp only [advance]
    split
    · refine kept_silent (h.goto (.inl hnew.symm) (.inr rfl) ?_)
      exact .of_free_hands (forall_mem_nil _) (forall_mem_nil _) rfl rfl rfl
    · refine kept_silent (h.goto (.inl hnew.symm) (.inr rfl) ?_)
      exact .of_free_hands (forall_mem_singleton.2 hr) (forall_mem_nil _) rfl rfl rfl
  | insertStore key new left right =>
    cases hn
    have hr : ¬ s.Hidden right := hf.nexts _ (by simp [nexts])
    have hinv : Inv deleteFn (s.setNext a (Ref.of right)) last := h.setNext hmark rfl hr
    refine kept_silent (hinv.goto (.inl hnew.symm) (.inr rfl) ?_)
    exact .of_free_hands (forall_mem_singleton.2 hr) (forall_mem_nil _) rfl rfl rfl
  | insertFree new =>
    cases hn
    refine ⟨hidle.free hshown ?_, ?_⟩
    · intro u key hu
      have hmarked := ((hidle.fine u).owned key a hu).1.2.2
      exact absurd (hmarked.symm.trans hmark) (by simp)
    · rintro e ⟨⟩
      refine ⟨hlive, ?_⟩
      rintro ⟨c, hc, hlink⟩
      exact h.cells c hc (.inr ⟨t, hlink ▸ hnew⟩)
  | insertCas key new left right =>
    cases hn
    simp only [advance]
    split
    · next hcas =>
      -- C2 stores into a node that is not marked
      refine ⟨hidle.setNext ?_ rfl hshown, by rintro e ⟨⟩; trivial⟩
      exact hcas ▸ rfl
    · exact kept_silent (h.follow (c := .insert key a) hnew (follows_enter rfl))
  | _ => simp_all [caller, newNode]

theorem delete_kept (hsafe : Safe s (.advance t))
    (hcaller : (s.pc t).caller = none) (hnew : (s.pc t).newNode = none)
    (howned : (s.pc t).owned = none) : Kept deleteFn s last (advance deleteFn s t (s.pc t)) := by
  have hf := h.fine t
  cases hpc : s.pc t with
  | idle => exact kept_silent h
  | deleteTest key left right =>
    have hr : ¬ s.Hidden right := hf.nexts _ (by simp [hpc, nexts])
    simp only [advance]
    split
    · exact h.kept_goto_idle trivial rfl
    · next hfound =>
      rw [not_or, not_not] at hfound
      refine kept_silent (h.goto (.inr rfl) (.inr rfl) ?_)
      constructor
      case chosen =>
        rintro key' a ⟨⟩
        exact hfound
      all_goals simp [nexts, unmarked, owned, retries, hr]
  | deleteNext key left right =>
    have hr : ¬ s.Hidden right := hf.nexts _ (by simp [hpc, nexts])
    have hchosen := hf.chosen key right (by rw [hpc]; rfl)
    have hlive : s.live right = true := hsafe.1 _ (by simp [hpc, touches]) hchosen.1
    simp only [advance]
    split
    · exact kept_silent (h.follow (c := .delete key) hnew (follows_enter rfl))
    · next hmark =>
      refine kept_silent (h.goto (.inr rfl) (.inr rfl) ?_)
      constructor
      case chosen =>
        rintro key' a ⟨⟩
        exact hchosen
      case nexts => simpa [nexts] using ⟨hr, h.cells right hlive⟩
      case unmarked => simpa [unmarked] using hmark
      all_goals simp [owned, retries]
  | deleteMark key left right rightNext =>
    have hchosen := hf.chosen key right (by rw [hpc]; rfl)
    have hlive : s.live right = true := hsafe.1 _ (by simp [hpc, touches]) hchosen.1
    simp only [advance]
    split
    · next hcas => exact ⟨h.mark hpc hlive hcas, by rintro e ⟨⟩; trivial⟩
    · exact kept_silent (h.follow (c := .delete key) hnew (follows_enter rfl))
  | deleteRetry key right => exact absurd hf.retries (by simp [hpc, retries])
  | findTest key right =>
    have hr : ¬ s.Hidden right := hf.nexts _ (by simp [hpc, nexts])
    simp only [advance]
    split
    · exact h.kept_goto_idle trivial rfl
    · refine kept_silent (h.goto (.inr rfl) (.inr rfl) ?_)
      exact .of_free_hands (forall_mem_singleton.2 hr) (forall_mem_nil _) rfl rfl rfl
  | findData right => exact h.kept_goto_idle trivial rfl
  | _ => simp_all [caller, newNode, owned]

theorem release_kept (hsafe : Safe s (.advance t)) {key : UInt64}
    (howned : (s.pc t).owned = some (key, a)) :
    Kept deleteFn s last (advance deleteFn s t (s.pc t)) := by
  have hf := h.fine t
  obtain ⟨⟨hne, hlive, hmark⟩, hkey, hlast⟩ := hf.owned key a howned
  have hshown : ¬ s.Hidden a := h.not_hidden_of_marked hmark
  have ho := howned
  generalize hpc : s.pc t = pc at hf ho ⊢
  cases pc with
  | deleteUnlink key' left right rightNext =>
    cases ho
    have hcas : (s.cell left).next = Ref.of a := by simpa [Safe, hpc, Unlinks] using hsafe.2
    have hr : rightNext.marked = false := hf.unmarked _ (by simp [unmarked])
    have hnext : ¬ s.Hidden rightNext.addr := hf.nexts _ (by simp [nexts])
    have hinv : Inv deleteFn (s.setNext left rightNext) last :=
      h.setNext (hcas ▸ rfl) hr hnext
    simp only [advance, if_pos hcas]
    refine kept_silent (hinv.goto (.inr rfl) (.inl ?_) ?_)
    · exact howned.symm
    · have hf' := hinv.fine t
      constructor
      case owned =>
        rintro k b ⟨⟩
        exact hf'.owned _ _ howned
      case nexts =>
        rintro b (hb : b ∈ [a])
        rw [mem_singleton.1 hb]
        exact hshown
      all_goals simp [unmarked, chosen, retries]
  | deleteData key' right =>
    cases ho
    have fine_free : ∀ p, p = passedFor deleteFn (s.cell a) →
        Fine deleteFn s (last t) (.deleteFree key a p) := by
      intro p hp
      constructor
      case owned =>
        rintro k b ⟨⟩
        exact hf.owned _ _ rfl
      case passed =>
        rintro k b q ⟨⟩
        exact hp
      all_goals simp [nexts, unmarked, chosen, retries, hshown]
    simp only [advance]
    split
    · next hfn =>
      refine kept_silent (h.goto (.inr rfl) (.inl howned.symm) (fine_free _ ?_))
      simp [passedFor, hfn]
    · next hfn =>
      refine kept_silent (h.goto (.inr rfl) (.inl howned.symm) (fine_free _ ?_))
      simp [passedFor, hfn]
  | deleteFree key' right passed =>
    cases ho
    have hidle : Inv deleteFn (s.goto t .idle) last := h.goto (.inr rfl) (.inr rfl) fine_idle
    simp only [advance, if_neg hne]
    refine ⟨hidle.free ?_ ?_, ?_⟩
    · exact hidle.not_hidden_of_marked hmark
    · intro u k hu
      by_cases hut : u = t
      · rw [hut, goto_pc_self] at hu
        cases hu
      · rw [goto_pc_of_ne s .idle hut] at hu
        exact hut (h.owned_inj u t k key a hu howned)
    · rintro e ⟨⟩
      exact ⟨hlast, hkey, hf.passed key a passed rfl, hlive, hmark⟩
  | _ => simp [hpc, owned] at howned

theorem advance_kept (hsafe : Safe s (.advance t)) :
    Kept deleteFn s last (advance deleteFn s t (s.pc t)) := by
  rcases hcaller : (s.pc t).caller with _ | c
  · rcases hnew : (s.pc t).newNode with _ | a
    · rcases howned : (s.pc t).owned with _ | ⟨key, a⟩
      · exact delete_kept h hsafe hcaller hnew howned
      · exact release_kept h hsafe howned
    · exact insert_kept h hcaller hnew
  · exact search_kept h hsafe hcaller

/-- **Every step keeps the invariant, and what it gives out is as claimed.** -/
theorem step_kept (act : Act τ) (hsafe : Safe s act) :
    Kept deleteFn s last (step deleteFn s act) := by
  cases act with
  | lstInsert t key data addr =>
    simp only [step]
    split
    · split
      · exact ⟨h, by rintro e ⟨⟩; trivial⟩
      · next hne =>
        obtain ⟨hlive, hlinks, hnexts⟩ := hsafe hne
        exact kept_silent (h.alloc key data hne hlive hlinks hnexts)
    · exact kept_silent h
  | lstDelete t key | lstFind t key =>
    simp only [step]
    split
    · next hpc =>
      exact kept_silent (h.follow (c := _) (by rw [hpc]; rfl) (follows_enter rfl))
    · exact kept_silent h
  | advance t => exact advance_kept h hsafe

end

omit [DecidableEq τ] in
theorem live_iff_of_keeps {e : Option (Event τ)} (ha : s.live a = true)
    (hlive : s'.live = s.live) (he : e.bind Event.releases = none) :
    s'.live a = false ↔ e.bind Event.releases = some a := by
  rw [hlive, ha, he]
  simp

omit [DecidableEq τ] in
theorem live_free (s : State τ) (a b : ℕ) (hb : s.live b = true) :
    (s.free a).live b = false ↔ some a = some b := by
  by_cases hba : b = a
  · simp [State.free, hba]
  · simp [State.free, hba, hb, Ne.symm hba]

theorem step_live (deleteFn : Bool) (s : State τ) (act : Act τ) (ha : s.live a = true) :
    (step deleteFn s act).1.live a = false ↔
      (step deleteFn s act).2.bind Event.releases = some a := by
  cases act with
  | lstInsert t key data addr =>
    simp only [step]
    split_ifs with hidle h0
    · exact live_iff_of_keeps ha rfl rfl
    · by_cases haddr : a = addr
      · simp [State.goto, State.alloc, haddr]
      · simp [State.goto, State.alloc, haddr, ha]
    · exact live_iff_of_keeps ha rfl rfl
  | lstDelete t key | lstFind t key =>
    simp only [step]
    split <;> exact live_iff_of_keeps ha rfl rfl
  | advance t =>
    simp only [step]
    cases s.pc t with
    | insertFree new => exact live_free s new a ha
    | deleteFree key right passed =>
      by_cases h0 : right = 0
      · simp only [advance, if_pos h0]
        exact live_iff_of_keeps ha rfl (by simp [Event.releases, h0])
      · simpa [advance, State.goto, Event.releases, h0] using live_free s right a ha
    | _ =>
      simp only [advance]
      try split_ifs
      all_goals exact live_iff_of_keeps ha rfl rfl

omit [DecidableEq τ] in
theorem inv_lstCreate : Inv deleteFn (lstCreate τ) fun _ => none := by
  constructor
  case fine => exact fun _ => fine_idle
  all_goals simp [lstCreate, State.Hidden, newNode, owned, Ref.of]

theorem run_inv (h : Inv deleteFn s last) (acts : List (Act τ))
    (hsafe : Along (step deleteFn) Safe s acts) : Inv deleteFn (run (step deleteFn) s acts).1
      ((run (step deleteFn) s acts).2.foldl noteMark last) := by
  induction acts generalizing s last with
  | nil => exact h
  | cons act acts ih => exact ih (step_kept h act hsafe.1).1 hsafe.2

/-- **In every run in which the unlinking never fails and no memory is used after its
release, every release is right**: whatever the last step of the run releases is what it
says it does, and that is the node the thread has marked, with the key and the data asked
for, or the thread's own new node that was never linked. -/
theorem list_release (deleteFn : Bool) (acts : List (Act τ)) (act : Act τ)
    (hsafe : Along (step deleteFn) Safe (lstCreate τ) (acts ++ [act])) :
    let r := run (step deleteFn) (lstCreate τ) acts
    let r' := step deleteFn r.1 act
    (∀ e ∈ r'.2, Proper deleteFn r.1 (lastMarked r.2) e) ∧
    ∀ a, r.1.live a = true → (r'.1.live a = false ↔ r'.2.bind Event.releases = some a) := by
  rw [along_append] at hsafe
  obtain ⟨hacts, hact, -⟩ := hsafe
  have hinv := run_inv inv_lstCreate acts hacts
  exact ⟨(step_kept hinv act hact).2, fun a ha => step_live deleteFn _ act ha⟩

end StepInv

section Decide

variable {τ : Type}

instance (s : State τ) : (pc : Pc) → Decidable (Unlinks s pc)
  | .deleteUnlink _ left right _ =>
    inferInstanceAs (Decidable ((s.cell left).next = Ref.of right))
  | .idle | .enter _ | .again .. | .walk .. | .key .. | .recheck .. | .unlinkMarked ..
  | .insertTest .. | .insertFree _ | .insertStore .. | .insertCas .. | .deleteTest ..
  | .deleteNext .. | .deleteMark .. | .deleteRetry .. | .deleteData .. | .deleteFree ..
  | .findTest .. | .findData _ => inferInstanceAs (Decidable True)

def SafeLater (s : State τ) : Act τ → Prop
  | .lstInsert _ _ _ _ => False
  | .lstDelete _ _ | .lstFind _ _ => True
  | .advance t =>
    (∀ a ∈ (s.pc t).touches s.head, a ≠ 0 → s.live a = true) ∧ Unlinks s (s.pc t)

instance (s : State τ) : (act : Act τ) → Decidable (SafeLater s act)
  | .lstInsert _ _ _ _ => inferInstanceAs (Decidable False)
  | .lstDelete _ _ | .lstFind _ _ => inferInstanceAs (Decidable True)
  | .advance t => inferInstanceAs (Decidable
      ((∀ a ∈ (s.pc t).touches s.head, a ≠ 0 → s.live a = true) ∧ Unlinks s (s.pc t)))

theorem safe_of_safeLater {s : State τ} {act : Act τ} (h : SafeLater s act) : Safe s act := by
  cases act with
  | lstInsert t key data addr => exact h.elim
  | lstDelete t key => trivial
  | lstFind t key => trivial
  | advance t => exact h

end Decide

def insertThenDelete : List (Act Unit) :=
  .lstInsert () 5 9 2 :: List.replicate 6 (.advance ()) ++
    .lstDelete () 5 :: List.replicate 10 (.advance ())

theorem list_release_alone :
    let r := run (step true) (lstCreate Unit) insertThenDelete
    (step true r.1 (.advance ())).2 = some (.deleted () 5 2 (some 9)) ∧
    Proper true r.1 (lastMarked r.2) (.deleted () 5 2 (some 9)) := by
  have hout : (step true (run (step true) (lstCreate Unit) insertThenDelete).1
      (.advance ())).2 = some (.deleted () 5 2 (some 9)) := by decide +kernel
  refine ⟨hout, (list_release true insertThenDelete (.advance ()) ?_).1 _ hout⟩
  refine ⟨?_, Along.mono (fun _ _ => safe_of_safeLater) (by decide +kernel)⟩
  intro _
  simp [lstCreate, nexts, Ref.of]

def insertBeforeUnlink : List (Act Bool) :=
  .lstInsert true 5 9 2 :: List.replicate 6 (.advance true) ++
    .lstInsert true 7 8 3 :: List.replicate 8 (.advance true) ++
    .lstDelete true 5 :: List.replicate 8 (.advance true) ++
    .lstInsert false 3 1 4 :: List.replicate 10 (.advance false) ++
    List.replicate 10 (.advance true)

/-- `lstDelete(5)` has marked node 2 and releases node 3, with key 7 and its data, which is
in the list behind node 4 and not marked. -/
theorem list_release_other :
    let r := run (step true) (lstCreate Bool) insertBeforeUnlink
    (step true r.1 (.advance true)).2 = some (.deleted true 5 3 (some 8)) ∧
    lastMarked r.2 true = some 2 ∧ r.1.cell 3 = ⟨7, 8, Ref.of 0⟩ ∧
    r.1.live 4 = true ∧ (r.1.cell 4).next = Ref.of 3 ∧ (r.1.cell 1).next = Ref.of 4 := by
  decide +kernel

end AppView.LinkList
