import AppView.StrSearch
import AppView.Framework.Runs
import AppView.Framework.Cells

/-!
# The ring buffer among threads

`cbufPut` and `cbufGet` first move an index by compare-and-swap and use the slot afterwards. A
get that comes between the compare-and-swap and the store of a put finds the slot empty,
returns a zero and leaves the value behind; a put that has come round may find the slot not
read yet, and gives up after it moved the head; and between the test for a full buffer and the
compare-and-swap the index may come round once. **`cbuf_exactly_once`**: in every run in which
this does not happen (`Clear`), every accepted value is returned once.
-/

namespace AppView.CircBuf

open AppView.Framework Function

/-! ## The steps -/

structure CBuf where
  buffer : ℤ → UInt64
  head : ℤ
  tail : ℤ
  maxlen : ℤ

def cbufInit (size : ℕ) : CBuf :=
  { buffer := fun _ => 0, head := 0, tail := 0, maxlen := cInt (size + 1) }

def CBuf.next (cbuf : CBuf) (i : ℤ) : ℤ := (i + 1).tmod cbuf.maxlen

inductive Pc where
  | idle
  /-- Before `head = cbuf->head`. -/
  | putHead (data : UInt64) (attempts : ℕ)
  /-- Before the test against `cbuf->tail`. -/
  | putTail (data : UInt64) (attempts : ℕ) (head : ℤ)
  | putCas (data : UInt64) (attempts : ℕ) (head : ℤ)
  /-- Before the test that the slot is not used. -/
  | putTest (data : UInt64) (headNext : ℤ)
  | putStore (data : UInt64) (headNext : ℤ)
  /-- Before `tail = cbuf->tail`. -/
  | getTail (attempts : ℕ)
  /-- Before the test against `cbuf->head`. -/
  | getHead (attempts : ℕ) (tail : ℤ)
  | getCas (attempts : ℕ) (tail : ℤ)
  | getLoad (tailNext : ℤ)
  | getClear (tailNext : ℤ) (data : UInt64)
  deriving DecidableEq, Repr

structure State (τ : Type) where
  cbuf : CBuf
  pc : τ → Pc

inductive Act (τ : Type) where
  /-- A thread that is in neither function calls `cbufPut`. -/
  | cbufPut (t : τ) (data : UInt64)
  | cbufGet (t : τ)
  /-- A thread takes its next step. -/
  | advance (t : τ)

inductive Event where
  | put (data : UInt64) (ok : Bool)
  | get (data : Option UInt64)
  deriving DecidableEq, Repr

section Step

variable {τ : Type} [DecidableEq τ]

def State.goto (s : State τ) (t : τ) (pc : Pc) : State τ :=
  { s with pc := update s.pc t pc }

def step (s : State τ) : Act τ → State τ × Option Event
  | .cbufPut t data =>
    match s.pc t with
    | .idle => (s.goto t (.putHead data 0), none)
    | _ => (s, none)
  | .cbufGet t =>
    match s.pc t with
    | .idle => (s.goto t (.getTail 0), none)
    | _ => (s, none)
  | .advance t =>
    match s.pc t with
    | .idle => (s, none)
    | .putHead data n => (s.goto t (.putTail data n s.cbuf.head), none)
    | .putTail data n head =>
      -- full
      if s.cbuf.next head = s.cbuf.tail then (s.goto t .idle, some (.put data false))
      else (s.goto t (.putCas data n head), none)
    | .putCas data n head =>
      if s.cbuf.head = head then
        ({ s.goto t (.putTest data (s.cbuf.next head)) with
            cbuf := { s.cbuf with head := s.cbuf.next head } }, none)
      else if n < s.cbuf.maxlen then (s.goto t (.putHead data (n + 1)), none)
      else (s.goto t .idle, some (.put data false))
    | .putTest data i =>
      -- we expect that the entry is not used; has been read
      if s.cbuf.buffer i ≠ 0 then (s.goto t .idle, some (.put data false))
      else (s.goto t (.putStore data i), none)
    | .putStore data i =>
      ({ s.goto t .idle with
          cbuf := { s.cbuf with buffer := update s.cbuf.buffer i data } },
       some (.put data true))
    | .getTail n => (s.goto t (.getHead n s.cbuf.tail), none)
    | .getHead n tail =>
      -- empty
      if tail = s.cbuf.head then (s.goto t .idle, some (.get none))
      else (s.goto t (.getCas n tail), none)
    | .getCas n tail =>
      if s.cbuf.tail = tail then
        ({ s.goto t (.getLoad (s.cbuf.next tail)) with
            cbuf := { s.cbuf with tail := s.cbuf.next tail } }, none)
      else if n < s.cbuf.maxlen then (s.goto t (.getTail (n + 1)), none)
      else (s.goto t .idle, some (.get none))
    -- a zero is returned like any other value
    | .getLoad i => (s.goto t (.getClear i (s.cbuf.buffer i)), none)
    | .getClear i data =>
      ({ s.goto t .idle with
          cbuf := { s.cbuf with buffer := update s.cbuf.buffer i 0 } },
       some (.get (some data)))

end Step

/-! ## What is asked of a run -/

def init (τ : Type) (size : ℕ) : State τ := ⟨cbufInit size, fun _ => .idle⟩

def Event.accepted : Event → Option UInt64
  | .put data true => some data
  | _ => none

def Event.returned : Event → Option UInt64
  | .get data => data
  | _ => none

def accepted (out : List (Option Event)) : Multiset UInt64 :=
  out.filterMap fun e => e.bind Event.accepted

def returned (out : List (Option Event)) : Multiset UInt64 :=
  out.filterMap fun e => e.bind Event.returned

def Pc.putting : Pc → Option ℤ
  | .putTest _ i | .putStore _ i => some i
  | _ => none

def Pc.getting : Pc → Option ℤ
  | .getLoad i | .getClear i _ => some i
  | _ => none

def Pc.clearing : Pc → Option ℤ
  | .getClear i _ => some i
  | _ => none

open Pc (putting getting)

def Pc.data : Pc → Option UInt64
  | .putHead data _ | .putTail data _ _ | .putCas data _ _ | .putTest data _
  | .putStore data _ => some data
  | _ => none

def ClearAt {τ : Type} (s : State τ) : Pc → Prop
  | .putCas _ _ head => s.cbuf.head = head → s.cbuf.next head ≠ s.cbuf.tail
  | .putTest _ i | .putStore _ i => s.cbuf.buffer i = 0
  | .getLoad i => s.cbuf.buffer i ≠ 0 ∧ ∀ t', (s.pc t').clearing ≠ some i
  | _ => True

def Clear {τ : Type} (s : State τ) : Act τ → Prop
  | .advance t => ClearAt s (s.pc t)
  | .cbufPut _ data => data ≠ 0
  | .cbufGet _ => True

/-! ## The invariant -/

def State.held {τ : Type} (s : State τ) : Multiset UInt64 :=
  contents s.cbuf.maxlen.toNat fun i => s.cbuf.buffer i

structure Busy {τ : Type} (cbuf : CBuf) (pc : τ → Pc) : Prop where
  inside : ∀ t i, (pc t).putting = some i ∨ (pc t).getting = some i → 0 ≤ i ∧ i < cbuf.maxlen
  loaded : ∀ t i v, pc t = .getClear i v → cbuf.buffer i = v ∧ v ≠ 0
  single : ∀ t u i, (pc t).clearing = some i → (pc u).clearing = some i → t = u
  data : ∀ t, (pc t).data ≠ some 0

structure Inv {τ : Type} (s : State τ) (ahead : ℤ) (puts gets : ℕ) : Prop where
  pos : 0 < s.cbuf.maxlen
  head_nonneg : 0 ≤ s.cbuf.head
  tail_nonneg : 0 ≤ s.cbuf.tail
  tail_lt : s.cbuf.tail < s.cbuf.maxlen
  apart : s.cbuf.head ≡ s.cbuf.tail + ahead [ZMOD s.cbuf.maxlen]
  room : ahead < s.cbuf.maxlen
  putting : Counted (fun pc : Pc => pc.putting ≠ none) s.pc puts
  getting : Counted (fun pc : Pc => pc.getting ≠ none) s.pc gets
  busy : Busy s.cbuf s.pc
  count : (s.held.card : ℤ) + puts = ahead + gets

section Inv

variable {τ : Type} {s : State τ} {ahead : ℤ} {puts gets : ℕ} {t : τ}

variable {cbuf : CBuf} {i : ℤ} {data : UInt64}

theorem next_nonneg (hi : 0 ≤ i) : 0 ≤ cbuf.next i :=
  Int.tmod_nonneg _ (by omega)

theorem next_lt (hpos : 0 < cbuf.maxlen) (i : ℤ) : cbuf.next i < cbuf.maxlen :=
  Int.tmod_lt_of_pos _ hpos

theorem next_modEq (hi : 0 ≤ i) : cbuf.next i ≡ i + 1 [ZMOD cbuf.maxlen] := by
  rw [CBuf.next, Int.tmod_eq_emod_of_nonneg (by omega)]
  exact Int.mod_modEq _ _

theorem cell_index (hi : 0 ≤ i ∧ i < cbuf.maxlen) : ∃ k : ℕ, i = k ∧ k < cbuf.maxlen.toNat := by
  obtain ⟨k, rfl⟩ := Int.eq_ofNat_of_zero_le hi.1
  exact ⟨k, rfl, by omega⟩

theorem memory_update (buffer : ℤ → UInt64) (k : ℕ) (v : UInt64) :
    (fun i : ℕ => update buffer k v i) = update (fun i : ℕ => buffer i) k v :=
  update_comp_eq_of_injective buffer Nat.cast_injective k v

variable [DecidableEq τ]

theorem Busy.goto {cbuf' : CBuf} {pc : τ → Pc} (h : Busy cbuf pc) {pc' : Pc}
    (hmaxlen : cbuf'.maxlen = cbuf.maxlen)
    (hothers : ∀ u ≠ t, ∀ i, (pc u).clearing = some i → cbuf'.buffer i = cbuf.buffer i)
    (hinside : ∀ i, pc'.putting = some i ∨ pc'.getting = some i → 0 ≤ i ∧ i < cbuf.maxlen)
    (hloaded : ∀ i v, pc' = .getClear i v →
      (cbuf'.buffer i = v ∧ v ≠ 0) ∧ ∀ u, (pc u).clearing ≠ some i)
    (hdata : pc'.data ≠ some 0) : Busy cbuf' (update pc t pc') := by
  have clears : ∀ {i}, pc'.clearing = some i → ∃ v, pc' = .getClear i v := by
    intro i hi
    cases pc' <;> cases hi
    exact ⟨_, rfl⟩
  refine ⟨?_, fun u i v hu => ?_, fun u w i hu hw => ?_, ?_⟩
  · simp only [hmaxlen]
    exact (forall_update_iff pc fun _ pc => ∀ i, pc.putting = some i ∨ pc.getting = some i →
      0 ≤ i ∧ i < cbuf.maxlen).2 ⟨hinside, fun u _ => h.inside u⟩
  · by_cases hut : u = t
    · subst hut
      rw [update_self] at hu
      exact (hloaded i v hu).1
    · rw [update_of_ne hut] at hu
      rw [hothers u hut i (by rw [hu]; rfl)]
      exact h.loaded u i v hu
  · by_cases hut : u = t
    · by_cases hwt : w = t
      · rw [hut, hwt]
      · rw [hut, update_self] at hu
        rw [update_of_ne hwt] at hw
        obtain ⟨v, hv⟩ := clears hu
        exact absurd hw ((hloaded i v hv).2 w)
    · by_cases hwt : w = t
      · rw [hwt, update_self] at hw
        rw [update_of_ne hut] at hu
        obtain ⟨v, hv⟩ := clears hw
        exact absurd hu ((hloaded i v hv).2 u)
      · rw [update_of_ne hut] at hu
        rw [update_of_ne hwt] at hw
        exact h.single u w i hu hw
  · exact (forall_update_iff pc fun _ pc => pc.data ≠ some 0).2 ⟨hdata, fun u _ => h.data u⟩

/-! ## One step -/

section

variable (h : Inv s ahead puts gets)

include h

theorem Inv.goto {pc' : Pc}
    (hput : pc'.putting = (s.pc t).putting) (hget : pc'.getting = (s.pc t).getting)
    (hload : ∀ i v, pc' ≠ .getClear i v) (hdata : pc'.data ≠ some 0) :
    Inv (s.goto t pc') ahead puts gets := by
  refine ⟨h.pos, h.head_nonneg, h.tail_nonneg, h.tail_lt, h.apart, h.room, h.putting.same ?_,
    h.getting.same ?_, h.busy.goto rfl (fun _ _ _ _ => rfl) ?_ ?_ hdata, h.count⟩
  · rw [hput]
  · rw [hget]
  · rw [hput, hget]
    exact h.busy.inside t
  · exact fun i v heq => absurd heq (hload i v)

theorem inv_putCas {n : ℕ}
    (hpc : s.pc t = .putCas data n s.cbuf.head) (hfull : s.cbuf.next s.cbuf.head ≠ s.cbuf.tail) :
    Inv { s.goto t (.putTest data (s.cbuf.next s.cbuf.head)) with
            cbuf := { s.cbuf with head := s.cbuf.next s.cbuf.head } }
      (ahead + 1) (puts + 1) gets := by
  have hnext : s.cbuf.next s.cbuf.head ≡ _ [ZMOD s.cbuf.maxlen] := next_modEq h.head_nonneg
  have happart : s.cbuf.next s.cbuf.head ≡ s.cbuf.tail + (ahead + 1) [ZMOD s.cbuf.maxlen] := by
    rw [← add_assoc]
    exact hnext.trans (h.apart.add_right 1)
  refine ⟨h.pos, next_nonneg h.head_nonneg, h.tail_nonneg, h.tail_lt, happart, ?_, ?_, ?_, ?_, ?_⟩
  · -- all slots ahead would be the tail again
    have hroom := h.room
    by_contra hge
    change ¬ ahead + 1 < s.cbuf.maxlen at hge
    rw [show ahead + 1 = s.cbuf.maxlen by omega] at happart
    have hsame : s.cbuf.next s.cbuf.head ≡ s.cbuf.tail [ZMOD s.cbuf.maxlen] := by
      refine happart.trans ?_
      exact Int.add_modEq_right
    unfold Int.ModEq at hsame
    rw [Int.emod_eq_of_lt (next_nonneg h.head_nonneg) (next_lt h.pos _),
      Int.emod_eq_of_lt h.tail_nonneg h.tail_lt] at hsame
    exact hfull hsame
  · exact h.putting.enter (by simp [hpc, putting]) (by simp [putting])
  · exact h.getting.same (by simp [hpc, getting])
  · refine h.busy.goto rfl (fun _ _ _ _ => rfl) ?_ (by simp) ?_
    · intro i hi
      obtain rfl : s.cbuf.next s.cbuf.head = i := by simpa [putting, getting] using hi
      exact ⟨next_nonneg h.head_nonneg, next_lt h.pos _⟩
    · have := h.busy.data t
      rwa [hpc] at this
  · have := h.count
    change (s.held.card : ℤ) + (puts + 1) = ahead + 1 + gets
    omega

theorem inv_getCas {n : ℕ} (hpc : s.pc t = .getCas n s.cbuf.tail) :
    Inv { s.goto t (.getLoad (s.cbuf.next s.cbuf.tail)) with
            cbuf := { s.cbuf with tail := s.cbuf.next s.cbuf.tail } }
      (ahead - 1) puts (gets + 1) := by
  have hnext : s.cbuf.next s.cbuf.tail ≡ _ [ZMOD s.cbuf.maxlen] := next_modEq h.tail_nonneg
  have hroom := h.room
  refine ⟨h.pos, h.head_nonneg, next_nonneg h.tail_nonneg, next_lt h.pos _, ?_, ?_, ?_, ?_, ?_, ?_⟩
  · have hsame : s.cbuf.tail + ahead = s.cbuf.tail + 1 + (ahead - 1) := by omega
    have happart := h.apart
    rw [hsame] at happart
    exact happart.trans (hnext.symm.add_right (ahead - 1))
  · change ahead - 1 < s.cbuf.maxlen
    omega
  · exact h.putting.same (by simp [hpc, putting])
  · exact h.getting.enter (by simp [hpc, getting]) (by simp [getting])
  · refine h.busy.goto rfl (fun _ _ _ _ => rfl) ?_ (by simp) (by simp [Pc.data])
    intro i hi
    obtain rfl : s.cbuf.next s.cbuf.tail = i := by simpa [putting, getting] using hi
    exact ⟨next_nonneg h.tail_nonneg, next_lt h.pos _⟩
  · have := h.count
    change (s.held.card : ℤ) + puts = ahead - 1 + (gets + 1)
    omega

theorem inv_putStore (hpc : s.pc t = .putStore data i)
    (hempty : s.cbuf.buffer i = 0) :
    let s' : State τ := { s.goto t .idle with
      cbuf := { s.cbuf with buffer := update s.cbuf.buffer i data } }
    (∃ puts', Inv s' ahead puts' gets) ∧ s'.held = s.held + {data} := by
  intro s'
  obtain ⟨k, rfl, hk⟩ := cell_index (h.busy.inside t i (.inl (by rw [hpc]; rfl)))
  have hdata : data ≠ 0 := by
    have := h.busy.data t
    rw [hpc] at this
    exact fun heq => this (congrArg some heq)
  have hheld : s'.held = s.held + {data} := by
    change contents _ (fun i : ℕ => update s.cbuf.buffer k data i) = _
    rw [memory_update]
    exact contents_store hk hempty hdata
  obtain ⟨puts', rfl, hputs⟩ := h.putting.leave
    (show (s.pc t).putting ≠ none by simp [hpc, putting])
    (show ¬ Pc.idle.putting ≠ none by simp [putting])
  refine ⟨⟨puts', { h with putting := hputs, getting := ?_, busy := ?_, count := ?_ }⟩, hheld⟩
  · exact h.getting.same (by simp [hpc, getting])
  · refine h.busy.goto rfl ?_ (by simp [putting, getting]) (by simp) (by simp [Pc.data])
    -- a slot that was loaded is not empty
    intro u _ j hj
    refine update_of_ne (fun hjk => ?_) _ _
    subst hjk
    cases hu : s.pc u with
    | getClear i v =>
      rw [hu] at hj
      obtain rfl : i = k := by simpa [Pc.clearing] using hj
      obtain ⟨hv, hne⟩ := h.busy.loaded u _ v hu
      exact hne (hv.symm.trans hempty)
    | _ =>
      rw [hu] at hj
      cases hj
  · have := h.count
    rw [hheld, Multiset.card_add, Multiset.card_singleton]
    omega

theorem inv_getLoad (hpc : s.pc t = .getLoad i)
    (hfull : s.cbuf.buffer i ≠ 0) (hsingle : ∀ u, (s.pc u).clearing ≠ some i) :
    Inv (s.goto t (.getClear i (s.cbuf.buffer i))) ahead puts gets := by
  refine ⟨h.pos, h.head_nonneg, h.tail_nonneg, h.tail_lt, h.apart, h.room, h.putting.same ?_,
    h.getting.same ?_, ?_, h.count⟩
  · simp [hpc, putting]
  · simp [hpc, getting]
  · refine h.busy.goto rfl (fun _ _ _ _ => rfl) ?_ ?_ (by simp [Pc.data])
    · intro j hj
      refine h.busy.inside t j ?_
      rw [hpc]
      exact hj
    · intro j v heq
      cases heq
      exact ⟨⟨rfl, hfull⟩, hsingle⟩

theorem inv_getClear (hpc : s.pc t = .getClear i data) :
    let s' : State τ := { s.goto t .idle with
      cbuf := { s.cbuf with buffer := update s.cbuf.buffer i 0 } }
    (∃ gets', Inv s' ahead puts gets') ∧ s'.held + {data} = s.held := by
  intro s'
  obtain ⟨hloaded, hdata⟩ := h.busy.loaded t i data hpc
  obtain ⟨k, rfl, hk⟩ := cell_index (h.busy.inside t i (.inr (by rw [hpc]; rfl)))
  have hheld : s'.held + {data} = s.held := by
    change contents _ (fun i : ℕ => update s.cbuf.buffer k 0 i) + _ = _
    rw [memory_update]
    exact contents_clear hk hdata hloaded
  obtain ⟨gets', rfl, hgets⟩ := h.getting.leave
    (show (s.pc t).getting ≠ none by simp [hpc, getting])
    (show ¬ Pc.idle.getting ≠ none by simp [getting])
  refine ⟨⟨gets', { h with putting := ?_, getting := hgets, busy := ?_, count := ?_ }⟩, hheld⟩
  · exact h.putting.same (by simp [hpc, putting])
  · refine h.busy.goto rfl ?_ (by simp [putting, getting]) (by simp) (by simp [Pc.data])
    intro u hu j hj
    refine update_of_ne (fun hjk => hu ?_) _ _
    subst hjk
    exact h.busy.single u t _ hj (by rw [hpc]; rfl)
  · have := h.count
    rw [← hheld, Multiset.card_add, Multiset.card_singleton] at this
    omega

end

theorem accepted_cons (o : Option Event) (out : List (Option Event)) :
    accepted (o :: out) = accepted [o] + accepted out := by
  unfold accepted
  cases h : o.bind Event.accepted <;> simp [h]

theorem returned_cons (o : Option Event) (out : List (Option Event)) :
    returned (o :: out) = returned [o] + returned out := by
  unfold returned
  cases h : o.bind Event.returned <;> simp [h]

/-- **One step.** The count is kept, and the values in the slots change by what is
accepted and returned. -/
theorem step_inv (h : Inv s ahead puts gets) (a : Act τ) (hclear : Clear s a) :
    (∃ ahead' puts' gets', Inv (step s a).1 ahead' puts' gets') ∧
    (step s a).1.held + returned [(step s a).2] = s.held + accepted [(step s a).2] := by
  -- steps that only move the thread, and give out nothing that counts
  have stay : ∀ {t : τ} {old pc : Pc} {o : Option Event}, s.pc t = old →
      pc.putting = old.putting → pc.getting = old.getting → (∀ i v, pc ≠ .getClear i v) →
      pc.data ≠ some 0 → accepted [o] = 0 → returned [o] = 0 →
      (∃ ahead' puts' gets', Inv (s.goto t pc) ahead' puts' gets') ∧
        (s.goto t pc).held + returned [o] = s.held + accepted [o] := by
    rintro t _ pc o rfl hput hget hload hdata ha hr
    refine ⟨⟨_, _, _, h.goto hput hget hload hdata⟩, ?_⟩
    rw [ha, hr]
    rfl
  cases a with
  | cbufPut t data =>
    simp only [step]
    split
    · next hpc =>
        refine stay hpc rfl rfl nofun ?_ rfl rfl
        exact fun heq => hclear (Option.some_inj.mp heq)
    · exact ⟨⟨_, _, _, h⟩, rfl⟩
  | cbufGet t =>
    simp only [step]
    split
    · next hpc =>
        exact stay hpc rfl rfl nofun nofun rfl rfl
    · exact ⟨⟨_, _, _, h⟩, rfl⟩
  | advance t =>
    have hdata := h.busy.data t
    simp only [Clear] at hclear
    simp only [step]
    generalize hpc : s.pc t = pc at hclear hdata ⊢
    cases pc with
    | idle => exact ⟨⟨_, _, _, h⟩, rfl⟩
    | putHead data n => exact stay hpc rfl rfl nofun hdata rfl rfl
    | putTail data n head =>
      dsimp only
      split_ifs
      · exact stay hpc rfl rfl nofun nofun rfl rfl
      · exact stay hpc rfl rfl nofun hdata rfl rfl
    | putCas data n head =>
      dsimp only
      split_ifs with hhead
      · subst hhead
        exact ⟨⟨_, _, _, inv_putCas h hpc (hclear rfl)⟩, rfl⟩
      · exact stay hpc rfl rfl nofun hdata rfl rfl
      · exact stay hpc rfl rfl nofun nofun rfl rfl
    | putTest data i =>
      simp only [ClearAt] at hclear
      simp only [hclear, ne_eq, not_true_eq_false, if_false]
      exact stay hpc rfl rfl nofun hdata rfl rfl
    | putStore data i =>
      obtain ⟨⟨puts', hinv⟩, hheld⟩ := inv_putStore h hpc hclear
      refine ⟨⟨_, puts', _, hinv⟩, ?_⟩
      rw [hheld]
      simp [accepted, returned, Event.accepted, Event.returned]
    | getTail n => exact stay hpc rfl rfl nofun nofun rfl rfl
    | getHead n tail =>
      dsimp only
      split_ifs
      · exact stay hpc rfl rfl nofun nofun rfl rfl
      · exact stay hpc rfl rfl nofun nofun rfl rfl
    | getCas n tail =>
      dsimp only
      split_ifs with htail
      · subst htail
        exact ⟨⟨_, _, _, inv_getCas h hpc⟩, rfl⟩
      · exact stay hpc rfl rfl nofun nofun rfl rfl
      · exact stay hpc rfl rfl nofun nofun rfl rfl
    | getLoad i => exact ⟨⟨_, _, _, inv_getLoad h hpc hclear.1 hclear.2⟩, rfl⟩
    | getClear i data =>
      obtain ⟨⟨gets', hinv⟩, hheld⟩ := inv_getClear h hpc
      refine ⟨⟨_, _, gets', hinv⟩, ?_⟩
      rw [← hheld]
      simp [accepted, returned, Event.accepted, Event.returned]

/-! ## Whole runs -/

theorem run_inv (h : Inv s ahead puts gets) (acts : List (Act τ))
    (hclear : Along step Clear s acts) :
    (∃ ahead' puts' gets', Inv (run step s acts).1 ahead' puts' gets') ∧
    (run step s acts).1.held + returned (run step s acts).2 =
      s.held + accepted (run step s acts).2 := by
  induction acts generalizing s ahead puts gets with
  | nil => exact ⟨⟨_, _, _, h⟩, rfl⟩
  | cons a acts ih =>
    obtain ⟨⟨_, _, _, hstep⟩, heq⟩ := step_inv h a hclear.1
    obtain ⟨hrun, heq'⟩ := ih hstep hclear.2
    refine ⟨hrun, ?_⟩
    rw [run_cons, accepted_cons, returned_cons, add_comm (returned _), ← add_assoc, heq',
      add_right_comm, heq, add_assoc]

omit [DecidableEq τ] in
theorem held_init (size : ℕ) : (init τ size).held = 0 := contents_zero

omit [DecidableEq τ] in
theorem inv_init {size : ℕ} (hsize : size + 1 < 2 ^ 31) : Inv (init τ size) 0 0 0 := by
  have hmaxlen : (init τ size).cbuf.maxlen = size + 1 := cInt_of_lt hsize
  refine ⟨by omega, le_rfl, le_rfl, ?_, Int.ModEq.refl _, by omega, counted_zero fun _ h => h rfl,
    counted_zero fun _ h => h rfl, ⟨?_, ?_, ?_, ?_⟩, ?_⟩
  · change 0 < (init τ size).cbuf.maxlen
    omega
  · rintro t i (h | h) <;> cases h
  · intro t i v h
    cases h
  · intro t u i h
    cases h
  · intro t h
    cases h
  · rw [held_init]
    rfl

omit [DecidableEq τ] in
theorem held_of_drained (h : Inv s ahead puts gets) (hidle : ∀ t, s.pc t = .idle)
    (hempty : s.cbuf.head = s.cbuf.tail) : s.held = 0 := by
  have hputs : puts = 0 := h.putting.eq_zero fun t => by simp [hidle t, putting]
  have hgets : gets = 0 := h.getting.eq_zero fun t => by simp [hidle t, getting]
  have hcount := h.count
  have hroom := h.room
  -- a distance between 0 and all slots that is none going round
  have hdvd : s.cbuf.maxlen ∣ ahead := by
    have := h.apart
    rw [hempty] at this
    have := this.dvd
    rwa [add_sub_cancel_left] at this
  have hzero : ahead = 0 := Int.eq_zero_of_dvd_of_nonneg_of_lt (by omega) hroom hdvd
  refine Multiset.card_eq_zero.mp ?_
  omega

/-- **Exactly once.** In every run from an empty buffer whose steps are all `Clear`: what
was returned had been accepted, each value as often; and when all threads are outside and
the buffer is empty, all that was accepted has been returned, and nothing is left in a
slot. -/
theorem cbuf_exactly_once (size : ℕ) (hsize : size + 1 < 2 ^ 31) (acts : List (Act τ))
    (hclear : Along step Clear (init τ size) acts) :
    let r := run step (init τ size) acts
    returned r.2 ≤ accepted r.2 ∧
    ((∀ t, r.1.pc t = .idle) → r.1.cbuf.head = r.1.cbuf.tail → accepted r.2 = returned r.2 ∧
      ∀ i, 0 ≤ i → i < r.1.cbuf.maxlen → r.1.cbuf.buffer i = 0) := by
  obtain ⟨⟨_, _, _, hinv⟩, heq⟩ := run_inv (inv_init hsize) acts hclear
  rw [held_init, zero_add] at heq
  refine ⟨?_, fun hidle hempty => ?_⟩
  · rw [← heq]
    exact Multiset.le_add_left _ _
  · have hheld := held_of_drained hinv hidle hempty
    rw [hheld, zero_add] at heq
    refine ⟨heq.symm, fun i hi hlt => ?_⟩
    obtain ⟨k, rfl, hk⟩ := cell_index ⟨hi, hlt⟩
    exact eq_zero_of_contents hheld hk

end Inv

section Decide

variable {τ : Type} [Fintype τ]

instance (s : State τ) : (pc : Pc) → Decidable (ClearAt s pc)
  | .putCas _ _ head =>
    inferInstanceAs (Decidable (s.cbuf.head = head → s.cbuf.next head ≠ s.cbuf.tail))
  | .putTest _ i | .putStore _ i => inferInstanceAs (Decidable (s.cbuf.buffer i = 0))
  | .getLoad i =>
    inferInstanceAs (Decidable (s.cbuf.buffer i ≠ 0 ∧ ∀ t', (s.pc t').clearing ≠ some i))
  | .idle | .putHead .. | .putTail .. | .getTail .. | .getHead .. | .getCas ..
  | .getClear .. => inferInstanceAs (Decidable True)

instance (s : State τ) : (a : Act τ) → Decidable (Clear s a)
  | .advance t => inferInstanceAs (Decidable (ClearAt s (s.pc t)))
  | .cbufPut _ data => inferInstanceAs (Decidable (data ≠ 0))
  | .cbufGet _ => inferInstanceAs (Decidable True)

end Decide

def putThenGet : List (Act Unit) :=
  .cbufPut () 7 :: List.replicate 5 (.advance ()) ++
    .cbufGet () :: List.replicate 5 (.advance ())

theorem cbuf_exactly_once_alone :
    let r := run step (init Unit 4) putThenGet
    accepted r.2 = returned r.2 ∧ 7 ∈ accepted r.2 := by
  have h := cbuf_exactly_once 4 (by decide) putThenGet (by decide)
  exact ⟨(h.2 (by decide) (by decide)).1, by decide⟩

def getBeforeStore : List (Act Bool) :=
  .cbufPut true 7 :: List.replicate 3 (.advance true) ++
    .cbufGet false :: List.replicate 5 (.advance false) ++ List.replicate 2 (.advance true)

/-- All threads are outside and the buffer is empty: 7 was accepted, 0 was returned, and
7 is left in a slot behind the indices. -/
theorem cbuf_exactly_once_passed :
    let r := run step (init Bool 4) getBeforeStore
    (∀ t, r.1.pc t = .idle) ∧ r.1.cbuf.head = r.1.cbuf.tail ∧
    accepted r.2 = {7} ∧ returned r.2 = {0} ∧ r.1.cbuf.buffer 1 = 7 := by
  decide

end AppView.CircBuf
