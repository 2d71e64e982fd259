import Mathlib

/-!
# Patterns with groups

Regular expressions without nested repetition: words, non-empty runs of a class of characters,
sequences, alternatives and groups.
-/

namespace AppView.Framework

open List Option

variable {α : Type*}

/-! ## Cutting a text at a character -/

theorem span_unique {p : α → Bool} {x x' y y' : List α} {c c' : α}
    (hx : ∀ d ∈ x, p d = true) (hx' : ∀ d ∈ x', p d = true) (hc : p c = false)
    (hc' : p c' = false) (h : x ++ c :: y = x' ++ c' :: y') : x = x' ∧ c = c' ∧ y = y' := by
  have hcut : ∀ {x y : List α} {c : α}, (∀ d ∈ x, p d = true) → p c = false →
      (x ++ c :: y).takeWhile p = x := by
    intro x y c hx hc
    simp [takeWhile_append_of_pos hx, hc]
  obtain rfl : x = x' := by rw [← hcut hx hc, h, hcut hx' hc']
  simpa using h

theorem cut_unique {c : α} {x x' y y' : List α} (hx : c ∉ x) (hx' : c ∉ x')
    (h : x ++ c :: y = x' ++ c :: y') : x = x' ∧ y = y' := by
  classical
  have houtside : ∀ {z : List α}, c ∉ z → ∀ d ∈ z, decide (d ≠ c) = true := by
    intro z hz d hd
    refine decide_eq_true ?_
    rintro rfl
    exact hz hd
  obtain ⟨hxx, -, hyy⟩ := span_unique (p := fun d => decide (d ≠ c)) (houtside hx)
    (houtside hx') (by simp) (by simp) h
  exact ⟨hxx, hyy⟩

theorem last_unique {c : α} {x x' y y' : List α} (hy : c ∉ y) (hy' : c ∉ y')
    (h : x ++ c :: y = x' ++ c :: y') : x = x' ∧ y = y' := by
  have hrev := congrArg reverse h
  simp only [reverse_append, reverse_cons, append_assoc, singleton_append] at hrev
  obtain ⟨hyy, hxx⟩ := cut_unique (mt mem_reverse.1 hy) (mt mem_reverse.1 hy') hrev
  exact ⟨reverse_injective hxx, reverse_injective hyy⟩

/-! ## Patterns and their matches -/

inductive Pattern (α : Type*) where
  | word (w : List α)
  | run (p : α → Bool)
  | seq (a b : Pattern α)
  | alt (a b : Pattern α)
  | group (a : Pattern α)

namespace Pattern

/-- Alternatives between words, in their order. -/
def anyWord : List (List α) → Pattern α
  | [] => run fun _ => false
  | [w] => word w
  | w :: ws => alt (word w) (anyWord ws)

/-- Patterns one after the other. -/
def seqAll : List (Pattern α) → Pattern α
  | [] => word []
  | [a] => a
  | a :: as => seq a (seqAll as)

/-- The non-empty initial parts in a class, longest first, each with what follows. -/
def runs (p : α → Bool) : List α → List (List α × List α)
  | [] => []
  | c :: s => if p c then (runs p s).map (fun x => (c :: x.1, x.2)) ++ [([c], s)] else []

variable [DecidableEq α]

/-- The matches at the front: the texts of the groups, and what follows. -/
def ways : Pattern α → List α → List (List (List α) × List α)
  | word w, s => if w.isPrefixOf s then [([], s.drop w.length)] else []
  | run p, s => (runs p s).map fun x => ([], x.2)
  | seq a b, s => (ways a s).flatMap fun x => (ways b x.2).map fun y => (x.1 ++ y.1, y.2)
  | alt a b, s => ways a s ++ ways b s
  | group a, s => (ways a s).map fun x => (s.take (s.length - x.2.length) :: x.1, x.2)

/-- The groups of the first match at the leftmost place. -/
def search (a : Pattern α) : List α → Option (List (List α))
  | [] => (ways a []).head?.map Prod.fst
  | c :: s =>
    match (ways a (c :: s)).head? with
    | some x => some x.1
    | none => search a s

variable {p : α → Bool} {s t r w : List α} {a b : Pattern α} {x y : List (List α) × List α}
    {cs : List (List α)} {P : List α → Prop} {stop : List α → Bool} {c : α}

omit [DecidableEq α] in
theorem mem_runs : (t, r) ∈ runs p s ↔ t ≠ [] ∧ (∀ c ∈ t, p c = true) ∧ s = t ++ r := by
  induction s generalizing t with
  | nil =>
    simp only [runs, not_mem_nil, false_iff]
    rintro ⟨hne, -, hs⟩
    exact hne (append_eq_nil_iff.1 hs.symm).1
  | cons c s ih =>
    by_cases hc : p c = true
    · simp only [runs, hc, if_true, mem_append, List.mem_map, mem_singleton, Prod.mk.injEq]
      constructor
      · rintro (⟨⟨u, v⟩, huv, rfl, rfl⟩ | ⟨rfl, rfl⟩)
        · obtain ⟨-, hall, rfl⟩ := ih.1 huv
          exact ⟨by simp, by simpa [hc] using hall, rfl⟩
        · exact ⟨by simp, by simpa using hc, rfl⟩
      · rintro ⟨hne, hall, hs⟩
        obtain ⟨d, u, rfl⟩ := exists_cons_of_ne_nil hne
        obtain ⟨rfl, rfl⟩ : c = d ∧ s = u ++ r := by simpa using hs
        cases u with
        | nil => exact .inr ⟨rfl, rfl⟩
        | cons e u =>
          refine .inl ⟨(e :: u, r), ih.2 ⟨by simp, ?_, rfl⟩, rfl, rfl⟩
          exact (forall_mem_cons.1 hall).2
    · simp only [runs, hc, if_false, not_mem_nil, false_iff, Bool.false_eq_true]
      rintro ⟨hne, hall, hs⟩
      obtain ⟨d, u, rfl⟩ := exists_cons_of_ne_nil hne
      obtain ⟨rfl, -⟩ : c = d ∧ s = u ++ r := by simpa using hs
      exact hc (hall c (by simp))

theorem ways_suffix (h : x ∈ ways a s) : x.2 <:+ s := by
  induction a generalizing s x with
  | word w =>
    simp only [ways] at h
    split_ifs at h with hw
    · obtain rfl : x = _ := by simpa using h
      exact drop_suffix _ _
    · cases h
  | run p =>
    obtain ⟨⟨t, r⟩, hr, rfl⟩ := List.mem_map.1 h
    obtain ⟨-, -, rfl⟩ := mem_runs.1 hr
    exact suffix_append t r
  | seq a b iha ihb =>
    obtain ⟨y, hy, hx⟩ := mem_flatMap.1 h
    obtain ⟨z, hz, rfl⟩ := List.mem_map.1 hx
    exact (ihb hz).trans (iha hy)
  | alt a b iha ihb =>
    rcases mem_append.1 h with h | h
    · exact iha h
    · exact ihb h
  | group a iha =>
    obtain ⟨y, hy, rfl⟩ := List.mem_map.1 h
    have hrest : y.2 <:+ s := iha hy
    exact hrest

/-! ## One lemma for each construct -/

theorem mem_ways_word : (cs, r) ∈ ways (word w) s ↔ cs = [] ∧ s = w ++ r := by
  simp only [ways]
  split_ifs with hw
  · obtain ⟨t, rfl⟩ := isPrefixOf_iff_prefix.1 hw
    simp [eq_comm]
  · simp only [not_mem_nil, false_iff]
    rintro ⟨-, rfl⟩
    refine hw ?_
    exact isPrefixOf_iff_prefix.2 ⟨r, rfl⟩

theorem mem_ways_run : (cs, r) ∈ ways (run p) s ↔
      cs = [] ∧ ∃ t, t ≠ [] ∧ (∀ c ∈ t, p c = true) ∧ s = t ++ r := by
  simp only [ways, List.mem_map, Prod.mk.injEq]
  constructor
  · rintro ⟨⟨t, u⟩, ht, rfl, rfl⟩
    exact ⟨rfl, t, mem_runs.1 ht⟩
  · rintro ⟨rfl, t, ht⟩
    exact ⟨(t, r), mem_runs.2 ht, rfl, rfl⟩

theorem mem_ways_seq : (cs, r) ∈ ways (seq a b) s ↔
      ∃ cs₁ t cs₂, (cs₁, t) ∈ ways a s ∧ (cs₂, r) ∈ ways b t ∧ cs = cs₁ ++ cs₂ := by
  simp only [ways, mem_flatMap, List.mem_map, Prod.mk.injEq]
  constructor
  · rintro ⟨⟨cs₁, t⟩, hx, ⟨cs₂, u⟩, hy, rfl, rfl⟩
    exact ⟨cs₁, t, cs₂, hx, hy, rfl⟩
  · rintro ⟨cs₁, t, cs₂, hx, hy, rfl⟩
    exact ⟨(cs₁, t), hx, (cs₂, r), hy, rfl, rfl⟩

theorem mem_ways_group :
    (cs, r) ∈ ways (group a) s ↔ ∃ t cs', cs = t :: cs' ∧ s = t ++ r ∧ (cs', r) ∈ ways a s := by
  simp only [ways, List.mem_map, Prod.mk.injEq]
  constructor
  · rintro ⟨⟨cs', u⟩, hx, rfl, rfl⟩
    obtain ⟨t, rfl⟩ := ways_suffix hx
    exact ⟨t, cs', by simp, rfl, hx⟩
  · rintro ⟨t, cs', rfl, rfl, hx⟩
    exact ⟨(cs', r), hx, by simp, rfl⟩

/-! ## Patterns by the texts they match -/

/-- A pattern without groups that matches the texts with a property. -/
def Reads (a : Pattern α) (P : List α → Prop) : Prop :=
  ∀ ⦃s cs r⦄, (cs, r) ∈ ways a s ↔ cs = [] ∧ ∃ t, P t ∧ s = t ++ r

/-- A single group that matches the texts with a property. -/
def Captures (a : Pattern α) (P : List α → Prop) : Prop :=
  ∀ ⦃s cs r⦄, (cs, r) ∈ ways a s ↔ ∃ t, cs = [t] ∧ P t ∧ s = t ++ r

theorem reads_word (w : List α) : Reads (word w) (· = w) := by
  intro s cs r
  simp [mem_ways_word]

theorem reads_run (p : α → Bool) : Reads (run p) fun t => t ≠ [] ∧ ∀ c ∈ t, p c = true := by
  intro s cs r
  simp [mem_ways_run, and_assoc]

theorem Reads.alt {Q : List α → Prop} (ha : Reads a P) (hb : Reads b Q) :
    Reads (alt a b) fun t => P t ∨ Q t := by
  intro s cs r
  rw [ways, mem_append, ha, hb]
  constructor
  · rintro (⟨rfl, t, ht, rfl⟩ | ⟨rfl, t, ht, rfl⟩)
    · exact ⟨rfl, t, .inl ht, rfl⟩
    · exact ⟨rfl, t, .inr ht, rfl⟩
  · rintro ⟨rfl, t, ht | ht, rfl⟩
    · exact .inl ⟨rfl, t, ht, rfl⟩
    · exact .inr ⟨rfl, t, ht, rfl⟩

theorem reads_anyWord (ws : List (List α)) : Reads (anyWord ws) (· ∈ ws) := by
  induction ws with
  | nil =>
    intro s cs r
    refine (reads_run _).trans ⟨?_, ?_⟩
    · rintro ⟨-, t, ⟨hne, hall⟩, -⟩
      obtain ⟨c, hc⟩ := exists_mem_of_ne_nil t hne
      cases hall c hc
    · rintro ⟨-, t, ht, -⟩
      cases ht
  | cons w ws ih =>
    cases ws with
    | nil => simpa [anyWord] using reads_word w
    | cons v ws => simpa [anyWord] using (reads_word w).alt ih

theorem Reads.group (ha : Reads a P) : Captures (group a) P := by
  intro s cs r
  rw [mem_ways_group]
  constructor
  · rintro ⟨t, cs', rfl, rfl, hx⟩
    obtain ⟨rfl, u, hu, htu⟩ := ha.1 hx
    obtain rfl : t = u := append_cancel_right htu
    exact ⟨t, rfl, hu, rfl⟩
  · rintro ⟨t, rfl, ht, rfl⟩
    exact ⟨t, [], rfl, rfl, ha.2 ⟨rfl, t, ht, rfl⟩⟩

theorem Reads.seq (ha : Reads a P) :
    (cs, r) ∈ ways (seq a b) s ↔ ∃ t u, P t ∧ s = t ++ u ∧ (cs, r) ∈ ways b u := by
  rw [mem_ways_seq]
  constructor
  · rintro ⟨cs₁, u, cs₂, h₁, h₂, rfl⟩
    obtain ⟨rfl, t, ht, rfl⟩ := ha.1 h₁
    exact ⟨t, u, ht, rfl, h₂⟩
  · rintro ⟨t, u, ht, rfl, h⟩
    exact ⟨[], u, cs, ha.2 ⟨rfl, t, ht, rfl⟩, h, rfl⟩

theorem Captures.seq (ha : Captures a P) : (cs, r) ∈ ways (seq a b) s ↔
      ∃ t u cs', cs = t :: cs' ∧ P t ∧ s = t ++ u ∧ (cs', r) ∈ ways b u := by
  rw [mem_ways_seq]
  constructor
  · rintro ⟨cs₁, u, cs₂, h₁, h₂, rfl⟩
    obtain ⟨t, rfl, ht, rfl⟩ := ha.1 h₁
    exact ⟨t, u, cs₂, rfl, ht, rfl, h₂⟩
  · rintro ⟨t, u, cs', rfl, ht, rfl, h⟩
    exact ⟨[t], u, cs', ha.2 ⟨t, rfl, ht, rfl⟩, h, rfl⟩

/-- A captured text and the word behind it. -/
theorem Captures.seq_word (ha : Captures a P) : (cs, r) ∈ ways (.seq a (.seq (.word w) b)) s ↔
      ∃ t u cs', cs = t :: cs' ∧ P t ∧ s = t ++ (w ++ u) ∧ (cs', r) ∈ ways b u := by
  rw [ha.seq]
  constructor
  · rintro ⟨t, _, cs', rfl, ht, rfl, hrest⟩
    obtain ⟨_, u, rfl, rfl, h⟩ := (reads_word _).seq.1 hrest
    exact ⟨t, u, cs', rfl, ht, rfl, h⟩
  · rintro ⟨t, u, cs', rfl, ht, rfl, h⟩
    exact ⟨t, _, cs', rfl, ht, rfl, (reads_word _).seq.2 ⟨w, u, rfl, rfl, h⟩⟩

theorem mem_ways_seqAll_cons {as : List (Pattern α)} :
    (cs, r) ∈ ways (seqAll (a :: as)) s ↔ (cs, r) ∈ ways (seq a (seqAll as)) s := by
  cases as with
  | nil =>
    rw [mem_ways_seq]
    constructor
    · intro h
      exact ⟨cs, r, [], h, mem_ways_word.2 ⟨rfl, rfl⟩, (append_nil cs).symm⟩
    · rintro ⟨cs₁, t, cs₂, h₁, h₂, rfl⟩
      obtain ⟨rfl, rfl⟩ := mem_ways_word.1 h₂
      rwa [append_nil]
  | cons b bs => exact Iff.rfl

/-! ## The first match up to an end -/

/-- The first match at the front after which the text may stop. -/
def first (stop : List α → Bool) (a : Pattern α) (s : List α) : Option (List (List α) × List α) :=
  (ways a s).find? fun x => stop x.2

theorem mem_of_first (h : first stop a s = some x) : x ∈ ways a s ∧ stop x.2 = true := by
  have hfind : (ways a s).find? (fun x => stop x.2) = some x := h
  have hstop := find?_some hfind
  exact ⟨mem_of_find?_eq_some hfind, hstop⟩

theorem first_of_unique (hmem : x ∈ ways a s) (hstop : stop x.2 = true)
    (hone : ∀ y ∈ ways a s, stop y.2 = true → y.1 = x.1) :
    ∃ y, first stop a s = some y ∧ y.1 = x.1 := by
  have hsome : (first stop a s).isSome = true := find?_isSome.2 ⟨x, hmem, hstop⟩
  obtain ⟨y, hy⟩ := isSome_iff_exists.1 hsome
  obtain ⟨hin, hend⟩ := mem_of_first hy
  exact ⟨y, hy, hone y hin hend⟩

theorem first_seq (hmem : x ∈ ways a s) (hrest : first stop b x.2 = some y)
    (hone : ∀ z ∈ ways a s, (first stop b z.2).isSome = true → z = x) :
    first stop (seq a b) s = some (x.1 ++ y.1, y.2) := by
  have hfind : ∀ z : List (List α) × List α,
      ((ways b z.2).map fun w => (z.1 ++ w.1, w.2)).find? (fun w => stop w.2) =
        (first stop b z.2).map fun w => (z.1 ++ w.1, w.2) := by
    intro z
    rw [find?_map]
    rfl
  rw [first, ways, find?_flatMap]
  simp only [hfind]
  generalize ways a s = l at hmem hone
  induction l with
  | nil => cases hmem
  | cons z l ih =>
    rw [findSome?_cons]
    cases hz : first stop b z.2 with
    | some w =>
      obtain rfl := hone z (by simp) (by simp [hz])
      rw [hrest] at hz
      cases hz
      rfl
    | none =>
      refine ih ?_ (forall_mem_cons.1 hone).2
      rcases mem_cons.1 hmem with rfl | hmem
      · rw [hrest] at hz
        cases hz
      · exact hmem

omit [DecidableEq α] in
theorem runs_of_span (hne : s ≠ []) (h : ∀ c ∈ s, p c = true) (hr : ∀ c ∈ r.head?, p c = false) :
    ∃ l, runs p (s ++ r) = (s, r) :: l := by
  induction s with
  | nil => exact absurd rfl hne
  | cons c s ih =>
    have hc := h c (by simp)
    cases s with
    | nil =>
      have hstop : runs p r = [] := by
        cases r with
        | nil => rfl
        | cons d r => rw [runs, if_neg (by rw [hr d rfl]; simp)]
      exact ⟨[], by simp [runs, hc, hstop]⟩
    | cons d s =>
      obtain ⟨l, hl⟩ := ih (by simp) (forall_mem_cons.1 h).2
      rw [cons_append, runs, if_pos hc, hl]
      exact ⟨_, rfl⟩

omit [DecidableEq α] in
theorem runs_of_all (hne : s ≠ []) (h : ∀ c ∈ s, p c = true) : ∃ l, runs p s = (s, []) :: l := by
  have hspan := runs_of_span (r := []) hne h (by simp)
  rwa [append_nil] at hspan

theorem first_word_run (hstop : stop [] = true) (hne : t ≠ []) (h : ∀ c ∈ t, p c = true) :
    first stop (group (seq (word w) (run p))) (w ++ t) = some ([w ++ t], []) := by
  obtain ⟨l, hl⟩ := runs_of_all hne h
  have hall : take (w.length + t.length) (w ++ t) = w ++ t := by
    rw [← length_append, take_length]
  simp [first, ways, hl, hstop, hall]

theorem first_group_run (hstop : stop [] = true) (hne : t ≠ []) (h : ∀ c ∈ t, p c = true) :
    first stop (group (run p)) t = some ([t], []) := by
  obtain ⟨l, hl⟩ := runs_of_all hne h
  simp [first, ways, hl, hstop]

theorem first_group_run_word {rest : List α} (hne : t ≠ []) (h : ∀ d ∈ t, p d = true)
    (hc : p c = false) (hrest : first stop b rest = some y) :
    first stop (seq (group (run p)) (seq (word [c]) b)) (t ++ c :: rest) =
      some (t :: y.1, y.2) := by
  have hword : first stop (seq (word [c]) b) (c :: rest) = some ([] ++ y.1, y.2) := by
    refine first_seq (x := ([], rest)) (mem_ways_word.2 ⟨rfl, rfl⟩) hrest ?_
    rintro ⟨cs, r⟩ hz -
    obtain ⟨rfl, hr⟩ := mem_ways_word.1 hz
    rw [(cons.inj hr).2]
    rfl
  have hgroup := (reads_run p).group
  refine first_seq (x := ([t], c :: rest)) (hgroup.2 ⟨t, rfl, ⟨hne, h⟩, rfl⟩) hword ?_
  rintro ⟨cs, r⟩ hz hsome
  obtain ⟨t', rfl, ⟨-, hall⟩, hs⟩ := hgroup.1 hz
  obtain ⟨w, hw⟩ := isSome_iff_exists.1 hsome
  obtain ⟨u, r', rfl, rfl, -⟩ := (reads_word [c]).seq.1 (mem_of_first hw).1
  obtain ⟨rfl, -, rfl⟩ := span_unique h hall hc hc hs
  rfl

theorem first_word_group_run (hne : t ≠ []) (h : ∀ c ∈ t, p c = true)
    (hr : ∀ c ∈ r.head?, p c = false) :
    first (fun _ => true) (seq (word w) (group (run p))) (w ++ (t ++ r)) = some ([t], r) := by
  obtain ⟨l, hl⟩ := runs_of_span hne h hr
  have htake : (t ++ r).take ((t ++ r).length - r.length) = t := by
    rw [length_append, Nat.add_sub_cancel, take_left]
  have hgroup : first (fun _ => true) (group (run p)) (t ++ r) = some ([t], r) := by
    rw [first, ways, ways, hl, map_cons, map_cons, htake]
    rfl
  refine first_seq (x := ([], t ++ r)) (mem_ways_word.2 ⟨rfl, rfl⟩) hgroup ?_
  rintro ⟨cs, s⟩ hz -
  obtain ⟨rfl, hs⟩ := mem_ways_word.1 hz
  rw [append_cancel_left hs]

theorem search_cons_of_ways_nil (h : ways a (c :: s) = []) : search a (c :: s) = search a s := by
  rw [search, h]
  rfl

theorem search_of_first (h : first (fun _ => true) a s = some x) : search a s = some x.1 := by
  have hhead : (ways a s).head? = some x := by
    rw [first] at h
    cases hw : ways a s with
    | nil =>
      rw [hw] at h
      cases h
    | cons y ys =>
      rw [hw] at h
      exact h
  cases s with
  | nil => rw [search, hhead, map_some]
  | cons c s => rw [search, hhead]

theorem ways_of_search (h : search a s = some cs) : ∃ u v r, s = u ++ v ∧ (cs, r) ∈ ways a v := by
  induction s with
  | nil =>
    rw [search] at h
    obtain ⟨x, hx, rfl⟩ := map_eq_some_iff.1 h
    exact ⟨[], [], x.2, rfl, mem_of_mem_head? hx⟩
  | cons c s ih =>
    rw [search] at h
    cases hx : (ways a (c :: s)).head? with
    | some x =>
      rw [hx] at h
      rw [← some.inj h]
      exact ⟨[], c :: s, x.2, rfl, mem_of_mem_head? hx⟩
    | none =>
      rw [hx] at h
      obtain ⟨u, v, r, rfl, hmem⟩ := ih h
      exact ⟨c :: u, v, r, rfl, hmem⟩

/-- **A text that is matched at its front in one way only.** -/
theorem search_of_unique (hmem : x ∈ ways a s) (hone : ∀ y ∈ ways a s, y.1 = x.1) :
    search a s = some x.1 := by
  obtain ⟨y, ys, hys⟩ := exists_cons_of_ne_nil (ne_nil_of_mem hmem)
  have hy : y.1 = x.1 := hone y (by simp [hys])
  cases s with
  | nil | cons c s => simp [search, hys, hy]

end Pattern

end AppView.Framework
