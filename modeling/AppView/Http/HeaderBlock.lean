import AppView.Http.State

/-!
# Header blocks, and how `parseHttp1` scans them

A header block is a start line, header lines, and a blank line. What the scanner still has to
see of it is a list of lines (`encode`), the first of which may have been cut.
-/

namespace AppView.Http

open List

/-! ## Collecting header bytes -/

def HdrallocOk (n : ℕ) : Prop := n = 0 ∨ n = minHdrAlloc ∨ n = maxHdrAlloc

structure Collected (st st' : HttpState) (bs : List UInt8) : Prop where
  hdr : st'.hdr = st.hdr ++ bs
  alloc : HdrallocOk st'.hdralloc
  id : st'.id = st.id

variable {st : HttpState} {n a : ℕ} {env : HttpEnv} {l t rest : List UInt8}
    {ls : List (List UInt8)}

variable {st' : HttpState} {x y : List UInt8}

theorem Collected.trans {st'' : HttpState} {bs cs : List UInt8} (h : Collected st st' bs)
    (h' : Collected st' st'' cs) : Collected st st'' (bs ++ cs) :=
  ⟨by rw [h'.hdr, h.hdr, append_assoc], h'.alloc, h'.id.trans h.id⟩

theorem Collected.length_line (h : Collected st st' (l ++ httpEnd)) :
    st'.hdr.length = st.hdr.length + (l.length + 2) := by
  rw [h.hdr, length_append, length_append]
  rfl

theorem growAlloc_fits (h : n ≤ a) (fuel : ℕ) : growAlloc n (fuel + 1) a = some a :=
  if_neg (Nat.not_lt.mpr h)

theorem growAlloc_grows (h : a < n) (hmax : a <<< 2 ≤ maxHdrAlloc) (fuel : ℕ) :
    growAlloc n (fuel + 1) a = growAlloc n fuel (a <<< 2) :=
  (if_pos h).trans (if_neg (Nat.not_lt.mpr hmax))

theorem growAlloc_stops (h : a < n) (hmax : maxHdrAlloc < a <<< 2) (fuel : ℕ) :
    growAlloc n (fuel + 1) a = none :=
  (if_pos h).trans (if_pos hmax)

theorem growAlloc_some (ha : a = minHdrAlloc ∨ a = maxHdrAlloc) (hn : n ≤ maxHdrAlloc) :
    ∃ a', growAlloc n 8 a = some a' ∧ HdrallocOk a' := by
  rcases ha with rfl | rfl
  · rcases Nat.lt_or_ge minHdrAlloc n with h | h
    · refine ⟨maxHdrAlloc, ?_, .inr (.inr rfl)⟩
      rw [growAlloc_grows h (by decide)]
      exact growAlloc_fits hn _
    · exact ⟨_, growAlloc_fits h _, .inr (.inl rfl)⟩
  · exact ⟨_, growAlloc_fits hn _, .inr (.inr rfl)⟩

theorem growAlloc_none (ha : a = minHdrAlloc ∨ a = maxHdrAlloc) (hn : maxHdrAlloc < n) :
    growAlloc n 8 a = none := by
  rcases ha with rfl | rfl
  · have hmin : minHdrAlloc < n := lt_trans (by decide) hn
    rw [growAlloc_grows hmin (by decide)]
    exact growAlloc_stops hn (by decide) _
  · exact growAlloc_stops hn (by decide) _

theorem HdrallocOk.start (h : HdrallocOk st.hdralloc) :
    (if st.hdralloc = 0 then minHdrAlloc else st.hdralloc) = minHdrAlloc ∨
      (if st.hdralloc = 0 then minHdrAlloc else st.hdralloc) = maxHdrAlloc := by
  rcases h with h | h | h <;> rw [h] <;> decide

theorem appendHeader_fits (henv : env.AllocSucceeds) (st : HttpState) (bs : List UInt8)
    (hst : HdrallocOk st.hdralloc) (hlen : st.hdr.length + bs.length ≤ maxHdrAlloc) :
    Collected st (appendHeader env st bs) bs ∧ (appendHeader env st bs).state = st.state := by
  obtain ⟨a, ha, hok⟩ := growAlloc_some hst.start hlen
  unfold appendHeader
  simp only [ha, henv.realloc, Bool.true_eq_false, and_false, if_false]
  exact ⟨⟨rfl, hok, rfl⟩, trivial⟩

theorem appendHeader_overflow (env : HttpEnv) (st : HttpState) (bs : List UInt8)
    (hst : HdrallocOk st.hdralloc) (hlen : maxHdrAlloc < st.hdr.length + bs.length) :
    appendHeader env st bs = setHttpState st .httpNone := by
  unfold appendHeader
  simp [growAlloc_none hst.start hlen]

theorem appendHeader_or (env : HttpEnv) (st : HttpState) (bs : List UInt8) :
    appendHeader env st bs = setHttpState st .httpNone ∨
      ∃ a, appendHeader env st bs = { st with hdr := st.hdr ++ bs, hdralloc := a } := by
  rw [appendHeader]
  split
  · exact .inl rfl
  · split_ifs
    · exact .inl rfl
    · exact .inr ⟨_, rfl⟩

/-! ## Blocks -/

structure HeaderBlock where
  start : List UInt8
  lines : List (List UInt8)
  start_http : httpStart <:+: start
  no_end : ∀ l ∈ start :: lines, ¬ httpEnd <:+: l
  nonempty : ∀ l ∈ lines, l ≠ []

def encode (ls : List (List UInt8)) : List UInt8 := (ls.map (· ++ httpEnd)).flatten

@[simp] theorem encode_nil : encode [] = [] := rfl

theorem encode_cons (l : List UInt8) (ls : List (List UInt8)) :
    encode (l :: ls) = l ++ (httpEnd ++ encode ls) := by
  simp [encode]

theorem encode_cons_append (l : List UInt8) (ls : List (List UInt8)) (t : List UInt8) :
    encode (l :: ls) ++ t = l ++ (httpEnd ++ (encode ls ++ t)) := by
  rw [encode_cons, append_assoc, append_assoc]

def HeaderBlock.header (b : HeaderBlock) : List UInt8 := encode (b.start :: b.lines)

def HeaderBlock.bytes (b : HeaderBlock) : List UInt8 := b.header ++ httpEnd

def shortResponse : HeaderBlock where
  start := [0x48, 0x54, 0x54, 0x50, 0x2F, 0x31, 0x20, 0x32]
  lines := [[0x6E, 0x3A, 0x20, 0x31]]
  start_http := ⟨[], [0x31, 0x20, 0x32], rfl⟩
  no_end := by decide
  nonempty := by decide

/-! ## The searches -/

theorem occursAt_iff {str hay : List UInt8} {j : ℕ} (hj : j ≤ hay.length) :
    OccursAt str hay j ↔ ∃ x y, hay = x ++ (str ++ y) ∧ x.length = j := by
  unfold OccursAt
  constructor
  · rintro ⟨y, hy⟩
    exact ⟨hay.take j, y, by rw [hy, take_append_drop], by simp [hj]⟩
  · rintro ⟨x, y, rfl, rfl⟩
    rw [drop_left]
    exact prefix_append str y

theorem line_end_first (hl : ¬ httpEnd <:+: l) (h : l ++ (httpEnd ++ t) = x ++ (httpEnd ++ y)) :
    (x = l ∧ y = t) ∨ ∃ x', x = l ++ (httpEnd ++ x') ∧ t = x' ++ (httpEnd ++ y) := by
  induction l generalizing x with
  | nil =>
    match x with
    | [] => exact .inl ⟨rfl, by simpa [httpEnd] using h.symm⟩
    | [c] => simp [httpEnd] at h
    | c :: d :: x' =>
      obtain ⟨rfl, rfl, rfl⟩ := h
      exact .inr ⟨x', rfl, rfl⟩
  | cons c l ih =>
    cases x with
    | nil =>
      -- a line end at the very start would be one inside the line
      exfalso
      cases l with
      | nil => simp [httpEnd] at h
      | cons d l =>
        obtain ⟨rfl, rfl, -⟩ := h
        exact hl ⟨[], l, rfl⟩
    | cons c' x =>
      simp only [cons_append, cons.injEq] at h
      obtain ⟨rfl, h⟩ := h
      have hl' : ¬ httpEnd <:+: l := fun hin => hl (infix_cons hin)
      rcases ih hl' h with ⟨rfl, rfl⟩ | ⟨x', rfl, rfl⟩
      · exact .inl ⟨rfl, rfl⟩
      · exact .inr ⟨x', rfl, rfl⟩

theorem httpEnd_ne_nil : httpEnd ≠ [] := by decide

theorem httpStart_ne_nil : httpStart ≠ [] := by decide

theorem searchEnd_line (hl : ¬ httpEnd <:+: l)
    (hwin : (l.length + 2 : ℤ) ≤ cInt (l ++ (httpEnd ++ t)).length) :
    searchExec gHttpEnd (l ++ (httpEnd ++ t)) (cInt (l ++ (httpEnd ++ t)).length) =
      some l.length := by
  refine (searchExec_eq_some httpEnd_ne_nil (cInt_le _)).mpr ⟨hwin, ?_, ?_⟩
  · exact (occursAt_iff (by simp)).mpr ⟨l, t, rfl, rfl⟩
  · intro k hk hocc
    obtain ⟨x, y, heq, rfl⟩ := (occursAt_iff (by simp; omega)).mp hocc
    rcases line_end_first hl heq with ⟨rfl, -⟩ | ⟨x', rfl, -⟩
    · omega
    · rw [length_append] at hk
      omega

theorem searchEnd_outside (hl : ¬ httpEnd <:+: l)
    (hwin : cInt (l ++ (httpEnd ++ t)).length < (l.length + 2 : ℤ)) :
    searchExec gHttpEnd (l ++ (httpEnd ++ t)) (cInt (l ++ (httpEnd ++ t)).length) = none := by
  refine (searchExec_eq_none httpEnd_ne_nil (cInt_le _)).mpr ?_
  intro k hk hocc
  have hle := cInt_le (l ++ (httpEnd ++ t)).length
  have htwo : httpEnd.length = 2 := rfl
  obtain ⟨x, y, heq, rfl⟩ := (occursAt_iff (by omega)).mp hocc
  rcases line_end_first hl heq with ⟨rfl, -⟩ | ⟨x', rfl, -⟩
  · omega
  · simp only [length_append] at hk hwin
    omega

theorem searchEnd_none (hl : ¬ httpEnd <:+: l) : searchExec gHttpEnd l (cInt l.length) = none := by
  refine (searchExec_eq_none httpEnd_ne_nil (cInt_le _)).mpr ?_
  intro k _ hocc
  exact hl (hocc.isInfix.trans (drop_suffix k l).isInfix)

theorem searchEnd_take (h : searchExec gHttpEnd rest (cInt rest.length) = some n) :
    ∃ l, rest.take (n + searchLen gHttpEnd) = l ++ httpEnd := by
  obtain ⟨hwin, hocc, -⟩ := (searchExec_eq_some httpEnd_ne_nil (cInt_le _)).mp h
  have hle := cInt_le rest.length
  obtain ⟨x, y, hxy, hx⟩ := (occursAt_iff (by omega)).mp hocc
  have hlen : n + searchLen gHttpEnd = (x ++ httpEnd).length := by
    rw [length_append, hx]
    rfl
  exact ⟨x, by rw [hlen, hxy, ← append_assoc, take_left]⟩

/-! ## Rules for the header loop -/

/-- **Induction over the loop**, by what its rounds find: nothing to do, no line end, the blank
line, or a line. -/
theorem headerLoop_induction (env : HttpEnv)
    {motive : HttpState → HttpState × Option (List UInt8) → Prop}
    (stop : ∀ st, motive st (st, none))
    (keep : ∀ st rest, st.state = .httpHdr ∨ st.state = .httpHdrEnd → rest ≠ [] →
      motive st (appendHeader env (setHttpState st .httpHdr) rest, none))
    (done : ∀ st rest, st.state = .httpHdrEnd → httpEnd <+: rest → motive st (st, some rest))
    (line : ∀ st l r, st.state = .httpHdr ∨ st.state = .httpHdrEnd →
      motive (appendHeader env (setHttpState st .httpHdrEnd) (l ++ httpEnd)) r → motive st r)
    (fuel : ℕ) (st : HttpState) (rest : List UInt8) : motive st (headerLoop env fuel st rest) := by
  induction fuel generalizing st rest with
  | zero => exact stop st
  | succ fuel ih =>
    rw [headerLoop]
    split_ifs with hguard
    · cases hsearch : searchExec gHttpEnd rest (cInt rest.length) with
      | none => exact keep st rest hguard.1 hguard.2
      | some n =>
        dsimp only
        split_ifs with hend
        · obtain ⟨-, hocc, -⟩ := (searchExec_eq_some httpEnd_ne_nil (cInt_le _)).mp hsearch
          rw [hend.2] at hocc
          exact done st rest hend.1 hocc
        · obtain ⟨l, hl⟩ := searchEnd_take hsearch
          rw [hl]
          exact line st l _ hguard.1 (ih _ _)
    · exact stop st

theorem headerLoop_end {fuel : ℕ} {rest' : List UInt8}
    (h : headerLoop env fuel st rest = (st', some rest')) :
    st'.state = .httpHdrEnd ∧ httpEnd <+: rest' := by
  have hall := headerLoop_induction env
    (motive := fun _ r => ∀ rest', r.2 = some rest' → r.1.state = .httpHdrEnd ∧ httpEnd <+: rest')
    (fun _ => nofun) (fun _ _ _ _ => nofun)
    (fun st rest hstate hend => by
      rintro rest' ⟨⟩
      exact ⟨hstate, hend⟩)
    (fun _ _ _ _ ih => ih) fuel st rest
  rw [h] at hall
  exact hall rest' rfl

theorem headerLoop_invariant {I : HttpState → Prop}
    (append : ∀ st s bs, I st → st.state = .httpHdr ∨ st.state = .httpHdrEnd →
      s = .httpHdr ∨ s = .httpHdrEnd ∧ httpEnd <:+ bs → I (appendHeader env (setHttpState st s) bs))
    (h : I st) (fuel : ℕ) (rest : List UInt8) : I (headerLoop env fuel st rest).1 := by
  refine headerLoop_induction env (motive := fun st r => I st → I r.1) (fun _ h => h)
    (fun st rest hstate _ h => append st _ rest h hstate (.inl rfl)) (fun _ _ _ _ h => h)
    (fun st l r hstate ih h => ih (append st _ _ h hstate (.inr ⟨rfl, ?_⟩))) fuel st rest h
  exact suffix_append l httpEnd

/-! ## Scanning the lines of a block -/

structure Scanning (st : HttpState) (ls : List (List UInt8)) : Prop where
  alloc : HdrallocOk st.hdralloc
  no_end : ∀ l ∈ ls, ¬ httpEnd <:+: l
  place : (st.state = .httpHdrEnd ∧ ∀ l ∈ ls, l ≠ []) ∨
    (st.state = .httpHdr ∧ ∃ l ls', ls = l :: ls' ∧ ∀ l' ∈ ls', l' ≠ [])

theorem Scanning.inHeader (h : Scanning st ls) : st.state = .httpHdr ∨ st.state = .httpHdrEnd :=
  h.place.elim (fun h => .inr h.1) (fun h => .inl h.1)

theorem Scanning.tail_nonempty (h : Scanning st (l :: ls)) : ∀ l' ∈ ls, l' ≠ [] := by
  rcases h.place with ⟨-, hne⟩ | ⟨-, m, ms, heq, hne⟩
  · exact (forall_mem_cons.1 hne).2
  · obtain ⟨rfl, rfl⟩ := cons.inj heq
    exact hne

theorem Scanning.not_end (h : Scanning st (l :: ls)) :
    ¬ (st.state = .httpHdrEnd ∧ l.length = 0) := by
  rintro ⟨hstate, hlen⟩
  rcases h.place with ⟨-, hne⟩ | ⟨hhdr, -⟩
  · exact hne l mem_cons_self (length_eq_zero_iff.mp hlen)
  · rw [hstate] at hhdr
    simp at hhdr

theorem length_line (l t : List UInt8) :
    (l ++ (httpEnd ++ t)).length = l.length + 2 + t.length := by
  have htwo : httpEnd.length = 2 := rfl
  rw [length_append, length_append]
  omega

theorem cInt_rest (h : (l.length + 2 : ℤ) ≤ cInt (l ++ (httpEnd ++ t)).length) :
    cInt t.length = cInt (l ++ (httpEnd ++ t)).length - (l.length + 2) := by
  have ht : t.length = (l ++ (httpEnd ++ t)).length - (l.length + 2) := by
    have := length_line l t
    omega
  have := cInt_sub (n := (l ++ (httpEnd ++ t)).length) (k := l.length + 2) (by push_cast; exact h)
  rw [ht, this]
  rfl

theorem headerLoop_line (henv : env.AllocSucceeds) (hs : Scanning st (l :: ls))
    (hlen : st.hdr.length + (l.length + 2) ≤ maxHdrAlloc)
    (hwin : (l.length + 2 : ℤ) ≤ cInt (l ++ (httpEnd ++ t)).length) (fuel : ℕ) :
    ∃ st', Collected st st' (l ++ httpEnd) ∧ Scanning st' ls ∧
      headerLoop env (fuel + 1) st (l ++ (httpEnd ++ t)) = headerLoop env fuel st' t := by
  have htwo : searchLen gHttpEnd = httpEnd.length := rfl
  have hcut : l.length + searchLen gHttpEnd = (l ++ httpEnd).length := by
    rw [htwo, length_append]
  obtain ⟨hcol, hstate⟩ :=
    appendHeader_fits henv (setHttpState st .httpHdrEnd) (l ++ httpEnd) hs.alloc
      (by rw [length_append]; exact hlen)
  refine ⟨appendHeader env (setHttpState st .httpHdrEnd) (l ++ httpEnd),
    ⟨hcol.hdr, hcol.alloc, hcol.id⟩, ⟨hcol.alloc, ?_, .inl ⟨hstate, ?_⟩⟩, ?_⟩
  · exact fun l' hl' => hs.no_end l' (mem_cons_of_mem _ hl')
  · exact hs.tail_nonempty
  · have hne : l ++ (httpEnd ++ t) ≠ [] := by simp [httpEnd]
    simp only [headerLoop]
    rw [if_pos ⟨hs.inHeader, hne⟩, searchEnd_line (hs.no_end l mem_cons_self) hwin]
    simp only []
    rw [if_neg hs.not_end, hcut, ← append_assoc, take_left, drop_left]

/-- **All lines to come and the blank line are there**: the loop collects the
lines and stops at the blank one. -/
theorem headerLoop_complete (henv : env.AllocSucceeds) (body : List UInt8)
    (ls : List (List UInt8)) : ∀ (st : HttpState) (fuel : ℕ), Scanning st ls →
      (encode ls ++ (httpEnd ++ body)).length < fuel →
      st.hdr.length + (encode ls).length ≤ maxHdrAlloc →
      ((encode ls).length + 2 : ℤ) ≤ cInt (encode ls ++ (httpEnd ++ body)).length →
      ∃ st', Collected st st' (encode ls) ∧ st'.state = .httpHdrEnd ∧
        headerLoop env fuel st (encode ls ++ (httpEnd ++ body)) =
          (st', some (httpEnd ++ body)) := by
  induction ls with
  | nil =>
    intro st fuel hs hfuel _ hwin
    obtain ⟨fuel, rfl⟩ : ∃ k, fuel = k + 1 := ⟨fuel - 1, by omega⟩
    have hend : st.state = .httpHdrEnd := by
      rcases hs.place with ⟨h, -⟩ | ⟨-, l, ls, heq, -⟩
      · exact h
      · simp at heq
    have hsearch := searchEnd_line (l := []) (t := body) (by simp [httpEnd]) (by simpa using hwin)
    rw [nil_append] at hsearch
    refine ⟨st, ⟨by simp, hs.alloc, rfl⟩, hend, ?_⟩
    rw [encode_nil, nil_append]
    simp only [headerLoop]
    rw [if_pos ⟨.inr hend, by simp [httpEnd]⟩, hsearch]
    simp only []
    rw [if_pos ⟨hend, rfl⟩]
  | cons l ls ih =>
    intro st fuel hs hfuel hlen hwin
    obtain ⟨fuel, rfl⟩ : ∃ k, fuel = k + 1 := ⟨fuel - 1, by omega⟩
    have htwo : httpEnd.length = 2 := rfl
    have henc : (encode (l :: ls)).length = l.length + 2 + (encode ls).length := by
      rw [encode_cons, length_append, length_append]
      omega
    rw [encode_cons_append] at hwin hfuel ⊢
    rw [henc] at hlen hwin
    set t := encode ls ++ (httpEnd ++ body)
    have hline : (l.length + 2 : ℤ) ≤ cInt (l ++ (httpEnd ++ t)).length := by
      omega
    obtain ⟨st1, hcol, hs1, hloop⟩ := headerLoop_line henv hs (by omega) hline fuel
    have hsplit := length_line l t
    have hwin1 : ((encode ls).length + 2 : ℤ) ≤ cInt t.length := by
      rw [cInt_rest hline]
      omega
    have hhdr1 := hcol.length_line
    obtain ⟨st2, hcol2, hstate2, hloop2⟩ := ih st1 fuel hs1 (by omega) (by omega) hwin1
    refine ⟨st2, ?_, hstate2, hloop.trans hloop2⟩
    have := hcol.trans hcol2
    rwa [append_assoc, ← encode_cons] at this

theorem headerLoop_no_line (hs : st.state = .httpHdr ∨ st.state = .httpHdrEnd)
    (hne : rest ≠ []) (hsearch : searchExec gHttpEnd rest (cInt rest.length) = none) (fuel : ℕ) :
    headerLoop env (fuel + 1) st rest =
      (appendHeader env (setHttpState st .httpHdr) rest, none) := by
  simp only [headerLoop]
  rw [if_pos ⟨hs, hne⟩, hsearch]

theorem line_cut (h : x ++ y = l ++ (httpEnd ++ t)) : (∃ p, l = x ++ p ∧ y = p ++ (httpEnd ++ t)) ∨
      (x = l ++ [0x0D] ∧ y = 0x0A :: t) ∨
      ∃ x', x = l ++ (httpEnd ++ x') ∧ x' ++ y = t := by
  rcases append_eq_append_iff.mp h with ⟨p, hl, hy⟩ | ⟨c, hx, hc⟩
  · exact .inl ⟨p, hl, hy⟩
  · match c with
    | [] => exact .inl ⟨[], by simpa using hx.symm, by simpa using hc.symm⟩
    | [c] =>
      obtain ⟨rfl, rfl⟩ := hc
      exact .inr (.inl ⟨hx, rfl⟩)
    | c :: d :: x' =>
      obtain ⟨rfl, rfl, rfl⟩ := hc
      exact .inr (.inr ⟨x', by rw [hx]; rfl, rfl⟩)

/-- **Only a part of what is to come is there**, cut anywhere but inside a line
end: the loop collects it, and the rest is what is to come. -/
theorem headerLoop_cut (henv : env.AllocSucceeds) {later : List UInt8} (hlater : later ≠ [])
    (ls : List (List UInt8)) : ∀ (st : HttpState) (buf : List UInt8) (fuel : ℕ), Scanning st ls →
      buf ++ later = encode ls ++ httpEnd →
      ¬ (buf.getLast? = some 0x0D ∧ later.head? = some 0x0A) →
      buf.length < fuel → st.hdr.length + buf.length ≤ maxHdrAlloc →
      ∃ st' ls', Collected st st' buf ∧ Scanning st' ls' ∧ later = encode ls' ++ httpEnd ∧
        headerLoop env fuel st buf = (st', none) := by
  induction ls with
  | nil =>
    intro st buf fuel hs hbytes hcut hfuel _
    obtain ⟨fuel, rfl⟩ : ∃ k, fuel = k + 1 := ⟨fuel - 1, by omega⟩
    -- a proper part of the blank line is nothing, or its CR
    rw [encode_nil, nil_append] at hbytes
    match buf with
    | [] =>
      refine ⟨st, [], ⟨by simp, hs.alloc, rfl⟩, hs, by simpa using hbytes, ?_⟩
      simp [headerLoop]
    | [c] =>
      simp only [httpEnd, cons_append, nil_append, cons.injEq] at hbytes
      obtain ⟨rfl, rfl⟩ := hbytes
      exact absurd ⟨rfl, rfl⟩ hcut
    | c :: d :: buf =>
      simp only [httpEnd, cons_append, cons.injEq] at hbytes
      exact absurd (append_eq_nil_iff.mp hbytes.2.2).2 hlater
  | cons l ls ih =>
    intro st buf fuel hs hbytes hcut hfuel hlen
    obtain ⟨fuel, rfl⟩ : ∃ k, fuel = k + 1 := ⟨fuel - 1, by omega⟩
    by_cases hnil : buf = []
    · subst hnil
      refine ⟨st, l :: ls, ⟨by simp, hs.alloc, rfl⟩, hs, by simpa using hbytes, ?_⟩
      simp [headerLoop]
    rw [encode_cons_append] at hbytes
    rcases line_cut hbytes with ⟨p, rfl, hlat⟩ | ⟨rfl, rfl⟩ | ⟨buf', rfl, hrest⟩
    · -- the cut is inside the line, or before its line end
      have hno : ∀ x, x <:+: buf ++ p → ¬ httpEnd <:+: x := fun x hx hin =>
        hs.no_end (buf ++ p) mem_cons_self (hin.trans hx)
      obtain ⟨hcol, hstate⟩ :=
        appendHeader_fits henv (setHttpState st .httpHdr) buf hs.alloc hlen
      refine ⟨appendHeader env (setHttpState st .httpHdr) buf, p :: ls,
        ⟨hcol.hdr, hcol.alloc, hcol.id⟩,
        ⟨hcol.alloc, ?_, .inr ⟨hstate, p, ls, rfl, hs.tail_nonempty⟩⟩, ?_,
        headerLoop_no_line hs.inHeader hnil
          (searchEnd_none (hno buf (prefix_append buf p).isInfix)) fuel⟩
      · intro l' hl'
        rcases mem_cons.mp hl' with rfl | hl'
        · exact hno l' (suffix_append buf l').isInfix
        · exact hs.no_end l' (mem_cons_of_mem _ hl')
      · rw [hlat, encode_cons_append]
    · exact absurd ⟨by simp, rfl⟩ hcut
    · -- the whole line is there
      have hll := length_line l buf'
      have hmax : maxHdrAlloc < 2 ^ 31 := by decide
      have hline : (l.length + 2 : ℤ) ≤ cInt (l ++ (httpEnd ++ buf')).length := by
        rw [cInt_of_lt (by omega)]
        omega
      obtain ⟨st1, hcol, hs1, hloop⟩ :=
        headerLoop_line henv hs (by omega) hline fuel
      have hhdr1 := hcol.length_line
      have hcut1 : ¬ (buf'.getLast? = some 0x0D ∧ later.head? = some 0x0A) := by
        rintro ⟨hcr, hlf⟩
        refine hcut ⟨?_, hlf⟩
        rw [← append_assoc, getLast?_append, hcr]
        rfl
      obtain ⟨st2, ls2, hcol2, hs2, hlat, hloop2⟩ :=
        ih st1 buf' fuel hs1 hrest hcut1 (by omega) (by omega)
      refine ⟨st2, ls2, ?_, hs2, hlat, hloop.trans hloop2⟩
      have := hcol.trans hcol2
      rwa [append_assoc] at this

/-- **The window is too small for the lines to come**: the loop gives up, with
everything that was collected dropped. -/
theorem headerLoop_outside (henv : env.AllocSucceeds) (body : List UInt8) (ls : List (List UInt8)) :
    ∀ (st : HttpState) (fuel : ℕ), Scanning st ls → (encode ls ++ (httpEnd ++ body)).length < fuel →
      st.hdr.length + (encode ls).length ≤ maxHdrAlloc →
      cInt (encode ls ++ (httpEnd ++ body)).length < ((encode ls).length + 2 : ℤ) →
      ∃ st', headerLoop env fuel st (encode ls ++ (httpEnd ++ body)) =
        (setHttpState st' .httpNone, none) := by
  have hmax : maxHdrAlloc < 2 ^ 31 := by decide
  -- a window smaller than the bytes means at least 2^31 of them
  have hbig : ∀ n : ℕ, cInt n < n → 2 ^ 31 ≤ n := by
    intro n hn
    by_contra hlt
    rw [cInt_of_lt (by omega)] at hn
    omega
  induction ls with
  | nil =>
    intro st fuel hs hfuel _ hwin
    obtain ⟨fuel, rfl⟩ : ∃ k, fuel = k + 1 := ⟨fuel - 1, by omega⟩
    have hll := length_line [] body
    have hsearch := searchEnd_outside (l := []) (t := body)
      (by simp [httpEnd]) (by simpa using hwin)
    rw [nil_append] at hsearch hll
    rw [encode_nil, nil_append] at hwin ⊢
    have hlarge := hbig (httpEnd ++ body).length (by
      omega)
    rw [headerLoop_no_line hs.inHeader (by simp [httpEnd]) hsearch]
    rw [appendHeader_overflow env (setHttpState st .httpHdr) _ hs.alloc (by omega)]
    exact ⟨_, rfl⟩
  | cons l ls ih =>
    intro st fuel hs hfuel hlen hwin
    obtain ⟨fuel, rfl⟩ : ∃ k, fuel = k + 1 := ⟨fuel - 1, by omega⟩
    have henc := length_line l (encode ls)
    rw [← encode_cons] at henc
    rw [encode_cons_append] at hwin hfuel ⊢
    have hll' := length_line (encode ls) body
    set t := encode ls ++ (httpEnd ++ body)
    have hll := length_line l t
    by_cases hline : (l.length + 2 : ℤ) ≤ cInt (l ++ (httpEnd ++ t)).length
    · obtain ⟨st1, hcol, hs1, hloop⟩ := headerLoop_line henv hs (by omega) hline fuel
      have hhdr1 := hcol.length_line
      have hwin1 : cInt t.length < ((encode ls).length + 2 : ℤ) := by
        rw [cInt_rest hline]
        omega
      obtain ⟨st2, hloop2⟩ := ih st1 fuel hs1 (by omega) (by omega) hwin1
      exact ⟨st2, hloop.trans hloop2⟩
    · have hlarge := hbig (l ++ (httpEnd ++ t)).length (by omega)
      rw [headerLoop_no_line hs.inHeader (by simp [httpEnd])
        (searchEnd_outside (hs.no_end l mem_cons_self) (by omega))]
      rw [appendHeader_overflow env (setHttpState st .httpHdr) _ hs.alloc (by omega)]
      exact ⟨_, rfl⟩

/-! ## The end of a block -/

def isResponseHeader (hdr : List UInt8) : Bool :=
  hdr ≠ [] ∧ (searchExec gHttpStart hdr (searchLen gHttpStart)).isSome = true

def headerEvent (env : HttpEnv) (id : HttpId) (hdr : List UInt8) : ProtocolInfo :=
  { ptype := if isResponseHeader hdr then .evtHres else .evtHreq
    isServer := (isSend id.src && isResponseHeader hdr) ||
      (!isSend id.src && !isResponseHeader hdr)
    len := hdr.length
    fd := id.sockfd
    uid := id.uid
    data := { ssl := id.isSsl, startDuration := env.getTime, id := id, hdr := hdr }
    sockType := (connOf (env.getNetEntry id.sockfd)).1
    localConn := (connOf (env.getNetEntry id.sockfd)).2.1
    remoteConn := (connOf (env.getNetEntry id.sockfd)).2.2 }

theorem reportHttp1_posts (henv : env.AllocSucceeds) (st : HttpState) (hne : st.hdr ≠ [])
    (hresp : st.isResponse = isResponseHeader st.hdr) :
    reportHttp1 env st = ({ st with hdr := [] }, [headerEvent env st.id st.hdr]) := by
  unfold reportHttp1
  rw [if_neg hne, henv.proto]
  simp only [Bool.true_eq_false, if_false, hresp]
  rfl

def examined (env : HttpEnv) (st : HttpState) : HttpState :=
  { appendHeader env st [0] with
    isResponse := isResponseHeader (appendHeader env st [0]).hdr
    hasUpgrade := env.upgradeMatch (appendHeader env st [0]).hdr
    hasConnectionUpgrade := env.connectMatch (appendHeader env st [0]).hdr }

theorem endOfHeaders_spec (henv : env.AllocSucceeds) (hst : HdrallocOk st.hdralloc)
    (hlen : st.hdr.length + 1 ≤ maxHdrAlloc) (rest : List UInt8) :
    (endOfHeaders env st rest).2 = [headerEvent env st.id (st.hdr ++ [0])] ∧
      (∀ n, getContentLength env (st.hdr ++ [0]) = some n → rest.length - 2 ≤ n →
        (endOfHeaders env st rest).1.state = .httpData ∧
        (endOfHeaders env st rest).1.clen = n - (rest.length - 2) ∧
        (endOfHeaders env st rest).1.id = st.id ∧
        HdrallocOk (endOfHeaders env st rest).1.hdralloc) ∧
      ((∀ n, getContentLength env (st.hdr ++ [0]) = some n → n < rest.length - 2) →
        ∃ st', (endOfHeaders env st rest).1 = setHttpState st' .httpNone) := by
  obtain ⟨hcol, -⟩ := appendHeader_fits henv st [0] hst (by simpa using hlen)
  have hne : (appendHeader env st [0]).hdr ≠ [] := by
    rw [hcol.hdr]
    simp
  have hreport := reportHttp1_posts henv (examined env st) hne rfl
  rw [examined] at hreport
  have htwo : searchLen gHttpEnd = 2 := rfl
  unfold endOfHeaders
  simp only [htwo]
  rw [show decide ((appendHeader env st [0]).hdr ≠ [] ∧
      (searchExec gHttpStart (appendHeader env st [0]).hdr (searchLen gHttpStart)).isSome = true) =
      isResponseHeader (appendHeader env st [0]).hdr from rfl, hreport]
  simp only [hcol.hdr, hcol.id]
  cases hclen : getContentLength env (st.hdr ++ [0]) with
  | none => exact ⟨rfl, by simp, fun _ => ⟨_, rfl⟩⟩
  | some n =>
    by_cases hfit : rest.length - 2 ≤ n
    · simp only [if_pos hfit]
      refine ⟨trivial, ?_, fun h => absurd (h n rfl) (by omega)⟩
      rintro m hm -
      obtain rfl := Option.some.inj hm
      exact ⟨rfl, rfl, rfl, hcol.alloc⟩
    · simp only [if_neg hfit]
      refine ⟨trivial, fun m hm hle => ?_, fun _ => ⟨_, rfl⟩⟩
      obtain rfl := Option.some.inj hm
      exact absurd hle hfit

theorem parseHeaders_complete (henv : env.AllocSucceeds) (hs : Scanning st ls)
    (body : List UInt8) (hlen : st.hdr.length + (encode ls).length + 1 ≤ maxHdrAlloc)
    (hwin : ((encode ls).length + 2 : ℤ) ≤ cInt (encode ls ++ (httpEnd ++ body)).length) :
    ∃ st', Collected st st' (encode ls) ∧ parseHeaders env st (encode ls ++ (httpEnd ++ body)) =
        ⟨(endOfHeaders env st' (httpEnd ++ body)).1,
          (endOfHeaders env st' (httpEnd ++ body)).2, true⟩ := by
  obtain ⟨st', hcol, -, hloop⟩ := headerLoop_complete henv body ls st _ hs
    (Nat.lt_succ_self _) (by omega) hwin
  refine ⟨st', hcol, ?_⟩
  unfold parseHeaders
  rw [hloop]

end AppView.Http
