import AppView.Framework.Accesses
import AppView.Http.HeaderBuffer
import AppView.Http.HeaderLines
import AppView.Http2.RequestTimes

/-!
# What a response is reported from

The status of an HTTP/1 response is searched in its header, and its text is a string at a fixed
distance behind the place that was found. **`responses_defined`** says for which responses all
of this was assigned before, and lies inside the header.
-/

namespace AppView.Http

open AppView.Framework List Reads
open Http2 (plainHuff allFields mkFrame)

/-! ## The reads of a response header -/

inductive RespObject where
  | header
  | stext
  | copy
  | st
  deriving DecidableEq, Repr

abbrev RespReads := Reads RespObject UInt8

def readAt (object : RespObject) (i : ℕ) : RespReads UInt8 :=
  .read ⟨object, i, 1⟩ fun bs => .done (bs.headD 0)

def readHeader (len : ℕ) : RespReads (List UInt8) := .read ⟨.header, 0, len⟩ .done

def readString : ℕ → ℕ → RespReads (List UInt8)
  | 0, _ => pure []
  | fuel + 1, i => do
    let b ← readAt .header i
    if b = 0 then return []
    else do
      let s ← readString fuel (i + 1)
      return b :: s

def readText (len place : ℕ) : RespReads (List UInt8) := readString (len - place + 1) place

def firstToken (object : RespObject) (sep array : List UInt8) :
    RespReads (Option (ℕ × List UInt8)) :=
  let rest := array.dropWhile (· ∈ sep)
  if ∃ c ∈ rest, c = 0 ∨ c ∈ sep then
    let token := rest.takeWhile fun c => c ≠ 0 ∧ c ∉ sep
    return if token = [] then none else some (array.length - rest.length, token)
  else do
    let _ ← readAt object array.length
    return none

def readHttpStatus (len : ℕ) : RespReads (ℤ × Option ℕ) := do
  let header ← readHeader len
  match searchExec gHttpStatus header (cInt len) with
  | none => return (-1, none)
  | some ix =>
    if len < ix + httpStatusStr.length + 1 then return (-1, none)
    else do
      let val ← readText len (ix + httpStatusStr.length + 1)
      return (((strtoullBase0 val).filter (· ≠ 0)).elim (-1) longLong,
        some (ix + httpStatusStr.length + 6))

def tokenText : Option (ℕ × List UInt8) → List UInt8
  | some (0, text) => text
  | _ => []

def readStatusText (len : ℕ) : Option ℕ → RespReads (List UInt8)
  | none => do
    let _ ← readAt .stext 0
    return []
  | some place => do
    let st ← readText len place
    let token ← firstToken .st crlf st
    return tokenText token

def readResponse (len : ℕ) : RespReads (ℤ × List UInt8) := do
  let status ← readHttpStatus len
  let header ← readHeader len
  let _ ← firstToken .copy crlf (headerCopy header)
  let text ← readStatusText len status.2
  return (status.1, text)

def Assigned (len : ℕ) (a : Access RespObject) : Prop := a.object = .header ∧ a.Below len

instance (len : ℕ) (a : Access RespObject) : Decidable (Assigned len a) :=
  inferInstanceAs (Decidable (_ ∧ _))

variable {mem : RespObject → ℕ → UInt8} {hdr : List UInt8}

theorem keeps_readAt {P : Access RespObject → Prop} (object : RespObject) (i : ℕ) :
    (readAt object i).Keeps mem P ↔ P ⟨object, i, 1⟩ := by
  simp [Reads.Keeps, readAt, accesses]

theorem not_assigned {object : RespObject} (h : object ≠ .header) (len i : ℕ) :
    ¬ Assigned len ⟨object, i, 1⟩ := fun ha => h ha.1

theorem run_readHeader (hmem : Holds mem .header hdr) : (readHeader hdr.length).run mem = hdr := by
  have hall : Access.Below hdr.length (⟨.header, 0, hdr.length⟩ : Access RespObject) :=
    Nat.le_of_eq (Nat.zero_add _)
  have hcontents : Access.contents mem _ = _ := Holds.contents hmem hall
  rw [drop_zero, take_length] at hcontents
  exact hcontents

theorem keeps_readHeader (len : ℕ) : (readHeader len).Keeps mem (Assigned len) := by
  intro a ha
  obtain rfl : a = ⟨.header, 0, len⟩ := mem_singleton.1 ha
  exact ⟨rfl, Nat.le_of_eq (Nat.zero_add len)⟩

theorem readString_spec (hmem : Holds mem .header hdr) {s : List UInt8} {i : ℕ}
    (hs : hdr.drop i = s) :
    ((readString (s.length + 1) i).Keeps mem (Assigned hdr.length) ↔ 0 ∈ s) ∧
      (0 ∈ s → (readString (s.length + 1) i).run mem = cStr s) := by
  induction s generalizing i with
  | nil =>
    have hout : hdr.length ≤ i := drop_eq_nil_iff.1 hs
    refine ⟨?_, nofun⟩
    rw [length_nil, readString, keeps_bind, keeps_readAt]
    refine iff_of_false (fun ⟨ha, _⟩ => ?_) nofun
    have hle : i + 1 ≤ hdr.length := ha.2
    omega
  | cons c s ih =>
    have hi : i < hdr.length := by
      by_contra hge
      rw [drop_eq_nil_of_le (by omega)] at hs
      cases hs
    rw [drop_eq_getElem_cons hi] at hs
    obtain ⟨hc, hrest⟩ := cons.inj hs
    obtain ⟨hkeeps, hrun⟩ := ih hrest
    have hbyte : (readAt .header i).run mem = c := (hmem i hi).trans hc
    have hin : Assigned hdr.length ⟨.header, i, 1⟩ := ⟨rfl, hi⟩
    rw [length_cons, readString, keeps_bind, run_bind, keeps_readAt, hbyte]
    by_cases hnul : c = 0
    · subst hnul
      rw [if_pos rfl]
      exact ⟨iff_of_true ⟨hin, keeps_pure _⟩ mem_cons_self, fun _ => rfl⟩
    · have hmem0 : 0 ∈ c :: s ↔ 0 ∈ s := by simp [Ne.symm hnul]
      rw [if_neg hnul, keeps_bind, run_bind, hmem0]
      refine ⟨⟨fun h => hkeeps.1 h.2.1, fun h => ⟨hin, hkeeps.2 h, keeps_pure _⟩⟩, fun h => ?_⟩
      rw [run_pure, hrun h, cStr, cStr, takeWhile_cons_of_pos (by simpa using hnul)]

theorem keeps_readText (hmem : Holds mem .header hdr) (place : ℕ) :
    (readText hdr.length place).Keeps mem (Assigned hdr.length) ↔ 0 ∈ hdr.drop place := by
  rw [readText, ← length_drop]
  exact (readString_spec hmem rfl).1

variable {place : ℕ}

theorem run_readText (hmem : Holds mem .header hdr) (h : 0 ∈ hdr.drop place) :
    (readText hdr.length place).run mem = textAt hdr place := by
  rw [readText, ← length_drop]
  exact (readString_spec hmem rfl).2 h

theorem keeps_firstToken {object : RespObject} (hobj : object ≠ .header) (len : ℕ)
    (sep array : List UInt8) : (firstToken object sep array).Keeps mem (Assigned len) ↔
      ∃ c ∈ array.dropWhile (· ∈ sep), c = 0 ∨ c ∈ sep := by
  unfold firstToken
  by_cases hend : ∃ c ∈ array.dropWhile (· ∈ sep), c = 0 ∨ c ∈ sep
  · rw [if_pos hend]
    exact iff_of_true (keeps_pure _) hend
  · rw [if_neg hend, keeps_bind, keeps_readAt]
    exact iff_of_false (fun h => not_assigned hobj _ _ h.1) hend

/-! ## Headers as they are posted -/

structure Posted (hdr : List UInt8) : Prop where
  ends : ∃ text, hdr = text ++ [13, 10, 0]
  short : hdr.length ≤ maxHdrAlloc

theorem Posted.cInt_length (h : Posted hdr) : cInt hdr.length = hdr.length :=
  cInt_of_lt (lt_of_le_of_lt h.short (by decide))

theorem Posted.nul_mem_drop (h : Posted hdr) {i : ℕ} : 0 ∈ hdr.drop i ↔ i < hdr.length := by
  constructor
  · intro hmem
    by_contra hge
    rw [drop_eq_nil_of_le (by omega)] at hmem
    cases hmem
  · intro hi
    obtain ⟨text, rfl⟩ := h.ends
    rw [length_append] at hi
    have hlast : text ++ [13, 10, 0] = (text ++ [13, 10]) ++ [(0 : UInt8)] := by simp
    rw [hlast, drop_append_of_le_length (by
      rw [length_append]
      simpa using Nat.lt_succ_iff.1 hi)]
    simp

/-- **Every header that is posted**, after any buffers on a direction, ends with a line end and
a NUL, and fits. -/
theorem posted_headers (past : List Arrival) (a : Arrival) :
    ∀ p ∈ (http1Step (stateAfter past) a).2, Posted p.data.hdr := by
  have hline : AtLineEnd (stateAfter past) :=
    run_invariant (I := AtLineEnd)
      (fun _ a h => (atLineEnd_invariant a.env a.httpId).parseHttp1 h a.buf)
      (fun h => HttpEnum.noConfusion h) past
  intro p hp
  constructor
  · obtain ⟨st, rest, hst, hend, hpost⟩ := (atLineEnd_invariant a.env a.httpId).posts hline hp
    obtain ⟨text, htext⟩ := hst hend
    refine ⟨text, ?_⟩
    rw [(endOfHeaders_post hpost).1, ← htext, append_assoc]
    rfl
  · obtain ⟨st, rest, hroom, -, hpost⟩ :=
      (room_invariant a.env a.httpId).posts (room_stateAfter past) hp
    -- a full header has no room for the NUL
    have hfits : st.hdr.length < maxHdrAlloc := by
      refine lt_of_le_of_ne hroom.le_max fun hfull => ?_
      rw [(endOfHeaders_full a.env hroom hfull rest).2] at hpost
      cases hpost
    rw [(endOfHeaders_post hpost).1, length_append, length_singleton]
    exact hfits

theorem posted_headers_short :
    ∃ p ∈ (http1Step (stateAfter []) ⟨.idle, none, {}, shortResponse.bytes⟩).2,
      Posted p.data.hdr :=
  (exists_mem_of_ne_nil _ (by decide +kernel)).imp fun p hp => ⟨hp, posted_headers _ _ p hp⟩

theorem Posted.found_lt (h : Posted hdr) {ix : ℕ}
    (hix : searchExec gHttpStatus hdr (cInt hdr.length) = some ix) : ix + 8 < hdr.length := by
  rw [h.cInt_length] at hix
  obtain ⟨hwin, hocc, -⟩ := (searchExec_eq_some (by decide) (le_refl _)).mp hix
  obtain ⟨x, y, hxy, rfl⟩ := (occursAt_iff (by omega)).mp hocc
  obtain ⟨text, htext⟩ := h.ends
  have hsame : x ++ (bytes "HTTP/1." ++ y) = text ++ [13, 10, 0] := hxy.symm.trans htext
  -- the last three bytes are not those of `HTTP/1.` or those with one more
  match y with
  | [] =>
    have hlast : (x ++ bytes "HTTP") ++ [47, 49, 46] = text ++ [13, 10, 0] := by
      simpa [bytes] using hsame
    exact absurd (append_inj_right' hlast rfl) (by decide)
  | [c] =>
    have hlast : (x ++ bytes "HTTP/") ++ [49, 46, c] = text ++ [13, 10, 0] := by
      simpa [bytes] using hsame
    exact absurd (cons.inj (append_inj_right' hlast rfl)).1 (by decide)
  | c :: d :: y =>
    rw [hxy, length_append, length_append]
    change x.length + 8 < x.length + (7 + (y.length + 2))
    omega

def StatusReadable (hdr : List UInt8) : Prop :=
  ∃ ix, searchExec gHttpStatus hdr (cInt hdr.length) = some ix ∧ ix + 13 < hdr.length ∧
    ∃ c ∈ (textAt hdr (ix + 13)).dropWhile (· ∈ crlf), c ∈ crlf

theorem keeps_readHttpStatus (hposted : Posted hdr) (hmem : Holds mem .header hdr) :
    (readHttpStatus hdr.length).Keeps mem (Assigned hdr.length) := by
  rw [readHttpStatus, keeps_bind, run_readHeader hmem]
  refine ⟨keeps_readHeader _, ?_⟩
  cases hsearch : searchExec gHttpStatus hdr (cInt hdr.length) with
  | none => exact keeps_pure _
  | some ix =>
    have hlt := hposted.found_lt hsearch
    dsimp only
    rw [if_neg (by change ¬ _ < ix + 7 + 1; omega), keeps_bind,
      keeps_readText hmem, hposted.nul_mem_drop]
    exact ⟨hlt, keeps_pure _⟩

theorem run_readHttpStatus (hposted : Posted hdr) (hmem : Holds mem .header hdr)
    (env : ReportEnv) {ix : ℕ} (hsearch : searchExec gHttpStatus hdr (cInt hdr.length) = some ix) :
    (readHttpStatus hdr.length).run mem = ((getHttpStatus env hdr).1, some (ix + 13)) := by
  have hlt := hposted.found_lt hsearch
  have hroom : ¬ hdr.length < ix + httpStatusStr.length + 1 := by
    change ¬ hdr.length < ix + 7 + 1
    omega
  have hval : (readText hdr.length (ix + httpStatusStr.length + 1)).run mem =
      textAt hdr (ix + httpStatusStr.length + 1) :=
    run_readText hmem (hposted.nul_mem_drop.2 hlt)
  rw [readHttpStatus, run_bind, run_readHeader hmem, hsearch]
  rw [hposted.cInt_length] at hsearch
  dsimp only
  rw [if_neg hroom, run_bind, hval, run_pure, getHttpStatus, hsearch]
  dsimp only
  rw [if_neg hroom]
  rfl

theorem keeps_readStatusText (hposted : Posted hdr) (hmem : Holds mem .header hdr) (place : ℕ) :
    (readStatusText hdr.length (some place)).Keeps mem (Assigned hdr.length) ↔
      place < hdr.length ∧ ∃ c ∈ (textAt hdr place).dropWhile (· ∈ crlf), c ∈ crlf := by
  rw [readStatusText, keeps_bind, keeps_readText hmem, hposted.nul_mem_drop]
  refine and_congr_right fun hlt => ?_
  rw [run_readText hmem (hposted.nul_mem_drop.2 hlt), keeps_bind, keeps_firstToken (by decide)]
  have hno : ∀ c ∈ (textAt hdr place).dropWhile (· ∈ crlf), c ≠ 0 := fun c hc =>
    by simpa using mem_takeWhile_imp (dropWhile_suffix _ |>.mem hc)
  constructor
  · rintro ⟨⟨c, hc, hnul | hsep⟩, -⟩
    · exact absurd hnul (hno c hc)
    · exact ⟨c, hc, hsep⟩
  · rintro ⟨c, hc, hsep⟩
    exact ⟨⟨c, hc, .inr hsep⟩, keeps_pure _⟩

theorem takeWhile_no_nul {st : List UInt8} (hno : ∀ c ∈ st, c ≠ 0) (sep : List UInt8) :
    st.takeWhile (fun c => c ≠ 0 ∧ c ∉ sep) = st.takeWhile (· ∉ sep) := by
  induction st with
  | nil => rfl
  | cons b st ih =>
    rw [takeWhile_cons, takeWhile_cons, ih fun c hc => hno c (mem_cons_of_mem b hc)]
    simp [hno b mem_cons_self]

theorem run_token {st : List UInt8} (hno : ∀ c ∈ st, c ≠ 0)
    (hend : ∃ c ∈ st.dropWhile (· ∈ crlf), c ∈ crlf) (object : RespObject) :
    tokenText ((firstToken object crlf st).run mem) = st.takeWhile (· ∉ crlf) := by
  obtain ⟨c, hc, hsep⟩ := hend
  rw [firstToken, if_pos ⟨c, hc, .inr hsep⟩, run_pure]
  cases st with
  | nil => cases hc
  | cons b st =>
    by_cases hb : b ∈ crlf
    · have hlt : ((b :: st).dropWhile (· ∈ crlf)).length < (b :: st).length := by
        rw [dropWhile_cons_of_pos (by simpa using hb), length_cons]
        exact Nat.lt_succ_of_le (dropWhile_suffix _).length_le
      obtain ⟨k, hk⟩ := Nat.exists_eq_add_of_lt hlt
      rw [takeWhile_cons_of_neg (by simpa using hb),
        show (b :: st).length - ((b :: st).dropWhile (· ∈ crlf)).length = k + 1 by omega]
      split_ifs <;> rfl
    · rw [dropWhile_cons_of_neg (by simpa using hb), Nat.sub_self, takeWhile_no_nul hno,
        takeWhile_cons_of_pos (by simpa using hb), if_neg (cons_ne_nil _ _)]
      rfl

theorem nul_notMem_textAt (place : ℕ) : ∀ c ∈ textAt hdr place, c ≠ 0 := fun c hc => by
  simpa using mem_takeWhile_imp hc

theorem run_readStatusText (hposted : Posted hdr) (hmem : Holds mem .header hdr)
    (hlt : place < hdr.length) (hend : ∃ c ∈ (textAt hdr place).dropWhile (· ∈ crlf), c ∈ crlf) :
    (readStatusText hdr.length (some place)).run mem = (textAt hdr place).takeWhile (· ∉ crlf) := by
  rw [readStatusText, run_bind, run_readText hmem (hposted.nul_mem_drop.2 hlt),
    run_bind, run_pure, run_token (nul_notMem_textAt place) hend]

theorem Posted.copy (h : Posted hdr) :
    ∃ cs ds, headerCopy hdr = cs ++ ds ∧ 2 ≤ ds.length ∧ (∀ c ∈ ds, c = 0 ∨ c ∈ crlf) ∧
      cs.length + ds.length = hdr.length ∧ ∃ es, ds = es ++ [0] := by
  obtain ⟨text, htext⟩ := h.ends
  have hsplit : hdr = cStr hdr ++ hdr.dropWhile (· ≠ 0) := takeWhile_append_dropWhile.symm
  have hlen := congrArg length hsplit
  rw [length_append] at hlen
  have hcopy : headerCopy hdr = cStr hdr ++ replicate (hdr.length - (cStr hdr).length) 0 := by
    rw [headerCopy, strncpy, take_append, take_of_length_le (by omega),
      take_replicate, Nat.min_eq_left (Nat.sub_le _ _)]
  obtain ⟨n, hn⟩ : ∃ n, (hdr.dropWhile (· ≠ 0)).length = n + 1 := by
    refine Nat.exists_eq_succ_of_ne_zero fun hzero => ?_
    rw [length_eq_zero_iff, dropWhile_eq_nil_iff] at hzero
    exact absurd (hzero 0 (by rw [htext]; simp)) (by decide)
  rw [hcopy, show hdr.length - (cStr hdr).length = n + 1 by omega]
  cases n with
  | succ n =>
    refine ⟨_, _, rfl, ?_, fun c hc => .inl (eq_of_mem_replicate hc), ?_,
      replicate (n + 1) 0, replicate_succ'⟩
    · rw [length_replicate]
      omega
    · rw [length_replicate]
      omega
  | zero =>
    -- the NUL at the end is the first one
    have hcs : cStr hdr = text ++ [13, 10] := by
      have hsame : cStr hdr ++ hdr.dropWhile (· ≠ 0) = (text ++ [13, 10]) ++ [0] := by
        rw [← hsplit, htext, append_assoc]
        rfl
      exact append_inj_left' hsame hn
    refine ⟨text, [13, 10, 0], ?_, by decide, by simp [crlf], ?_, [13, 10], rfl⟩
    · rw [hcs, append_assoc]
      rfl
    · rw [htext, length_append]

theorem Posted.copy_ends (h : Posted hdr) :
    ∃ c ∈ (headerCopy hdr).dropWhile (· ∈ crlf), c = 0 ∨ c ∈ crlf := by
  obtain ⟨cs, ds, hcopy, -, -, -, es, rfl⟩ := h.copy
  refine ⟨0, ?_, .inl rfl⟩
  have hmem : 0 ∈ (headerCopy hdr).takeWhile (· ∈ crlf) ++
      (headerCopy hdr).dropWhile (· ∈ crlf) := by
    rw [takeWhile_append_dropWhile, hcopy]
    simp
  rcases mem_append.1 hmem with htake | hdrop
  · exact absurd (mem_takeWhile_imp htake) (by decide)
  · exact hdrop

/-- **What is read for the status and its text** was assigned before and lies inside the
header, exactly if the status is readable. -/
theorem keeps_readResponse (hposted : Posted hdr) (hmem : Holds mem .header hdr) :
    (readResponse hdr.length).Keeps mem (Assigned hdr.length) ↔ StatusReadable hdr := by
  have hcopy : (firstToken .copy crlf (headerCopy hdr)).Keeps mem (Assigned hdr.length) :=
    (keeps_firstToken (by decide) _ _ _).2 hposted.copy_ends
  rw [readResponse, keeps_bind, keeps_bind, keeps_bind, keeps_bind, run_readHeader hmem]
  simp only [keeps_readHttpStatus hposted hmem, keeps_readHeader, hcopy, keeps_pure,
    true_and, and_true]
  cases hsearch : searchExec gHttpStatus hdr (cInt hdr.length) with
  | none =>
    have hstatus : (readHttpStatus hdr.length).run mem = (-1, none) := by
      rw [readHttpStatus, run_bind, run_readHeader hmem, hsearch, run_pure]
    rw [hstatus, readStatusText, keeps_bind, keeps_readAt]
    refine iff_of_false (fun h => not_assigned (by decide) _ _ h.1) ?_
    rintro ⟨ix, hix, -⟩
    rw [hsearch] at hix
    cases hix
  | some ix =>
    rw [run_readHttpStatus hposted hmem plainEnv hsearch, keeps_readStatusText hposted hmem]
    constructor
    · intro h
      exact ⟨ix, hsearch, h⟩
    · rintro ⟨ix', hix', h⟩
      rw [hsearch] at hix'
      cases hix'
      exact h

theorem run_readResponse (hposted : Posted hdr) (hmem : Holds mem .header hdr)
    (hreadable : StatusReadable hdr) (env : ReportEnv) : (readResponse hdr.length).run mem =
      ((getHttpStatus env hdr).1, (getHttpStatus env hdr).2.takeWhile (· ∉ crlf)) := by
  obtain ⟨ix, hsearch, hlt, hend⟩ := hreadable
  have htext : (getHttpStatus env hdr).2 = textAt hdr (ix + 13) := by
    rw [hposted.cInt_length] at hsearch
    rw [getHttpStatus, hsearch]
    exact congrArg Prod.snd (if_neg (by change ¬ _ < ix + 7 + 1; omega))
  rw [readResponse, run_bind, run_bind, run_bind, run_bind,
    run_pure, run_readHttpStatus hposted hmem env hsearch,
    run_readStatusText hposted hmem hlt hend, htext]

/-! ## The other fields -/

theorem tokensFrom_separators {sep ds : List UInt8} (hds : ∀ c ∈ ds, c = 0 ∨ c ∈ sep) (at_ : ℕ) :
    tokensFrom sep none at_ ds = [] := by
  induction ds generalizing at_ with
  | nil => rfl
  | cons d ds ih =>
    rw [tokensFrom]
    split_ifs with hnul hsep
    · rfl
    · exact ih (fun c hc => hds c (mem_cons_of_mem d hc)) (at_ + 1)
    · exact absurd (hds d mem_cons_self) (not_or.2 ⟨hnul, hsep⟩)

theorem tokensFrom_le {sep cs ds : List UInt8} (hds : ∀ c ∈ ds, c = 0 ∨ c ∈ sep)
    (start : Option ℕ) (at_ : ℕ) :
    ∀ t ∈ tokensFrom sep start at_ (cs ++ ds), t.2 ≤ at_ + cs.length := by
  have hstart : ∀ (start : Option ℕ) (at_ : ℕ),
      ∀ t ∈ (start.map fun s => (s, at_)).toList, t.2 = at_ := by
    rintro (_ | s) at_ t ht
    · cases ht
    · rw [mem_singleton.1 ht]
  induction cs generalizing start at_ with
  | nil =>
    intro t ht
    refine Nat.le_of_eq (hstart start at_ t ?_)
    cases ds with
    | nil => exact ht
    | cons d ds =>
      rw [nil_append, tokensFrom] at ht
      split_ifs at ht with hnul hsep
      · exact ht
      · rwa [tokensFrom_separators fun c hc => hds c (mem_cons_of_mem d hc), append_nil] at ht
      · exact absurd (hds d mem_cons_self) (not_or.2 ⟨hnul, hsep⟩)
  | cons c cs ih =>
    intro t ht
    rw [cons_append, tokensFrom] at ht
    rw [length_cons]
    split_ifs at ht with hnul hsep
    · rw [hstart start at_ t ht]
      omega
    · rcases mem_append.1 ht with ht | ht
      · rw [hstart start at_ t ht]
        omega
      · have hle := ih none (at_ + 1) t ht
        omega
    · have hle := ih _ (at_ + 1) t ht
      omega

def Line.places : Line → List ℕ
  | .attrib _ place _ => [place]
  | .length place => [place]
  | .extract start colon => [start, colon + 2]
  | .other => []

theorem colon_of_hasCase {hay needle : List UInt8} (h : hasCase hay needle = true)
    (hneedle : 58 ∈ needle.map lower) : 58 ∈ hay :=
  colon_mem_of_lower ((hasCase_iff.1 h).subset hneedle)

theorem httpLine_places {env : ReportEnv} {buf : List UInt8} {tok : ℕ × ℕ}
    (h : place ∈ (httpLine env buf tok).places) : 58 ∈ (buf.take tok.2).drop tok.1 ∧
      (place = tok.1 ∨ place = tok.1 + ((buf.take tok.2).drop tok.1).idxOf 58 + 2) := by
  unfold httpLine at h
  dsimp only at h
  split_ifs at h with h₁ h₂ h₃ h₄ h₅ h₆
  · exact ⟨colon_of_hasCase h₁ (by decide), .inr (mem_singleton.1 h)⟩
  · exact ⟨colon_of_hasCase h₂ (by decide), .inr (mem_singleton.1 h)⟩
  · exact ⟨colon_of_hasCase h₃ (by decide), .inr (mem_singleton.1 h)⟩
  · exact ⟨colon_of_hasCase h₄ (by decide), .inr (mem_singleton.1 h)⟩
  · exact ⟨colon_of_hasCase h₅ (by decide), .inr (mem_singleton.1 h)⟩
  · refine ⟨h₆.2, ?_⟩
    rcases mem_cons.1 h with rfl | h
    · exact .inl rfl
    · exact .inr (mem_singleton.1 h)
  · cases h

/-- **The strings of the lines lie inside the copy of the header**, with their NULs, wherever
NULs are written into it. -/
theorem Posted.line_places (h : Posted hdr) {env : ReportEnv} {tok : ℕ × ℕ}
    (htok : tok ∈ tokens crlf (headerCopy hdr))
    (hplace : place ∈ (httpLine env (headerCopy hdr) tok).places) (cuts : List ℕ) :
    0 ∈ (cutAt (headerCopy hdr) cuts).drop place := by
  obtain ⟨cs, ds, hcopy, htwo, hds, hlen, es, rfl⟩ := h.copy
  have hstop : tok.2 ≤ cs.length := by
    rw [tokens, hcopy] at htok
    exact (tokensFrom_le hds none 0 tok htok).trans_eq (Nat.zero_add _)
  obtain ⟨hcolon, hplace⟩ := httpLine_places hplace
  have hidx := idxOf_lt_length_iff.2 hcolon
  rw [length_drop, length_take] at hidx
  rw [length_append, length_singleton] at htwo hlen
  have hlt : place ≤ cs.length + es.length := by omega
  -- the last byte is a NUL, and stays one
  have hlast : (cutAt (headerCopy hdr) cuts)[cs.length + es.length]? = some 0 := by
    rw [getElem?_cutAt, hcopy, ← append_assoc,
      getElem?_append_right (by rw [length_append]), length_append, Nat.sub_self]
    simp
  have hdrop : ((cutAt (headerCopy hdr) cuts).drop place)[cs.length + es.length - place]? =
      some 0 := by
    rw [getElem?_drop, Nat.add_sub_cancel' hlt, hlast]
  exact mem_of_getElem? hdrop

/-! ## The event of a response -/

theorem doHttp1Header_unset {p : ProtocolInfo} (hposted : Posted p.data.hdr)
    (hreadable : StatusReadable p.data.hdr) (hres : p.ptype = .evtHres) (env : ReportEnv)
    (m : HttpMatch) (unset : List UInt8) :
    doHttp1Header { env with unset } m p = doHttp1Header env m p := by
  obtain ⟨ix, hsearch, -, -⟩ := hreadable
  have hfound := hposted.found_lt hsearch
  rw [hposted.cInt_length] at hsearch
  have hstatus : getHttpStatus { env with unset } p.data.hdr = getHttpStatus env p.data.hdr := by
    have hroom : ¬ p.data.hdr.length < ix + httpStatusStr.length + 1 := by
      change ¬ _ < ix + 7 + 1
      omega
    rw [getHttpStatus, getHttpStatus, hsearch]
    dsimp only
    rw [if_neg hroom, if_neg hroom]
  have hfields : ∀ start, statusFields { env with unset } start p = statusFields env start p := by
    intro start
    rw [statusFields, statusFields, hstatus]
    rfl
  have hevent : ∀ request, httpRespEvent { env with unset } request p =
      httpRespEvent env request p := by
    intro request
    rw [httpRespEvent, httpRespEvent, hfields]
    rfl
  have hreq : p.ptype ≠ .evtHreq := by
    rw [hres]
    decide
  rw [doHttp1Header, doHttp1Header, if_neg hreq, if_neg hreq, if_pos hres, if_pos hres,
    doResponse, doResponse]
  simp [hevent]

/-! ## Responses of both versions -/

open Http2 (Proto doHttp2Frame responseStream timesAfter DurationKnown)

/-- **Responses are reported from defined values.** For an HTTP/1 response, what is read for the
status and its text was assigned before and lies inside the header exactly if the status is
readable; the event then has what was read, and nothing depends on an unset pointer. The strings
of its other fields are always inside. For an HTTP/2 response, after any frames on its connection,
the duration was assigned exactly if the time of a request is known. -/
theorem responses_defined (env : ReportEnv) (huff : Http2.Bytes → Option Http2.Bytes)
    (fl : Http2.Filters) : (∀ p : ProtocolInfo, p.ptype = .evtHres → Posted p.data.hdr →
      ∀ mem : RespObject → ℕ → UInt8, Holds mem .header p.data.hdr →
        ((∀ a ∈ (readResponse p.data.hdr.length).accesses mem, Assigned p.data.hdr.length a) ↔
          StatusReadable p.data.hdr) ∧
        (StatusReadable p.data.hdr →
          (readResponse p.data.hdr.length).run mem = ((getHttpStatus env p.data.hdr).1,
            (getHttpStatus env p.data.hdr).2.takeWhile (· ∉ crlf)) ∧
          ∀ m unset, doHttp1Header { env with unset } m p = doHttp1Header env m p) ∧
        ∀ tok ∈ tokens crlf (headerCopy p.data.hdr),
          ∀ place ∈ (httpLine env (headerCopy p.data.hdr) tok).places, ∀ cuts,
            0 ∈ (cutAt (headerCopy p.data.hdr) cuts).drop place) ∧
    ∀ (ps : List Proto) (p : Proto),
      (∀ e, (doHttp2Frame huff fl (run (doHttp2Frame huff fl) none ps).1 p).2.2 = some e →
        e.name = "http.resp" →
        (responseStream huff fl (run (doHttp2Frame huff fl) none ps).1 p).isSome) ∧
      (∀ s, responseStream huff fl (run (doHttp2Frame huff fl) none ps).1 p = some s →
        ((s.assigned p).isSome ↔ DurationKnown (timesAfter huff fl (ps ++ [p])) p)) ∧
      (DurationKnown (timesAfter huff fl (ps ++ [p])) p → ∀ unassigned,
        doHttp2Frame huff fl (run (doHttp2Frame huff fl) none ps).1 { p with unassigned } =
          doHttp2Frame huff fl (run (doHttp2Frame huff fl) none ps).1 p) := by
  refine ⟨fun p hres hposted mem hmem => ⟨keeps_readResponse hposted hmem, fun hreadable => ?_,
    fun tok htok place hplace cuts => hposted.line_places htok hplace cuts⟩, fun ps p => ?_⟩
  · exact ⟨run_readResponse hposted hmem hreadable env,
      fun m unset => doHttp1Header_unset hposted hreadable hres env m unset⟩
  · have hassigned := fun s => Http2.assigned_iff huff fl ps p (s := s)
    refine ⟨fun e => Http2.responseStream_of_event, hassigned, fun hknown unassigned => ?_⟩
    exact Http2.doHttp2Frame_unassigned huff fl _ p
      (fun s hs => (hassigned s hs).2 hknown) unassigned

def responseOf (line : String) : ProtocolInfo :=
  { ptype := .evtHres, isServer := false, len := (bytes line).length + 3, fd := 3, uid := 1,
    data := ⟨false, 0, {}, bytes line ++ [13, 10, 0]⟩, sockType := -1, localConn := {},
    remoteConn := {} }

theorem responseOf_posted {line : String} (h : (bytes line).length + 3 ≤ maxHdrAlloc) :
    Posted (responseOf line).data.hdr where
  ends := ⟨bytes line, rfl⟩
  short := by
    change (bytes line ++ [13, 10, 0]).length ≤ maxHdrAlloc
    rw [length_append]
    exact h

def behind (hdr : List UInt8) (other : UInt8) : RespObject → ℕ → UInt8 :=
  fun _ i => hdr.getD i other

def getFrame : Proto := { Http2.posted true (mkFrame 1 4 1 [0x82]) with startDuration := 5 }

def okFrame : Proto :=
  { Http2.posted false (mkFrame 1 4 1 [0x88]) with startDuration := 3000005 }

theorem responses_defined_ok :
    (∀ a ∈ (readResponse 18).accesses (behind (responseOf "HTTP/1.1 200 OK").data.hdr 7),
      Assigned 18 a) ∧
    (readResponse 18).run (behind (responseOf "HTTP/1.1 200 OK").data.hdr 7) = (200, bytes "OK") ∧
    (∀ s, responseStream plainHuff allFields
        (run (doHttp2Frame plainHuff allFields) none [getFrame]).1 okFrame = some s →
      (s.assigned okFrame).isSome) ∧
    (responseStream plainHuff allFields
      (run (doHttp2Frame plainHuff allFields) none [getFrame]).1 okFrame).isSome := by
  obtain ⟨hhttp1, hhttp2⟩ := responses_defined plainEnv plainHuff allFields
  have hreadable : StatusReadable (responseOf "HTTP/1.1 200 OK").data.hdr :=
    ⟨0, by decide +kernel, by decide +kernel, 13, by decide +kernel, by decide⟩
  obtain ⟨hreads, hrun, -⟩ := hhttp1 (responseOf "HTTP/1.1 200 OK") rfl
    (responseOf_posted (by decide)) (behind (responseOf "HTTP/1.1 200 OK").data.hdr 7)
    (holds_getD _ 7 _)
  have hknown : DurationKnown (timesAfter plainHuff allFields ([getFrame] ++ [okFrame])) okFrame :=
    .inl ⟨⟨1, 1, 4, 1⟩, by decide +kernel, by decide +kernel⟩
  refine ⟨hreads.2 hreadable, (hrun hreadable).1.trans (by decide +kernel), fun s hs => ?_,
    by decide +kernel⟩
  exact ((hhttp2 [getFrame] okFrame).2.1 s hs).2 hknown

/-- A status line of HTTP/2 leaves `stext` unset. A line that is too short is left at its end, and
one without a reason ends the array `st`. Without a request, the duration of an HTTP/2 response is
not assigned. -/
theorem responses_defined_not :
    ⟨.stext, 0, 1⟩ ∈ (readResponse 16).accesses (behind (responseOf "HTTP/2 200 OK").data.hdr 7) ∧
    ⟨.header, 13, 1⟩ ∈ (readResponse 13).accesses (behind (responseOf "HTTP/1.1 4").data.hdr 7) ∧
    ⟨.st, 1, 1⟩ ∈ (readResponse 15).accesses (behind (responseOf "HTTP/1.1 404").data.hdr 7) ∧
    (responseStream plainHuff allFields none okFrame).map (·.assigned okFrame) = some none := by
  decide +kernel

end AppView.Http
