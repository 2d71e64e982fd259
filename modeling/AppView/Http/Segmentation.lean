import AppView.Framework.Runs
import AppView.Http.HeaderBlock

/-!
# HTTP/1 headers do not depend on where buffers are cut

`http1Step` is `parseHttp1` as a machine that reads buffers.
-/

namespace AppView.Http

open AppView.Framework List
open Arrival (buf)

def http1Step (st : HttpState) (a : Arrival) : HttpState × List ProtocolInfo :=
  let r := parseHttp1 a.env st a.buf a.httpId
  (r.state, r.posts)

def startHeader (st : HttpState) (httpId : HttpId) : HttpState :=
  { setHttpState st .httpHdr with id := httpId }

/-! ## What a buffer can do -/

inductive NoHeader (st : HttpState) : HttpState → Prop where
  | same : NoHeader st st
  | skipped (clen : ℕ) (hdata : st.state = .httpData) : NoHeader st { st with clen }
  | reset : NoHeader st (setHttpState st .httpNone)

inductive ParsesFrom (st : HttpState) (httpId : HttpId) : HttpState → Prop where
  | here (hhdr : st.state = .httpHdr ∨ st.state = .httpHdrEnd) : ParsesFrom st httpId st
  | first (hnone : st.state = .httpNone) : ParsesFrom st httpId (startHeader st httpId)
  | next : ParsesFrom st httpId (startHeader (setHttpState st .httpNone) httpId)

variable {st : HttpState}

theorem findHeaders_cases (hdata : st.state ≠ .httpData) (buf : List UInt8)
    (httpId : HttpId) : (∀ env, findHeaders env st buf httpId = ⟨st, [], false⟩) ∨
      ∃ st', ParsesFrom st httpId st' ∧
        ∀ env, findHeaders env st buf httpId = parseHeaders env st' buf := by
  simp only [findHeaders]
  by_cases hnone : st.state = .httpNone
  · simp only [if_pos hnone]
    cases searchExec gHttpStart buf (cInt buf.length) with
    | none => exact .inl fun _ => rfl
    | some _ => exact .inr ⟨_, .first hnone, fun _ => rfl⟩
  · simp only [if_neg hnone]
    refine .inr ⟨st, .here ?_, fun _ => rfl⟩
    cases hstate : st.state with
    | httpNone => exact absurd hstate hnone
    | httpHdr => exact .inl rfl
    | httpHdrEnd => exact .inr rfl
    | httpData => exact absurd hstate hdata

theorem bytesToSkip_eq (st : HttpState) (len : ℕ) :
    ∃ clen, (bytesToSkipForContentLength st len).2 = { st with clen } := by
  rw [bytesToSkipForContentLength]
  split_ifs
  · exact ⟨st.clen, rfl⟩
  · exact ⟨0, rfl⟩
  · exact ⟨st.clen - len, rfl⟩

/-- **What a buffer can do.** Nothing is found in it, or headers are parsed in a part of it; which
of the two does not depend on the world outside. -/
theorem parseHttp1_cases (st : HttpState) (buf : List UInt8) (httpId : HttpId) :
    (∃ st', NoHeader st st' ∧ ∀ env, parseHttp1 env st buf httpId = ⟨st', [], false⟩) ∨
      ∃ st' part, ParsesFrom st httpId st' ∧
        ∀ env, parseHttp1 env st buf httpId = parseHeaders env st' part := by
  simp only [parseHttp1]
  by_cases hssl : st.state ≠ .httpNone ∧ st.id.isSsl ≠ httpId.isSsl
  · simp only [if_pos hssl]
    exact .inl ⟨st, .same, fun _ => rfl⟩
  simp only [if_neg hssl]
  by_cases hdata : st.state = .httpData
  · obtain ⟨clen, hskip⟩ := bytesToSkip_eq st buf.length
    simp only [if_pos hdata, hskip]
    split_ifs
    · exact .inl ⟨_, .skipped clen hdata, fun _ => rfl⟩
    · have hidle : (setHttpState st .httpNone).state ≠ .httpData := nofun
      rcases findHeaders_cases hidle _ httpId with hfind | ⟨st', hfrom, hfind⟩
      · exact .inl ⟨_, .reset, hfind⟩
      · refine .inr ⟨st', _, ?_, hfind⟩
        cases hfrom with
        | here hhdr => exact absurd hhdr (by simp [setHttpState])
        | first _ | next => exact .next
  · simp only [if_neg hdata]
    rcases findHeaders_cases hdata buf httpId with hfind | ⟨st', hfrom, hfind⟩
    · exact .inl ⟨st, .same, hfind⟩
    · exact .inr ⟨st', buf, hfrom, hfind⟩

structure Http1Invariant (env : HttpEnv) (httpId : HttpId) (I : HttpState → Prop) : Prop where
  reset : ∀ st, I st → I (setHttpState st .httpNone)
  skip : ∀ st clen, I st → st.state = .httpData → I { st with clen }
  start : ∀ st, I st → st.state = .httpNone → I (startHeader st httpId)
  append : ∀ st s bs, I st → st.state = .httpHdr ∨ st.state = .httpHdrEnd →
    s = .httpHdr ∨ s = .httpHdrEnd ∧ httpEnd <:+ bs → I (appendHeader env (setHttpState st s) bs)
  finish : ∀ st rest, I st → st.state = .httpHdrEnd → I (endOfHeaders env st rest).1

section

variable {env : HttpEnv} {httpId : HttpId} {I : HttpState → Prop} {st st' : HttpState}

section

variable (h : Http1Invariant env httpId I)

include h

theorem Http1Invariant.noHeader (hst : I st)
    (hno : NoHeader st st') : I st' := by
  cases hno with
  | same => exact hst
  | skipped clen hdata => exact h.skip st clen hst hdata
  | reset => exact h.reset st hst

theorem Http1Invariant.parsesFrom (hst : I st)
    (hfrom : ParsesFrom st httpId st') : I st' := by
  cases hfrom with
  | here _ => exact hst
  | first hnone => exact h.start st hst hnone
  | next => exact h.start _ (h.reset st hst) rfl

theorem Http1Invariant.parseHeaders (hst : I st)
    (buf : List UInt8) : I (parseHeaders env st buf).state := by
  have hloop := headerLoop_invariant h.append hst (buf.length + 1) buf
  rw [Http.parseHeaders]
  rcases hresult : headerLoop env (buf.length + 1) st buf with ⟨st', _ | rest⟩
  · rw [hresult] at hloop
    exact hloop
  · rw [hresult] at hloop
    exact h.finish st' rest hloop (headerLoop_end hresult).1

/-- **What the parts of `parseHttp1` keep, it keeps.** -/
theorem Http1Invariant.parseHttp1 (hst : I st)
    (buf : List UInt8) : I (parseHttp1 env st buf httpId).state := by
  rcases parseHttp1_cases st buf httpId with ⟨st', hno, hparse⟩ | ⟨st', part, hfrom, hparse⟩
  · rw [hparse]
    exact h.noHeader hst hno
  · rw [hparse]
    exact h.parseHeaders (h.parsesFrom hst hfrom) part

theorem Http1Invariant.posts (hst : I st) {buf : List UInt8}
    {p : ProtocolInfo} (hp : p ∈ (Http.parseHttp1 env st buf httpId).posts) :
    ∃ st' rest, I st' ∧ st'.state = .httpHdrEnd ∧ p ∈ (endOfHeaders env st' rest).2 := by
  rcases parseHttp1_cases st buf httpId with ⟨st', -, hparse⟩ | ⟨st', part, hfrom, hparse⟩
  · rw [hparse] at hp
    cases hp
  · have hloop := headerLoop_invariant h.append (h.parsesFrom hst hfrom) (part.length + 1) part
    rw [hparse, Http.parseHeaders] at hp
    rcases hresult : headerLoop env (part.length + 1) st' part with ⟨st'', _ | rest⟩
    · rw [hresult] at hp
      cases hp
    · rw [hresult] at hp hloop
      exact ⟨st'', rest, hloop, (headerLoop_end hresult).1, hp⟩

end

end

/-! ## Well-formed states -/

structure Wf (st : HttpState) : Prop where
  alloc : HdrallocOk st.hdralloc
  idle : st.state = .httpNone → st.hdr = [] ∧ st.hdralloc = 0

theorem wf_init : Wf {} := ⟨.inl rfl, fun _ => ⟨rfl, rfl⟩⟩

theorem wf_none (st : HttpState) : Wf (setHttpState st .httpNone) :=
  ⟨.inl rfl, fun _ => ⟨rfl, rfl⟩⟩

theorem wf_setState (h : HdrallocOk st.hdralloc) (s : HttpEnum) : Wf (setHttpState st s) := by
  cases s with
  | httpNone => exact wf_none st
  | httpHdr | httpHdrEnd | httpData => exact ⟨h, nofun⟩

theorem growAlloc_ok {n a a' : ℕ} (ha : a = minHdrAlloc ∨ a = maxHdrAlloc)
    (h : growAlloc n 8 a = some a') : HdrallocOk a' := by
  rcases Nat.lt_or_ge maxHdrAlloc n with hn | hn
  · rw [growAlloc_none ha hn] at h
    simp at h
  · obtain ⟨a'', ha'', hok⟩ := growAlloc_some ha hn
    rw [ha''] at h
    exact Option.some.inj h ▸ hok

variable (env : HttpEnv)

theorem appendHeader_cases (hst : HdrallocOk st.hdralloc) (bs : List UInt8) :
    appendHeader env st bs = setHttpState st .httpNone ∨
      ∃ a, HdrallocOk a ∧ st.hdr.length + bs.length ≤ maxHdrAlloc ∧
        appendHeader env st bs = { st with hdr := st.hdr ++ bs, hdralloc := a } := by
  unfold appendHeader
  simp only []
  split
  · exact .inl rfl
  · rename_i a hg
    split
    · exact .inl rfl
    · refine .inr ⟨a, growAlloc_ok hst.start hg, ?_, rfl⟩
      by_contra hlt
      rw [growAlloc_none hst.start (not_le.mp hlt)] at hg
      simp at hg

theorem wf_appendHeader {env : HttpEnv} (hst : Wf st)
    (hstate : st.state ≠ .httpNone) (bs : List UInt8) : Wf (appendHeader env st bs) := by
  rcases appendHeader_cases env hst.alloc bs with h | ⟨a, ha, -, h⟩
  · rw [h]
    exact wf_none st
  · rw [h]
    exact ⟨ha, fun hs => absurd hs hstate⟩

theorem reportHttp1_alloc (st : HttpState) : (reportHttp1 env st).1.hdralloc = st.hdralloc := by
  unfold reportHttp1
  split
  · rfl
  · split <;> rfl

theorem appendHeader_alloc (hst : HdrallocOk st.hdralloc) (bs : List UInt8) :
    HdrallocOk (appendHeader env st bs).hdralloc := by
  rcases appendHeader_cases env hst bs with h | ⟨a, ha, -, h⟩
  · rw [h]
    exact .inl rfl
  · rw [h]
    exact ha

theorem wf_endOfHeaders {env : HttpEnv} (hst : Wf st)
    (rest : List UInt8) : Wf (endOfHeaders env st rest).1 := by
  have halloc := appendHeader_alloc env hst.alloc [0]
  unfold endOfHeaders
  simp only []
  split
  · split
    · refine wf_setState ?_ .httpData
      rw [reportHttp1_alloc]
      exact halloc
    · exact wf_none _
  · exact wf_none _

theorem wf_invariant (httpId : HttpId) : Http1Invariant env httpId Wf where
  reset st _ := wf_none st
  skip st clen hst hdata :=
    ⟨hst.alloc, fun hnone => absurd (show st.state = .httpNone from hnone) (by simp [hdata])⟩
  start st hst _ := ⟨hst.alloc, nofun⟩
  append st s bs hst _ hs := by
    rcases hs with rfl | ⟨rfl, -⟩ <;>
      exact wf_appendHeader (wf_setState hst.alloc _) HttpEnum.noConfusion bs
  finish st rest hst _ := wf_endOfHeaders hst rest

/-- **Every state that `parseHttp1` reaches is well formed.** -/
theorem http1Run_wf (hst : Wf st) (as : List Arrival) : Wf (run http1Step st as).1 :=
  run_invariant (I := Wf) (fun _ a h => (wf_invariant a.env a.httpId).parseHttp1 h a.buf) hst as

/-! ## A block in pieces -/

theorem parseHttp1_inHeader (hs : st.state = .httpHdr ∨ st.state = .httpHdrEnd) (httpId : HttpId)
    (hssl : st.id.isSsl = httpId.isSsl) (buf : List UInt8) :
    parseHttp1 env st buf httpId = parseHeaders env st buf := by
  have hnd : st.state ≠ .httpData := by
    rcases hs with h | h <;> rw [h] <;> decide
  have hnn : st.state ≠ .httpNone := by
    rcases hs with h | h <;> rw [h] <;> decide
  unfold parseHttp1 findHeaders
  rw [if_neg (fun h => h.2 hssl), if_neg hnd, if_neg hnn]

theorem parseHttp1_scanning {ls : List (List UInt8)} (hs : Scanning st ls) (httpId : HttpId)
    (hssl : st.id.isSsl = httpId.isSsl) (buf : List UInt8) :
    parseHttp1 env st buf httpId = parseHeaders env st buf :=
  parseHttp1_inHeader env hs.inHeader httpId hssl buf

theorem startHeader_scanning (hst : HdrallocOk st.hdralloc)
    (httpId : HttpId) (b : HeaderBlock) : Scanning (startHeader st httpId) (b.start :: b.lines) :=
  ⟨hst, b.no_end, .inr ⟨rfl, b.start, b.lines, rfl, b.nonempty⟩⟩

theorem searchStart_some {x y : List UInt8}
    (hwin : (x.length + 5 : ℤ) ≤ cInt (x ++ (httpStart ++ y)).length) :
    ∃ j, searchExec gHttpStart (x ++ (httpStart ++ y))
      (cInt (x ++ (httpStart ++ y)).length) = some j := by
  cases h : searchExec gHttpStart (x ++ (httpStart ++ y)) (cInt (x ++ (httpStart ++ y)).length) with
  | some j => exact ⟨j, rfl⟩
  | none =>
    refine absurd ?_ ((searchExec_eq_none httpStart_ne_nil (cInt_le _)).mp h x.length hwin)
    exact (occursAt_iff (by simp)).mpr ⟨x, y, rfl, rfl⟩

theorem findHeaders_start (hst : st.state = .httpNone) {x y : List UInt8} (httpId : HttpId)
    (hwin : (x.length + 5 : ℤ) ≤ cInt (x ++ (httpStart ++ y)).length) :
    findHeaders env st (x ++ (httpStart ++ y)) httpId =
      parseHeaders env (startHeader st httpId) (x ++ (httpStart ++ y)) := by
  obtain ⟨j, hj⟩ := searchStart_some hwin
  unfold findHeaders
  rw [if_pos hst, hj]
  rfl

/-- **A block in pieces.** The buffers hold what is to come of the block; all
but the last post nothing, the last holds the blank line and posts the header.
-/
theorem scan_run {ssl : Bool} {arrivals : List Arrival} (henv : ∀ a ∈ arrivals, a.env.AllocSucceeds)
    (hssl : ∀ a ∈ arrivals, a.httpId.isSsl = ssl) (hne : ∀ a ∈ arrivals, a.buf ≠ [])
    (hcut : ∀ seen later, arrivals = seen ++ later →
      ¬ ((seen.map buf).flatten.getLast? = some 0x0D ∧ (later.map buf).flatten.head? = some 0x0A)) :
    ∀ (st : HttpState) (ls : List (List UInt8)), Scanning st ls → st.id.isSsl = ssl →
      (arrivals.map buf).flatten = encode ls ++ httpEnd →
      st.hdr.length + (encode ls).length + 1 ≤ maxHdrAlloc →
      ∃ init last, arrivals = init ++ [last] ∧ httpEnd <:+ last.buf ∧
        (run http1Step st arrivals).2 = init.map (fun _ => []) ++
          [[headerEvent last.env st.id (st.hdr ++ encode ls ++ [0])]] := by
  induction arrivals with
  | nil =>
    intro st ls _ _ hbytes
    simp [httpEnd] at hbytes
  | cons a as ih =>
    intro st ls hs hid hbytes hlen
    have henva := henv a mem_cons_self
    have hparse : http1Step st a =
        ((parseHeaders a.env st a.buf).state, (parseHeaders a.env st a.buf).posts) := by
      unfold http1Step
      rw [parseHttp1_scanning a.env hs a.httpId (hid.trans (hssl a mem_cons_self).symm)]
    have hmax : maxHdrAlloc + 2 < 2 ^ 31 := by decide
    by_cases hlast : as = []
    · -- the last buffer: all that is to come
      subst hlast
      have hbuf : a.buf = encode ls ++ (httpEnd ++ []) := by simpa using hbytes
      have hll := length_line (encode ls) []
      obtain ⟨st', hcol, hph⟩ := parseHeaders_complete henva hs [] hlen (by
        rw [cInt_of_lt (by simp only [length_nil] at hll; omega)]
        omega)
      have hposts := (endOfHeaders_spec henva hcol.alloc (by
        rw [hcol.hdr, length_append]
        exact hlen) (httpEnd ++ [])).1
      refine ⟨[], a, rfl, ⟨encode ls, by rw [hbuf, append_nil]⟩, ?_⟩
      rw [run_cons, hparse, hbuf, hph, hposts, hcol.hdr, hcol.id]
      rfl
    · -- more buffers follow, and they are not empty
      have hlater : (as.map buf).flatten ≠ [] := by
        obtain ⟨c, cs, rfl⟩ := exists_cons_of_ne_nil hlast
        have hc := hne c (by simp)
        simp [hc]
      have hlenbuf : a.buf.length + (as.map buf).flatten.length = (encode ls).length + 2 := by
        have := congrArg length hbytes
        simpa [httpEnd] using this
      have hpos : 0 < (as.map buf).flatten.length :=
        length_pos_iff.mpr hlater
      obtain ⟨st', ls', hcol, hs', hrest, hloop⟩ :=
        headerLoop_cut henva hlater ls st a.buf (a.buf.length + 1) hs
          (by simpa using hbytes) (by simpa using hcut [a] as rfl)
          (Nat.lt_succ_self _) (by omega)
      have hph : parseHeaders a.env st a.buf = ⟨st', [], false⟩ := by
        unfold parseHeaders
        rw [hloop]
      have hbuf : a.buf ++ encode ls' = encode ls := by
        have hall : a.buf ++ (encode ls' ++ httpEnd) = encode ls ++ httpEnd := by
          rw [← hrest]
          simpa using hbytes
        rw [← append_assoc] at hall
        exact append_cancel_right hall
      have hlen' : st'.hdr.length + (encode ls').length + 1 ≤ maxHdrAlloc := by
        have := congrArg length hbuf
        rw [length_append] at this
        rw [hcol.hdr, length_append]
        omega
      obtain ⟨init, last, hsplit, hend, hrun⟩ := ih (forall_mem_cons.1 henv).2
        (forall_mem_cons.1 hssl).2
        (forall_mem_cons.1 hne).2
        (fun seen later heq => by
          intro h
          refine hcut (a :: seen) later (by rw [heq]; rfl) ⟨?_, h.2⟩
          rw [map_cons, flatten_cons, getLast?_append, h.1]
          rfl)
        st' ls' hs' (by rw [hcol.id]; exact hid) hrest hlen'
      refine ⟨a :: init, last, by rw [hsplit]; rfl, hend, ?_⟩
      rw [run_cons, hparse, hph]
      rw [hrun, hcol.hdr, hcol.id, append_assoc st.hdr, hbuf]
      rfl

section Block

variable (b : HeaderBlock) (hsize : b.bytes.length ≤ 16383) {st : HttpState} (hwf : Wf st)
  (hnone : st.state = .httpNone) {ssl : Bool} {arrivals : List Arrival}
  (hbytes : (arrivals.map buf).flatten = b.bytes) (hne : ∀ a ∈ arrivals, a.buf ≠ [])
  (hfirst : ∀ a as, arrivals = a :: as → httpStart <:+: a.buf)
  (hcut : ∀ seen later, arrivals = seen ++ later →
    ¬ ((seen.map buf).flatten.getLast? = some 0x0D ∧ (later.map buf).flatten.head? = some 0x0A))
  (hssl : ∀ a ∈ arrivals, a.httpId.isSsl = ssl) (henv : ∀ a ∈ arrivals, a.env.AllocSucceeds)

include hsize hwf hnone hbytes hne hfirst hcut hssl henv

theorem block_run :
    ∃ init last id, arrivals = init ++ [last] ∧ httpEnd <:+ last.buf ∧
      (run http1Step st arrivals).2 =
        init.map (fun _ => []) ++ [[headerEvent last.env id (b.header ++ [0])]] := by
  obtain ⟨hhdr, -⟩ := hwf.idle hnone
  cases arrivals with
  | nil =>
    have := congrArg length hbytes
    simp [HeaderBlock.bytes, httpEnd] at this
  | cons a as =>
    have hs := startHeader_scanning hwf.alloc a.httpId b
    have hbl : b.bytes.length = b.header.length + 2 := by
      rw [HeaderBlock.bytes, length_append]
      rfl
    -- the first buffer is read as if the header had been started already
    have hstep : http1Step st a = http1Step (startHeader st a.httpId) a := by
      obtain ⟨x, y, hbuf⟩ := hfirst a as rfl
      rw [append_assoc] at hbuf
      have hle : a.buf.length ≤ b.bytes.length := by
        rw [← hbytes, map_cons, flatten_cons, length_append]
        omega
      have hfive : httpStart.length = 5 := rfl
      have hwin : (x.length + 5 : ℤ) ≤ cInt (x ++ (httpStart ++ y)).length := by
        rw [hbuf, cInt_of_lt (by omega), ← hbuf, length_append, length_append]
        omega
      have hfind := findHeaders_start a.env hnone a.httpId hwin
      unfold http1Step
      rw [parseHttp1_scanning a.env hs a.httpId rfl]
      unfold parseHttp1
      rw [if_neg (fun h => h.1 hnone), if_neg (by rw [hnone]; decide), ← hbuf, hfind]
    have hlen : (startHeader st a.httpId).hdr.length + b.header.length + 1 ≤
        maxHdrAlloc := by
      show st.hdr.length + b.header.length + 1 ≤ 16384
      rw [hhdr, length_nil]
      omega
    obtain ⟨init, last, hsplit, hend, hrun⟩ :=
      scan_run henv hssl hne hcut (startHeader st a.httpId) (b.start :: b.lines) hs
        (hssl a mem_cons_self) hbytes hlen
    refine ⟨init, last, a.httpId, hsplit, hend, ?_⟩
    rw [run_cons, hstep, ← run_cons, hrun]
    rw [show (startHeader st a.httpId).hdr = st.hdr from rfl, hhdr]
    rfl

/-- **HTTP/1 segmentation independence.** A header block arrives in any
non-empty buffers, cut anywhere but inside a line end, the first of which holds
a whole `HTTP/`. One event is posted, by the last buffer, which holds the blank
line; its header is the block's, with the terminator, just as when the block
arrives in one buffer. -/
theorem parseHttp1_segmentation :
    ∃ init last p, arrivals = init ++ [last] ∧ httpEnd <:+ last.buf ∧
      (run http1Step st arrivals).2 = init.map (fun _ => []) ++ [[p]] ∧
      p.data.hdr = b.header ++ [0] ∧ p.len = b.header.length + 1 ∧
      ∀ whole : Arrival, whole.buf = b.bytes → whole.env.AllocSucceeds →
        ∃ q, (run http1Step st [whole]).2 = [[q]] ∧ q.data.hdr = p.data.hdr ∧ q.len = p.len := by
  obtain ⟨init, last, id, hsplit, hend, hrun⟩ :=
    block_run b hsize hwf hnone hbytes hne hfirst hcut hssl henv
  refine ⟨init, last, _, hsplit, hend, hrun, rfl, by simp [headerEvent], ?_⟩
  intro whole hbuf hwhole
  have hstart : httpStart <:+: b.bytes := by
    refine b.start_http.trans ?_
    rw [HeaderBlock.bytes, HeaderBlock.header, encode_cons, append_assoc]
    exact (prefix_append _ _).isInfix
  have hbne : b.bytes ≠ [] := by simp [HeaderBlock.bytes, httpEnd]
  obtain ⟨init', last', id', hsplit', -, hrun'⟩ :=
    @block_run b hsize st hwf hnone whole.httpId.isSsl [whole]
      (by simpa using hbuf) (by simpa [hbuf] using hbne)
      (by
        intro a as heq
        obtain ⟨rfl, -⟩ := cons.inj heq
        rw [hbuf]
        exact hstart)
      (by
        intro seen later heq
        rcases append_eq_singleton_iff.mp heq.symm with ⟨rfl, -⟩ | ⟨-, rfl⟩
        · simp
        · simp)
      (by simp) (by simpa using hwhole)
  obtain ⟨rfl, -⟩ : init' = [] ∧ last' = whole := by
    rcases append_eq_singleton_iff.mp hsplit'.symm with ⟨h1, h2⟩ | ⟨-, h2⟩
    · exact ⟨h1, by simpa using h2⟩
    · simp at h2
  exact ⟨_, hrun', rfl, by simp [headerEvent]⟩

end Block

/-- A response cut before the line end of its start line. -/
theorem parseHttp1_segmentation_two_buffers :
    ∃ p, (run http1Step {} [⟨.idle, none, {}, shortResponse.start⟩,
        ⟨.idle, none, {}, httpEnd ++ encode shortResponse.lines ++ httpEnd⟩]).2 =
      [[], [p]] ∧ p.data.hdr = shortResponse.header ++ [0] := by
  obtain ⟨init, last, p, hsplit, -, hrun, hhdr, -⟩ :=
    @parseHttp1_segmentation shortResponse (by decide) {} wf_init rfl false
      [⟨.idle, none, {}, shortResponse.start⟩,
        ⟨.idle, none, {}, httpEnd ++ encode shortResponse.lines ++ httpEnd⟩]
      (by decide)
      (by simp only [mem_cons, not_mem_nil, or_false, forall_eq_or_imp, forall_eq]; decide)
      (by
        intro a as heq
        obtain ⟨rfl, -⟩ := cons.inj heq
        exact shortResponse.start_http)
      (by
        rintro (_ | ⟨x, _ | ⟨y, seen⟩⟩) later heq
        · simp
        · obtain ⟨rfl, rfl⟩ := heq
          decide
        · simp only [cons_append, cons.injEq] at heq
          obtain ⟨-, hlater⟩ := append_eq_nil_iff.mp heq.2.2.symm
          simp [hlater])
      (by simp) (by simp [HttpEnv.idle_allocSucceeds])
  have hlen : init.length = 1 := by
    have := congrArg length hsplit
    simpa using this.symm
  obtain ⟨a, rfl⟩ := length_eq_one_iff.mp hlen
  exact ⟨p, hrun, hhdr⟩

end AppView.Http
