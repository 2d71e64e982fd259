import AppView.Http.Cuts
import AppView.Http.Pipelining

/-!
# The buffer in which an HTTP/1 header is collected

`appendHeader` grows the buffer, or drops everything when the header gets too long or memory is
short.
-/

namespace AppView.Http

open AppView.Framework List

/-! ## The size of the buffer -/

structure Room (st : HttpState) : Prop where
  alloc : HdrallocOk st.hdralloc
  fits : st.hdr.length ≤ st.hdralloc

variable {st : HttpState} {env : HttpEnv} {ssl : Bool} {as : List Arrival}

theorem room_setHttpState (h : Room st) (s : HttpEnum) : Room (setHttpState st s) := by
  cases s with
  | httpNone => exact ⟨.inl rfl, Nat.le_refl _⟩
  | httpHdr | httpHdrEnd | httpData => exact ⟨h.alloc, h.fits⟩

theorem Room.le_max (h : Room st) : st.hdr.length ≤ maxHdrAlloc := by
  refine h.fits.trans ?_
  rcases h.alloc with h | h | h <;> rw [h] <;> decide

theorem growAlloc_le {n fuel a a' : ℕ} (h : growAlloc n fuel a = some a') : n ≤ a' := by
  induction fuel generalizing a with
  | zero => cases h
  | succ fuel ih =>
    rw [growAlloc] at h
    dsimp only at h
    split_ifs at h with hlt hmax
    · exact ih h
    · cases h
      exact Nat.le_of_not_lt hlt

theorem room_appendHeader (h : Room st) (env : HttpEnv) (bs : List UInt8) :
    Room (appendHeader env st bs) := by
  rw [appendHeader]
  cases hgrow : growAlloc (st.hdr.length + bs.length) 8
      (if st.hdralloc = 0 then minHdrAlloc else st.hdralloc) with
  | none => exact room_setHttpState h .httpNone
  | some a =>
    dsimp only
    split_ifs with hfail
    · exact room_setHttpState h .httpNone
    · refine ⟨growAlloc_ok h.alloc.start hgrow, ?_⟩
      rw [length_append]
      exact growAlloc_le hgrow

theorem room_reportHttp1 (h : Room st) (env : HttpEnv) : Room (reportHttp1 env st).1 := by
  rw [reportHttp1]
  split_ifs with hhdr hproto
  · exact h
  · exact h
  all_goals exact ⟨h.alloc, Nat.zero_le _⟩

theorem room_endOfHeaders (h : Room st) (env : HttpEnv) (rest : List UInt8) :
    Room (endOfHeaders env st rest).1 := by
  have happend := room_appendHeader h env [0]
  have hexamined : Room (examined env st) := ⟨happend.alloc, happend.fits⟩
  have hreport := room_reportHttp1 hexamined env
  rw [endOfHeaders]
  cases getContentLength env (appendHeader env st [0]).hdr with
  | none => exact room_setHttpState hreport .httpNone
  | some clen =>
    dsimp only
    split_ifs
    · exact ⟨hreport.alloc, hreport.fits⟩
    · exact room_setHttpState hreport .httpNone

theorem room_invariant (env : HttpEnv) (httpId : HttpId) : Http1Invariant env httpId Room where
  reset _ h := room_setHttpState h .httpNone
  skip _ _ h _ := ⟨h.alloc, h.fits⟩
  start _ h _ := ⟨h.alloc, h.fits⟩
  append _ s bs h _ _ := room_appendHeader (room_setHttpState h s) env bs
  finish _ rest h _ := room_endOfHeaders h env rest

def stateAfter (past : List Arrival) : HttpState := (run http1Step { version := 1 } past).1

variable (b : HeaderBlock) (n : ℕ) (past : List Arrival)

/-- **What was collected fits**, after any buffers and any failures of the allocator. -/
theorem room_stateAfter : Room (stateAfter past) := by
  have hinit : Room { version := 1 } := ⟨.inl rfl, Nat.le_refl _⟩
  exact run_invariant (I := Room)
    (fun _ a h => (room_invariant a.env a.httpId).parseHttp1 h a.buf) hinit past

/-! ## The end of all headers -/

def parseHeadersEnd (env : HttpEnv) (httpstate : HttpState) (buf : List UInt8) :
    Option (HttpState × List UInt8) :=
  match headerLoop env (buf.length + 1) httpstate buf with
  | (_, none) => none
  | (httpstate, some rest) => some (httpstate, rest)

def findHeadersEnd (env : HttpEnv) (httpstate : HttpState) (buf : List UInt8) (httpId : HttpId) :
    Option (HttpState × List UInt8) :=
  if httpstate.state = .httpNone then
    match searchExec gHttpStart buf (cInt buf.length) with
    | none => none
    | some _ => parseHeadersEnd env { setHttpState httpstate .httpHdr with id := httpId } buf
  else parseHeadersEnd env httpstate buf

def headersEnd (env : HttpEnv) (httpstate : HttpState) (buf : List UInt8) (httpId : HttpId) :
    Option (HttpState × List UInt8) :=
  if httpstate.state ≠ .httpNone ∧ httpstate.id.isSsl ≠ httpId.isSsl then none
  else if httpstate.state = .httpData then
    let (bts, httpstate) := bytesToSkipForContentLength httpstate buf.length
    if bts = buf.length then none
    else findHeadersEnd env (setHttpState httpstate .httpNone) (buf.drop bts) httpId
  else findHeadersEnd env httpstate buf httpId

structure Ends (env : HttpEnv) (e : Option (HttpState × List UInt8)) (r : Parsed HttpState) :
    Prop where
  none : e = none → r.found = false ∧ r.posts = []
  some : ∀ st rest, e = some (st, rest) →
    r = ⟨(endOfHeaders env st rest).1, (endOfHeaders env st rest).2, true⟩ ∧ Room st ∧
      httpEnd <+: rest

theorem ends_nothing (st : HttpState) : Ends env none ⟨st, [], false⟩ :=
  ⟨fun _ => ⟨rfl, rfl⟩, fun _ _ h => nomatch h⟩

theorem parseHeaders_ends (h : Room st) (env : HttpEnv) (buf : List UInt8) :
    Ends env (parseHeadersEnd env st buf) (parseHeaders env st buf) := by
  have hroom := headerLoop_invariant (room_invariant env st.id).append h (buf.length + 1) buf
  rw [parseHeadersEnd, parseHeaders]
  rcases hloop : headerLoop env (buf.length + 1) st buf with ⟨st', _ | rest⟩
  · exact ends_nothing st'
  · refine ⟨fun h => absurd h (Option.some_ne_none _), ?_⟩
    rintro st rest ⟨⟩
    rw [hloop] at hroom
    exact ⟨rfl, hroom, (headerLoop_end hloop).2⟩

theorem findHeaders_ends (h : Room st) (env : HttpEnv) (buf : List UInt8) (httpId : HttpId) :
    Ends env (findHeadersEnd env st buf httpId) (findHeaders env st buf httpId) := by
  rw [findHeadersEnd, findHeaders]
  split_ifs
  · cases searchExec gHttpStart buf (cInt buf.length) with
    | none => exact ends_nothing st
    | some j =>
      have hstart : Room (startHeader st httpId) := ⟨h.alloc, h.fits⟩
      exact parseHeaders_ends hstart env buf
  · exact parseHeaders_ends h env buf

theorem parseHttp1_ends (h : Room st) (env : HttpEnv) (buf : List UInt8) (httpId : HttpId) :
    Ends env (headersEnd env st buf httpId) (parseHttp1 env st buf httpId) := by
  obtain ⟨clen, hskip⟩ := bytesToSkip_eq st buf.length
  rw [headersEnd, parseHttp1]
  dsimp only
  split_ifs
  · exact ends_nothing st
  · exact ends_nothing _
  · have hskipped : Room { st with clen } := ⟨h.alloc, h.fits⟩
    rw [hskip]
    exact findHeaders_ends (room_setHttpState hskipped .httpNone) env _ _
  · exact findHeaders_ends h env _ _

def headerText (env : HttpEnv) (httpstate : HttpState) : List UInt8 :=
  (appendHeader env httpstate [0]).hdr

theorem endOfHeaders_room (henv : env.AllocSucceeds) (h : Room st)
    (hlen : st.hdr.length ≠ maxHdrAlloc) (rest : List UInt8) : headerText env st = st.hdr ++ [0] ∧
      (endOfHeaders env st rest).2 = [headerEvent env st.id (st.hdr ++ [0])] := by
  have hlt : st.hdr.length + 1 ≤ maxHdrAlloc := lt_of_le_of_ne h.le_max hlen
  exact ⟨(appendHeader_fits henv st [0] h.alloc (by simpa using hlt)).1.hdr,
    (endOfHeaders_spec henv h.alloc hlt rest).1⟩

/-- **Without room for the terminator** the header is dropped: there is no text and no event. -/
theorem endOfHeaders_full (env : HttpEnv) (h : Room st) (hlen : st.hdr.length = maxHdrAlloc)
    (rest : List UInt8) : headerText env st = [] ∧ (endOfHeaders env st rest).2 = [] := by
  have hover := appendHeader_overflow env st [0] h.alloc (by simp [hlen])
  have htext : headerText env st = [] := by
    rw [headerText, hover]
    rfl
  refine ⟨htext, ?_⟩
  rw [endOfHeaders_snd, reportHttp1_nil]
  exact htext

/-! ## Whole headers -/

theorem blank_line_unique {ls : List (List UInt8)} (hno : ∀ l ∈ ls, ¬ httpEnd <:+: l)
    (hne : ∀ l ∈ ls, l ≠ []) {x y : List UInt8} (hx : httpEnd <:+ x)
    (h : encode ls ++ httpEnd = x ++ (httpEnd ++ y)) : x = encode ls ∧ y = [] := by
  obtain ⟨x, rfl⟩ := hx
  induction ls generalizing x with
  | nil =>
    have hcount := congrArg length h
    have htwo : httpEnd.length = 2 := rfl
    simp only [encode_nil, nil_append, length_append] at hcount
    omega
  | cons l ls ih =>
    rw [encode_cons, append_assoc, append_assoc, append_assoc] at h
    rcases line_end_first (hno l mem_cons_self) h with ⟨rfl, hrest⟩ | ⟨x', rfl, hrest⟩
    · cases ls with
      | nil =>
        rw [encode_cons, encode_nil, append_nil]
        rw [encode_nil, nil_append] at hrest
        exact ⟨rfl, by simpa using hrest⟩
      | cons m ls =>
        -- the next line would be empty
        exfalso
        rw [encode_cons_append] at hrest
        have hm : m ≠ [] := hne m (by simp)
        rcases line_end_first (x := []) (hno m (by simp)) hrest.symm with ⟨hnil, -⟩ | ⟨x', hnil, -⟩
        · exact hm hnil.symm
        · exact hm (append_eq_nil_iff.mp hnil.symm).1
    · obtain ⟨hx', hy⟩ := ih (forall_mem_cons.1 hno).2 (forall_mem_cons.1 hne).2 x'
        (by rw [hrest, append_assoc])
      refine ⟨?_, hy⟩
      rw [encode_cons, ← hx']
      simp

theorem HeaderBlock.line_ne_nil : ∀ l ∈ b.start :: b.lines, l ≠ [] := by
  intro l hl
  rcases mem_cons.mp hl with rfl | hl
  · intro hnil
    have hstart := b.start_http
    rw [hnil] at hstart
    exact httpStart_ne_nil (infix_nil.mp hstart)
  · exact b.nonempty l hl

def AtLineEnd (st : HttpState) : Prop := st.state = .httpHdrEnd → httpEnd <:+ st.hdr

theorem atLineEnd_invariant (env : HttpEnv) (httpId : HttpId) :
    Http1Invariant env httpId AtLineEnd where
  reset _ _ := nofun
  skip _ _ h _ := h
  start _ _ _ := nofun
  append st s bs _ _ hs := by
    rcases appendHeader_or env (setHttpState st s) bs with happend | ⟨a, happend⟩
    · rw [happend]
      exact nofun
    · rw [happend]
      rcases hs with rfl | ⟨rfl, hend⟩
      · exact nofun
      · exact fun _ => hend.trans (suffix_append _ bs)
  finish st rest _ _ hstate := by
    rcases endOfHeaders_state env st rest with h | h <;> rw [h] at hstate <;> cases hstate

structure Holding (ssl : Bool) (seen : List UInt8) (st : HttpState) : Prop where
  wf : Wf st
  state : st.state = .httpHdr ∨ st.state = .httpHdrEnd
  hdr : st.hdr = seen
  isSsl : st.id.isSsl = ssl
  lineEnd : AtLineEnd st

theorem Holding.parseHeaders {seen : List UInt8} (h : Holding ssl seen st) (env : HttpEnv)
    (buf : List UInt8) :
    ((parseHeaders env st buf).posts = [] ∧ (parseHeaders env st buf).state.state = .httpNone) ∨
      ((parseHeaders env st buf).posts = [] ∧
        Holding ssl (seen ++ buf) (parseHeaders env st buf).state) ∨
      ∃ x y, seen ++ buf = x ++ (httpEnd ++ y) ∧ httpEnd <:+ x ∧
        ∀ p ∈ (parseHeaders env st buf).posts, p.data.hdr = x ++ [0] := by
  have hkeep := headerLoop_keeps env (Nat.lt_succ_self buf.length) h.state
  have hwf := headerLoop_invariant (wf_invariant env st.id).append h.wf (buf.length + 1) buf
  have hline := headerLoop_invariant (atLineEnd_invariant env st.id).append h.lineEnd
    (buf.length + 1) buf
  rw [Http.parseHeaders]
  rcases hloop : headerLoop env (buf.length + 1) st buf with ⟨st', _ | rest⟩
  · rw [hloop] at hkeep hwf hline
    rcases hkeep with hnone | ⟨hhdr, hid, hstate⟩
    · exact .inl ⟨rfl, hnone⟩
    refine .inr (.inl ⟨rfl, hwf, hstate, ?_, ?_, hline⟩)
    · rw [hhdr, h.hdr]
    · rw [hid, h.isSsl]
  · rw [hloop] at hkeep hline
    obtain ⟨hbytes, -⟩ := hkeep
    obtain ⟨hend, y, hy⟩ := headerLoop_end hloop
    refine .inr (.inr ⟨st'.hdr, y, ?_, hline hend, ?_⟩)
    · rw [hy, hbytes, h.hdr]
    · intro p hp
      exact (endOfHeaders_post hp).1

theorem run_pass (hnone : st.state = .httpNone) (hno : ∀ a ∈ as, ¬ httpStart <:+: a.buf) :
    (run http1Step st as).2.flatten = [] := by
  induction as with
  | nil => rfl
  | cons a as ih =>
    have hstep : http1Step st a = (st, []) := by
      rw [http1Step, parseHttp1, if_neg (fun h => h.1 hnone), if_neg (by rw [hnone]; decide),
        findHeaders_pass a.env hnone (hno a mem_cons_self)]
    rw [run_cons, hstep, flatten_cons, nil_append]
    exact ih (forall_mem_cons.1 hno).2

def WholeOrNothing (b : HeaderBlock) (posts : List ProtocolInfo) : Prop :=
  posts = [] ∨ ∃ p, posts = [p] ∧ p.data.hdr = b.header ++ [0]

theorem Holding.run {b : HeaderBlock} (hssl : ∀ a ∈ as, a.httpId.isSsl = ssl)
    (hne : ∀ a ∈ as, a.buf ≠ []) (hno : ∀ a ∈ as, ¬ httpStart <:+: a.buf) :
    ∀ (env : HttpEnv) (buf : List UInt8) (st : HttpState) (seen : List UInt8),
      Holding ssl seen st → seen ++ (buf ++ (as.map Arrival.buf).flatten) = b.bytes →
      WholeOrNothing b ((Http.parseHeaders env st buf).posts ++
        (Framework.run http1Step (Http.parseHeaders env st buf).state as).2.flatten) := by
  induction as with
  | nil =>
    intro env buf st seen h hbytes
    rw [map_nil, flatten_nil, append_nil] at hbytes
    have hposts : (Framework.run http1Step (Http.parseHeaders env st buf).state
        ([] : List Arrival)).2.flatten = [] := rfl
    rw [hposts, append_nil]
    rcases h.parseHeaders env buf with ⟨hnil, -⟩ | ⟨hnil, -⟩ | ⟨x, y, hxy, hend, hhdr⟩
    · exact .inl hnil
    · exact .inl hnil
    · obtain ⟨rfl, -⟩ := blank_line_unique b.no_end b.line_ne_nil hend (hbytes.symm.trans hxy)
      rcases parseHeaders_atMostOne env h.wf buf with hnil | ⟨p, hp, -⟩
      · exact .inl hnil
      · exact .inr ⟨p, hp, hhdr p (by rw [hp]; exact mem_singleton_self p)⟩
  | cons c as ih =>
    intro env buf st seen h hbytes
    have hno' := fun a ha => hno a (mem_cons_of_mem c ha)
    rw [map_cons, flatten_cons] at hbytes
    rcases h.parseHeaders env buf with ⟨hnil, hnone⟩ | ⟨hnil, hhold⟩ | ⟨x, y, hxy, hend, -⟩
    · rw [hnil, nil_append]
      exact .inl (run_pass hnone hno)
    · have hstep := parseHttp1_inHeader c.env hhold.state c.httpId
        (hhold.isSsl.trans (hssl c mem_cons_self).symm) c.buf
      rw [hnil, nil_append, run_cons, flatten_cons, http1Step, hstep]
      refine ih (fun a ha => hssl a (mem_cons_of_mem c ha))
        (fun a ha => hne a (mem_cons_of_mem c ha)) hno' c.env c.buf _ _ hhold ?_
      rw [← hbytes, append_assoc]
    · -- nothing follows the blank line, but the next buffer is not empty
      exfalso
      rw [← append_assoc, hxy, append_assoc, append_assoc] at hbytes
      obtain ⟨-, hnil⟩ := blank_line_unique b.no_end b.line_ne_nil hend hbytes.symm
      have hc := (append_eq_nil_iff.mp (append_eq_nil_iff.mp hnil).2).1
      exact hne c mem_cons_self hc

/-- **A header is reported as a whole or not at all**: a block of any length, in any buffers, of
which only the first may hold `HTTP/`, with any failures of the allocator. -/
theorem whole_or_nothing (hst : Between ssl st 0) {a : Arrival}
    (hbytes : ((a :: as).map Arrival.buf).flatten = b.bytes)
    (hssl : ∀ c ∈ a :: as, c.httpId.isSsl = ssl) (hne : ∀ c ∈ a :: as, c.buf ≠ [])
    (hno : ∀ c ∈ as, ¬ httpStart <:+: c.buf) :
    WholeOrNothing b (run http1Step st (a :: as)).2.flatten := by
  obtain ⟨st', hwf, hnone, hparse⟩ := parseHttp1_beyond (x := []) hst a.env
    (hssl a mem_cons_self) (hne a mem_cons_self)
  rw [nil_append] at hparse
  rw [run_cons, flatten_cons, http1Step, hparse, findHeaders, if_pos hnone]
  cases hsearch : searchExec gHttpStart a.buf (cInt a.buf.length) with
  | none => exact .inl (run_pass hnone hno)
  | some j =>
    have hhold : Holding ssl [] (startHeader st' a.httpId) := by
      refine ⟨⟨hwf.alloc, ?_⟩, .inl rfl, (hwf.idle hnone).1, hssl a mem_cons_self, ?_⟩
      · exact fun h => absurd (show HttpEnum.httpHdr = .httpNone from h) (by decide)
      · exact fun h => absurd (show HttpEnum.httpHdr = .httpHdrEnd from h) (by decide)
    exact Holding.run (fun c hc => hssl c (mem_cons_of_mem a hc))
      (fun c hc => hne c (mem_cons_of_mem a hc)) hno a.env a.buf (startHeader st' a.httpId) []
      hhold hbytes

/-! ## Every sequence of buffers -/

theorem wf_stateAfter : Wf (stateAfter past) := by
  have hinit : Wf { version := 1 } := ⟨.inl rfl, fun _ => ⟨rfl, rfl⟩⟩
  exact http1Run_wf hinit past

theorem parseHttp1_reports (h : Room st) (henv : env.AllocSucceeds) (buf : List UInt8)
    (httpId : HttpId) : (((parseHttp1 env st buf httpId).found = true ↔
          ∃ p, (parseHttp1 env st buf httpId).posts = [p]) ∧
        ∀ e ∈ headersEnd env st buf httpId, headerText env e.1 ≠ []) ↔
      ∀ e ∈ headersEnd env st buf httpId, e.1.hdr.length ≠ maxHdrAlloc := by
  have hends := parseHttp1_ends h env buf httpId
  cases hend : headersEnd env st buf httpId with
  | none =>
    obtain ⟨hfound, hposts⟩ := hends.none hend
    rw [hfound, hposts]
    simp
  | some e =>
    obtain ⟨st', rest⟩ := e
    obtain ⟨hparse, hroom, -⟩ := hends.some st' rest hend
    rw [hparse]
    simp only [Option.mem_def, Option.some.injEq, forall_eq', true_iff]
    constructor
    · rintro ⟨-, htext⟩ hlen
      exact htext (endOfHeaders_full env hroom hlen rest).1
    · intro hlen
      obtain ⟨htext, hposts⟩ := endOfHeaders_room henv hroom hlen rest
      exact ⟨⟨_, hposts⟩, by rw [htext]; simp⟩

/-- **The header buffer.** After any buffers on a direction: what was collected fits into the
buffer, is all that came since the header started, and is nothing in `HTTP_NONE`. The next buffer
gives `TRUE` together with one event and a text to examine, if and only if the header it ends does
not have exactly `MAX_HDR_ALLOC` bytes. A block is reported as a whole or not at all, if none but
its first buffer holds `HTTP/`. -/
theorem header_accumulation (past : List Arrival) :
    (Room (stateAfter past) ∧ Collecting past (stateAfter past) ∧
      ((stateAfter past).state = .httpNone → (stateAfter past).hdr = [])) ∧
    (∀ a : Arrival, a.env.AllocSucceeds →
      ((((parseHttp1 a.env (stateAfter past) a.buf a.httpId).found = true ↔
            ∃ p, (parseHttp1 a.env (stateAfter past) a.buf a.httpId).posts = [p]) ∧
          ∀ e ∈ headersEnd a.env (stateAfter past) a.buf a.httpId, headerText a.env e.1 ≠ []) ↔
        ∀ e ∈ headersEnd a.env (stateAfter past) a.buf a.httpId, e.1.hdr.length ≠ maxHdrAlloc)) ∧
    ∀ (b : HeaderBlock) (ssl : Bool) (a : Arrival) (as : List Arrival),
      Between ssl (stateAfter past) 0 → ((a :: as).map Arrival.buf).flatten = b.bytes →
      (∀ c ∈ a :: as, c.httpId.isSsl = ssl ∧ c.buf ≠ []) → (∀ c ∈ as, ¬ httpStart <:+: c.buf) →
      WholeOrNothing b (run http1Step (stateAfter past) (a :: as)).2.flatten := by
  refine ⟨⟨room_stateAfter past, http1Run_collecting past, fun h => ?_⟩, fun a henv => ?_, ?_⟩
  · exact ((wf_stateAfter past).idle h).1
  · exact parseHttp1_reports (room_stateAfter past) henv a.buf a.httpId
  · intro b ssl a as hbetween hbytes hbufs hno
    exact whole_or_nothing b hbetween hbytes (fun c hc => (hbufs c hc).1)
      (fun c hc => (hbufs c hc).2) hno

/-- The short response in one buffer. -/
theorem header_accumulation_short :
    ((parseHttp1 .idle (stateAfter []) shortResponse.bytes {}).found = true ↔
      ∃ p, (parseHttp1 .idle (stateAfter []) shortResponse.bytes {}).posts = [p]) ∧
      WholeOrNothing shortResponse
        (run http1Step (stateAfter []) [⟨.idle, none, {}, shortResponse.bytes⟩]).2.flatten := by
  obtain ⟨-, hcall, hblock⟩ := header_accumulation []
  have hbetween : Between false (stateAfter []) 0 := between_idle (wf_stateAfter []) rfl
  refine ⟨((hcall ⟨.idle, none, {}, shortResponse.bytes⟩ HttpEnv.idle_allocSucceeds).mpr ?_).1,
    hblock shortResponse false _ [] hbetween (by decide) ?_ (by simp)⟩
  · decide
  · simp only [mem_singleton, forall_eq]
    decide

def longStart (n : ℕ) : List UInt8 := httpStart ++ List.replicate n 0x61

theorem longStart_no_end : ¬ httpEnd <:+: longStart n := by
  have hstart : ∀ x ∈ httpStart, x ≠ 0x0D := by simp [httpStart]
  refine no_end_of_ne fun x hx => ?_
  rcases mem_append.mp hx with hx | hx
  · exact hstart x hx
  · rw [eq_of_mem_replicate hx]
    decide

def longBlock (n : ℕ) (lines : List (List UInt8)) (no_end : ∀ l ∈ lines, ¬ httpEnd <:+: l)
    (nonempty : ∀ l ∈ lines, l ≠ []) : HeaderBlock where
  start := longStart n
  lines := lines
  start_http := (prefix_append _ _).isInfix
  no_end := by
    intro l hl
    rcases mem_cons.mp hl with rfl | hl
    · exact longStart_no_end n
    · exact no_end l hl
  nonempty := nonempty

theorem longBlock_header {lines : List (List UInt8)} (h : ∀ l ∈ lines, ¬ httpEnd <:+: l)
    (h' : ∀ l ∈ lines, l ≠ []) :
    (longBlock n lines h h').header = longStart n ++ (httpEnd ++ encode lines) :=
  encode_cons (longStart n) lines

def fullBlock : HeaderBlock := longBlock 16377 [] (by simp) (by simp)

theorem length_longStart : (longStart n).length = n + 5 := by
  rw [longStart, length_append, length_replicate]
  exact Nat.add_comm _ _

theorem headersEnd_block (henv : env.AllocSucceeds) (b : HeaderBlock)
    (hlen : b.header.length ≤ maxHdrAlloc) (httpId : HttpId) :
    ∃ st, headersEnd env (stateAfter []) b.bytes httpId = some (st, httpEnd) ∧
      st.hdr = b.header := by
  have hmax : maxHdrAlloc + 2 < 2 ^ 31 := by decide
  have hbl := block_bytes_length b
  have hbytes : b.bytes = encode (b.start :: b.lines) ++ (httpEnd ++ []) := by
    rw [append_nil]
    rfl
  obtain ⟨x, y, hxy, hx⟩ := block_start b []
  rw [append_nil] at hxy
  obtain ⟨j, hj⟩ : ∃ j, searchExec gHttpStart b.bytes (cInt b.bytes.length) = some j := by
    rw [hxy]
    refine searchStart_some ?_
    rw [← hxy, cInt_of_lt (by omega)]
    omega
  have hs : Scanning (startHeader (stateAfter []) httpId) (b.start :: b.lines) :=
    startHeader_scanning (.inl rfl) httpId b
  obtain ⟨st, hcol, -, hloop⟩ := headerLoop_complete henv [] (b.start :: b.lines)
    (startHeader (stateAfter []) httpId) (b.bytes.length + 1) hs
    (by rw [← hbytes]; exact Nat.lt_succ_self _)
    (by
      show 0 + b.header.length ≤ maxHdrAlloc
      omega)
    (by
      rw [← hbytes, cInt_of_lt (by omega)]
      show (b.header.length + 2 : ℤ) ≤ _
      omega)
  have hnone : (stateAfter []).state = .httpNone := rfl
  refine ⟨st, ?_, hcol.hdr⟩
  rw [← hbytes] at hloop
  rw [headersEnd, if_neg (fun h => h.1 hnone), if_neg (by decide), findHeadersEnd, if_pos hnone, hj]
  change parseHeadersEnd env (startHeader (stateAfter []) httpId) b.bytes = _
  rw [parseHeadersEnd, hloop, append_nil]

def tornBlock : HeaderBlock := longBlock 16380 [httpStart] (by decide) (by decide)

def tornBuffers : List Arrival :=
  [⟨.idle, none, {}, longStart 16380⟩,
    ⟨.idle, none, {}, httpEnd ++ (httpStart ++ (httpEnd ++ httpEnd))⟩]

theorem http1Step_longStart {n : ℕ} (hn : maxHdrAlloc < n + 5) (hlt : n + 5 < 2 ^ 31) :
    http1Step { version := 1 } ⟨.idle, none, {}, longStart n⟩ = ({ version := 1 }, []) := by
  have hlen := length_longStart n
  have hfind : findHeaders .idle { version := 1 } (longStart n) {} =
      parseHeaders .idle (startHeader { version := 1 } {}) (longStart n) := by
    refine @findHeaders_start { version := 1 } .idle rfl [] (replicate n 0x61) {} ?_
    change ((0 : ℕ) + 5 : ℤ) ≤ cInt (longStart n).length
    rw [hlen, cInt_of_lt hlt]
    omega
  have hloop := @headerLoop_no_line (startHeader { version := 1 } {}) .idle (longStart n) (.inl rfl)
    (ne_nil_of_length_pos (by omega)) (searchEnd_none (longStart_no_end n)) (longStart n).length
  have hover := appendHeader_overflow .idle
    (setHttpState (startHeader { version := 1 } {}) .httpHdr)
    (longStart n) (.inl rfl) (by
      omega)
  rw [http1Step, parseHttp1, if_neg (fun h => h.1 rfl), if_neg (by decide), hfind, parseHeaders]
  rw [hloop, hover]
  rfl

/-- **A header of exactly 16384 bytes** is found, and there is no text and no event. **The rest of
a header that does not fit** is reported when it holds `HTTP/`. -/
theorem header_accumulation_full : fullBlock.header.length = 16384 ∧
      (parseHttp1 .idle (stateAfter []) fullBlock.bytes {}).found = true ∧
      (parseHttp1 .idle (stateAfter []) fullBlock.bytes {}).posts = [] ∧
      (∃ e ∈ headersEnd .idle (stateAfter []) fullBlock.bytes {}, headerText .idle e.1 = []) ∧
      (tornBuffers.map Arrival.buf).flatten = tornBlock.bytes ∧
      ∃ p, (run http1Step (stateAfter []) tornBuffers).2.flatten = [p] ∧
        p.data.hdr = httpEnd ++ (httpStart ++ httpEnd) ++ [0] := by
  have hlen : fullBlock.header.length = maxHdrAlloc := by
    rw [fullBlock, longBlock_header, length_line, length_longStart]
    rfl
  obtain ⟨st, hend, hhdr⟩ := headersEnd_block HttpEnv.idle_allocSucceeds fullBlock hlen.le {}
  obtain ⟨hparse, hroom, -⟩ := (parseHttp1_ends (room_stateAfter []) .idle fullBlock.bytes {}).some
    st httpEnd hend
  obtain ⟨htext, hposts⟩ := endOfHeaders_full .idle hroom (by rw [hhdr]; exact hlen) httpEnd
  have htorn : (tornBuffers.map Arrival.buf).flatten = tornBlock.bytes := by
    rw [HeaderBlock.bytes, tornBlock, longBlock_header, tornBuffers]
    simp [encode]
  have hfirst := @http1Step_longStart 16380 (by decide) (by decide)
  have hsecond : (http1Step { version := 1 } ⟨.idle, none, {}, httpEnd ++ (httpStart ++
      (httpEnd ++ httpEnd))⟩).2.map (fun p => p.data.hdr) =
        [httpEnd ++ (httpStart ++ httpEnd) ++ [0]] := by
    decide +kernel
  refine ⟨hlen, by rw [hparse], by rw [hparse]; exact hposts, ⟨_, hend, htext⟩, htorn, ?_⟩
  obtain ⟨p, hp, hphdr⟩ := map_eq_singleton_iff.mp hsecond
  refine ⟨p, ?_, hphdr⟩
  have hinit : stateAfter [] = { version := 1 } := rfl
  rw [hinit, tornBuffers, run_cons, hfirst, run_cons, flatten_cons, flatten_cons, hp]
  rfl

end AppView.Http
