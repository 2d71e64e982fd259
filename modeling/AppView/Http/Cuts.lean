import AppView.Http.Attribution
import AppView.Http.Bodies

/-!
# Cuts inside the markers of an HTTP/1 header

`parseHttp1` looks for `HTTP/` and for the line ends in one buffer at a time. Behind the last
line the blank line is taken for the end of a line, and the header is never reported.
**`delicate_cut`** says that these are all the cases.
-/

namespace AppView.Http

open AppView.Framework List

/-! ## The cuts -/

inductive DelicateCut (b : HeaderBlock) (x y : List UInt8) : Prop
  | marker (p q : List UInt8) (bytes : x ++ y = b.bytes) (start : b.start = p ++ (httpStart ++ q))
      (first : ¬ httpStart <:+: p ++ httpStart.dropLast)
      (inside : x.length < p.length + httpStart.length)
  | lineEnd (bytes : x ++ y = b.bytes) (cr : x.getLast? = some 0x0D) (lf : y.head? = some 0x0A)

def InnerLineEnd (b : HeaderBlock) (x y : List UInt8) : Prop :=
  ∃ before line after, b.start :: b.lines = before ++ line :: after ∧ after ≠ [] ∧
    x = encode before ++ (line ++ [0x0D]) ∧ y = 0x0A :: (encode after ++ httpEnd)

theorem encode_append (ls ms : List (List UInt8)) : encode (ls ++ ms) = encode ls ++ encode ms := by
  simp [encode]

variable {ls : List (List UInt8)} {b : HeaderBlock} {st : HttpState} {env : HttpEnv}
    {buf : List UInt8} {httpId : HttpId} {states : HttpDirection → HttpState} {ssl : Bool}
    {first second : Handed}

theorem line_end_cut (hls : ∀ l ∈ ls, ¬ httpEnd <:+: l) {x y : List UInt8}
    (hbytes : x ++ y = encode ls ++ httpEnd) (hcr : x.getLast? = some 0x0D)
    (hlf : y.head? = some 0x0A) :
    (∃ before line after, ls = before ++ line :: after ∧ x = encode before ++ (line ++ [0x0D]) ∧
        y = 0x0A :: (encode after ++ httpEnd)) ∨
      (x = encode ls ++ [0x0D] ∧ y = [0x0A]) := by
  induction ls generalizing x with
  | nil =>
    rw [encode_nil, nil_append] at hbytes
    match x with
    | [] => simp at hcr
    | [c] =>
      simp only [httpEnd, cons_append, nil_append, cons.injEq] at hbytes
      exact .inr ⟨by rw [hbytes.1]; rfl, hbytes.2⟩
    | c :: d :: x =>
      simp only [httpEnd, cons_append, cons.injEq, append_eq_nil_iff] at hbytes
      rw [hbytes.2.2.2] at hlf
      cases hlf
  | cons l ls ih =>
    rw [encode_cons_append] at hbytes
    rcases line_cut hbytes with ⟨p, hl, hy⟩ | ⟨hx, hy⟩ | ⟨x', hx, hrest⟩
    · -- inside the line there is no line end, and before the CR there is no LF
      exfalso
      obtain ⟨x', rfl⟩ := getLast?_eq_some_iff.mp hcr
      cases p with
      | nil =>
        rw [hy] at hlf
        cases hlf
      | cons c p =>
        rw [hy] at hlf
        obtain rfl : c = 0x0A := Option.some.inj hlf
        refine hls l mem_cons_self ⟨x', p, ?_⟩
        rw [hl]
        simp [httpEnd]
    · exact .inl ⟨[], l, ls, rfl, hx, hy⟩
    · have hne : x' ≠ [] := by
        rintro rfl
        rw [hx] at hcr
        simp [httpEnd] at hcr
      have hcr' : x'.getLast? = some 0x0D := by
        rw [hx, ← append_assoc, getLast?_append_of_ne_nil _ hne] at hcr
        exact hcr
      rcases ih (forall_mem_cons.1 hls).2 hrest hcr' with
        ⟨before, line, after, rfl, hx', hy⟩ | ⟨hx', hy⟩
      · refine .inl ⟨l :: before, line, after, rfl, ?_, hy⟩
        rw [hx, hx', encode_cons_append]
      · refine .inr ⟨?_, hy⟩
        rw [hx, hx', encode_cons_append]

theorem no_start_of_inside {p q x t : List UInt8}
    (hfirst : ¬ httpStart <:+: p ++ httpStart.dropLast)
    (hx : x <+: p ++ (httpStart ++ q) ++ t) (hinside : x.length < p.length + httpStart.length) :
    ¬ httpStart <:+: x := by
  intro h
  refine hfirst (h.trans (IsPrefix.isInfix ?_))
  have hsplit : p ++ (httpStart ++ q) ++ t = p ++ httpStart.dropLast ++ (0x2F :: (q ++ t)) := by
    simp [httpStart]
  rw [hsplit] at hx
  refine prefix_of_prefix_length_le hx (prefix_append _ _) ?_
  have hfive : httpStart.length = 5 := rfl
  rw [length_append, length_dropLast]
  omega

theorem start_of_lines {before after : List (List UInt8)} {line : List UInt8}
    (hlines : b.start :: b.lines = before ++ line :: after) (t : List UInt8) :
    httpStart <:+: encode before ++ (line ++ t) := by
  refine b.start_http.trans ?_
  cases before with
  | nil =>
    obtain ⟨hstart, -⟩ := cons.inj hlines
    rw [hstart, encode_nil, nil_append]
    exact (prefix_append _ _).isInfix
  | cons l before =>
    obtain ⟨hstart, -⟩ := cons.inj hlines
    rw [hstart, encode_cons, append_assoc]
    exact (prefix_append _ _).isInfix

theorem no_end_concat_cr {l : List UInt8} (h : ¬ httpEnd <:+: l) : ¬ httpEnd <:+: l ++ [0x0D] := by
  intro hin
  rcases infix_concat_iff.mp hin with ⟨t, ht⟩ | hl
  · have hlast := congrArg getLast? ht
    simp [httpEnd] at hlast
  · exact h hl

/-! ## Buffers of a connection that is known to be HTTP/1 -/

structure SameFlags (st st' : HttpState) : Prop where
  version : st'.version = st.version
  isResponse : st'.isResponse = st.isResponse
  hasUpgrade : st'.hasUpgrade = st.hasUpgrade
  hasConnectionUpgrade : st'.hasConnectionUpgrade = st.hasConnectionUpgrade

theorem SameFlags.refl (st : HttpState) : SameFlags st st := ⟨rfl, rfl, rfl, rfl⟩

theorem SameFlags.trans {st' st'' : HttpState} (h : SameFlags st st') (h' : SameFlags st' st'') :
    SameFlags st st'' :=
  ⟨h'.version.trans h.version, h'.isResponse.trans h.isResponse,
    h'.hasUpgrade.trans h.hasUpgrade, h'.hasConnectionUpgrade.trans h.hasConnectionUpgrade⟩

theorem sameFlags_setHttpState (st : HttpState) (s : HttpEnum) :
    SameFlags st (setHttpState st s) := by
  cases s <;> exact ⟨rfl, rfl, rfl, rfl⟩

theorem sameFlags_appendHeader (env : HttpEnv) (st : HttpState) (bs : List UInt8) :
    SameFlags st (appendHeader env st bs) := by
  rcases appendHeader_or env st bs with h | ⟨a, h⟩
  · rw [h]
    exact sameFlags_setHttpState st .httpNone
  · rw [h]
    exact ⟨rfl, rfl, rfl, rfl⟩

theorem sameFlags_headerLoop (env : HttpEnv) (fuel : ℕ) (st : HttpState) (rest : List UInt8) :
    SameFlags st (headerLoop env fuel st rest).1 :=
  headerLoop_invariant (I := SameFlags st)
    (fun st' s bs h _ _ => h.trans ((sameFlags_setHttpState st' s).trans
      (sameFlags_appendHeader env _ bs))) (.refl st) fuel rest

theorem sameFlags_parseHeaders (h : (parseHeaders env st buf).found = false) :
    SameFlags st (parseHeaders env st buf).state := by
  have hloop := sameFlags_headerLoop env (buf.length + 1) st buf
  rw [parseHeaders] at h ⊢
  split at h
  · rename_i heq
    rw [heq] at hloop
    exact hloop
  · cases h

theorem sameFlags_parseHttp1 (h : (parseHttp1 env st buf httpId).found = false) :
    SameFlags st (parseHttp1 env st buf httpId).state := by
  rcases parseHttp1_cases st buf httpId with ⟨st', hno, hparse⟩ | ⟨st', part, hfrom, hparse⟩
  · rw [hparse]
    cases hno <;> exact ⟨rfl, rfl, rfl, rfl⟩
  · rw [hparse] at h ⊢
    have hfirst : SameFlags st st' := by
      cases hfrom <;> exact ⟨rfl, rfl, rfl, rfl⟩
    exact hfirst.trans (sameFlags_parseHeaders h)

structure Http1Idle (ssl : Bool) (st : HttpState) : Prop where
  version : st.version = 1
  between : Between ssl st 0
  noUpgrade : (st.isResponse && st.hasUpgrade && st.hasConnectionUpgrade) = false

def Handed.arrival (b : Handed) : Arrival := ⟨b.env, some b.net, b.httpId, b.buf⟩

theorem bufferStep_posts {b : Handed} (hversion : (states (directionOf b.src)).version = 1) :
    (bufferStep states b).2 = (http1Step (states (directionOf b.src)) b.arrival).2 := by
  have hd : (if isSend b.src then HttpDirection.httpTx else .httpRx) = directionOf b.src := rfl
  rw [bufferStep, doHttpBuffer]
  simp only [hd]
  rw [if_neg (by rw [hversion]; decide), doHttpVersion, if_pos hversion]
  dsimp only
  split_ifs <;> rfl

theorem bufferStep_state {b : Handed} (hidle : Http1Idle ssl (states (directionOf b.src)))
    (hfound : (parseHttp1 b.env (states (directionOf b.src)) b.buf b.httpId).found = false) :
    (bufferStep states b).1 (directionOf b.src) =
        (http1Step (states (directionOf b.src)) b.arrival).1 ∧
      ((bufferStep states b).1 (directionOf b.src)).version = 1 := by
  have hd : (if isSend b.src then HttpDirection.httpTx else .httpRx) = directionOf b.src := rfl
  have hflags := sameFlags_parseHttp1 hfound
  have hno := hidle.noUpgrade
  rw [← hflags.isResponse, ← hflags.hasUpgrade, ← hflags.hasConnectionUpgrade] at hno
  have hstate : (bufferStep states b).1 = Function.update states (directionOf b.src)
      (http1Step (states (directionOf b.src)) b.arrival).1 := by
    rw [bufferStep, doHttpBuffer]
    simp only [hd]
    rw [if_neg (by rw [hidle.version]; decide), doHttpVersion, if_pos hidle.version]
    dsimp only
    rw [hno]
    rfl
  rw [hstate, Function.update_self]
  exact ⟨rfl, hflags.version.trans hidle.version⟩

/-! ## Two buffers -/

theorem headerLoop_piece (henv : env.AllocSucceeds) {piece : List UInt8} (hne : piece ≠ [])
    (hpiece : ¬ httpEnd <:+: piece) {more : List (List UInt8)} (ls : List (List UInt8)) :
    ∀ (st : HttpState) (fuel : ℕ), Scanning st (ls ++ more) → (encode ls ++ piece).length < fuel →
      st.hdr.length + (encode ls ++ piece).length ≤ maxHdrAlloc →
      ∃ st', Collected st st' (encode ls ++ piece) ∧ st'.state = .httpHdr ∧
        headerLoop env fuel st (encode ls ++ piece) = (st', none) := by
  induction ls with
  | nil =>
    intro st fuel hs hfuel hlen
    obtain ⟨fuel, rfl⟩ : ∃ k, fuel = k + 1 := ⟨fuel - 1, by omega⟩
    rw [encode_nil, nil_append] at hlen ⊢
    obtain ⟨hcol, hstate⟩ :=
      appendHeader_fits henv (setHttpState st .httpHdr) piece hs.alloc hlen
    exact ⟨_, ⟨hcol.hdr, hcol.alloc, hcol.id⟩, hstate,
      headerLoop_no_line hs.inHeader hne (searchEnd_none hpiece) fuel⟩
  | cons l ls ih =>
    intro st fuel hs hfuel hlen
    obtain ⟨fuel, rfl⟩ : ∃ k, fuel = k + 1 := ⟨fuel - 1, by omega⟩
    have hmax : maxHdrAlloc < 2 ^ 31 := by decide
    have hll := length_line l (encode ls ++ piece)
    rw [encode_cons_append] at hfuel hlen ⊢
    have hline : (l.length + 2 : ℤ) ≤ cInt (l ++ (httpEnd ++ (encode ls ++ piece))).length := by
      rw [cInt_of_lt (by omega)]
      omega
    obtain ⟨st1, hcol1, hs1, hloop1⟩ := headerLoop_line henv hs (by omega) hline fuel
    have hhdr1 : st1.hdr.length = st.hdr.length + (l.length + 2) := by
      rw [hcol1.hdr, length_append, length_append]
      rfl
    obtain ⟨st2, hcol2, hstate2, hloop2⟩ := ih st1 fuel hs1 (by omega) (by omega)
    refine ⟨st2, ?_, hstate2, hloop1.trans hloop2⟩
    have hcol := hcol1.trans hcol2
    rwa [append_assoc] at hcol

theorem parseHttp1_piece (hst : Between ssl st 0) (henv : env.AllocSucceeds)
    (hssl : httpId.isSsl = ssl) {more : List (List UInt8)}
    (hlines : b.start :: b.lines = ls ++ more) {piece : List UInt8} (hne : piece ≠ [])
    (hpiece : ¬ httpEnd <:+: piece) (hstart : httpStart <:+: encode ls ++ piece)
    (hlen : (encode ls ++ piece).length ≤ maxHdrAlloc) :
    ∃ st', parseHttp1 env st (encode ls ++ piece) httpId = ⟨st', [], false⟩ ∧
      st'.hdr = encode ls ++ piece ∧ HdrallocOk st'.hdralloc ∧ st'.state = .httpHdr ∧
      st'.id.isSsl = ssl := by
  obtain ⟨x, y, hxy⟩ := hstart
  rw [append_assoc] at hxy
  obtain ⟨st₀, hwf, hnone, hparse⟩ := parseHttp1_beyond (x := []) hst env hssl
    (y := encode ls ++ piece) (by simp [hne])
  have hs : Scanning (startHeader st₀ httpId) (ls ++ more) :=
    hlines ▸ startHeader_scanning hwf.alloc httpId b
  obtain ⟨hhdr, -⟩ := hwf.idle hnone
  have hhdr' : (startHeader st₀ httpId).hdr = [] := hhdr
  obtain ⟨st', hcol, hstate, hloop⟩ := headerLoop_piece henv hne hpiece ls
    (startHeader st₀ httpId) ((encode ls ++ piece).length + 1) hs (Nat.lt_succ_self _)
    (by rw [hhdr', length_nil, Nat.zero_add]; exact hlen)
  have hmax : maxHdrAlloc < 2 ^ 31 := by decide
  have hfive : httpStart.length = 5 := rfl
  have hwin : (x.length + 5 : ℤ) ≤ cInt (x ++ (httpStart ++ y)).length := by
    rw [hxy, cInt_of_lt (by omega), ← hxy, length_append, length_append]
    omega
  have hfind := findHeaders_start env hnone httpId hwin
  rw [hxy] at hfind
  refine ⟨st', ?_, by rw [hcol.hdr, hhdr', nil_append], hcol.alloc, hstate, ?_⟩
  · rw [← nil_append (encode ls ++ piece), hparse, hfind, parseHeaders, hloop]
  · rw [hcol.id]
    exact hssl

theorem scanning_lf (halloc : HdrallocOk st.hdralloc) (hstate : st.state = .httpHdr)
    {l : List UInt8} (hno : ∀ m ∈ l :: ls, ¬ httpEnd <:+: m) (hne : ∀ m ∈ ls, m ≠ []) :
    Scanning st ((0x0A :: l) :: ls) := by
  refine ⟨halloc, ?_, .inr ⟨hstate, _, ls, rfl, hne⟩⟩
  intro m hm
  rcases mem_cons.mp hm with rfl | hm
  · intro h
    rcases infix_cons_iff.mp h with hpre | hin
    · obtain ⟨t, ht⟩ := hpre
      simp [httpEnd] at ht
    · exact hno l mem_cons_self hin
  · exact hno m (mem_cons_of_mem _ hm)

theorem parseHttp1_lf (henv : env.AllocSucceeds) (halloc : HdrallocOk st.hdralloc)
    (hstate : st.state = .httpHdr) (hssl : st.id.isSsl = httpId.isSsl)
    (hno : ∀ l ∈ ls, ¬ httpEnd <:+: l) (hne : ∀ l ∈ ls, l ≠ [])
    (hlen : st.hdr.length + (encode ls).length + 3 ≤ maxHdrAlloc) :
    (parseHttp1 env st (0x0A :: (encode ls ++ httpEnd)) httpId).posts =
      if ls = [] then []
      else [headerEvent env st.id (st.hdr ++ (0x0A :: encode ls) ++ [0])] := by
  have hmax : maxHdrAlloc + 4 < 2 ^ 31 := by decide
  cases ls with
  | nil =>
    -- the blank line is taken for the end of a line that holds the LF
    have hs : Scanning st [[0x0A]] := scanning_lf halloc hstate (by simp [httpEnd]) (by simp)
    have hlen' : st.hdr.length + (([0x0A] : List UInt8).length + 2) ≤ maxHdrAlloc := by
      simpa using hlen
    obtain ⟨st', -, -, hloop⟩ := headerLoop_line (t := []) henv hs hlen' (by decide) 3
    have hdone : headerLoop env 3 st' [] = (st', none) := by simp [headerLoop]
    rw [parseHttp1_scanning env hs httpId hssl, if_pos rfl]
    show (parseHeaders env st ([0x0A] ++ (httpEnd ++ []))).posts = []
    have hfuel : (([0x0A] : List UInt8) ++ (httpEnd ++ [])).length + 1 = 3 + 1 := rfl
    rw [parseHeaders, hfuel, hloop, hdone]
  | cons l ls =>
    have hs : Scanning st ((0x0A :: l) :: ls) :=
      scanning_lf halloc hstate hno (forall_mem_cons.1 hne).2
    have hbytes : (0x0A : UInt8) :: encode (l :: ls) = encode ((0x0A :: l) :: ls) := by
      rw [encode_cons, encode_cons, cons_append]
    have hcount : (encode ((0x0A :: l) :: ls)).length = (encode (l :: ls)).length + 1 := by
      rw [← hbytes, length_cons]
    have hll := length_line (encode ((0x0A :: l) :: ls)) []
    rw [length_nil] at hll
    obtain ⟨st', hcol, hparse⟩ := parseHeaders_complete henv hs [] (by omega) (by
      rw [cInt_of_lt (by omega)]
      omega)
    rw [append_nil] at hparse
    rw [parseHttp1_scanning env hs httpId hssl, if_neg (by simp), ← cons_append, hbytes, hparse]
    have hposts := (endOfHeaders_spec henv hcol.alloc (by
      rw [hcol.hdr, length_append]
      omega) httpEnd).1
    rw [hposts, hcol.hdr, hcol.id]

theorem parseHttp1_lf_only (hstate : st.state = .httpHdr) (hssl : st.id.isSsl = httpId.isSsl) :
    (parseHttp1 env st [0x0A] httpId).posts = [] := by
  have hsearch : searchExec gHttpEnd [0x0A] (cInt ([0x0A] : List UInt8).length) = none := by decide
  have hloop := @headerLoop_no_line st env [0x0A] (.inl hstate) (by simp) hsearch 1
  unfold parseHttp1 findHeaders parseHeaders
  rw [if_neg (fun h => h.2 hssl), if_neg (by rw [hstate]; decide), if_neg (by rw [hstate]; decide)]
  rw [show ([0x0A] : List UInt8).length + 1 = 1 + 1 from rfl, hloop]

theorem findHeaders_length (hwf : Wf st) (hnone : st.state = .httpNone) {p : ProtocolInfo}
    (hp : p ∈ (findHeaders env st buf httpId).posts) : p.data.hdr.length + 1 ≤ buf.length := by
  obtain ⟨hhdr, -⟩ := hwf.idle hnone
  rw [findHeaders, if_pos hnone] at hp
  cases hsearch : searchExec gHttpStart buf (cInt buf.length) with
  | none =>
    rw [hsearch] at hp
    cases hp
  | some j =>
    rw [hsearch] at hp
    change p ∈ (parseHeaders env (startHeader st httpId) buf).posts at hp
    have hkeep := @headerLoop_keeps _ (startHeader st httpId) env _ (Nat.lt_succ_self buf.length)
      (.inl rfl)
    rw [parseHeaders] at hp
    rcases hloop : headerLoop env (buf.length + 1) (startHeader st httpId) buf with ⟨st', _ | rest'⟩
    · rw [hloop] at hp
      cases hp
    · rw [hloop] at hp hkeep
      obtain ⟨hbytes, -⟩ := hkeep
      obtain ⟨hdr, -⟩ := endOfHeaders_post hp
      obtain ⟨-, t, ht⟩ := headerLoop_end hloop
      have htwo : httpEnd.length = 2 := rfl
      have hcount := congrArg length hbytes
      rw [show (startHeader st httpId).hdr = st.hdr from rfl, hhdr, ← ht, nil_append,
        length_append, length_append] at hcount
      rw [hdr, length_append, length_singleton]
      omega

theorem isSsl_of_src {h h' : Handed} (hsrc : h.src = h'.src) :
    h.httpId.isSsl = h'.httpId.isSsl := by
  simp [Handed.httpId, setHttpId, hsrc]

theorem run_whole (hsize : b.bytes.length ≤ 16383) {whole : Handed} (henv : whole.env.AllocSucceeds)
    (hidle : Http1Idle whole.httpId.isSsl (states (directionOf whole.src)))
    (hbuf : whole.buf = b.bytes) : (run bufferStep states [whole]).2.flatten =
      [headerEvent whole.env whole.httpId (b.header ++ [0])] := by
  have hbl := block_bytes_length b
  have hfit : b.header.length + 1 ≤ maxHdrAlloc := by
    show _ ≤ 16384
    omega
  obtain ⟨st, hwf, hnone, hparse⟩ := parseHttp1_beyond (x := []) hidle.between whole.env rfl
    (y := b.bytes ++ []) (by simp [HeaderBlock.bytes, httpEnd])
  obtain ⟨st', hhdr, hid, halloc, hfind⟩ := @findHeaders_block st whole.arrival [] b henv hwf hnone
    hfit (by rw [append_nil, cInt_of_lt (by omega)])
  have hposts := (endOfHeaders_spec henv halloc (by rwa [hhdr]) (httpEnd ++ [])).1
  have hstep : (http1Step (states (directionOf whole.src)) whole.arrival).2 =
      [headerEvent whole.env whole.httpId (b.header ++ [0])] := by
    rw [append_nil, nil_append] at hparse
    rw [append_nil] at hfind
    change (parseHttp1 whole.env _ whole.buf whole.httpId).posts = _
    rw [hbuf, hparse]
    change (findHeaders whole.arrival.env st b.bytes whole.arrival.httpId).posts = _
    rw [hfind]
    change (endOfHeaders whole.env st' (httpEnd ++ [])).2 = _
    rw [hposts, hhdr, hid]
    rfl
  rw [run_cons]
  show (bufferStep states whole).2 ++ [] = _
  rw [append_nil, bufferStep_posts hidle.version, hstep]

theorem run_two (hsrc : second.src = first.src)
    (hidle : Http1Idle ssl (states (directionOf first.src)))
    (hparse : parseHttp1 first.env (states (directionOf first.src)) first.buf first.httpId =
      ⟨st, [], false⟩) :
    (run bufferStep states [first, second]).2.flatten =
      (parseHttp1 second.env st second.buf second.httpId).posts := by
  obtain ⟨hstate, hversion⟩ := bufferStep_state hidle (by rw [hparse])
  have hst : (http1Step (states (directionOf first.src)) first.arrival).1 = st := by
    change (parseHttp1 first.env _ first.buf first.httpId).state = st
    rw [hparse]
  have hfirst : (bufferStep states first).2 = [] := by
    rw [bufferStep_posts hidle.version]
    change (parseHttp1 first.env _ first.buf first.httpId).posts = []
    rw [hparse]
  have hsecond := @bufferStep_posts (bufferStep states first).1 second
    (by rw [hsrc]; exact hversion)
  rw [run_cons, run_cons]
  show (bufferStep states first).2 ++ ((bufferStep (bufferStep states first).1 second).2 ++ []) = _
  rw [hfirst, hsecond, hsrc, hstate, hst, nil_append, append_nil]
  rfl

theorem findHeaders_pass (env : HttpEnv) (hnone : st.state = .httpNone)
    (hno : ¬ httpStart <:+: buf) (httpId : HttpId) :
    findHeaders env st buf httpId = ⟨st, [], false⟩ := by
  have hsearch : searchExec gHttpStart buf (cInt buf.length) = none := by
    refine (searchExec_eq_none httpStart_ne_nil (cInt_le _)).mpr fun k _ hocc => ?_
    exact hno (hocc.isInfix.trans (drop_suffix k buf).isInfix)
  rw [findHeaders, if_pos hnone, hsearch]

/-- **A cut before the end of the first `HTTP/` loses the first buffer.** -/
theorem marker_cut (hidle : Http1Idle first.httpId.isSsl (states (directionOf first.src)))
    (hsrc : second.src = first.src) (hfirst : first.buf ≠ []) (hsecond : second.buf ≠ [])
    (hbytes : first.buf ++ second.buf = b.bytes) (hno : ¬ httpStart <:+: first.buf)
    {p : ProtocolInfo} (hp : p ∈ (run bufferStep states [first, second]).2.flatten) :
    p.data.hdr ≠ b.header ++ [0] := by
  obtain ⟨st, hwf, hnone, hparse⟩ := parseHttp1_beyond (x := []) hidle.between first.env rfl hfirst
  rw [nil_append, findHeaders_pass first.env hnone hno] at hparse
  rw [run_two hsrc hidle hparse] at hp
  obtain ⟨st', hwf', hnone', hparse'⟩ :=
    parseHttp1_beyond (x := []) (between_idle hwf hnone) second.env rfl hsecond
  rw [nil_append] at hparse'
  rw [hparse'] at hp
  have hle := findHeaders_length hwf' hnone' hp
  have hbl := block_bytes_length b
  have hpos : 0 < first.buf.length := length_pos_iff.mpr hfirst
  rw [← hbytes, length_append] at hbl
  intro heq
  rw [heq, length_append, length_singleton] at hle
  omega

/-- **A cut between CR and LF** posts the header if a line follows, and nothing otherwise. -/
theorem lineEnd_cut (hsize : b.bytes.length ≤ 16383)
    (hidle : Http1Idle first.httpId.isSsl (states (directionOf first.src)))
    (hsrc : second.src = first.src) (henv : first.env.AllocSucceeds)
    (henv' : second.env.AllocSucceeds) (hbytes : first.buf ++ second.buf = b.bytes)
    (hcr : first.buf.getLast? = some 0x0D) (hlf : second.buf.head? = some 0x0A) :
    (InnerLineEnd b first.buf second.buf ∧ ∃ id, (run bufferStep states [first, second]).2.flatten =
          [headerEvent second.env id (b.header ++ [0])]) ∨
      (¬ InnerLineEnd b first.buf second.buf ∧
        (run bufferStep states [first, second]).2.flatten = []) := by
  have hmax : maxHdrAlloc = 16384 := rfl
  have hcount := congrArg length hbytes
  rw [length_append] at hcount
  rcases line_end_cut b.no_end hbytes hcr hlf with
    ⟨before, line, after, hlines, hx, hy⟩ | ⟨hx, hy⟩
  · have hno : ∀ l ∈ before ++ line :: after, ¬ httpEnd <:+: l := hlines ▸ b.no_end
    have hafter : ∀ l ∈ after, l ≠ [] := by
      intro l hl
      refine b.nonempty l ?_
      cases before with
      | nil =>
        obtain ⟨-, rfl⟩ := cons.inj hlines
        exact hl
      | cons m before =>
        obtain ⟨-, hrest⟩ := cons.inj hlines
        rw [hrest]
        simp [hl]
    obtain ⟨st, hparse, hhdr, halloc, hstate, hssl⟩ := parseHttp1_piece hidle.between henv rfl
      hlines (by simp) (no_end_concat_cr (hno line (by simp))) (start_of_lines hlines [0x0D])
      (by rw [← hx]; omega)
    rw [← hx] at hparse hhdr
    rw [hy, length_cons, length_append, show httpEnd.length = 2 from rfl] at hcount
    have hposts := parseHttp1_lf henv' halloc hstate (hssl.trans (isSsl_of_src hsrc).symm)
      (fun l hl => hno l (by simp [hl])) hafter (by rw [hhdr]; omega)
    rw [← hy, ← run_two hsrc hidle hparse] at hposts
    rw [hposts]
    split_ifs with hnil
    · refine .inr ⟨?_, rfl⟩
      -- the lines behind the cut are read off the second buffer
      rintro ⟨before', line', after', -, hne, -, hy'⟩
      obtain ⟨l, after', rfl⟩ := exists_cons_of_ne_nil hne
      have hcount' := congrArg length (hy.symm.trans hy')
      have htwo : httpEnd.length = 2 := rfl
      rw [hnil, encode_cons] at hcount'
      simp only [encode_nil, nil_append, length_cons, length_append] at hcount'
      omega
    · refine .inl ⟨⟨before, line, after, hlines, hnil, hx, hy⟩, st.id, ?_⟩
      rw [hhdr, hx, HeaderBlock.header, hlines, encode_append, encode_cons]
      simp [httpEnd]
  · obtain ⟨st, hparse, -, -, hstate, hssl⟩ :=
      @parseHttp1_piece (b.start :: b.lines) b _ _ _ _ hidle.between henv rfl
      [] (append_nil _).symm [0x0D] (by simp) (by decide)
      (by
        have hstart := @start_of_lines b [] b.lines b.start rfl
          (httpEnd ++ (encode b.lines ++ [0x0D]))
        rw [encode_cons_append]
        exact hstart)
      (by rw [← hx]; omega)
    rw [← hx] at hparse
    have hposts := @parseHttp1_lf_only st second.env second.httpId hstate
      (hssl.trans (isSsl_of_src hsrc).symm)
    rw [← hy, ← run_two hsrc hidle hparse] at hposts
    refine .inr ⟨?_, hposts⟩
    rintro ⟨before, line, after, -, -, -, hy'⟩
    rw [hy] at hy'
    simp [httpEnd] at hy'

/-- **Delicate cuts.** A block in two buffers, cut before or inside `HTTP/` or inside a line end,
on a direction that is known to be HTTP/1: the event of the whole block is posted if and only if
the cut is in the line end of a line that another one follows. -/
theorem delicate_cut (b : HeaderBlock) (hsize : b.bytes.length ≤ 16383)
    {states : HttpDirection → HttpState} {whole first second : Handed}
    (hidle : Http1Idle whole.httpId.isSsl (states (directionOf whole.src)))
    (hsrc : first.src = whole.src ∧ second.src = whole.src)
    (henv : ∀ h ∈ [whole, first, second], h.env.AllocSucceeds)
    (hwhole : whole.buf = b.bytes) (hfirst : first.buf ≠ []) (hsecond : second.buf ≠ [])
    (hcut : DelicateCut b first.buf second.buf) :
    ∃ q, (run bufferStep states [whole]).2.flatten = [q] ∧ q.data.hdr = b.header ++ [0] ∧
      ((∃ p, (run bufferStep states [first, second]).2.flatten = [p] ∧
          p.data.hdr = q.data.hdr) ↔ InnerLineEnd b first.buf second.buf) := by
  refine ⟨_, run_whole hsize (henv whole (by simp)) hidle hwhole, rfl, ?_⟩
  have hsrc' : second.src = first.src := hsrc.2.trans hsrc.1.symm
  have hidle' : Http1Idle first.httpId.isSsl (states (directionOf first.src)) := by
    rw [isSsl_of_src hsrc.1, hsrc.1]
    exact hidle
  rcases hcut with ⟨p, q, hbytes, hstart, hone, hinside⟩ | ⟨hbytes, hcr, hlf⟩
  · have hno : ¬ httpStart <:+: first.buf := by
      refine no_start_of_inside (q := q) (t := httpEnd ++ (encode b.lines ++ httpEnd)) hone ?_
        hinside
      refine ⟨second.buf, ?_⟩
      rw [hbytes, ← hstart, HeaderBlock.bytes, HeaderBlock.header, encode_cons]
      simp
    constructor
    · rintro ⟨p, hposts, hhdr⟩
      exact absurd hhdr (marker_cut hidle' hsrc' hfirst hsecond hbytes hno (by simp [hposts]))
    · rintro ⟨before, line, after, hlines, -, hx, -⟩
      rw [hx] at hno
      exact absurd (start_of_lines hlines [0x0D]) hno
  · rcases lineEnd_cut hsize hidle' hsrc' (henv first (by simp)) (henv second (by simp)) hbytes hcr
      hlf with ⟨hinner, id, hposts⟩ | ⟨hinner, hposts⟩
    · exact ⟨fun _ => hinner, fun _ => ⟨_, hposts, rfl⟩⟩
    · refine ⟨?_, fun h => absurd h hinner⟩
      rintro ⟨p, hp, -⟩
      rw [hposts] at hp
      cases hp

def received (buf : List UInt8) : Handed := ⟨.idle, {}, 0, .netrx, buf⟩

def http1States : HttpDirection → HttpState := fun _ => { version := 1 }

/-- The start line of the short response is cut inside its line end; a line follows. -/
theorem delicate_cut_start_line :
    ∃ q, (run bufferStep http1States [received shortResponse.bytes]).2.flatten = [q] ∧
      q.data.hdr = shortResponse.header ++ [0] ∧
      ∃ p, (run bufferStep http1States [received (shortResponse.start ++ [0x0D]),
          received (0x0A :: (encode shortResponse.lines ++ httpEnd))]).2.flatten = [p] ∧
        p.data.hdr = q.data.hdr := by
  have hinner : InnerLineEnd shortResponse (shortResponse.start ++ [0x0D])
      (0x0A :: (encode shortResponse.lines ++ httpEnd)) :=
    ⟨[], shortResponse.start, shortResponse.lines, rfl, by decide, rfl, rfl⟩
  obtain ⟨q, hwhole, hhdr, hiff⟩ := @delicate_cut shortResponse (by decide) http1States
    (received shortResponse.bytes) (received (shortResponse.start ++ [0x0D]))
    (received (0x0A :: (encode shortResponse.lines ++ httpEnd)))
    ⟨rfl, between_idle ⟨.inl rfl, fun _ => ⟨rfl, rfl⟩⟩ rfl, rfl⟩ ⟨rfl, rfl⟩
    (by simp [received, HttpEnv.idle_allocSucceeds]) rfl (by decide) (by decide)
    (.lineEnd (by decide) (by decide) (by decide))
  exact ⟨q, hwhole, hhdr, hiff.mpr hinner⟩

/-- **Cuts that lose the header.** The short response cut inside `HTTP/`, in the line end of its
last line, and in the blank line: no event, where the response in one buffer gives one. -/
theorem delicate_cut_lost : DelicateCut shortResponse [0x48, 0x54] (shortResponse.bytes.drop 2) ∧
      (run bufferStep http1States
        [received [0x48, 0x54], received (shortResponse.bytes.drop 2)]).2.flatten = [] ∧
      DelicateCut shortResponse (shortResponse.bytes.take 15) (shortResponse.bytes.drop 15) ∧
      (run bufferStep http1States [received (shortResponse.bytes.take 15),
        received (shortResponse.bytes.drop 15)]).2.flatten = [] ∧
      DelicateCut shortResponse (shortResponse.bytes.take 17) (shortResponse.bytes.drop 17) ∧
      (run bufferStep http1States [received (shortResponse.bytes.take 17),
        received (shortResponse.bytes.drop 17)]).2.flatten = [] ∧
      (run bufferStep http1States [received shortResponse.bytes]).2.flatten.length = 1 := by
  refine ⟨.marker [] [0x31, 0x20, 0x32] (by decide) rfl (by decide) (by decide), ?_,
    .lineEnd (by decide) (by decide) (by decide), ?_,
    .lineEnd (by decide) (by decide) (by decide), ?_, ?_⟩ <;> decide

end AppView.Http
