import AppView.Http.Segmentation

/-!
# HTTP/1 messages with a content length

Messages follow each other on one direction, each with its header block and a body of the
length its header announces.
-/

namespace AppView.Http

open AppView.Framework List

/-! ## Reading the content length -/

def decimal (n : ℕ) : List UInt8 :=
  if n = 0 then [48] else (Nat.digits 10 n).reverse.map fun d => (48 + d).toUInt8

theorem digit_toNat {d : ℕ} (hd : d < 10) : (48 + d).toUInt8.toNat = 48 + d := by
  rw [Nat.toUInt8, UInt8.toNat_ofNat']
  omega

theorem digitsVal_map {ds : List ℕ} (hds : ∀ d ∈ ds, d < 10) :
    digitsVal 10 (ds.reverse.map fun d => (48 + d).toUInt8) = Nat.ofDigits 10 ds := by
  induction ds with
  | nil => rfl
  | cons d ds ih =>
    have hd : d < 10 := hds d mem_cons_self
    have ih := ih (forall_mem_cons.1 hds).2
    unfold digitsVal at ih ⊢
    rw [reverse_cons, map_append, foldl_append, ih]
    simp only [map_cons, map_nil, foldl_cons, foldl_nil, digit_toNat hd, Nat.ofDigits_cons]
    omega

variable {n off p : ℕ} {ssl : Bool} {st : HttpState} {a : Arrival} {c : List UInt8}
    {as : List Arrival} {b : ℕ × Arrival}

theorem strtoull_decimal (hpos : 0 < n) (hlt : n < 2 ^ 64) : strtoull (decimal n) = n := by
  have hdec : decimal n =
      (Nat.digits 10 n).reverse.map fun d => (48 + d).toUInt8 := if_neg (by omega)
  have hlt10 : ∀ d ∈ Nat.digits 10 n, d < 10 := fun d hd =>
    Nat.digits_lt_base (by decide) hd
  have hne : Nat.digits 10 n ≠ [] := Nat.digits_ne_nil_iff_ne_zero.mpr (by omega)
  -- the first digit is not 0, so the number is read as decimal
  have hhead : (decimal n).head? ≠ some 48 := by
    rw [hdec, head?_map, head?_reverse, getLast?_eq_some_getLast hne]
    intro h
    have hlast := hlt10 _ (getLast_mem hne)
    have h48 := congrArg UInt8.toNat (Option.some.inj h)
    rw [digit_toNat hlast] at h48
    have hz : (Nat.digits 10 n).getLast hne = 0 := by
      simpa using h48
    exact Nat.getLast_digit_ne_zero 10 (by omega) hz
  have hall : (decimal n).takeWhile
      (fun d => decide (48 ≤ d.toNat ∧ d.toNat < 48 + 10)) = decimal n := by
    rw [takeWhile_eq_self_iff, hdec]
    intro x hx
    obtain ⟨d, hd, rfl⟩ := mem_map.mp hx
    have := hlt10 d (mem_reverse.mp hd)
    rw [digit_toNat this, decide_eq_true_eq]
    omega
  unfold strtoull
  simp only [if_neg hhead, hall]
  rw [hdec, digitsVal_map hlt10, Nat.ofDigits_digits]
  omega

/-! ## Messages -/

def clengthName : List UInt8 :=
  [0x43, 0x6F, 0x6E, 0x74, 0x65, 0x6E, 0x74, 0x2D, 0x4C, 0x65, 0x6E, 0x67, 0x74,
   0x68, 0x3A, 0x20]

structure Message where
  block : HeaderBlock
  body : List UInt8
  clength : clengthName ++ decimal body.length ∈ block.lines

def Message.bytes (m : Message) : List UInt8 := m.block.bytes ++ m.body

def ReadsLength (env : HttpEnv) (m : Message) : Prop :=
  env.clengthMatch (m.block.header ++ [0]) = some (decimal m.body.length)

theorem getContentLength_message {env : HttpEnv} {m : Message}
    (h : ReadsLength env m) (hlt : m.body.length < 2 ^ 63) :
    getContentLength env (m.block.header ++ [0]) =
      if m.body.length = 0 then none else some m.body.length := by
  unfold getContentLength
  rw [h]
  by_cases hz : m.body.length = 0
  · rw [hz]
    rfl
  · simp only [strtoull_decimal (Nat.pos_of_ne_zero hz) (by omega), if_neg hz]
    rw [if_neg (by omega)]

/-! ## Between two buffers -/

def Between (ssl : Bool) (st : HttpState) (r : ℕ) : Prop :=
  Wf st ∧ ((st.state = .httpNone ∧ r = 0) ∨
    (st.state = .httpData ∧ st.clen = r ∧ st.id.isSsl = ssl))

theorem between_idle (hwf : Wf st) (h : st.state = .httpNone) : Between ssl st 0 :=
  ⟨hwf, .inl ⟨h, rfl⟩⟩

theorem http1Step_inside {r : ℕ} (hst : Between ssl st r) (hssl : a.httpId.isSsl = ssl)
    (hne : a.buf ≠ []) (hle : a.buf.length ≤ r) :
    (http1Step st a).2 = [] ∧ Between ssl (http1Step st a).1 (r - a.buf.length) := by
  have hpos : 0 < a.buf.length := length_pos_iff.mpr hne
  obtain ⟨hwf, ⟨-, rfl⟩ | ⟨hdata, rfl, hid⟩⟩ := hst
  · omega
  have hskip : bytesToSkipForContentLength st a.buf.length =
      (a.buf.length, { st with clen := st.clen - a.buf.length }) := by
    unfold bytesToSkipForContentLength
    rw [if_neg (by omega), if_neg (by omega)]
  unfold http1Step parseHttp1
  rw [if_neg (fun h => h.2 (hid.trans hssl.symm)), if_pos hdata, hskip]
  simp only [if_true]
  refine ⟨trivial, ⟨hwf.alloc, fun h => ?_⟩, .inr ⟨hdata, rfl, hid⟩⟩
  exact absurd (hdata.symm.trans h) (by decide)

theorem parseHttp1_beyond {x y : List UInt8} (hst : Between ssl st x.length) (env : HttpEnv)
    {httpId : HttpId} (hssl : httpId.isSsl = ssl) (hy : y ≠ []) :
    ∃ st', Wf st' ∧ st'.state = .httpNone ∧
      parseHttp1 env st (x ++ y) httpId = findHeaders env st' y httpId := by
  have hpos : 0 < y.length := length_pos_iff.mpr hy
  obtain ⟨hwf, ⟨hnone, hx⟩ | ⟨hdata, hclen, hid⟩⟩ := hst
  · obtain rfl := length_eq_zero_iff.mp hx
    refine ⟨st, hwf, hnone, ?_⟩
    unfold parseHttp1
    rw [if_neg (fun h => h.1 hnone), if_neg (by rw [hnone]; decide), nil_append]
  · have hskip : (bytesToSkipForContentLength st (x ++ y).length).1 = x.length := by
      unfold bytesToSkipForContentLength
      split
      · omega
      · rw [if_pos (by rw [length_append]; omega)]
        exact hclen
    refine ⟨setHttpState (bytesToSkipForContentLength st (x ++ y).length).2 .httpNone,
      wf_none _, rfl, ?_⟩
    unfold parseHttp1
    rw [if_neg (fun h => h.2 (hid.trans hssl.symm)), if_pos hdata]
    simp only [hskip]
    rw [if_neg (by rw [length_append]; omega), drop_left]

theorem http1Step_beyond {x y : List UInt8} (hst : Between ssl st x.length)
    (hssl : a.httpId.isSsl = ssl) (hbuf : a.buf = x ++ y) (hy : y ≠ []) :
    ∃ st', Wf st' ∧ st'.state = .httpNone ∧
      http1Step st a = ((findHeaders a.env st' y a.httpId).state,
        (findHeaders a.env st' y a.httpId).posts) := by
  obtain ⟨st', hwf, hnone, hparse⟩ := parseHttp1_beyond hst a.env hssl hy
  refine ⟨st', hwf, hnone, ?_⟩
  unfold http1Step
  rw [hbuf, hparse]

/-! ## A header block and what follows it in the buffer -/

theorem block_start (b : HeaderBlock) (c : List UInt8) :
    ∃ x y, b.bytes ++ c = x ++ (httpStart ++ y) ∧ x.length + 5 ≤ b.bytes.length := by
  obtain ⟨x, y, hxy⟩ := b.start_http
  have hbytes : b.bytes = x ++ (httpStart ++ (y ++ (httpEnd ++ (encode b.lines ++ httpEnd)))) := by
    rw [HeaderBlock.bytes, HeaderBlock.header, encode_cons, ← hxy]
    simp
  refine ⟨x, y ++ (httpEnd ++ (encode b.lines ++ httpEnd)) ++ c, ?_, ?_⟩
  · rw [hbytes]
    simp
  · have hfive : httpStart.length = 5 := rfl
    rw [hbytes, length_append, length_append]
    omega

theorem block_bytes_length (b : HeaderBlock) : b.bytes.length = b.header.length + 2 := by
  rw [HeaderBlock.bytes, length_append]
  rfl

theorem findHeaders_block {b : HeaderBlock} (henv : a.env.AllocSucceeds) (hwf : Wf st)
    (hnone : st.state = .httpNone) (hfit : b.header.length + 1 ≤ maxHdrAlloc)
    (hcov : (b.bytes.length : ℤ) ≤ cInt (b.bytes ++ c).length) :
    ∃ st', st'.hdr = b.header ∧ st'.id = a.httpId ∧ HdrallocOk st'.hdralloc ∧
      findHeaders a.env st (b.bytes ++ c) a.httpId = ⟨(endOfHeaders a.env st' (httpEnd ++ c)).1,
          (endOfHeaders a.env st' (httpEnd ++ c)).2, true⟩ := by
  obtain ⟨hhdr, -⟩ := hwf.idle hnone
  have hbl := block_bytes_length b
  obtain ⟨x, y, hxy, hx⟩ := block_start b c
  have hfind : findHeaders a.env st (b.bytes ++ c) a.httpId =
      parseHeaders a.env (startHeader st a.httpId) (b.bytes ++ c) := by
    rw [hxy]
    exact findHeaders_start a.env hnone a.httpId (by rw [← hxy]; omega)
  have hs := startHeader_scanning hwf.alloc a.httpId b
  have hlen : (startHeader st a.httpId).hdr.length + b.header.length + 1 ≤
      maxHdrAlloc := by
    show st.hdr.length + b.header.length + 1 ≤ maxHdrAlloc
    rw [hhdr, length_nil]
    omega
  have hcut : b.bytes ++ c = b.header ++ (httpEnd ++ c) := by
    rw [HeaderBlock.bytes, append_assoc]
  rw [hcut] at hcov hfind ⊢
  obtain ⟨st', hcol, hph⟩ := parseHeaders_complete henv hs c hlen
    (show (b.header.length + 2 : ℤ) ≤ cInt (b.header ++ (httpEnd ++ c)).length by omega)
  refine ⟨st', ?_, hcol.id, hcol.alloc, hfind.trans hph⟩
  rw [hcol.hdr, show (startHeader st a.httpId).hdr = st.hdr from rfl, hhdr]
  rfl

/-- **A covered block is reported**, and the rest of its body is counted. -/
theorem findHeaders_covered {m : Message} (henv : a.env.AllocSucceeds)
    (hssl : a.httpId.isSsl = ssl) (hwf : Wf st) (hnone : st.state = .httpNone)
    (hread : ReadsLength a.env m) (hblock : m.block.bytes.length ≤ 16383)
    (hbody : m.body.length < 2 ^ 63) (hc : c.length ≤ m.body.length)
    (hcov : (m.block.bytes.length : ℤ) ≤ cInt (m.block.bytes ++ c).length) :
    (findHeaders a.env st (m.block.bytes ++ c) a.httpId).posts =
        [headerEvent a.env a.httpId (m.block.header ++ [0])] ∧
      Between ssl (findHeaders a.env st (m.block.bytes ++ c) a.httpId).state
        (m.body.length - c.length) := by
  have hbl := block_bytes_length m.block
  have hfit : m.block.header.length + 1 ≤ maxHdrAlloc := by
    show _ ≤ 16384
    omega
  obtain ⟨st', hhdr, hid, halloc, hparse⟩ :=
    findHeaders_block henv hwf hnone hfit hcov
  obtain ⟨hposts, hdata, hend⟩ := endOfHeaders_spec henv halloc (by rwa [hhdr]) (httpEnd ++ c)
  have htwo : (httpEnd ++ c).length - 2 = c.length := by
    have : (httpEnd ++ c).length = 2 + c.length := length_append
    omega
  rw [hhdr, htwo, getContentLength_message hread hbody] at hdata hend
  rw [hhdr, hid] at hposts
  rw [hparse]
  refine ⟨hposts, ?_⟩
  by_cases hz : m.body.length = 0
  · -- no content: the message ends here
    obtain ⟨st'', hst''⟩ := hend (by simp [hz])
    simp only [hst'']
    rw [show m.body.length - c.length = 0 by omega]
    exact between_idle (wf_none st'') rfl
  · obtain ⟨h1, h2, h3, h4⟩ := hdata m.body.length (by rw [if_neg hz]) hc
    refine ⟨⟨h4, fun h => ?_⟩, .inr ⟨h1, h2, ?_⟩⟩
    · exact absurd (h1.symm.trans h) (by decide)
    · rw [h3, hid]
      exact hssl

/-- **A block that is not covered is lost.** -/
theorem findHeaders_uncovered {b : HeaderBlock} (henv : a.env.AllocSucceeds) (hwf : Wf st)
    (hnone : st.state = .httpNone) (hfit : b.header.length + 1 ≤ maxHdrAlloc)
    (hcov : cInt (b.bytes ++ c).length < (b.bytes.length : ℤ)) :
    (findHeaders a.env st (b.bytes ++ c) a.httpId).posts = [] := by
  obtain ⟨hhdr, -⟩ := hwf.idle hnone
  have hbl := block_bytes_length b
  have hcut : b.bytes ++ c = b.header ++ (httpEnd ++ c) := by
    rw [HeaderBlock.bytes, append_assoc]
  have hlen : (startHeader st a.httpId).hdr.length + b.header.length ≤ maxHdrAlloc := by
    show st.hdr.length + b.header.length ≤ maxHdrAlloc
    rw [hhdr, length_nil]
    omega
  rw [hcut] at hcov ⊢
  obtain ⟨st', hloop⟩ := headerLoop_outside henv c (b.start :: b.lines)
    (startHeader st a.httpId) _ (startHeader_scanning hwf.alloc a.httpId b)
    (Nat.lt_succ_self _) hlen
    (show cInt (b.header ++ (httpEnd ++ c)).length < (b.header.length + 2 : ℤ) by omega)
  unfold findHeaders
  rw [if_pos hnone]
  split
  · rfl
  · unfold parseHeaders
    rw [show ({ setHttpState st .httpHdr with id := a.httpId } : HttpState) =
      startHeader st a.httpId from rfl]
    rw [show headerLoop a.env ((b.header ++ (httpEnd ++ c)).length + 1)
      (startHeader st a.httpId) (b.header ++ (httpEnd ++ c)) =
      (setHttpState st' .httpNone, none) from hloop]

/-! ## Where blocks and buffers lie in the stream -/

def located : ℕ → List Message → List (ℕ × Message)
  | _, [] => []
  | off, m :: ms => (off, m) :: located (off + m.bytes.length) ms

def locatedBufs : ℕ → List Arrival → List (ℕ × Arrival)
  | _, [] => []
  | p, a :: as => (p, a) :: locatedBufs (p + a.buf.length) as

def bufEnd (b : ℕ × Arrival) : ℕ := b.1 + b.2.buf.length

def blockEnd (x : ℕ × Message) : ℕ := x.1 + x.2.block.bytes.length

def NoCutInBlock (bufs : List (ℕ × Arrival)) (msgs : List (ℕ × Message)) : Prop :=
  ∀ b ∈ bufs, ∀ x ∈ msgs, ¬ (x.1 < bufEnd b ∧ bufEnd b < blockEnd x)

def OneBlockPerBuffer (bufs : List (ℕ × Arrival)) (msgs : List (ℕ × Message)) : Prop :=
  ∀ b ∈ bufs, ∀ x ∈ msgs, ∀ y ∈ msgs, x.1 < bufEnd b → b.1 < blockEnd x →
    y.1 < bufEnd b → b.1 < blockEnd y → x.1 = y.1

def Covered (bufs : List (ℕ × Arrival)) (msgs : List (ℕ × Message)) : Prop :=
  ∀ b ∈ bufs, ∀ x ∈ msgs, b.1 ≤ x.1 → x.1 < bufEnd b →
    (x.2.block.bytes.length : ℤ) ≤ cInt (bufEnd b - x.1)

def headersIn (msgs : List (ℕ × Message)) (b : ℕ × Arrival) : List (List UInt8) :=
  (msgs.filter fun x => b.1 ≤ x.1 ∧ x.1 < bufEnd b).map fun x =>
    x.2.block.header ++ [0]

def postedHeaders (posts : List ProtocolInfo) : List (List UInt8) :=
  posts.map fun p => p.data.hdr

theorem located_ge {msgs : List Message} : ∀ x ∈ located off msgs, off ≤ x.1 := by
  induction msgs generalizing off with
  | nil => simp [located]
  | cons m ms ih =>
    intro x hx
    rcases mem_cons.mp hx with rfl | hx
    · exact le_rfl
    · exact (Nat.le_add_right _ _).trans (ih x hx)

theorem locatedBufs_ge : ∀ b ∈ locatedBufs p as, p ≤ b.1 := by
  induction as generalizing p with
  | nil => simp [locatedBufs]
  | cons a as ih =>
    intro b hb
    rcases mem_cons.mp hb with rfl | hb
    · exact le_rfl
    · exact (Nat.le_add_right _ _).trans (ih b hb)

variable {msgs : List (ℕ × Message)} {x : ℕ × Message}

theorem headersIn_none (h : ∀ x ∈ msgs, bufEnd b ≤ x.1) : headersIn msgs b = [] := by
  unfold headersIn
  rw [filter_eq_nil_iff.mpr, map_nil]
  intro x hx
  have := h x hx
  simp only [decide_eq_true_eq]
  omega

theorem headersIn_cons (h1 : b.1 ≤ x.1) (h2 : x.1 < bufEnd b) :
    headersIn (x :: msgs) b = (x.2.block.header ++ [0]) :: headersIn msgs b := by
  unfold headersIn
  rw [filter_cons_of_pos (by simpa using ⟨h1, h2⟩)]
  rfl

theorem headersIn_before (h : x.1 < b.1) : headersIn (x :: msgs) b = headersIn msgs b := by
  unfold headersIn
  rw [filter_cons_of_neg]
  simp only [decide_eq_true_eq]
  omega

structure Delivery (ssl : Bool) (p : ℕ) (r : List UInt8) (msgs : List Message)
    (arrivals : List Arrival) : Prop where
  bytes : (arrivals.map Arrival.buf).flatten = r ++ (msgs.map Message.bytes).flatten
  nonempty : ∀ a ∈ arrivals, a.buf ≠ []
  no_cut : NoCutInBlock (locatedBufs p arrivals) (located (p + r.length) msgs)
  one_block : OneBlockPerBuffer (locatedBufs p arrivals) (located (p + r.length) msgs)
  block_le : ∀ m ∈ msgs, m.block.bytes.length ≤ 16383
  body_lt : ∀ m ∈ msgs, m.body.length < 2 ^ 63
  alloc : ∀ a ∈ arrivals, a.env.AllocSucceeds
  isSsl : ∀ a ∈ arrivals, a.httpId.isSsl = ssl
  reads : ∀ a ∈ arrivals, ∀ m ∈ msgs, ReadsLength a.env m

theorem Delivery.tail {r r' : List UInt8} {msgs msgs' : List Message}
    (h : Delivery ssl p r msgs (a :: as))
    (hbytes : (as.map Arrival.buf).flatten = r' ++ (msgs'.map Message.bytes).flatten)
    (hsub : msgs' ⊆ msgs)
    (hloc : located (p + a.buf.length + r'.length) msgs' ⊆ located (p + r.length) msgs) :
    Delivery ssl (p + a.buf.length) r' msgs' as := by
  have hbufs : locatedBufs (p + a.buf.length) as ⊆ locatedBufs p (a :: as) :=
    subset_cons_self _ _
  have has : as ⊆ a :: as := subset_cons_self _ _
  exact
    { bytes := hbytes
      nonempty := fun b hb => h.nonempty b (has hb)
      no_cut := fun b hb x hx => h.no_cut b (hbufs hb) x (hloc hx)
      one_block := fun b hb x hx y hy =>
        h.one_block b (hbufs hb) x (hloc hx) y (hloc hy)
      block_le := fun m hm => h.block_le m (hsub hm)
      body_lt := fun m hm => h.body_lt m (hsub hm)
      alloc := fun b hb => h.alloc b (has hb)
      isSsl := fun b hb => h.isSsl b (has hb)
      reads := fun b hb m hm => h.reads b (has hb) m (hsub hm) }

theorem Delivery.buffer_cases {r : List UInt8} {msgs : List Message}
    (h : Delivery ssl p r msgs (a :: as)) : (a.buf.length ≤ r.length ∧
        (as.map Arrival.buf).flatten = r.drop a.buf.length ++ (msgs.map Message.bytes).flatten) ∨
      ∃ m ms c, msgs = m :: ms ∧ a.buf = r ++ (m.block.bytes ++ c) ∧ c.length ≤ m.body.length ∧
        (as.map Arrival.buf).flatten = m.body.drop c.length ++ (ms.map Message.bytes).flatten := by
  have hbytes := h.bytes
  have hcut := h.no_cut
  have hone := h.one_block
  rw [map_cons, flatten_cons] at hbytes
  rcases append_eq_append_iff.mp hbytes with ⟨d, hr, has⟩ | ⟨y, ha, hy⟩
  · refine .inl ⟨by rw [hr, length_append]; omega, ?_⟩
    rw [has, hr, drop_left]
  by_cases hynil : y = []
  · subst hynil
    rw [append_nil] at ha
    refine .inl ⟨by rw [ha], ?_⟩
    rw [ha, drop_length, nil_append]
    simpa using hy.symm
  right
  have hypos : 0 < y.length := length_pos_iff.mpr hynil
  have hend : bufEnd (p, a) = p + r.length + y.length := by
    show p + a.buf.length = _
    rw [ha, length_append]
    omega
  cases msgs with
  | nil =>
    exact absurd (append_eq_nil_iff.mp hy.symm).1 hynil
  | cons m ms =>
    rw [map_cons, flatten_cons, Message.bytes, append_assoc] at hy
    have hbl := block_bytes_length m.block
    have hmem : (p, a) ∈ locatedBufs p (a :: as) := mem_cons_self
    have hmemx : (p + r.length, m) ∈ located (p + r.length) (m :: ms) :=
      mem_cons_self
    -- the block starts in the buffer, so it also ends there
    have hwhole : m.block.bytes.length ≤ y.length := by
      by_contra hlt
      refine hcut _ hmem _ hmemx ⟨?_, ?_⟩
      · omega
      · show bufEnd (p, a) < p + r.length + m.block.bytes.length
        omega
    obtain ⟨c, rfl⟩ : ∃ c, y = m.block.bytes ++ c :=
      (prefix_of_prefix_length_le ⟨_, rfl⟩ ⟨_, hy.symm⟩ hwhole).imp fun _ h => h.symm
    rw [append_assoc, append_cancel_left_eq] at hy
    rw [length_append] at hend
    -- the next block does not start in the buffer
    have hc : c.length ≤ m.body.length := by
      by_contra hgt
      cases ms with
      | nil =>
        have := congrArg length hy
        simp only [map_nil, flatten_nil, append_nil, length_append] at this
        omega
      | cons m' ms =>
        have hbl' := block_bytes_length m'.block
        have hmemy : (p + r.length + m.bytes.length, m') ∈ located (p + r.length) (m :: m' :: ms) :=
          mem_cons_of_mem _ mem_cons_self
        have hml : m.bytes.length = m.block.bytes.length + m.body.length :=
          length_append
        have heq := hone _ hmem _ hmemx _ hmemy (show p + r.length < bufEnd (p, a) by omega)
          (show p < p + r.length + m.block.bytes.length by omega)
          (show p + r.length + m.bytes.length < bufEnd (p, a) by omega)
          (show p < p + r.length + m.bytes.length + m'.block.bytes.length by omega)
        have heq : p + r.length = p + r.length + m.bytes.length := heq
        omega
    refine ⟨m, ms, c, rfl, ha, hc, ?_⟩
    have hpre : c <+: m.body :=
      prefix_of_prefix_length_le ⟨_, hy.symm⟩ ⟨_, rfl⟩ hc
    obtain ⟨d, hd⟩ := hpre
    rw [← hd, drop_left]
    rw [← hd, append_assoc, append_cancel_left_eq] at hy
    exact hy.symm

/-! ## All messages, in any buffers -/

theorem Covered.mono {bufs bufs' : List (ℕ × Arrival)} {msgs' : List (ℕ × Message)}
    (h : Covered bufs msgs) (hb : bufs' ⊆ bufs) (hm : msgs' ⊆ msgs) : Covered bufs' msgs' :=
  fun b hb' x hx => h b (hb hb') x (hm hx)

theorem covered_cons {bufs : List (ℕ × Arrival)} (h1 : b.1 ≤ x.1) (h2 : x.1 < bufEnd b)
    (hbufs : ∀ b' ∈ bufs, bufEnd b ≤ b'.1) (hmsgs : ∀ y ∈ msgs, bufEnd b ≤ y.1) :
    Covered (b :: bufs) (x :: msgs) ↔
      (x.2.block.bytes.length : ℤ) ≤ cInt (bufEnd b - x.1) ∧ Covered bufs msgs := by
  constructor
  · intro h
    exact ⟨h b mem_cons_self x mem_cons_self h1 h2,
      h.mono (subset_cons_self _ _) (subset_cons_self _ _)⟩
  · rintro ⟨hx, h⟩ b' hb' y hy hle hlt
    rcases mem_cons.mp hb' with rfl | hb'
    · rcases mem_cons.mp hy with rfl | hy
      · exact hx
      · have := hmsgs y hy
        omega
    · rcases mem_cons.mp hy with rfl | hy
      · have := hbufs b' hb'
        omega
      · exact h b' hb' y hy hle hlt

theorem inside_cons (as : List Arrival) (msgs : List Message) (hle : p + a.buf.length ≤ off) :
    headersIn (located off msgs) (p, a) = [] ∧
      (Covered (locatedBufs p (a :: as)) (located off msgs) ↔
        Covered (locatedBufs (p + a.buf.length) as) (located off msgs)) := by
  refine ⟨headersIn_none fun x hx => hle.trans (located_ge x hx),
    fun h => h.mono (subset_cons_self _ _) (Subset.refl _), fun h => ?_⟩
  intro b hb x hx h1 h2
  rcases mem_cons.mp hb with rfl | hb
  · have hge := located_ge x hx
    have h2 : x.1 < p + a.buf.length := h2
    omega
  · exact h b hb x hx h1 h2

theorem block_cons (as : List Arrival) (m : Message) (ms : List Message) (h1 : p ≤ off)
    (h2 : off < p + a.buf.length) (h3 : p + a.buf.length ≤ off + m.bytes.length) :
    headersIn (located off (m :: ms)) (p, a) = [m.block.header ++ [0]] ∧
      (locatedBufs (p + a.buf.length) as).map (headersIn (located off (m :: ms))) =
        (locatedBufs (p + a.buf.length) as).map (headersIn (located (off + m.bytes.length) ms)) ∧
      (Covered (locatedBufs p (a :: as)) (located off (m :: ms)) ↔
        (m.block.bytes.length : ℤ) ≤ cInt (p + a.buf.length - off) ∧
          Covered (locatedBufs (p + a.buf.length) as) (located (off + m.bytes.length) ms)) := by
  have hlater : ∀ x ∈ located (off + m.bytes.length) ms, bufEnd (p, a) ≤ x.1 :=
    fun x hx => h3.trans (located_ge x hx)
  refine ⟨?_, ?_, ?_⟩
  · rw [located, headersIn_cons h1 h2, headersIn_none hlater]
  · apply map_congr_left
    intro b hb
    exact headersIn_before (lt_of_lt_of_le h2 (locatedBufs_ge b hb))
  · exact covered_cons h1 h2
      (fun b (hb : b ∈ locatedBufs (p + a.buf.length) as) => locatedBufs_ge b hb) hlater

/-- **The run over all buffers**: by induction on them, with `r` the bytes left
of the body the next buffer starts in. -/
theorem bodies_run (arrivals : List Arrival) :
    ∀ (p : ℕ) (st : HttpState) (r : List UInt8) (msgs : List Message),
      Between ssl st r.length → Delivery ssl p r msgs arrivals →
      ((run http1Step st arrivals).2.map postedHeaders =
          (locatedBufs p arrivals).map (headersIn (located (p + r.length) msgs)) ↔
        Covered (locatedBufs p arrivals) (located (p + r.length) msgs)) ∧
      (Covered (locatedBufs p arrivals) (located (p + r.length) msgs) →
        ((run http1Step st arrivals).2.map postedHeaders).flatten =
          msgs.map fun m => m.block.header ++ [0]) := by
  induction arrivals with
  | nil =>
    intro p st r msgs _ hd
    have hmsgs : msgs = [] := by
      cases msgs with
      | nil => rfl
      | cons m ms =>
        have := congrArg length hd.bytes
        have hbl := block_bytes_length m.block
        simp [Message.bytes] at this
        omega
    subst hmsgs
    refine ⟨⟨fun _ => ?_, fun _ => rfl⟩, fun _ => rfl⟩
    intro b hb
    simp [locatedBufs] at hb
  | cons a as ih =>
    intro p st r msgs hst hd
    have hmema : a ∈ a :: as := mem_cons_self
    rcases hd.buffer_cases with ⟨hle, hrest⟩ | ⟨m, ms, c, rfl, hbuf, hc, hrest⟩
    · -- inside a body: nothing is posted and no block starts here
      obtain ⟨hposts, hnext⟩ :=
        http1Step_inside hst (hd.isSsl a hmema) (hd.nonempty a hmema) hle
      have hoff : p + a.buf.length + (r.drop a.buf.length).length = p + r.length := by
        rw [length_drop]
        omega
      obtain ⟨hnone, hcov⟩ := inside_cons as msgs (Nat.add_le_add_left hle p)
      have hih := ih (p + a.buf.length) (http1Step st a).1 (r.drop a.buf.length) msgs
        (by rwa [length_drop])
        (hd.tail hrest (Subset.refl _) (by rw [hoff]; exact Subset.refl _))
      rw [hoff] at hih
      rw [run_cons, hposts, hcov]
      simp only [locatedBufs, map_cons, hnone, flatten_cons]
      refine ⟨?_, fun h => ?_⟩
      · rw [← hih.1]
        simp [postedHeaders]
      · rw [hih.2 h]
        rfl
    · -- the rest of a body, a block, and a part of the body behind it
      have hmemm : m ∈ m :: ms := mem_cons_self
      have hbl := block_bytes_length m.block
      have hml : m.bytes.length = m.block.bytes.length + m.body.length :=
        length_append
      have hcl : (m.block.bytes ++ c).length = m.block.bytes.length + c.length :=
        length_append
      have hal : a.buf.length = r.length + (m.block.bytes.length + c.length) := by
        rw [hbuf, length_append, hcl]
      have hyne : m.block.bytes ++ c ≠ [] :=
        length_pos_iff.mp (by omega)
      obtain ⟨st', hwf', hnone', hstep⟩ :=
        http1Step_beyond hst (hd.isSsl a hmema) hbuf hyne
      have hoff : p + a.buf.length + (m.body.drop c.length).length =
          p + r.length + m.bytes.length := by
        rw [length_drop]
        omega
      obtain ⟨hexp, hexpas, hcovcons⟩ := block_cons (a := a) as m ms
        (show p ≤ p + r.length by omega) (by omega) (by omega)
      rw [show p + a.buf.length - (p + r.length) = (m.block.bytes ++ c).length by omega] at hcovcons
      rw [run_cons, hstep, hcovcons]
      simp only [locatedBufs, map_cons, hexp, hexpas, flatten_cons, cons.injEq]
      by_cases hcov : (m.block.bytes.length : ℤ) ≤ cInt (m.block.bytes ++ c).length
      · obtain ⟨hposts, hnext⟩ := findHeaders_covered (hd.alloc a hmema)
          (hd.isSsl a hmema) hwf' hnone' (hd.reads a hmema m hmemm)
          (hd.block_le m hmemm) (hd.body_lt m hmemm) hc hcov
        have hih := ih (p + a.buf.length)
          (findHeaders a.env st' (m.block.bytes ++ c) a.httpId).state
          (m.body.drop c.length) ms (by rwa [length_drop])
          (hd.tail hrest (subset_cons_self _ _) (by rw [hoff]; exact subset_cons_self _ _))
        rw [hoff] at hih
        rw [hposts]
        refine ⟨?_, fun h => ?_⟩
        · rw [hih.1]
          exact and_congr_left fun _ => iff_of_true rfl hcov
        · rw [hih.2 h.2]
          rfl
      · have hfit : m.block.header.length + 1 ≤ maxHdrAlloc := by
          have := hd.block_le m hmemm
          show _ ≤ 16384
          omega
        have hposts := findHeaders_uncovered (hd.alloc a hmema) hwf' hnone' hfit (not_le.mp hcov)
        rw [hposts]
        refine ⟨iff_of_false (fun h => ?_) (fun h => hcov h.1), fun h => absurd h.1 hcov⟩
        simp [postedHeaders] at h

/-- **HTTP/1 body accounting.** Messages arrive in any buffers that do not cut a
header block and hold bytes of at most one. Every buffer posts the headers of
the blocks that start in it, and nothing else, exactly if every block is covered
by the `int` length its search gets; then one event is posted for each message,
in order. -/
theorem parseHttp1_bodies {ssl : Bool} {st : HttpState} (hwf : Wf st)
    (hnone : st.state = .httpNone) {msgs : List Message} {arrivals : List Arrival}
    (hd : Delivery ssl 0 [] msgs arrivals) : ((run http1Step st arrivals).2.map postedHeaders =
        (locatedBufs 0 arrivals).map (headersIn (located 0 msgs)) ↔
      Covered (locatedBufs 0 arrivals) (located 0 msgs)) ∧
    (Covered (locatedBufs 0 arrivals) (located 0 msgs) →
      ((run http1Step st arrivals).2.map postedHeaders).flatten =
        msgs.map fun m => m.block.header ++ [0]) :=
  bodies_run arrivals 0 st [] msgs (between_idle hwf hnone) hd

/-! ### A message of zeros -/

theorem no_end_of_ne {l : List UInt8} (h : ∀ x ∈ l, x ≠ 0x0D) : ¬ httpEnd <:+: l := by
  intro hin
  exact h 0x0D (hin.subset (by decide)) rfl

theorem decimal_ne_cr (n : ℕ) : ∀ x ∈ decimal n, x ≠ 0x0D := by
  intro x hx
  unfold decimal at hx
  split at hx
  · rw [mem_singleton.mp hx]
    decide
  · obtain ⟨d, hd, rfl⟩ := mem_map.mp hx
    have hlt := Nat.digits_lt_base (by decide) (mem_reverse.mp hd)
    intro h
    have := congrArg UInt8.toNat h
    rw [digit_toNat hlt] at this
    have h13 : (0x0D : UInt8).toNat = 13 := rfl
    omega

def lengthBlock (n : ℕ) : HeaderBlock where
  start := shortResponse.start
  lines := [clengthName ++ decimal n]
  start_http := shortResponse.start_http
  no_end := by
    intro l hl
    rcases mem_cons.mp hl with rfl | hl
    · exact shortResponse.no_end _ mem_cons_self
    · have hname : (0x0D : UInt8) ∉ clengthName := by decide
      rw [mem_singleton.mp hl]
      apply no_end_of_ne
      intro x hx
      rcases mem_append.mp hx with hx | hx
      · exact fun h => hname (h ▸ hx)
      · exact decimal_ne_cr n x hx
  nonempty := by
    intro l hl
    rw [mem_singleton.mp hl]
    simp [clengthName]

def zeroMessage (n : ℕ) : Message where
  block := lengthBlock n
  body := List.replicate n 0
  clength := by
    rw [length_replicate]
    exact mem_singleton_self _

def zeroArrival (n : ℕ) : Arrival where
  env := { HttpEnv.idle with clengthMatch := fun _ => some (decimal n) }
  net := none
  httpId := {}
  buf := (zeroMessage n).bytes

theorem lengthBlock_length (n : ℕ) : (lengthBlock n).bytes.length = 30 + (decimal n).length := by
  rw [block_bytes_length]
  simp only [HeaderBlock.header, lengthBlock, encode_cons, encode_nil, shortResponse,
    clengthName, httpEnd, length_append, length_cons, length_nil]
  omega

theorem zeroArrival_delivery (hlen : (decimal n).length ≤ 16353) (hn : n < 2 ^ 63) :
    Delivery false 0 [] [zeroMessage n] [zeroArrival n] := by
  have hbl := lengthBlock_length n
  have hmem : ∀ {x : ℕ × Message}, x ∈ located (0 + ([] : List UInt8).length)
      [zeroMessage n] → x = (0, zeroMessage n) := mem_singleton.mp
  have hml : (zeroMessage n).bytes.length = (lengthBlock n).bytes.length +
      (zeroMessage n).body.length := length_append
  refine
    { bytes := by simp [zeroArrival]
      nonempty := ?_
      no_cut := ?_
      one_block := ?_
      block_le := ?_
      body_lt := ?_
      alloc := ?_
      isSsl := ?_
      reads := ?_ }
  · intro a ha
    rw [mem_singleton.mp ha]
    exact length_pos_iff.mp (by
      show 0 < (zeroMessage n).bytes.length
      omega)
  · intro b hb x hx
    rw [mem_singleton.mp hb, hmem hx]
    rintro ⟨-, hlt⟩
    have hlt : 0 + (zeroMessage n).bytes.length < 0 + (lengthBlock n).bytes.length := hlt
    omega
  · intro b hb x hx y hy _ _ _ _
    rw [hmem hx, hmem hy]
  · intro m hm
    rw [mem_singleton.mp hm]
    show (lengthBlock n).bytes.length ≤ 16383
    omega
  · intro m hm
    rw [mem_singleton.mp hm]
    show (replicate n (0 : UInt8)).length < 2 ^ 63
    rwa [length_replicate]
  · intro a ha
    rw [mem_singleton.mp ha]
    exact ⟨fun _ => rfl, fun _ => rfl⟩
  · intro a ha
    rw [mem_singleton.mp ha]
    rfl
  · intro a ha m hm
    rw [mem_singleton.mp ha, mem_singleton.mp hm]
    show some (decimal n) = some (decimal (replicate n (0 : UInt8)).length)
    rw [length_replicate]

/-- Three zeros behind a header: the header is reported. -/
theorem parseHttp1_bodies_three : ((run http1Step {} [zeroArrival 3]).2.map postedHeaders).flatten =
      [(lengthBlock 3).header ++ [0]] := by
  refine (parseHttp1_bodies wf_init rfl (zeroArrival_delivery (by decide) (by decide))).2 ?_
  intro b hb x hx _ _
  rw [mem_singleton.mp hb, mem_singleton.mp hx]
  decide

theorem zeroArrival_lost (hlen : (decimal n).length ≤ 16353)
    (hcov : cInt (30 + (decimal n).length + n) < (30 + (decimal n).length : ℤ)) :
    (run http1Step {} [zeroArrival n]).2 = [[]] := by
  have hbl := lengthBlock_length n
  have hbl' := block_bytes_length (lengthBlock n)
  have hbuf : (zeroArrival n).buf = [] ++ ((lengthBlock n).bytes ++ replicate n 0) := rfl
  have hidle : Between false {} ([] : List UInt8).length := between_idle wf_init rfl
  obtain ⟨st, hwf, hnone, hstep⟩ := http1Step_beyond hidle rfl hbuf
    (length_pos_iff.mp (by rw [length_append]; omega))
  have hpost := findHeaders_uncovered (a := zeroArrival n) (b := lengthBlock n)
    (c := replicate n 0) ⟨fun _ => rfl, fun _ => rfl⟩ hwf hnone
    (show _ ≤ 16384 by omega)
    (by
      rw [length_append, length_replicate, hbl]
      exact hcov)
  rw [run_cons, hstep, hpost]
  rfl

/-- 2^31 zeros behind a header, in one buffer: the header is lost, since its
search gets a negative length. -/
theorem parseHttp1_bodies_lost : Delivery false 0 [] [zeroMessage (2 ^ 31)] [zeroArrival (2 ^ 31)] ∧
      (run http1Step {} [zeroArrival (2 ^ 31)]).2 = [[]] := by
  have hdec : (decimal (2 ^ 31)).length = 10 := by decide
  refine ⟨zeroArrival_delivery (by omega) (by norm_num), zeroArrival_lost (by omega) ?_⟩
  rw [hdec]
  decide

end AppView.Http
