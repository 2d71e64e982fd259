import AppView.Framework.Owners
import AppView.Http.HeaderBlock

/-!
# The buffers of an HTTP state

Each direction of a channel owns a buffer for the header that it collects and one for the frame
that it has stashed.
-/

namespace AppView.Http

open AppView.Framework Heap List Function Command

inductive Part where
  | hdr | stash
  deriving DecidableEq

/-! ## HTTP/1 -/

def resetBuffers : List (Command Part) := [.release .stash, .release .hdr]

def appendHeaderBuffers (env : HttpEnv) (httpstate : HttpState) (buf : List UInt8) :
    List (Command Part) :=
  let contentSize := httpstate.hdr.length + buf.length
  let allocSize := if httpstate.hdralloc = 0 then minHdrAlloc else httpstate.hdralloc
  match growAlloc contentSize 8 allocSize with
  | none => resetBuffers
  | some allocSize =>
    if allocSize ≠ httpstate.hdralloc then
      if env.reallocOk allocSize = false then resetBuffers else [.renew .hdr, .use .hdr]
    else [.use .hdr]

def reportHttp1Buffers (env : HttpEnv) (httpstate : HttpState) : List (Command Part) :=
  if httpstate.hdr = [] then []
  else if env.protoAllocOk 0 = false then []
  else [.give .hdr]

def headerLoopBuffers (env : HttpEnv) : ℕ → HttpState → List UInt8 → List (Command Part)
  | 0, _, _ => []
  | fuel + 1, httpstate, rest =>
    if (httpstate.state = .httpHdr ∨ httpstate.state = .httpHdrEnd) ∧ rest ≠ [] then
      match searchExec gHttpEnd rest (cInt rest.length) with
      | none => appendHeaderBuffers env (setHttpState httpstate .httpHdr) rest
      | some headerEnd =>
        if httpstate.state = .httpHdrEnd ∧ headerEnd = 0 then []
        else
          let lineLen := headerEnd + searchLen gHttpEnd
          let httpstate := setHttpState httpstate .httpHdrEnd
          appendHeaderBuffers env httpstate (rest.take lineLen) ++
            headerLoopBuffers env fuel (appendHeader env httpstate (rest.take lineLen))
              (rest.drop lineLen)
    else []

def endOfHeadersBuffers (env : HttpEnv) (httpstate : HttpState) (rest : List UInt8) :
    List (Command Part) :=
  appendHeaderBuffers env httpstate [0] ++ .use .hdr ::
    (reportHttp1Buffers env (appendHeader env httpstate [0]) ++
      if (endOfHeaders env httpstate rest).1.state = .httpNone then resetBuffers else [])

def parseHeadersBuffers (env : HttpEnv) (httpstate : HttpState) (buf : List UInt8) :
    List (Command Part) :=
  headerLoopBuffers env (buf.length + 1) httpstate buf ++
    match headerLoop env (buf.length + 1) httpstate buf with
    | (_, none) => []
    | (httpstate, some rest) => endOfHeadersBuffers env httpstate rest

def findHeadersBuffers (env : HttpEnv) (httpstate : HttpState) (buf : List UInt8)
    (httpId : HttpId) : List (Command Part) :=
  if httpstate.state = .httpNone then
    match searchExec gHttpStart buf (cInt buf.length) with
    | none => []
    | some _ =>
      parseHeadersBuffers env { setHttpState httpstate .httpHdr with id := httpId } buf
  else parseHeadersBuffers env httpstate buf

def parseHttp1Buffers (env : HttpEnv) (httpstate : HttpState) (buf : List UInt8)
    (httpId : HttpId) : List (Command Part) :=
  if httpstate.state ≠ .httpNone ∧ httpstate.id.isSsl ≠ httpId.isSsl then []
  else if httpstate.state = .httpData then
    let (bts, httpstate) := bytesToSkipForContentLength httpstate buf.length
    if bts = buf.length then []
    else
      resetBuffers ++
        findHeadersBuffers env (setHttpState httpstate .httpNone) (buf.drop bts) httpId
  else findHeadersBuffers env httpstate buf httpId

/-! ## HTTP/2 -/

def http2StashFrameBuffers (env : HttpEnv) (stash : HttpBuf) (buf : List UInt8) :
    List (Command Part) :=
  let need := buf.length + stash.buf.length
  if need > stash.size then
    let need := (need + 1023) / 1024 * 1024
    if env.reallocOk need = false then [] else [.renew .stash, .use .stash]
  else [.use .stash]

def readStash (stash : HttpBuf) : List (Command Part) :=
  if stash.buf = [] then [] else [.use .stash]

def reportHttp2Buffers (env : HttpEnv) (stash : HttpBuf) (frameLen : ℕ) : List (Command Part) :=
  if env.protoAllocOk frameLen = false then [] else readStash stash

def parseHttp2LoopBuffers (env : HttpEnv) (buf : List UInt8) :
    ℕ → HttpState → List UInt8 → List (Command Part)
  | 0, _, _ => []
  | fuel + 1, state, bufPos =>
    if bufPos = [] then []
    else
      let isMagic := bufPos.length ≥ http2MagicLen ∧ http2Magic <+: buf
      let bufPos := if isMagic then bufPos.drop http2MagicLen else bufPos
      let stash := state.http2Buf
      if isMagic ∧ bufPos = [] then []
      else if stash.buf.length + bufPos.length < 9 then http2StashFrameBuffers env stash bufPos
      else
        let fLen := http2GetFrameLength stash bufPos
        readStash stash ++
          if stash.buf.length + bufPos.length < 9 + fLen then
            http2StashFrameBuffers env stash bufPos
          else
            let bytesParsed := fLen + 9 - stash.buf.length
            (if isReported (http2GetFrameType stash bufPos) then
              reportHttp2Buffers env stash (fLen + 9) else []) ++
              parseHttp2LoopBuffers env buf fuel
                { state with http2Buf := { stash with buf := [] } } (bufPos.drop bytesParsed)

def parseHttp2Buffers (env : HttpEnv) (state : HttpState) (buf : List UInt8) :
    List (Command Part) :=
  if buf = [] then [] else parseHttp2LoopBuffers env buf (buf.length + 1) state buf

/-! ## Both versions -/

def doHttpVersionBuffers (env : HttpEnv) (state : HttpState) (buf : List UInt8)
    (httpId : HttpId) : List (Command Part) :=
  if state.version = 1 then parseHttp1Buffers env state buf httpId
  else if state.version = 2 then parseHttp2Buffers env state buf
  else []

def directionOf (src : MetricT) : HttpDirection := if isSend src then .httpTx else .httpRx

def doHttpBufferBuffers (env : HttpEnv) (states : HttpDirection → HttpState) (buf : List UInt8)
    (src : MetricT) (httpId : HttpId) : List (Command Part) :=
  let d := directionOf src
  if (states d).version = 0 then
    if http2Magic <+: buf then
      if buf.length > http2MagicLen then
        doHttpVersionBuffers env (setVersions states 2 d) (buf.drop http2MagicLen) httpId
      else []
    else if (searchExec gHttpStart buf (cInt buf.length)).isSome then
      doHttpVersionBuffers env (setVersions states 1 d) buf httpId
    else []
  else doHttpVersionBuffers env (states d) buf httpId

def doHttpIovBuffers (env : HttpEnv) (net : NetInfo) (src : MetricT) (httpId : HttpId) :
    (HttpDirection → HttpState) → List (Option (List UInt8)) → List (Command Part)
  | _, [] => []
  | states, none :: iov => doHttpIovBuffers env net src httpId states iov
  | states, some base :: iov =>
    doHttpBufferBuffers env states base src httpId ++
      doHttpIovBuffers env net src httpId
        (doHttpBuffer env states (some net) base src httpId).state iov

def doHttpBuffers (env : HttpEnv) (sockfd : ℤ) (net : NetInfo) (data : SrcData) (len : ℕ)
    (src : MetricT) : List (Command Part) :=
  if len = 0 ∨ net.type ≠ sockStream then []
  else
    let httpId := setHttpId net sockfd src
    match data with
    | .buf buf => doHttpBufferBuffers env net.http buf src httpId
    | .msg iov => doHttpIovBuffers env net src httpId net.http iov
    | .iov iov => doHttpIovBuffers env net src httpId net.http (iov.take len)
    | .other => []

/-! ## Which buffers are there -/

structure Fits (st : HttpState) (f : Part → Bool) : Prop where
  hdr : f .hdr = true ↔ st.hdr ≠ []
  stash : f .stash = true ↔ st.http2Buf.size ≠ 0
  /-- A size is kept without a buffer only while content is skipped. -/
  alloc : st.state ≠ .httpData → st.hdr = [] → st.hdralloc = 0
  room : st.http2Buf.buf.length ≤ st.http2Buf.size

variable {st : HttpState} {f : Part → Bool}

theorem Fits.reset (st : HttpState) (f : Part → Bool) :
    Fits (setHttpState st .httpNone) (resetBuffers.foldl holds f) where
  hdr := by simp [setHttpState, resetBuffers, holds]
  stash := by simp [setHttpState, resetBuffers, holds]
  alloc _ _ := rfl
  room := Nat.zero_le _

theorem Fits.congr (hf : Fits st f) {st' : HttpState} (hhdr : st'.hdr = st.hdr)
    (halloc : st'.hdralloc = st.hdralloc) (hbuf : st'.http2Buf = st.http2Buf)
    (hdata : st'.state ≠ .httpData → st.state ≠ .httpData) : Fits st' f := by
  refine ⟨?_, ?_, fun hs hh => ?_, ?_⟩
  · rw [hhdr, hf.hdr]
  · rw [hbuf, hf.stash]
  · rw [halloc]
    exact hf.alloc (hdata hs) (hhdr ▸ hh)
  · rw [hbuf]
    exact hf.room

theorem Fits.collect (hf : Fits st f) (hs : st.state ≠ .httpData) {toState : HttpEnum}
    (hto : toState = .httpHdr ∨ toState = .httpHdrEnd) : Fits (setHttpState st toState) f := by
  rcases hto with rfl | rfl <;> exact hf.congr rfl rfl rfl fun _ => hs

theorem growAlloc_pos {contentSize fuel allocSize n : ℕ} (hpos : 0 < allocSize)
    (h : growAlloc contentSize fuel allocSize = some n) : 0 < n := by
  induction fuel generalizing allocSize with
  | zero => cases h
  | succ fuel ih =>
    rw [growAlloc] at h
    dsimp only at h
    split_ifs at h with hlt hmax
    · refine ih ?_ h
      rw [Nat.shiftLeft_eq]
      omega
    · exact Option.some.inj h ▸ hpos

/-- **Appending keeps them**: the header buffer is there afterwards, unless all is dropped. -/
theorem Fits.appendHeader (hf : Fits st f) (env : HttpEnv) (hs : st.state ≠ .httpData)
    {buf : List UInt8}
    (hbuf : buf ≠ []) :
    Fits (appendHeader env st buf) ((appendHeaderBuffers env st buf).foldl holds f) := by
  rw [Http.appendHeader, appendHeaderBuffers]
  cases hgrow : growAlloc (st.hdr.length + buf.length) 8
      (if st.hdralloc = 0 then minHdrAlloc else st.hdralloc) with
  | none => exact Fits.reset st f
  | some n =>
    have hn : 0 < n := by
      refine growAlloc_pos ?_ hgrow
      split_ifs with h0
      · decide
      · omega
    have happend : st.hdr ++ buf ≠ [] := fun h => hbuf (append_eq_nil_iff.1 h).2
    dsimp only
    by_cases hsize : n ≠ st.hdralloc
    · by_cases hok : env.reallocOk n = false
      · rw [if_pos ⟨hsize, hok⟩, if_pos hsize, if_pos hok]
        exact Fits.reset st f
      · rw [if_neg fun h => hok h.2, if_pos hsize, if_neg hok]
        refine ⟨⟨fun _ => happend, fun _ => rfl⟩, ?_, fun _ h => absurd h happend, hf.room⟩
        exact hf.stash
    · rw [if_neg fun h => hsize h.1, if_neg hsize]
      -- a buffer that need not grow is there
      have hthere : st.hdr ≠ [] := fun h => by
        have h0 := hf.alloc hs h
        omega
      refine ⟨⟨fun _ => happend, fun _ => hf.hdr.2 hthere⟩, hf.stash,
        fun _ h => absurd h happend, hf.room⟩

theorem Fits.headerLoop (hf : Fits st f) (env : HttpEnv) (fuel : ℕ) (rest : List UInt8) :
    Fits (headerLoop env fuel st rest).1 ((headerLoopBuffers env fuel st rest).foldl holds f) := by
  induction fuel generalizing st f rest with
  | zero => exact hf
  | succ fuel ih =>
    rw [Http.headerLoop, headerLoopBuffers]
    split_ifs with hguard
    · have hdata : st.state ≠ .httpData := by
        rcases hguard.1 with hs | hs <;> rw [hs] <;> decide
      cases searchExec gHttpEnd rest (cInt rest.length) with
      | none =>
        exact (hf.collect hdata (.inl rfl)).appendHeader env
          (fun h => HttpEnum.noConfusion h) hguard.2
      | some headerEnd =>
        dsimp only
        split_ifs with hend
        · exact hf
        · rw [foldl_append]
          -- a line has at least its end
          have hline : rest.take (headerEnd + searchLen gHttpEnd) ≠ [] := by
            intro h
            rcases take_eq_nil_iff.1 h with h | h
            · exact absurd h (Nat.succ_ne_zero _)
            · exact hguard.2 h
          exact ih ((hf.collect hdata (.inr rfl)).appendHeader env
            (fun h => HttpEnum.noConfusion h) hline) _
    · exact hf

variable (env : HttpEnv) (stash : HttpBuf)

theorem reportHttp1_hdr (st : HttpState) :
    (reportHttp1 env st).1.hdr ≠ [] ↔ st.hdr ≠ [] ∧ env.protoAllocOk 0 = false := by
  rw [reportHttp1]
  split_ifs with hnil hok
  · exact ⟨fun h => absurd hnil h, fun h => absurd hnil h.1⟩
  · exact ⟨fun h => ⟨h, hok⟩, fun h => h.1⟩
  all_goals exact ⟨fun h => absurd rfl h, fun h => absurd h.2 hok⟩

theorem reportHttp1_http2Buf (st : HttpState) : (reportHttp1 env st).1.http2Buf = st.http2Buf := by
  rw [reportHttp1]
  split_ifs <;> rfl

theorem endOfHeaders_cases (st : HttpState) (rest : List UInt8) :
    (∃ x, (endOfHeaders env st rest).1 = setHttpState x .httpNone) ∨
      ((endOfHeaders env st rest).1.state = .httpData ∧
        (endOfHeaders env st rest).1.http2Buf = (appendHeader env st [0]).http2Buf ∧
        ((endOfHeaders env st rest).1.hdr ≠ [] ↔
          (appendHeader env st [0]).hdr ≠ [] ∧ env.protoAllocOk 0 = false)) := by
  rw [endOfHeaders]
  cases getContentLength env (appendHeader env st [0]).hdr with
  | none => exact .inl ⟨_, rfl⟩
  | some clen =>
    dsimp only
    split_ifs with hclen
    · exact .inr ⟨rfl, reportHttp1_http2Buf env _, reportHttp1_hdr env _⟩
    · exact .inl ⟨_, rfl⟩

theorem holds_reportHttp1Buffers (hf : Fits st f) (env : HttpEnv) :
    ((reportHttp1Buffers env st).foldl holds f .hdr = true ↔
      st.hdr ≠ [] ∧ env.protoAllocOk 0 = false) ∧
    (reportHttp1Buffers env st).foldl holds f .stash = f .stash := by
  rw [reportHttp1Buffers]
  split_ifs with hnil hok
  · refine ⟨?_, rfl⟩
    rw [foldl_nil, hf.hdr]
    exact ⟨fun h => absurd hnil h, fun h => absurd hnil h.1⟩
  · exact ⟨⟨fun _ => ⟨hnil, hok⟩, fun _ => hf.hdr.2 hnil⟩, rfl⟩
  · exact ⟨⟨fun h => Bool.noConfusion h, fun h => absurd h.2 hok⟩, rfl⟩

theorem Fits.endOfHeaders (hf : Fits st f) (env : HttpEnv) (hs : st.state ≠ .httpData)
    (rest : List UInt8) : Fits (endOfHeaders env st rest).1
      ((endOfHeadersBuffers env st rest).foldl holds f) := by
  rw [endOfHeadersBuffers, foldl_append, foldl_cons, foldl_append]
  have happend := hf.appendHeader env hs (cons_ne_nil 0 [])
  rcases endOfHeaders_cases env st rest with ⟨x, hx⟩ | ⟨hstate, hbuf, hhdr⟩
  · rw [hx, if_pos (show (setHttpState x .httpNone).state = .httpNone from rfl)]
    exact Fits.reset x _
  · rw [if_neg (by rw [hstate]; exact fun h => HttpEnum.noConfusion h), foldl_nil]
    obtain ⟨hthere, hstash⟩ := holds_reportHttp1Buffers happend env
    refine ⟨hthere.trans hhdr.symm, ?_, fun h => absurd hstate h, ?_⟩
    · rw [hbuf, ← happend.stash]
      exact iff_of_eq (congrArg (· = true) hstash)
    · rw [hbuf]
      exact happend.room

theorem Fits.parseHeaders (hf : Fits st f) (env : HttpEnv) (buf : List UInt8) :
    Fits (parseHeaders env st buf).state ((parseHeadersBuffers env st buf).foldl holds f) := by
  rw [Http.parseHeaders, parseHeadersBuffers, foldl_append]
  have hloop := hf.headerLoop env (buf.length + 1) buf
  cases hend : Http.headerLoop env (buf.length + 1) st buf with
  | mk st' rest =>
    rw [hend] at hloop
    cases rest with
    | none => exact hloop
    | some rest =>
      refine hloop.endOfHeaders env ?_ rest
      rw [(headerLoop_end hend).1]
      exact fun h => HttpEnum.noConfusion h

theorem Fits.findHeaders (hf : Fits st f) (env : HttpEnv) (buf : List UInt8) (httpId : HttpId) :
    Fits (findHeaders env st buf httpId).state
      ((findHeadersBuffers env st buf httpId).foldl holds f) := by
  rw [Http.findHeaders, findHeadersBuffers]
  split_ifs with hnone
  · cases searchExec gHttpStart buf (cInt buf.length) with
    | none => exact hf
    | some _ =>
      have hdata : st.state ≠ .httpData := by
        rw [hnone]
        exact fun h => HttpEnum.noConfusion h
      have hstart : Fits { setHttpState st .httpHdr with id := httpId } f :=
        hf.congr rfl rfl rfl fun _ => hdata
      exact hstart.parseHeaders env buf
  · exact hf.parseHeaders env buf

theorem Fits.parseHttp1 (hf : Fits st f) (env : HttpEnv) (buf : List UInt8) (httpId : HttpId) :
    Fits (parseHttp1 env st buf httpId).state
      ((parseHttp1Buffers env st buf httpId).foldl holds f) := by
  rw [Http.parseHttp1, parseHttp1Buffers]
  dsimp only
  split_ifs with hother hdata hall
  · exact hf
  · -- only the content length counts down
    rw [foldl_nil, bytesToSkipForContentLength]
    split_ifs <;> exact hf.congr rfl rfl rfl id
  · rw [foldl_append]
    exact (Fits.reset _ f).findHeaders env _ httpId
  · exact hf.findHeaders env buf httpId

theorem holds_readStash (f : Part → Bool) : (readStash stash).foldl holds f = f := by
  rw [readStash]
  split_ifs <;> rfl

theorem holds_reportHttp2Buffers (n : ℕ) (f : Part → Bool) :
    (reportHttp2Buffers env stash n).foldl holds f = f := by
  rw [reportHttp2Buffers]
  split_ifs
  · rfl
  · exact holds_readStash stash f

theorem Fits.http2StashFrame (hf : Fits st f) (env : HttpEnv) {buf : List UInt8} (hbuf : buf ≠ []) :
    Fits { st with http2Buf := http2StashFrame env st.http2Buf buf }
      ((http2StashFrameBuffers env st.http2Buf buf).foldl holds f) := by
  have hpos : 0 < buf.length := length_pos_iff.2 hbuf
  rw [Http.http2StashFrame, http2StashFrameBuffers]
  split_ifs with hneed
  · set need := (buf.length + st.http2Buf.buf.length + 1023) / 1024 * 1024 with hdef
    have hroom : buf.length + st.http2Buf.buf.length ≤ need := by omega
    dsimp only
    split_ifs with hok
    · exact hf
    · have hneed0 : need ≠ 0 := by omega
      refine ⟨hf.hdr, ⟨fun _ => hneed0, fun _ => rfl⟩, hf.alloc, ?_⟩
      dsimp only
      rw [length_append]
      omega
  · refine ⟨hf.hdr, hf.stash, hf.alloc, ?_⟩
    dsimp only
    rw [length_append]
    omega

theorem Fits.parseHttp2Loop (hf : Fits st f) (env : HttpEnv) (net : Option NetInfo)
    (buf : List UInt8) (httpId : HttpId) (fuel : ℕ) (bufPos : List UInt8) (ret : Bool) :
    Fits (parseHttp2Loop env net buf httpId fuel st bufPos ret).state
      ((parseHttp2LoopBuffers env buf fuel st bufPos).foldl holds f) := by
  induction fuel generalizing st f bufPos ret with
  | zero => exact hf
  | succ fuel ih =>
    rw [Http.parseHttp2Loop, parseHttp2LoopBuffers]
    by_cases hnil : bufPos = []
    · rw [if_pos hnil, if_pos hnil]
      exact hf
    · rw [if_neg hnil, if_neg hnil]
      dsimp only
      generalize hpos : (if bufPos.length ≥ http2MagicLen ∧ http2Magic <+: buf then
        bufPos.drop http2MagicLen else bufPos) = pos
      by_cases hdone : (bufPos.length ≥ http2MagicLen ∧ http2Magic <+: buf) ∧ pos = []
      · rw [if_pos hdone, if_pos hdone]
        exact hf
      · rw [if_neg hdone, if_neg hdone]
        have hleft : pos ≠ [] := by
          intro h
          by_cases hmagic : bufPos.length ≥ http2MagicLen ∧ http2Magic <+: buf
          · exact hdone ⟨hmagic, h⟩
          · rw [if_neg hmagic] at hpos
            exact hnil (hpos.trans h)
        by_cases hhead : st.http2Buf.buf.length + pos.length < 9
        · rw [if_pos hhead, if_pos hhead]
          exact hf.http2StashFrame env hleft
        · rw [if_neg hhead, if_neg hhead, foldl_append, holds_readStash]
          by_cases hframe : st.http2Buf.buf.length + pos.length <
              9 + http2GetFrameLength st.http2Buf pos
          · rw [if_pos hframe, if_pos hframe]
            exact hf.http2StashFrame env hleft
          · rw [if_neg hframe, if_neg hframe, foldl_append]
            have hread : (if isReported (http2GetFrameType st.http2Buf pos) then
                reportHttp2Buffers env st.http2Buf (http2GetFrameLength st.http2Buf pos + 9)
                else []).foldl holds f = f := by
              split_ifs
              · exact holds_reportHttp2Buffers env _ _ f
              · rfl
            have hempty : Fits { st with http2Buf := { st.http2Buf with buf := [] } } f :=
              ⟨hf.hdr, hf.stash, hf.alloc, Nat.zero_le _⟩
            rw [hread]
            exact ih hempty _ _

def Bare (st : HttpState) : Prop := st.hdr = [] ∧ st.http2Buf.size = 0

instance (st : HttpState) : Decidable (Bare st) :=
  inferInstanceAs (Decidable (_ ∧ _))

theorem Fits.bare_iff (hf : Fits st f) : Bare st ↔ ∀ part, f part = false := by
  constructor
  · rintro ⟨hhdr, hstash⟩ part
    rw [← Bool.not_eq_true]
    cases part with
    | hdr => exact fun h => hf.hdr.1 h hhdr
    | stash => exact fun h => hf.stash.1 h hstash
  · intro h
    constructor
    · by_contra hhdr
      exact Bool.noConfusion ((h .hdr).symm.trans (hf.hdr.2 hhdr))
    · by_contra hstash
      exact Bool.noConfusion ((h .stash).symm.trans (hf.stash.2 hstash))

/-! ## A call -/

def AllFit (states : HttpDirection → HttpState) (f : HttpDirection → Part → Bool) : Prop :=
  ∀ d, Fits (states d) (f d)

def holdsAt (f : HttpDirection → Part → Bool) (d : HttpDirection) (cs : List (Command Part)) :
    HttpDirection → Part → Bool :=
  Function.update f d (cs.foldl holds (f d))

variable {states : HttpDirection → HttpState} {f : HttpDirection → Part → Bool}

theorem AllFit.setVersions (hf : AllFit states f) (v : ℕ) : AllFit (setVersions states v) f :=
  fun d => (hf d).congr rfl rfl rfl id

theorem AllFit.update (hf : AllFit states f) {d : HttpDirection} {cs : List (Command Part)}
    (hst : Fits st (cs.foldl holds (f d))) :
    AllFit (update states d st) (holdsAt f d cs) := by
  intro e
  rw [holdsAt]
  by_cases he : e = d
  · rw [he, update_self, update_self]
    exact hst
  · rw [update_of_ne he, update_of_ne he]
    exact hf e

theorem AllFit.holdsAt_nil (hf : AllFit states f) (d : HttpDirection) :
    AllFit states (holdsAt f d []) := by
  rw [holdsAt, foldl_nil, update_eq_self]
  exact hf

theorem holdsAt_append (f : HttpDirection → Part → Bool) (d : HttpDirection)
    (cs cs' : List (Command Part)) : holdsAt f d (cs ++ cs') = holdsAt (holdsAt f d cs) d cs' := by
  rw [holdsAt, holdsAt, holdsAt, foldl_append, update_self, update_idem]

theorem AllFit.doHttpVersion (hf : AllFit states f) (env : HttpEnv) (net : Option NetInfo)
    (buf : List UInt8) (d : HttpDirection) (httpId : HttpId) :
    AllFit (doHttpVersion env states net buf d httpId).state
      (holdsAt f d (doHttpVersionBuffers env (states d) buf httpId)) := by
  rw [Http.doHttpVersion, doHttpVersionBuffers]
  by_cases h1 : (states d).version = 1
  · rw [if_pos h1, if_pos h1]
    have hparse := hf.update ((hf d).parseHttp1 env buf httpId)
    dsimp only
    split_ifs
    · -- the upgrade changes versions and clears flags
      intro e
      dsimp only
      by_cases he : e = d
      · rw [he, update_self]
        exact (hparse d).congr rfl rfl rfl id
      · rw [update_of_ne he]
        exact hparse.setVersions 2 e
    · exact hparse
  · rw [if_neg h1, if_neg h1]
    split_ifs with h2
    · refine hf.update ?_
      rw [parseHttp2, parseHttp2Buffers]
      split_ifs with hnil
      · exact hf d
      · exact (hf d).parseHttp2Loop env net buf httpId _ buf false
    · exact hf.holdsAt_nil d

theorem AllFit.doHttpBuffer (hf : AllFit states f) (env : HttpEnv) (net : Option NetInfo)
    (buf : List UInt8) (src : MetricT) (httpId : HttpId) :
    AllFit (doHttpBuffer env states net buf src httpId).state
      (holdsAt f (directionOf src) (doHttpBufferBuffers env states buf src httpId)) := by
  rw [Http.doHttpBuffer, doHttpBufferBuffers]
  rw [← directionOf]
  split_ifs with hversion hmagic hmore hstart
  · exact (hf.setVersions 2).doHttpVersion env net _ _ httpId
  · exact (hf.setVersions 2).holdsAt_nil _
  · exact (hf.setVersions 1).doHttpVersion env net _ _ httpId
  · exact hf.holdsAt_nil _
  · exact hf.doHttpVersion env net _ _ httpId

theorem AllFit.doHttpIov (hf : AllFit states f) (env : HttpEnv) (net : NetInfo) (src : MetricT)
    (httpId : HttpId) (iov : List (Option (List UInt8))) :
    AllFit (doHttpIov env net src httpId states iov).state
      (holdsAt f (directionOf src) (doHttpIovBuffers env net src httpId states iov)) := by
  induction iov generalizing states f with
  | nil => exact hf.holdsAt_nil _
  | cons base iov ih =>
    cases base with
    | none => exact ih hf
    | some base =>
      rw [doHttpIovBuffers, holdsAt_append]
      exact ih (hf.doHttpBuffer env (some net) base src httpId)

/-- **A call keeps them**, in the direction of its data and in the other one. -/
theorem AllFit.doHttp {net : NetInfo} (hf : AllFit net.http f) (env : HttpEnv) (sockfd : ℤ)
    (data : SrcData) (len : ℕ) (src : MetricT) :
    AllFit (doHttp env sockfd net data len src).state.http
      (holdsAt f (directionOf src) (doHttpBuffers env sockfd net data len src)) := by
  rw [Http.doHttp, doHttpBuffers]
  split_ifs with hstream
  · exact hf.holdsAt_nil _
  · cases data with
    | buf buf => exact hf.doHttpBuffer env (some net) buf src _
    | msg iov => exact hf.doHttpIov env net src _ iov
    | iov iov => exact hf.doHttpIov env net src _ (iov.take len)
    | other => exact hf.holdsAt_nil _

end AppView.Http
