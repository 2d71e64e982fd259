import AppView.StrSearch
import AppView.Types

/-!
# `httpstate.c`: following HTTP on a channel

The functions below are the ones of the source, one definition each, with the state of a
direction passed explicitly and the posted events returned as a list.
-/

namespace AppView.Http

def minHdrAlloc : ℕ := 4 * 1024
def maxHdrAlloc : ℕ := 16 * 1024

def http2Magic : List UInt8 :=
  [0x50, 0x52, 0x49, 0x20, 0x2A, 0x20, 0x48, 0x54, 0x54, 0x50, 0x2F, 0x32,
   0x2E, 0x30, 0x0D, 0x0A, 0x0D, 0x0A, 0x53, 0x4D, 0x0D, 0x0A, 0x0D, 0x0A]

def http2MagicLen : ℕ := 24

def httpStart : List UInt8 := [0x48, 0x54, 0x54, 0x50, 0x2F]

def httpEnd : List UInt8 := [0x0D, 0x0A]

def gHttpStart : Search := ⟨httpStart, bmBcTable httpStart⟩
def gHttpEnd : Search := ⟨httpEnd, bmBcTable httpEnd⟩

structure HttpEnv where
  /-- the first group of a match of `HTTP_CLENGTH`, `none` if there is none -/
  clengthMatch : List UInt8 → Option (List UInt8)
  /-- does `HTTP_UPGRADE` match? -/
  upgradeMatch : List UInt8 → Bool
  /-- does `HTTP_CONNECT` match? -/
  connectMatch : List UInt8 → Bool
  /-- does growing a buffer to this size succeed? -/
  reallocOk : ℕ → Bool
  /-- does allocating an event with this many frame bytes succeed? -/
  protoAllocOk : ℕ → Bool
  getNetEntry : ℤ → Option NetInfo
  getTime : UInt64

structure HttpEnv.AllocSucceeds (env : HttpEnv) : Prop where
  realloc : ∀ n, env.reallocOk n = true
  proto : ∀ n, env.protoAllocOk n = true

def HttpEnv.idle : HttpEnv where
  clengthMatch := fun _ => none
  upgradeMatch := fun _ => false
  connectMatch := fun _ => false
  reallocOk := fun _ => true
  protoAllocOk := fun _ => true
  getNetEntry := fun _ => none
  getTime := 0

theorem HttpEnv.idle_allocSucceeds : HttpEnv.idle.AllocSucceeds :=
  ⟨fun _ => rfl, fun _ => rfl⟩

structure Parsed (σ : Type) where
  state : σ
  posts : List ProtocolInfo
  found : Bool

structure Arrival where
  env : HttpEnv
  net : Option NetInfo
  httpId : HttpId
  buf : List UInt8

/-! ## HTTP/1 -/

/-- The state is entered; `HTTP_NONE` also drops the header and the stash. -/
def setHttpState (httpstate : HttpState) (toState : HttpEnum) : HttpState :=
  match toState with
  | .httpNone =>
    { httpstate with
      state := .httpNone, hdr := [], hdralloc := 0, clen := 0, id := {},
      http2Buf := {} }
  | s => { httpstate with state := s }

/-- The size of the header buffer is multiplied by four until the content fits, up to the maximum.
-/
def growAlloc (contentSize : ℕ) : ℕ → ℕ → Option ℕ
  | 0, _ => none
  | fuel + 1, allocSize =>
    if allocSize < contentSize then
      let allocSize := allocSize <<< 2
      if allocSize > maxHdrAlloc then none
      else growAlloc contentSize fuel allocSize
    else some allocSize

/-- Bytes are added to the header; where they do not fit, the message is given up. -/
def appendHeader (env : HttpEnv) (httpstate : HttpState) (buf : List UInt8) : HttpState :=
  let contentSize := httpstate.hdr.length + buf.length
  let allocSize := if httpstate.hdralloc = 0 then minHdrAlloc else httpstate.hdralloc
  match growAlloc contentSize 8 allocSize with
  | none => setHttpState httpstate .httpNone
  | some allocSize =>
    if allocSize ≠ httpstate.hdralloc ∧ env.reallocOk allocSize = false then
      setHttpState httpstate .httpNone
    else
      { httpstate with hdr := httpstate.hdr ++ buf, hdralloc := allocSize }

def digitsVal (base : ℕ) (ds : List UInt8) : ℕ :=
  ds.foldl (fun n d => n * base + (d.toNat - 48)) 0

def strtoull (s : List UInt8) : ℕ :=
  let base := if s.head? = some 48 then 8 else 10
  min (digitsVal base (s.takeWhile fun d => 48 ≤ d.toNat ∧ d.toNat < 48 + base))
    (2 ^ 64 - 1)

/-- The length a header declares; 0 and what does not fit count as none. -/
def getContentLength (env : HttpEnv) (header : List UInt8) : Option ℕ :=
  match env.clengthMatch header with
  | none => none
  | some cLen =>
    let ret := strtoull cLen
    if ret = 0 ∨ ret = 2 ^ 64 - 1 then none else some ret

/-- How much of a buffer is body, and what is left of the body after it. -/
def bytesToSkipForContentLength (httpstate : HttpState) (len : ℕ) : ℕ × HttpState :=
  if httpstate.clen = 0 then (0, httpstate)
  else if httpstate.clen < len then (httpstate.clen, { httpstate with clen := 0 })
  else (len, { httpstate with clen := httpstate.clen - len })

def noConn : SockaddrStorage := { ssFamily := 0xFFFF }

def isSend (src : MetricT) : Bool := src = .nettx || src = .tlstx

/-- The socket an event is reported with; both addresses are marked as unknown without one. -/
def connOf (net : Option NetInfo) : ℤ × SockaddrStorage × SockaddrStorage :=
  match net with
  | some net =>
    (net.type,
     if net.addrSetLocal then net.localConn else noConn,
     if net.addrSetRemote then net.remoteConn else noConn)
  | none => (-1, noConn, noConn)

/-- One event for the header that was collected, which is then gone from the state. -/
def reportHttp1 (env : HttpEnv) (httpstate : HttpState) : HttpState × List ProtocolInfo :=
  if httpstate.hdr = [] then (httpstate, [])
  else if env.protoAllocOk 0 = false then (httpstate, [])
  else
    let (sockType, localConn, remoteConn) :=
      connOf (env.getNetEntry httpstate.id.sockfd)
    ({ httpstate with hdr := [] },
     [{ ptype := if httpstate.isResponse then .evtHres else .evtHreq
        isServer := (isSend httpstate.id.src && httpstate.isResponse) ||
          (!isSend httpstate.id.src && !httpstate.isResponse)
        len := httpstate.hdr.length
        fd := httpstate.id.sockfd
        uid := httpstate.id.uid
        data :=
          { ssl := httpstate.id.isSsl
            startDuration := env.getTime
            id := httpstate.id
            hdr := httpstate.hdr }
        sockType := sockType
        localConn := localConn
        remoteConn := remoteConn }])

/-- The lines of a header, one by one; the rest of the buffer from the empty line on, if it comes.
-/
def headerLoop (env : HttpEnv) : ℕ → HttpState → List UInt8 →
    HttpState × Option (List UInt8)
  | 0, httpstate, _ => (httpstate, none)
  | fuel + 1, httpstate, rest =>
    if (httpstate.state = .httpHdr ∨ httpstate.state = .httpHdrEnd) ∧ rest ≠ []
    then
      match searchExec gHttpEnd rest (cInt rest.length) with
      | none =>
        -- no line end in this buffer: keep the rest of it
        (appendHeader env (setHttpState httpstate .httpHdr) rest, none)
      | some headerEnd =>
        if httpstate.state = .httpHdrEnd ∧ headerEnd = 0 then
          (httpstate, some rest)
        else
          -- a complete header line
          let lineLen := headerEnd + searchLen gHttpEnd
          headerLoop env fuel
            (appendHeader env (setHttpState httpstate .httpHdrEnd)
              (rest.take lineLen))
            (rest.drop lineLen)
    else (httpstate, none)

/-- A header is complete: it is examined and reported, and its body is awaited. -/
def endOfHeaders (env : HttpEnv) (httpstate : HttpState) (rest : List UInt8) :
    HttpState × List ProtocolInfo :=
  -- a terminator, to treat the header as a string
  let httpstate := appendHeader env httpstate [0]
  let clen := getContentLength env httpstate.hdr
  let contentInThisBuf := rest.length - searchLen gHttpEnd
  let httpstate :=
    { httpstate with
      isResponse := httpstate.hdr ≠ [] ∧
        (searchExec gHttpStart httpstate.hdr (searchLen gHttpStart)).isSome = true
      hasUpgrade := env.upgradeMatch httpstate.hdr
      hasConnectionUpgrade := env.connectMatch httpstate.hdr }
  let (httpstate, posts) := reportHttp1 env httpstate
  match clen with
  | some clen =>
    if contentInThisBuf ≤ clen then
      (setHttpState { httpstate with clen := clen - contentInThisBuf } .httpData,
        posts)
    else (setHttpState httpstate .httpNone, posts)
  | none => (setHttpState httpstate .httpNone, posts)

/-- The part of `parseHttp1` inside a header. -/
def parseHeaders (env : HttpEnv) (httpstate : HttpState) (buf : List UInt8) : Parsed HttpState :=
  match headerLoop env (buf.length + 1) httpstate buf with
  | (httpstate, none) => ⟨httpstate, [], false⟩
  | (httpstate, some rest) =>
    let (httpstate, posts) := endOfHeaders env httpstate rest
    ⟨httpstate, posts, true⟩

/-- The part of `parseHttp1` behind a body: a header is searched for, or continued. -/
def findHeaders (env : HttpEnv) (httpstate : HttpState) (buf : List UInt8)
    (httpId : HttpId) : Parsed HttpState :=
  if httpstate.state = .httpNone then
    match searchExec gHttpStart buf (cInt buf.length) with
    | none => ⟨httpstate, [], false⟩
    | some _ =>
      parseHeaders env { setHttpState httpstate .httpHdr with id := httpId } buf
  else parseHeaders env httpstate buf

/-- One buffer of an HTTP/1 direction; `found` is the value it returns. -/
def parseHttp1 (env : HttpEnv) (httpstate : HttpState) (buf : List UInt8)
    (httpId : HttpId) : Parsed HttpState :=
  -- ssl and plain data of one channel are never interleaved
  if httpstate.state ≠ .httpNone ∧ httpstate.id.isSsl ≠ httpId.isSsl then
    ⟨httpstate, [], false⟩
  else if httpstate.state = .httpData then
    let (bts, httpstate) := bytesToSkipForContentLength httpstate buf.length
    if bts = buf.length then ⟨httpstate, [], false⟩
    else findHeaders env (setHttpState httpstate .httpNone) (buf.drop bts) httpId
  else findHeaders env httpstate buf httpId

/-! ## HTTP/2 -/

/-- What there is of a frame is kept for the next buffer, unless there is no memory. -/
def http2StashFrame (env : HttpEnv) (stash : HttpBuf) (buf : List UInt8) : HttpBuf :=
  let need := buf.length + stash.buf.length
  if need > stash.size then
    let need := (need + 1023) / 1024 * 1024
    if env.reallocOk need = false then stash
    else { buf := stash.buf ++ buf, size := need }
  else { stash with buf := stash.buf ++ buf }

/-- A byte of the frame that begins in the stash and goes on in the buffer. -/
def http2FrameByte (stash : HttpBuf) (buf : List UInt8) (i : ℕ) : UInt8 :=
  if stash.buf.length > i then stash.buf.getD i 0
  else buf.getD (i - stash.buf.length) 0

def http2GetFrameLength (stash : HttpBuf) (buf : List UInt8) : ℕ :=
  (http2FrameByte stash buf 0).toNat <<< 16 +
    (http2FrameByte stash buf 1).toNat <<< 8 + (http2FrameByte stash buf 2).toNat

def http2GetFrameType (stash : HttpBuf) (buf : List UInt8) : UInt8 :=
  http2FrameByte stash buf 3

/-- One event for a frame, put together from the stash and the buffer; did it end the headers? -/
def reportHttp2 (env : HttpEnv) (state : HttpState) (net : Option NetInfo)
    (buf : List UInt8) (frameLen : ℕ) (httpId : HttpId) : List ProtocolInfo × Bool :=
  if env.protoAllocOk frameLen = false then ([], false)
  else
    let stash := state.http2Buf.buf
    let hdr :=
      if stash.length ≠ 0 then stash ++ buf.take (frameLen - stash.length)
      else buf.take frameLen
    let (sockType, localConn, remoteConn) := connOf net
    ([{ ptype := .evtH2frame
        isServer := isSend state.id.src
        len := frameLen
        fd := httpId.sockfd
        uid := httpId.uid
        data :=
          { ssl := state.id.isSsl
            startDuration := env.getTime
            id := state.id
            hdr := hdr }
        sockType := sockType
        localConn := localConn
        remoteConn := remoteConn }],
     hdr.getD 4 0 &&& 0x04 ≠ 0)

/-- HEADERS, PUSH_PROMISE and CONTINUATION. -/
def isReported (fType : UInt8) : Bool :=
  fType = 0x01 || fType = 0x05 || fType = 0x09

/-- Frame by frame. The preface is looked for at the start of the buffer, whatever the position. -/
def parseHttp2Loop (env : HttpEnv) (net : Option NetInfo) (buf : List UInt8)
    (httpId : HttpId) : ℕ → HttpState → List UInt8 → Bool → Parsed HttpState
  | 0, state, _, ret => ⟨state, [], ret⟩
  | fuel + 1, state, bufPos, ret =>
    if bufPos = [] then ⟨state, [], ret⟩
    else
      let isMagic := bufPos.length ≥ http2MagicLen ∧ http2Magic <+: buf
      let bufPos := if isMagic then bufPos.drop http2MagicLen else bufPos
      let stash := state.http2Buf
      if isMagic ∧ bufPos = [] then ⟨state, [], false⟩
      else if stash.buf.length + bufPos.length < 9 then
        ⟨{ state with http2Buf := http2StashFrame env stash bufPos }, [], false⟩
      else
        let fLen := http2GetFrameLength stash bufPos
        let fType := http2GetFrameType stash bufPos
        if stash.buf.length + bufPos.length < 9 + fLen then
          ⟨{ state with http2Buf := http2StashFrame env stash bufPos }, [], false⟩
        else
          let (posts, endHeaders) :=
            if isReported fType then
              reportHttp2 env state net bufPos (fLen + 9) httpId
            else ([], false)
          let bytesParsed := fLen + 9 - stash.buf.length
          let next := parseHttp2Loop env net buf httpId fuel
            { state with http2Buf := { stash with buf := [] } }
            (bufPos.drop bytesParsed) (ret || endHeaders)
          { next with posts := posts ++ next.posts }

def parseHttp2 (env : HttpEnv) (state : HttpState) (net : Option NetInfo)
    (buf : List UInt8) (httpId : HttpId) : Parsed HttpState :=
  if buf = [] then ⟨state, [], false⟩
  else parseHttp2Loop env net buf httpId (buf.length + 1) state buf false

/-! ## Both versions -/

def setVersions (states : HttpDirection → HttpState) (v : ℕ) : HttpDirection → HttpState :=
  fun d => { states d with version := v }

/-- A buffer of a channel whose version is known. -/
def doHttpVersion (env : HttpEnv) (states : HttpDirection → HttpState)
    (net : Option NetInfo) (buf : List UInt8) (d : HttpDirection)
    (httpId : HttpId) : Parsed (HttpDirection → HttpState) :=
  if (states d).version = 1 then
    let r := parseHttp1 env (states d) buf httpId
    let states := Function.update states d r.state
    -- a successful upgrade response switches both directions to HTTP/2
    if r.state.isResponse && r.state.hasUpgrade && r.state.hasConnectionUpgrade then
      let states := setVersions states 2
      ⟨Function.update states d
        { states d with
          isResponse := false, hasUpgrade := false, hasConnectionUpgrade := false },
        r.posts, r.found⟩
    else ⟨states, r.posts, r.found⟩
  else if (states d).version = 2 then
    let r := parseHttp2 env (states d) net buf httpId
    ⟨Function.update states d r.state, r.posts, r.found⟩
  else ⟨states, [], false⟩

/-- A buffer of a channel whose version may have to be found out first. -/
def doHttpBuffer (env : HttpEnv) (states : HttpDirection → HttpState)
    (net : Option NetInfo) (buf : List UInt8) (src : MetricT) (httpId : HttpId) :
    Parsed (HttpDirection → HttpState) :=
  let d := if isSend src then HttpDirection.httpTx else .httpRx
  if (states d).version = 0 then
    if http2Magic <+: buf then
      let states := setVersions states 2
      if buf.length > http2MagicLen then
        doHttpVersion env states net (buf.drop http2MagicLen) d httpId
      else ⟨states, [], false⟩
    else if (searchExec gHttpStart buf (cInt buf.length)).isSome then
      doHttpVersion env (setVersions states 1) net buf d httpId
    else ⟨states, [], false⟩
  else doHttpVersion env states net buf d httpId

def setHttpId (net : NetInfo) (sockfd : ℤ) (src : MetricT) : HttpId :=
  { uid := net.uid, isSsl := src = .tlstx || src = .tlsrx, src := src,
    sockfd := sockfd }

inductive SrcData : Type where
  | buf (buf : List UInt8)
  | msg (msgIov : List (Option (List UInt8)))
  | iov (iov : List (Option (List UInt8)))
  | other

/-- The entries of an array one after the other; those without a base are passed over. -/
def doHttpIov (env : HttpEnv) (net : NetInfo) (src : MetricT) (httpId : HttpId) :
    (HttpDirection → HttpState) → List (Option (List UInt8)) →
      Parsed (HttpDirection → HttpState)
  | states, [] => ⟨states, [], false⟩
  | states, none :: iov => doHttpIov env net src httpId states iov
  | states, some base :: iov =>
    let r := doHttpBuffer env states (some net) base src httpId
    let next := doHttpIov env net src httpId r.state iov
    ⟨next.state, r.posts ++ next.posts, r.found || next.found⟩

/-- What an application sent or received on a stream socket. -/
def doHttp (env : HttpEnv) (sockfd : ℤ) (net : NetInfo) (data : SrcData) (len : ℕ)
    (src : MetricT) : Parsed NetInfo :=
  if len = 0 ∨ net.type ≠ sockStream then ⟨net, [], false⟩
  else
    let httpId := setHttpId net sockfd src
    let r : Parsed (HttpDirection → HttpState) :=
      match data with
      | .buf buf => doHttpBuffer env net.http (some net) buf src httpId
      | .msg iov => doHttpIov env net src httpId net.http iov
      | .iov iov => doHttpIov env net src httpId net.http (iov.take len)
      | .other => ⟨net.http, [], false⟩
    ⟨{ net with http := r.state }, r.posts, r.found⟩

/-- Both directions start anew. -/
def resetHttp (states : HttpDirection → HttpState) : HttpDirection → HttpState :=
  fun d => setHttpState (states d) .httpNone

end AppView.Http
