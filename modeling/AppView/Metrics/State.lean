import AppView.Metrics.Counters

/-!
# `state.c`: updating the state and posting it

The process state is passed explicitly: the summary flags, the process-wide counters, the two
descriptor tables and the queue of posted messages.
-/

namespace AppView.Metrics

structure Config where
  /-- `mtcEnabled(g_mtc)` -/
  mtcEnabled : Bool
  /-- `cfgMtcWatchEnable(..., CFG_MTC_FS)` -/
  watchFs : Bool
  /-- `cfgMtcWatchEnable(..., CFG_MTC_NET)` -/
  watchNet : Bool
  /-- `ctlEvtSourceEnabled(g_ctl, CFG_SRC_METRIC)` -/
  srcMetric : Bool
  /-- `ctlEvtSourceEnabled(g_ctl, CFG_SRC_FS)` -/
  srcFs : Bool
  /-- `ctlEvtSourceEnabled(g_ctl, CFG_SRC_NET)` -/
  srcNet : Bool
deriving DecidableEq, Repr

def allOn : Config := ⟨true, true, true, true, true, true⟩

structure Summary where
  fsOpenClose : Bool
  fsSeek : Bool
  fsReadWrite : Bool
  netOpenClose : Bool
  netRxTx : Bool
deriving DecidableEq, Repr

/-- What is summarized at a verbosity. -/
def setVerbosity (verbosity : ℕ) : Summary where
  fsOpenClose := verbosity < 6
  fsSeek := verbosity < 8
  fsReadWrite := verbosity < 9
  netOpenClose := verbosity < 7
  netRxTx := verbosity < 9

inductive Msg : Type where
  | net (net : NetInfo)
  | fs (fs : FsInfo)

structure State where
  summary : Summary
  ctrs : MetricCounters := fun _ => {}
  fsinfo : ℤ → FsInfo := fun _ => {}
  netinfo : ℤ → NetInfo := fun _ => {}
  queue : List Msg := []

/-! ## Descriptors -/

def checkNetEntry (fd : ℤ) : Bool := 0 ≤ fd ∧ fd < netEntries
def checkFSEntry (fd : ℤ) : Bool := 0 ≤ fd ∧ fd < fsEntries

/-- The descriptor is in the table, and is a socket in use. -/
def hasNetEntry (s : State) (fd : ℤ) : Bool := checkNetEntry fd && (s.netinfo fd).active

def addrIsNetDomain (sock : SockaddrStorage) : Bool :=
  sock.ssFamily = afInet || sock.ssFamily = afInet6

def addrIsUnixDomain (sock : SockaddrStorage) : Bool := sock.ssFamily = afUnix

/-- The kind of a socket in the totals. -/
def getNetRxTxBucket (net : NetInfo) : SockSummaryBucket :=
  if addrIsNetDomain net.localConn || addrIsNetDomain net.remoteConn then
    if net.type = sockStream then .inetTcp
    else if net.type = sockDgram then .inetUdp
    else .sockOther
  else if addrIsUnixDomain net.localConn || addrIsUnixDomain net.remoteConn then
    if net.type = sockStream then .unixTcp
    else if net.type = sockDgram then .unixUdp
    else .sockOther
  else .sockOther

def State.setFs (s : State) (fd : ℤ) (fs : FsInfo) : State :=
  { s with fsinfo := Function.update s.fsinfo fd fs }

def State.setNet (s : State) (fd : ℤ) (net : NetInfo) : State :=
  { s with netinfo := Function.update s.netinfo fd net }

def State.fsCtr (s : State) (fd : ℤ)
    (f : (FsCtr → CountersElement) → FsCtr → CountersElement) : State :=
  s.setFs fd { s.fsinfo fd with ctr := f (s.fsinfo fd).ctr }

def State.netCtr (s : State) (fd : ℤ)
    (f : (NetCtr → CountersElement) → NetCtr → CountersElement) : State :=
  s.setNet fd { s.netinfo fd with ctr := f (s.netinfo fd).ctr }

def State.netCounters (s : State) (fd : ℤ) (f : MetricCounters → MetricCounters) : State :=
  s.setNet fd { s.netinfo fd with counters := f (s.netinfo fd).counters }

def State.globals (s : State) (f : MetricCounters → MetricCounters) : State :=
  { s with ctrs := f s.ctrs }

/-! ## Posting -/

def fsSummarize (summary : Summary) : MetricT → Option Bool
  | .fsRead | .fsWrite | .fsDuration => some summary.fsReadWrite
  | .fsOpen | .fsClose => some summary.fsOpenClose
  | .fsSeek => some summary.fsSeek
  | _ => none

def netSummarize (summary : Summary) : MetricT → Option Bool
  | .openPorts | .netConnections | .connectionOpen | .connectionClose
  | .connectionDuration => some summary.netOpenClose
  | .netrx | .nettx => some summary.netRxTx
  | _ => none

def postFSState (cfg : Config) (s : State) (fd : ℤ) (type : MetricT)
    (fs : Option FsInfo) (funcop pathname : Option String) : Bool × State :=
  let mtcNeedsReporting := fsSummarize s.summary type = some false
  let needToPost := cfg.srcMetric || cfg.srcFs || (cfg.mtcEnabled && mtcNeedsReporting)
  if needToPost then
    let fsp : FsInfo := fs.getD {}
    let fsp := { fsp with
      fd := fd
      dataType := type
      path := if fsp.path = "" then pathname.getD "" else fsp.path
      funcop := if fsp.funcop = "" then funcop.getD "" else fsp.funcop }
    (mtcNeedsReporting, { s with queue := s.queue ++ [.fs fsp] })
  else (false, s)

def postNetState (cfg : Config) (s : State) (fd : ℤ) (type : MetricT)
    (net : NetInfo) : Bool × State :=
  let mtcNeedsReporting := netSummarize s.summary type = some false
  let isHttp := (net.http .httpRx).version ≠ 0 ∨ (net.http .httpTx).version ≠ 0
  let needToPost := cfg.srcMetric || cfg.srcNet ||
    (type = .connectionDuration && isHttp) || (cfg.mtcEnabled && mtcNeedsReporting)
  if needToPost then
    let netp := { net with fd := fd, dataType := type, counters := s.ctrs }
    (mtcNeedsReporting, { s with queue := s.queue ++ [.net netp] })
  else (false, s)

/-! ## Updates -/

def updateFs (cfg : Config) (s : State) (fd : ℤ) (type : MetricT)
    (adds : List (FsCtr × UInt64)) (globals : List (Ctr × UInt64))
    (funcop pathname : Option String) : State :=
  let s := s.fsCtr fd fun c => adds.foldl (fun c a => addTo c a.1 a.2) c
  let s := s.globals fun c => globals.foldl (fun c a => addTo c a.1 a.2) c
  let (reported, s) := postFSState cfg s fd type (some (s.fsinfo fd)) funcop pathname
  if reported then s.fsCtr fd fun c => adds.foldl (fun c a => swapMtc c a.1) c else s

def updateNetBytes (cfg : Config) (s : State) (fd : ℤ) (type : MetricT)
    (numops sizebytes : NetCtr) (global : SockSummaryBucket → Ctr) (size : ℤ) : State :=
  let s := s.netCtr fd fun c => addTo (addTo c numops 1) sizebytes (u64 size)
  let bucket := getNetRxTxBucket (s.netinfo fd)
  let s := s.globals fun c => addTo c (global bucket) (u64 size)
  let (reported, s) := postNetState cfg s fd type (s.netinfo fd)
  if reported then s.netCtr fd fun c => swapMtc (swapMtc c numops) sizebytes else s

def countsConnection (cfg : Config) (net : NetInfo) : Bool :=
  cfg.srcNet && (net.type ≠ sockStream || (net.addrSetRemote && net.addrSetLocal))

def updateConnection (cfg : Config) (s : State) (fd : ℤ) (type : MetricT) (ctr : Ctr) : State :=
  let s :=
    if countsConnection cfg (s.netinfo fd) then
      let s := s.netCounters fd fun c => addTo c ctr 1
      let s := s.globals fun c => addTo c ctr 1
      let (reported, s) := postNetState cfg s fd type (s.netinfo fd)
      if reported then s.netCounters fd fun c => swapMtc c ctr else s
    else s
  s.netCounters fd fun c => swapEvt c ctr

def updateGauge (cfg : Config) (s : State) (fd : ℤ) (type : MetricT) (ctr : Ctr)
    (size : ℤ) (now : UInt64) : State :=
  let s :=
    if size < 0 then s.globals fun c => subFrom c ctr (u64 (-size))
    else if size > 0 then s.globals fun c => addTo c ctr (u64 size)
    else s
  let s :=
    if size ≠ 0 ∧ (s.netinfo fd).startTime = 0 then
      s.setNet fd { s.netinfo fd with startTime := now }
    else s
  -- don't reset the info, it's a gauge
  (postNetState cfg s fd type (s.netinfo fd)).2

def connectionsCtr (net : NetInfo) : Ctr :=
  if net.type = sockStream then .netConnectionsTcp
  else if net.type = sockDgram then .netConnectionsUdp
  else .netConnectionsOther

def carriedData (net : NetInfo) : Bool :=
  (net.ctr .rxBytes).evt > 0 || (net.ctr .txBytes).evt > 0 ||
    (net.ctr .rxBytes).mtc > 0 || (net.ctr .txBytes).mtc > 0

def updateConnectionDuration (cfg : Config) (s : State) (fd : ℤ) (now : UInt64) : State :=
  let start := (s.netinfo fd).startTime
  let newDuration := if start ≠ 0 then now - start else 0
  let s := s.setNet fd { s.netinfo fd with startTime := 0 }
  let s :=
    if newDuration ≠ 0 then
      let s := s.netCtr fd fun c =>
        addTo (addTo c .numDuration 1) .totalDuration newDuration
      s.globals fun c => addTo (addTo c .connDurationNum 1) .connDurationTotal newDuration
    else s
  let s :=
    if carriedData (s.netinfo fd) then
      let (reported, s) := postNetState cfg s fd .connectionDuration (s.netinfo fd)
      if reported then
        s.netCtr fd fun c => swapMtc (swapMtc c .numDuration) .totalDuration
      else s
    else s
  s.netCtr fd fun c => swapEvt (swapEvt c .numDuration) .totalDuration

/-- `doUpdateState`. The types that are not modelled leave the state as it is. -/
def doUpdateState (cfg : Config) (s : State) (type : MetricT) (fd : ℤ) (size : ℤ)
    (funcop pathname : Option String) (now : UInt64) : State :=
  match type with
  | .openPorts =>
    if hasNetEntry s fd then updateGauge cfg s fd type .openPorts size now else s
  | .netConnections =>
    if hasNetEntry s fd then
      updateGauge cfg s fd type (connectionsCtr (s.netinfo fd)) size now
    else s
  | .connectionDuration =>
    if hasNetEntry s fd then updateConnectionDuration cfg s fd now else s
  | .connectionOpen =>
    if hasNetEntry s fd then updateConnection cfg s fd type .netConnOpen else s
  | .connectionClose =>
    if hasNetEntry s fd then updateConnection cfg s fd type .netConnClose else s
  | .netrx =>
    if hasNetEntry s fd then
      updateNetBytes cfg s fd type .numRX .rxBytes .netrxBytes size
    else s
  | .nettx =>
    if hasNetEntry s fd then
      updateNetBytes cfg s fd type .numTX .txBytes .nettxBytes size
    else s
  | .fsDuration =>
    if checkFSEntry fd then
      updateFs cfg s fd type [(.numDuration, 1), (.totalDuration, u64 size)]
        [(.fsDurationNum, 1), (.fsDurationTotal, u64 size)] funcop pathname
    else s
  | .fsRead =>
    if checkFSEntry fd then
      updateFs cfg s fd type [(.numRead, 1), (.readBytes, u64 size)]
        [(.readBytes, u64 size)] funcop pathname
    else s
  | .fsWrite =>
    if checkFSEntry fd then
      updateFs cfg s fd type [(.numWrite, 1), (.writeBytes, u64 size)]
        [(.writeBytes, u64 size)] funcop pathname
    else s
  | .fsOpen =>
    if checkFSEntry fd then
      (updateFs cfg s fd type [(.numOpen, 1)] [(.numOpen, 1)] funcop pathname).fsCtr fd
        fun c => swapEvt c .numOpen
    else s
  | .fsClose =>
    if checkFSEntry fd then
      (updateFs cfg s fd type [(.numClose, 1)] [(.numClose, 1)] funcop pathname).fsCtr
        fd fun c => swapEvt c .numClose
    else s
  | .fsSeek =>
    if checkFSEntry fd then
      (updateFs cfg s fd type [(.numSeek, 1)] [(.numSeek, 1)] funcop pathname).fsCtr fd
        fun c => swapEvt c .numSeek
    else s
  | .fsDelete => (postFSState cfg s fd type none funcop pathname).2
  | _ => s

end AppView.Metrics
