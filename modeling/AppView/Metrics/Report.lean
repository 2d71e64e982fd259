import AppView.Metrics.State

/-!
# `report.c`: turning counters into metrics and events

Each function returns the process-wide counters and the entry (or message) it was given as it
leaves them, with what it sent, in order.
-/

namespace AppView.Metrics

inductive DataType : Type where
  | delta | current | deltaMs | histogram
deriving DecidableEq, Repr

structure Sent where
  toMtc : Bool := false
  name : String
  value : ℤ
  type : DataType
  unit : String := ""
  fd : Option ℤ := none
  op : Option String := none
  file : Option String := none
  numops : Option ℤ := none
  bucket : Option String := none
  summary : Bool := false
deriving DecidableEq, Repr

/-- A metric goes out only if metrics are enabled. -/
def cmdSendMetric (cfg : Config) (evt : Sent) : List Sent :=
  if cfg.mtcEnabled then [{ evt with toMtc := true }] else []

def cmdSendEvent (evt : Sent) : List Sent := [{ evt with toMtc := false }]

structure Reported (α : Type) where
  ctrs : MetricCounters
  info : α
  sent : List Sent

/-- A metric of this kind is left to the totals, or not watched at all. -/
def notReported (summarize watch : Bool) (source : ControlType) : Bool :=
  (summarize && source = .eventBased) || !watch

/-- The mean, through a conversion of the count to `int`. -/
def meanDuration (factor : ℕ) (total num : UInt64) : UInt64 :=
  let cachedDurationNum := cInt num.toNat
  if cachedDurationNum ≥ 1 then
    total / u64 (cInt (factor * cachedDurationNum.toNat))
  else 0

/-! ## Files -/

def defaultMinDurationTime : UInt64 := 1

/-- The standard streams have no such events. -/
def doFSOpenCloseEvent (metric : String) (numops : FsCtr) (fs : FsInfo) (op : String) : List Sent :=
  if fs.fd > 2 ∧ ¬ "std".toList <+: fs.path.toList then
    cmdSendEvent { name := metric, value := longLong (fs.ctr numops).evt, type := .delta,
                   op := some op, file := some fs.path }
  else []

/-- The mean duration of the operations on a file. -/
def doFSDuration (cfg : Config) (summary : Summary) (ctrs : MetricCounters)
    (fs : FsInfo) (source : ControlType) (op : String) : Reported FsInfo :=
  let evt (dur : UInt64) (num : UInt64) : Sent :=
    { name := "fs.duration", value := longLong dur, type := .histogram, fd := some fs.fd,
      op := some op, file := some fs.path, numops := some (cInt num.toNat),
      unit := "microsecond" }
  let num := fs.ctr .numDuration
  let total := fs.ctr .totalDuration
  let dur := meanDuration 1000 total.evt num.evt
  let dur := if cInt num.evt.toNat ≥ 1 ∧ dur = 0 then defaultMinDurationTime else dur
  let events := if dur ≠ 0 then cmdSendEvent (evt dur num.evt) else []
  if notReported summary.fsReadWrite cfg.watchFs source then ⟨ctrs, fs, events⟩
  else
    let dur := meanDuration 1000 total.mtc num.mtc
    if dur = 0 then ⟨ctrs, fs, events⟩
    else
      ⟨ctrs, { fs with ctr := swapMtc (swapMtc fs.ctr .numDuration) .totalDuration },
        events ++ cmdSendMetric cfg (evt dur num.mtc)⟩

/-- The bytes read from or written to a file. -/
def doFSReadWrite (cfg : Config) (summary : Summary) (ctrs : MetricCounters)
    (metric : String) (numops sizebytes : FsCtr) (globalCounter : Ctr)
    (fs : FsInfo) (source : ControlType) (op : String) : Reported FsInfo :=
  let evt (value num : UInt64) : Sent :=
    { name := metric, value := longLong value, type := .delta, fd := some fs.fd,
      op := some op, file := some fs.path, numops := some (longLong num),
      unit := "byte" }
  let size := fs.ctr sizebytes
  let num := fs.ctr numops
  let events := if size.evt ≠ 0 then cmdSendEvent (evt size.evt num.evt) else []
  if notReported summary.fsReadWrite cfg.watchFs source then ⟨ctrs, fs, events⟩
  else if size.mtc = 0 then ⟨ctrs, fs, events⟩
  else
    ⟨subFrom ctrs globalCounter size.mtc,
      { fs with ctr := swapMtc (swapMtc fs.ctr numops) sizebytes },
      events ++ cmdSendMetric cfg (evt size.mtc num.mtc)⟩

/-- How often an operation was done on a file. -/
def doFSCount (cfg : Config) (summarize : Bool) (ctrs : MetricCounters)
    (metric : String) (numops : FsCtr) (globalCounter : Ctr)
    (event : List Sent) (fs : FsInfo) (source : ControlType) (op : String) : Reported FsInfo :=
  let reported := (fs.ctr numops).evt ≠ 0
  let events := if reported then event else []
  let fs := if reported then { fs with ctr := swapEvt fs.ctr numops } else fs
  if notReported summarize cfg.watchFs source then ⟨ctrs, fs, events⟩
  else if (fs.ctr numops).mtc = 0 then ⟨ctrs, fs, events⟩
  else
    ⟨subFrom ctrs globalCounter (fs.ctr numops).mtc,
      { fs with ctr := swapMtc fs.ctr numops },
      events ++ cmdSendMetric cfg
        { name := metric, value := longLong (fs.ctr numops).mtc, type := .delta,
          fd := some fs.fd, op := some op, file := some fs.path, unit := "operation" }⟩

def doFSMetric (cfg : Config) (summary : Summary) (ctrs : MetricCounters)
    (type : MetricT) (fs : FsInfo) (source : ControlType) (op : String)
    (pathname : String) : Reported FsInfo :=
  match type with
  | .fsDuration => doFSDuration cfg summary ctrs fs source op
  | .fsRead =>
    doFSReadWrite cfg summary ctrs "fs.read" .numRead .readBytes .readBytes fs source op
  | .fsWrite =>
    doFSReadWrite cfg summary ctrs "fs.write" .numWrite .writeBytes .writeBytes fs
      source op
  | .fsOpen =>
    doFSCount cfg summary.fsOpenClose ctrs "fs.open" .numOpen .numOpen
      (doFSOpenCloseEvent "fs.open" .numOpen fs op) fs source op
  | .fsClose =>
    doFSCount cfg summary.fsOpenClose ctrs "fs.close" .numClose .numClose
      (doFSOpenCloseEvent "fs.close" .numClose fs op) fs source op
  | .fsSeek =>
    doFSCount cfg summary.fsSeek ctrs "fs.seek" .numSeek .numSeek
      (cmdSendEvent
        { name := "fs.seek", value := longLong (fs.ctr .numSeek).evt, type := .delta,
          fd := some fs.fd, op := some op, file := some fs.path, unit := "operation" })
      fs source op
  | .fsDelete =>
    ⟨ctrs, fs, cmdSendEvent
      { name := "fs.delete", value := 1, type := .delta, op := some op,
        file := some pathname, unit := "operation" }⟩
  | _ => ⟨ctrs, fs, []⟩

/-! ## Sockets -/

/-- Open ports or connections, as they are at this time. -/
def doNetGauge (cfg : Config) (summary : Summary) (ctrs : MetricCounters)
    (metric units : String) (value : CountersElement) (net : NetInfo)
    (source : ControlType) : Reported NetInfo :=
  let evt (x : UInt64) : Sent :=
    { name := metric, value := longLong x, type := .current, fd := some net.fd,
      unit := units }
  let events := cmdSendEvent (evt value.evt)
  if notReported summary.netOpenClose cfg.watchNet source then ⟨ctrs, net, events⟩
  else ⟨ctrs, net, events ++ cmdSendMetric cfg (evt value.mtc)⟩

def connectionsMetric (net : NetInfo) : String :=
  if net.type = sockStream then "net.tcp"
  else if net.type = sockDgram then "net.udp"
  else "net.other"

/-- Only stream sockets have such events. -/
def doNetOpenCloseEvent (metric : String) (ctrs : MetricCounters) (net : NetInfo) : List Sent :=
  if net.type ≠ sockStream then []
  else cmdSendEvent { name := metric, value := longLong (ctrs .openPorts).evt,
                      type := .current }

def doNetOpenClose (cfg : Config) (summary : Summary) (ctrs : MetricCounters)
    (metric : String) (ctr : Ctr) (events : List Sent) (net : NetInfo)
    (source : ControlType) : Reported NetInfo :=
  if notReported summary.netOpenClose cfg.watchNet source then ⟨ctrs, net, events⟩
  else
    ⟨subFrom ctrs ctr (net.counters ctr).mtc,
      { net with counters := swapMtc net.counters ctr },
      events ++ cmdSendMetric cfg
        { name := metric, value := longLong (net.counters ctr).mtc, type := .delta,
          fd := some net.fd, unit := "connection" }⟩

/-- The mean time a connection was open. -/
def doNetDuration (cfg : Config) (summary : Summary) (ctrs : MetricCounters)
    (net : NetInfo) (source : ControlType) : Reported NetInfo :=
  if !cfg.srcNet then ⟨ctrs, net, []⟩
  else
    let evt (dur num : UInt64) : Sent :=
      { name := "net.duration", value := longLong dur, type := .deltaMs,
        fd := some net.fd, numops := some (cInt num.toNat), unit := "millisecond" }
    let num := net.ctr .numDuration
    let total := net.ctr .totalDuration
    let dur := meanDuration 1000000 total.evt num.evt
    let events := if dur ≠ 0 then cmdSendEvent (evt dur num.evt) else []
    let net :=
      if dur ≠ 0 then
        { net with ctr := swapEvt (swapEvt net.ctr .numDuration) .totalDuration }
      else net
    let events := events ++ doNetOpenCloseEvent "net.close" ctrs net
    if notReported summary.netOpenClose cfg.watchNet source then ⟨ctrs, net, events⟩
    else
      let dur := meanDuration 1000000 total.mtc num.mtc
      if dur = 0 then ⟨ctrs, net, events⟩
      else
        ⟨ctrs, { net with ctr := swapMtc (swapMtc net.ctr .numDuration) .totalDuration },
          events ++ cmdSendMetric cfg (evt dur num.mtc)⟩

def netBytesEvent (metric : String) (net : NetInfo) (numops : NetCtr) (value : UInt64) : Sent :=
  { name := metric, value := longLong value, type := .delta, fd := some net.fd,
    numops := some (longLong (net.ctr numops).evt), unit := "byte" }

def sendNetBytes (cfg : Config) (ctrs : MetricCounters) (metric : Sent)
    (numops sizebytes : NetCtr) (global : SockSummaryBucket → Ctr) (net : NetInfo)
    (events : List Sent) : Reported NetInfo :=
  ⟨subFrom ctrs (global (getNetRxTxBucket net)) (net.ctr sizebytes).mtc,
    { net with ctr := swapMtc (swapMtc net.ctr numops) sizebytes },
    events ++ cmdSendMetric cfg metric⟩

/-- The bytes received on a socket. -/
def doNetRX (cfg : Config) (summary : Summary) (ctrs : MetricCounters) (net : NetInfo)
    (source : ControlType) : Reported NetInfo :=
  let size := net.ctr .rxBytes
  if size.evt = 0 then ⟨ctrs, net, []⟩
  else
    let events := cmdSendEvent (netBytesEvent "net.rx" net .numRX size.evt)
    let metric := netBytesEvent "net.rx" net .numRX size.mtc
    let net := { net with ctr := swapEvt (swapEvt net.ctr .numRX) .rxBytes }
    if notReported summary.netRxTx cfg.watchNet source then ⟨ctrs, net, events⟩
    else if size.mtc = 0 then ⟨ctrs, net, events⟩
    else sendNetBytes cfg ctrs metric .numRX .rxBytes .netrxBytes net events

/-- The bytes sent on a socket. -/
def doNetTX (cfg : Config) (summary : Summary) (ctrs : MetricCounters) (net : NetInfo)
    (source : ControlType) : Reported NetInfo :=
  let size := net.ctr .txBytes
  if size.evt = 0 then ⟨ctrs, net, []⟩
  else
    let events := cmdSendEvent (netBytesEvent "net.tx" net .numTX size.evt)
    if size.mtc = 0 then ⟨ctrs, net, events⟩
    else if notReported summary.netRxTx cfg.watchNet source then ⟨ctrs, net, events⟩
    else
      sendNetBytes cfg ctrs (netBytesEvent "net.tx" net .numTX size.mtc) .numTX .txBytes
        .nettxBytes net events

def doNetMetric (cfg : Config) (summary : Summary) (ctrs : MetricCounters)
    (type : MetricT) (net : NetInfo) (source : ControlType) : Reported NetInfo :=
  match type with
  | .openPorts =>
    doNetGauge cfg summary ctrs "net.port" "instance" (net.counters .openPorts) net
      source
  | .netConnections =>
    doNetGauge cfg summary ctrs (connectionsMetric net) "connection"
      (ctrs (connectionsCtr net)) net source
  | .connectionOpen =>
    doNetOpenClose cfg summary ctrs "net.open" .netConnOpen
      (doNetOpenCloseEvent "net.open" ctrs net) net source
  | .connectionClose =>
    doNetOpenClose cfg summary ctrs "net.close" .netConnClose [] net source
  | .connectionDuration => doNetDuration cfg summary ctrs net source
  | .netrx => doNetRX cfg summary ctrs net source
  | .nettx => doNetTX cfg summary ctrs net source
  | _ => ⟨ctrs, net, []⟩

/-! ## Totals -/

def allBuckets : List SockSummaryBucket :=
  [.inetTcp, .inetUdp, .unixTcp, .unixUdp, .sockOther]

def bucketName : SockSummaryBucket → String
  | .inetTcp => "inet_tcp"
  | .inetUdp => "inet_udp"
  | .unixTcp => "unix_tcp"
  | .unixUdp => "unix_udp"
  | .sockOther => "other"

/-- A total is reported if it is not zero, and starts anew unless it is a gauge. -/
def reportTotal (cfg : Config) (ctrs : MetricCounters) (metric units : String)
    (value : Ctr) (aggregationType : DataType) (bucket : Option String) :
    MetricCounters × List Sent :=
  if (ctrs value).mtc = 0 then (ctrs, [])
  else
    (if aggregationType ≠ .current then swapMtc ctrs value else ctrs,
      cmdSendMetric cfg
        { name := metric, value := longLong (ctrs value).mtc, type := aggregationType,
          unit := units, bucket := bucket, summary := true })

/-- The total of each kind of socket. -/
def doTotalNetRxTx (cfg : Config) (summary : Summary) (ctrs : MetricCounters)
    (metric : String) (value : SockSummaryBucket → Ctr) : MetricCounters × List Sent :=
  allBuckets.foldl (fun r bucket =>
    let t := reportTotal cfg r.1 metric "byte" (value bucket) .delta
      (some (bucketName bucket))
    (t.1, r.2 ++ if summary.netRxTx then t.2 else [])) (ctrs, [])

def doTotal (cfg : Config) (summary : Summary) (ctrs : MetricCounters)
    (type : MetricT) : MetricCounters × List Sent :=
  let gated (summarize watch : Bool) (r : MetricCounters × List Sent) :=
    if !summarize || !watch then (ctrs, []) else r
  let total (metric units : String) (value : Ctr) (agg : DataType) :=
    reportTotal cfg ctrs metric units value agg none
  match type with
  | .totRead =>
    gated summary.fsReadWrite cfg.watchFs (total "fs.read" "byte" .readBytes .delta)
  | .totWrite =>
    gated summary.fsReadWrite cfg.watchFs (total "fs.write" "byte" .writeBytes .delta)
  | .totRx =>
    gated summary.netRxTx cfg.watchNet
      (doTotalNetRxTx cfg summary ctrs "net.rx" .netrxBytes)
  | .totTx =>
    gated summary.netRxTx cfg.watchNet
      (doTotalNetRxTx cfg summary ctrs "net.tx" .nettxBytes)
  | .totSeek =>
    gated summary.fsSeek cfg.watchFs (total "fs.seek" "operation" .numSeek .delta)
  | .totOpen =>
    gated summary.fsOpenClose cfg.watchFs (total "fs.open" "operation" .numOpen .delta)
  | .totClose =>
    gated summary.fsOpenClose cfg.watchFs
      (total "fs.close" "operation" .numClose .delta)
  | .totPorts =>
    gated summary.netOpenClose cfg.watchNet
      (total "net.port" "instance" .openPorts .current)
  | .totTcpConn =>
    gated summary.netOpenClose cfg.watchNet
      (total "net.tcp" "connection" .netConnectionsTcp .current)
  | .totUdpConn =>
    gated summary.netOpenClose cfg.watchNet
      (total "net.udp" "connection" .netConnectionsUdp .current)
  | .totOtherConn =>
    gated summary.netOpenClose cfg.watchNet
      (total "net.other" "connection" .netConnectionsOther .current)
  | .totNetOpen =>
    gated summary.netOpenClose cfg.watchNet
      (total "net.open" "connection" .netConnOpen .delta)
  | .totNetClose =>
    gated summary.netOpenClose cfg.watchNet
      (total "net.close" "connection" .netConnClose .delta)
  | _ => (ctrs, [])

/-- The mean over all descriptors, if it is not zero. -/
def reportTotalDuration (cfg : Config) (ctrs : MetricCounters) (metric units : String)
    (value num : Ctr) (aggregationType : DataType) (factor : UInt64) : MetricCounters × List Sent :=
  let cachedDurationNum := cInt (ctrs num).mtc.toNat
  let dur :=
    if cachedDurationNum ≥ 1 then (ctrs value).mtc / (factor * u64 cachedDurationNum)
    else 0
  if dur = 0 then (ctrs, [])
  else
    (swapMtc (swapMtc ctrs value) num,
      cmdSendMetric cfg
        { name := metric, value := longLong dur, type := aggregationType, unit := units,
          summary := true })

def doTotalDuration (cfg : Config) (summary : Summary) (ctrs : MetricCounters)
    (type : MetricT) : MetricCounters × List Sent :=
  match type with
  | .totFsDuration =>
    if !summary.fsOpenClose || !cfg.watchFs then (ctrs, [])
    else
      reportTotalDuration cfg ctrs "fs.duration" "microsecond" .fsDurationTotal
        .fsDurationNum .histogram 1000
  | .totNetDuration =>
    if !summary.netOpenClose || !cfg.watchNet then (ctrs, [])
    else
      reportTotalDuration cfg ctrs "net.duration" "millisecond" .connDurationTotal
        .connDurationNum .deltaMs 1000000
  | _ => (ctrs, [])

end AppView.Metrics
