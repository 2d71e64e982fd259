import Mathlib

/-!
# The shared data types (`report.h`, `state_private.h`)

Only the fields that some modelled function reads or writes are kept.
-/

namespace AppView

inductive MetricT : Type where
  | openPorts | netConnections | connectionOpen | connectionClose
  | connectionDuration
  | procCpu | procMem | procThread | procFd | procChild
  | netrx | nettx | dns | dnsDuration
  | fsDuration | fsRead | fsWrite | fsOpen | fsClose | fsDelete | fsSeek
  | totRead | totWrite | totRx | totTx | totSeek | totStat | totOpen | totClose
  | totDns | totPorts | totTcpConn | totUdpConn | totOtherConn
  | totNetOpen | totNetClose
  | totFsDuration | totNetDuration | totDnsDuration
  | netErrConn | netErrRxTx | netErrDns
  | fsErrOpenClose | fsErrStat | fsErrReadWrite | fsStat
  | evtNet | evtFs | evtStat | evtErr | evtDns | evtProto
  | evtHreq | evtHres | evtH2frame
  | evtDetect | evtPayload | evtSec
  | tlsrx | tlstx
deriving DecidableEq, Repr

inductive ControlType : Type where
  | periodic    -- ignores the summarization rules
  | eventBased  -- follows them
deriving DecidableEq, Repr

/-! ## Counters -/

structure CountersElement where
  mtc : UInt64 := 0
  evt : UInt64 := 0
deriving DecidableEq, Repr

inductive SockSummaryBucket : Type where
  | inetTcp | inetUdp | unixTcp | unixUdp | sockOther
deriving DecidableEq, Repr

inductive Ctr : Type where
  | openPorts | netConnectionsUdp | netConnectionsTcp | netConnectionsOther
  | netrxBytes (bucket : SockSummaryBucket)
  | nettxBytes (bucket : SockSummaryBucket)
  | readBytes | writeBytes | numSeek | numStat | numOpen | numClose | numDNS
  | fsDurationNum | fsDurationTotal | connDurationNum | connDurationTotal
  | dnsDurationNum | dnsDurationTotal
  | netConnOpen | netConnClose
  | netConnectErrors | netTxRxErrors | netDNSErrors
  | fsOpenCloseErrors | fsRdWrErrors | fsStatErrors
deriving DecidableEq, Repr

abbrev MetricCounters : Type := Ctr → CountersElement

inductive FsCtr : Type where
  | numOpen | numClose | numSeek | numRead | numWrite
  | readBytes | writeBytes | numDuration | totalDuration
deriving DecidableEq, Repr

inductive NetCtr : Type where
  | numTX | numRX | txBytes | rxBytes | numDuration | totalDuration
deriving DecidableEq, Repr

/-! ## HTTP state of a channel -/

structure HttpId where
  uid : UInt64 := 0
  sockfd : ℤ := 0
  isSsl : Bool := false
  src : MetricT := .openPorts
deriving DecidableEq, Repr

inductive HttpEnum : Type where
  | httpNone | httpHdr | httpHdrEnd | httpData
deriving DecidableEq, Repr

structure HttpBuf where
  buf : List UInt8 := []
  size : ℕ := 0
deriving DecidableEq, Repr

structure HttpState where
  state : HttpEnum := .httpNone
  hdr : List UInt8 := []
  hdralloc : ℕ := 0
  clen : ℕ := 0
  id : HttpId := {}
  version : ℕ := 0
  isResponse : Bool := false
  hasUpgrade : Bool := false
  hasConnectionUpgrade : Bool := false
  http2Buf : HttpBuf := {}
deriving DecidableEq, Repr

inductive HttpDirection : Type where
  | httpRx | httpTx
deriving DecidableEq, Repr

structure SockaddrStorage where
  ssFamily : UInt16 := 0
  data : List UInt8 := []
deriving DecidableEq, Repr

structure HttpPost where
  ssl : Bool
  startDuration : UInt64
  id : HttpId
  hdr : List UInt8
deriving DecidableEq, Repr

structure ProtocolInfo where
  ptype : MetricT
  isServer : Bool
  len : ℕ
  fd : ℤ
  uid : UInt64
  data : HttpPost
  sockType : ℤ
  localConn : SockaddrStorage
  remoteConn : SockaddrStorage
deriving DecidableEq, Repr

/-! ## Descriptor tables -/

def netEntries : ℕ := 1024
def fsEntries : ℕ := 1024

def sockStream : ℤ := 1
def sockDgram : ℤ := 2

def afUnix : UInt16 := 1
def afInet : UInt16 := 2
def afInet6 : UInt16 := 10

structure NetInfo where
  dataType : MetricT := .openPorts
  fd : ℤ := 0
  active : Bool := false
  type : ℤ := 0
  http : HttpDirection → HttpState := fun _ => {}
  addrSetLocal : Bool := false
  addrSetRemote : Bool := false
  ctr : NetCtr → CountersElement := fun _ => {}
  startTime : UInt64 := 0
  uid : UInt64 := 0
  localConn : SockaddrStorage := {}
  remoteConn : SockaddrStorage := {}
  counters : MetricCounters := fun _ => {}

structure FsInfo where
  dataType : MetricT := .openPorts
  fd : ℤ := 0
  active : Bool := false
  ctr : FsCtr → CountersElement := fun _ => {}
  uid : UInt64 := 0
  path : String := ""
  funcop : String := ""

end AppView
