import AppView.Framework.Runs
import AppView.Http.State
import AppView.Metrics.Report

/-!
# The pipeline: application threads and the reporting thread

An application thread opens, uses and closes descriptors; each such operation changes the
counters and posts messages.
-/

namespace AppView.Metrics

open AppView.Framework

/-! ## Descriptors of files -/

def openEntry (cfg : Config) (s : State) (fd : ℤ) (path func : String) (now : UInt64) : State :=
  doUpdateState cfg (s.setFs fd { active := true, uid := now, path := path }) .fsOpen fd 0
    (some func) (some path) now

/-- The standard streams are entered when they are first asked for. -/
def getFSEntry (cfg : Config) (s : State) (fd : ℤ) (now : UInt64) : Bool × State :=
  if checkFSEntry fd && (s.fsinfo fd).active then (true, s)
  else if fd = 0 then (true, openEntry cfg s fd "stdin" "console input" now)
  else if fd = 1 then (true, openEntry cfg s fd "stdout" "console output" now)
  else if fd = 2 then (true, openEntry cfg s fd "stderr" "console output" now)
  else (false, s)

/-- What closing changes in the counters of a socket. -/
def closeSock (cfg : Config) (s : State) (fd : ℤ) (func : String) (now : UInt64) : State :=
  let s := doUpdateState cfg s .openPorts fd (-1) (some func) none now
  let s := doUpdateState cfg s .netConnections fd (-1) (some func) none now
  let s := doUpdateState cfg s .connectionClose fd (-1) (some func) none now
  let s := doUpdateState cfg s .connectionDuration fd (-1) (some func) none now
  s.setNet fd { s.netinfo fd with http := Http.resetHttp (s.netinfo fd).http }

/-- `doClose` behind the counters of a socket. -/
def closeRest (cfg : Config) (s : State) (fd : ℤ) (func : String) (now : UInt64)
    (ninfo : Bool) : State :=
  let (fsinfo, s) := getFSEntry cfg s fd now
  let s := if fsinfo then doUpdateState cfg s .fsClose fd 0 (some func) none now else s
  let s := if ninfo then s.setNet fd { s.netinfo fd with active := false } else s
  if fsinfo then s.setFs fd {} else s

def doClose (cfg : Config) (s : State) (fd : ℤ) (func : String) (now : UInt64) : State :=
  let ninfo := hasNetEntry s fd
  closeRest cfg (if ninfo then closeSock cfg s fd func now else s) fd func now ninfo

theorem doClose_eq (cfg : Config) (s : State) (fd : ℤ) (func : String) (now : UInt64) :
    doClose cfg s fd func now =
      closeRest cfg (if hasNetEntry s fd then closeSock cfg s fd func now else s) fd func now
        (hasNetEntry s fd) :=
  rfl

/-- What its changes keep, `closeRest` keeps. -/
structure CloseRule (cfg : Config) (fd : ℤ) (now : UInt64) (R : State → State → Prop) :
    Prop where
  refl : ∀ s, R s s
  trans : ∀ {s s' s''}, R s s' → R s' s'' → R s s''
  opened : ∀ s path func, R s (openEntry cfg s fd path func now)
  closed : ∀ s func, R s (doUpdateState cfg s .fsClose fd 0 (some func) none now)
  inactive : ∀ s, R s (s.setNet fd { s.netinfo fd with active := false })
  cleared : ∀ s, R s (s.setFs fd {})

variable {cfg : Config} {fd : ℤ} {now : UInt64} {R : State → State → Prop}

theorem CloseRule.getFSEntry (h : CloseRule cfg fd now R) (s : State) :
    R s (getFSEntry cfg s fd now).2 := by
  unfold Metrics.getFSEntry
  split_ifs
  · exact h.refl s
  · exact h.opened s _ _
  · exact h.opened s _ _
  · exact h.opened s _ _
  · exact h.refl s

theorem CloseRule.closeRest (h : CloseRule cfg fd now R) (s : State) (func : String)
    (ninfo : Bool) :
    R s (closeRest cfg s fd func now ninfo) := by
  have also : ∀ {p : Bool} {t u}, R s t → R t u → R s (if p then u else t) := by
    intro p t u ht hu
    split
    · exact h.trans ht hu
    · exact ht
  exact also (also (also (h.getFSEntry s) (h.closed _ func)) (h.inactive _)) (h.cleared _)

/-- A descriptor that is still in use is closed first. -/
def doOpen (cfg : Config) (s : State) (fd : ℤ) (path func : String) (now : UInt64) : State :=
  if checkFSEntry fd then
    let s := if (s.fsinfo fd).active then doClose cfg s fd func now else s
    openEntry cfg s fd path func now
  else s

/-! ## Descriptors of sockets -/

def sockCloexec : BitVec 32 := 0x80000
def sockNonblock : BitVec 32 := 0x800

/-- A descriptor that is still in use is closed first, under a name of its own. -/
def addSock (cfg : Config) (s : State) (fd type : ℤ) (family : UInt16) (now : UInt64) : State :=
  if checkNetEntry fd then
    let s :=
      if (s.netinfo fd).active then doClose cfg s fd "close: DuplicateSocket" now else s
    s.setNet fd
      { active := true
        -- clear these bits so comparisons of type will work
        type := (BitVec.ofInt 32 type &&& ~~~sockCloexec &&& ~~~sockNonblock).toInt
        localConn := { ssFamily := family }
        uid := now }
  else s

def addrIsSet (net : NetInfo) (isLocal : Bool) : Bool :=
  net.type = sockStream && (if isLocal then net.addrSetLocal else net.addrSetRemote)

def setAddr (net : NetInfo) (addr : SockaddrStorage) (isLocal : Bool) : NetInfo :=
  let stream : Bool := net.type = sockStream
  if isLocal then
    { net with localConn := addr, addrSetLocal := net.addrSetLocal || stream }
  else
    { net with remoteConn := addr, addrSetRemote := net.addrSetRemote || stream }

def doSetConnection (cfg : Config) (s : State) (sd : ℤ) (addr : SockaddrStorage)
    (isLocal : Bool) (now : UInt64) : State :=
  if hasNetEntry s sd && !addrIsSet (s.netinfo sd) isLocal then
    let s := s.setNet sd (setAddr (s.netinfo sd) addr isLocal)
    if addrIsNetDomain (s.netinfo sd).localConn then
      doUpdateState cfg s .connectionOpen sd 1 none none now
    else s
  else s

def dupEntry (net : NetInfo) (now : UInt64) : NetInfo :=
  { net with
    active := true
    uid := now
    ctr := fun _ => {}
    startTime := 0
    http := Http.resetHttp net.http }

def doDupSock (cfg : Config) (s : State) (oldfd newfd : ℤ) (now : UInt64) : State :=
  if checkNetEntry newfd && checkNetEntry oldfd then
    doUpdateState cfg (s.setNet newfd (dupEntry (s.netinfo oldfd) now)) .connectionOpen
      newfd 1 (some "dup") none now
  else s

/-! ## The reporting thread -/

def handleMsg (cfg : Config) (s : State) : Msg → State × List Sent
  | .net net =>
    let r := doNetMetric cfg s.summary s.ctrs net.dataType net .eventBased
    ({ s with ctrs := r.ctrs }, r.sent)
  | .fs fs =>
    let r := doFSMetric cfg s.summary s.ctrs fs.dataType fs .eventBased fs.funcop fs.path
    ({ s with ctrs := r.ctrs }, r.sent)

def drain (cfg : Config) (s : State) : State × List Sent :=
  match s.queue with
  | [] => (s, [])
  | msg :: queue => handleMsg cfg { s with queue := queue } msg

def reportNet (cfg : Config) (fd : ℤ) (s : State) (type : MetricT) : State × List Sent :=
  let r := doNetMetric cfg s.summary s.ctrs type (s.netinfo fd) .periodic
  ({ s with ctrs := r.ctrs }.setNet fd r.info, r.sent)

def reportFs (cfg : Config) (fd : ℤ) (s : State) (type : MetricT × String) : State × List Sent :=
  let r := doFSMetric cfg s.summary s.ctrs type.1 (s.fsinfo fd) .periodic type.2 ""
  ({ s with ctrs := r.ctrs }.setFs fd r.info, r.sent)

def netReports (summary : Summary) : List MetricT :=
  (if summary.netRxTx then [] else [.nettx, .netrx]) ++
  (if summary.netOpenClose then []
    else [.openPorts, .netConnections, .connectionClose, .connectionDuration])

def fsReports (summary : Summary) : List (MetricT × String) :=
  (if summary.fsReadWrite then []
    else [(.fsDuration, "read/write"), (.fsRead, "read"), (.fsWrite, "write")]) ++
  (if summary.fsSeek then [] else [(.fsSeek, "seek")])

def reportFD (cfg : Config) (s : State) (fd : ℤ) (now : UInt64) : State × List Sent :=
  let net :=
    if hasNetEntry s fd then
      run (reportNet cfg fd) (s.setNet fd { s.netinfo fd with fd := fd })
        (netReports s.summary)
    else (s, [])
  let (finfo, s) := getFSEntry cfg net.1 fd now
  let fs :=
    if finfo then
      run (reportFs cfg fd) (s.setFs fd { s.fsinfo fd with fd := fd }) (fsReports s.summary)
    else (s, [])
  (fs.1, net.2.flatten ++ fs.2.flatten)

/-! ## Operations -/

inductive Op : Type where
  | update (type : MetricT) (fd size : ℤ) (funcop pathname : Option String) (now : UInt64)
  | doOpen (fd : ℤ) (path func : String) (now : UInt64)
  | doClose (fd : ℤ) (func : String) (now : UInt64)
  | addSock (fd type : ℤ) (family : UInt16) (now : UInt64)
  | doSetConnection (sd : ℤ) (addr : SockaddrStorage) (isLocal : Bool) (now : UInt64)
  | doDupSock (oldfd newfd : ℤ) (now : UInt64)
  | drain
  | doTotal (type : MetricT)
  | doTotalDuration (type : MetricT)
  | reportFD (fd : ℤ) (now : UInt64)
  | setVerbosity (verbosity : ℕ)

def step (cfg : Config) (s : State) : Op → State × List Sent
  | .update type fd size funcop pathname now =>
    (doUpdateState cfg s type fd size funcop pathname now, [])
  | .doOpen fd path func now => (Metrics.doOpen cfg s fd path func now, [])
  | .doClose fd func now => (Metrics.doClose cfg s fd func now, [])
  | .addSock fd type family now => (Metrics.addSock cfg s fd type family now, [])
  | .doSetConnection sd addr isLocal now =>
    (Metrics.doSetConnection cfg s sd addr isLocal now, [])
  | .doDupSock oldfd newfd now => (Metrics.doDupSock cfg s oldfd newfd now, [])
  | .drain => Metrics.drain cfg s
  | .doTotal type =>
    let r := Metrics.doTotal cfg s.summary s.ctrs type
    ({ s with ctrs := r.1 }, r.2)
  | .doTotalDuration type =>
    let r := Metrics.doTotalDuration cfg s.summary s.ctrs type
    ({ s with ctrs := r.1 }, r.2)
  | .reportFD fd now => Metrics.reportFD cfg s fd now
  | .setVerbosity verbosity => ({ s with summary := Metrics.setVerbosity verbosity }, [])

def init (verbosity : ℕ) : State := { summary := setVerbosity verbosity }

def process (cfg : Config) (s : State) (ops : List Op) : State × List Sent :=
  let r := run (step cfg) s ops
  (r.1, r.2.flatten)

end AppView.Metrics
