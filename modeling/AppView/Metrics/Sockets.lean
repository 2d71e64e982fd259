import AppView.Metrics.Pipeline
import AppView.Metrics.Updates

/-!
# The calls on sockets (`wrap.c`)

What the interposed calls do after the call itself has succeeded, in terms of the functions of
`state.c`.
-/

namespace AppView.Metrics

open Function

/-! ## The calls -/

structure SockInfo where
  name : Option SockaddrStorage
  type : Option ℤ
  peer : Option SockaddrStorage

def sockRaw : ℤ := 3

def setConnection (cfg : Config) (s : State) (sd : ℤ) (addr : Option SockaddrStorage)
    (isLocal : Bool) (now : UInt64) : State :=
  match addr with
  | some addr => doSetConnection cfg s sd addr isLocal now
  | none => s

def doAddNewSock (cfg : Config) (s : State) (sockfd : ℤ) (info : SockInfo) (now : UInt64) : State :=
  let s :=
    match info.name with
    | some addr =>
      let s :=
        if addrIsNetDomain addr || addrIsUnixDomain addr then
          match info.type with
          | some type => addSock cfg s sockfd type addr.ssFamily now
          | none => s
        else addSock cfg s sockfd sockRaw addr.ssFamily now
      doSetConnection cfg s sockfd addr true now
    | none => addSock cfg s sockfd sockRaw 0 now
  setConnection cfg s sockfd info.peer false now

def doAccept (cfg : Config) (s : State) (oldsd newsd : ℤ) (addr : Option SockaddrStorage)
    (info : SockInfo) (now : UInt64) : State :=
  let s := if hasNetEntry s oldsd then s else doAddNewSock cfg s oldsd info now
  let s := doDupSock cfg s oldsd newsd now
  if hasNetEntry s newsd then
    let s := setConnection cfg s newsd addr false now
    let s := doUpdateState cfg s .openPorts newsd 1 (some "accept") none now
    doUpdateState cfg s .netConnections newsd 1 (some "accept") none now
  else s

def doDupFile (cfg : Config) (s : State) (oldfd newfd : ℤ) (func : String) (now : UInt64) : State :=
  if checkFSEntry newfd && checkFSEntry oldfd then
    doOpen cfg s newfd (s.fsinfo oldfd).path func now
  else s

def doDup (cfg : Config) (s : State) (fd rc : ℤ) (func : String) (copyNet : Bool)
    (info : SockInfo) (now : UInt64) : State :=
  let (fs, s) := getFSEntry cfg s fd now
  if hasNetEntry s fd then
    if copyNet then doDupSock cfg s fd rc now else doAddNewSock cfg s rc info now
  else if fs then doDupFile cfg s fd rc func now
  else s

def doDup2 (cfg : Config) (s : State) (oldfd newfd : ℤ) (func : String) (now : UInt64) : State :=
  let (fs, s) := getFSEntry cfg s oldfd now
  if oldfd ≠ newfd then
    if hasNetEntry s oldfd then
      let s := if hasNetEntry s newfd then doClose cfg s newfd func now else s
      doDupSock cfg s oldfd newfd now
    else if fs then
      let (fsNew, s) := getFSEntry cfg s newfd now
      let s := if fsNew then doClose cfg s newfd func now else s
      doDupFile cfg s oldfd newfd func now
    else s
  else s

def socket (cfg : Config) (s : State) (sd type : ℤ) (family : UInt16) (now : UInt64) : State :=
  let s := addSock cfg s sd type family now
  if family = afInet || family = afInet6 then
    doUpdateState cfg s .openPorts sd 1 (some "socket") none now
  else s

def listen (cfg : Config) (s : State) (sockfd : ℤ) (now : UInt64) : State :=
  let s := doUpdateState cfg s .openPorts sockfd 1 (some "listen") none now
  doUpdateState cfg s .netConnections sockfd 1 (some "listen") none now

def connect (cfg : Config) (s : State) (sockfd : ℤ) (addr : SockaddrStorage) (now : UInt64) :
    State :=
  let s := doSetConnection cfg s sockfd addr false now
  doUpdateState cfg s .netConnections sockfd 1 (some "connect") none now

/-! ## What the calls change of the gauges -/

inductive Gauge where
  | port
  | tcp
  | udp
  | other
  deriving DecidableEq

def Gauge.ctr : Gauge → Ctr
  | .port => .openPorts
  | .tcp => .netConnectionsTcp
  | .udp => .netConnectionsUdp
  | .other => .netConnectionsOther

def Gauge.ofType (type : ℤ) : Gauge :=
  if type = sockStream then .tcp else if type = sockDgram then .udp else .other

@[ext]
structure View where
  gauge : Gauge → CountersElement
  entry : ℤ → Option ℤ

def entryType (fd : ℤ) (net : NetInfo) : Option ℤ :=
  if checkNetEntry fd && net.active then some net.type else none

def view (s : State) : View where
  gauge g := s.ctrs g.ctr
  entry fd := entryType fd (s.netinfo fd)

namespace View

def add (v : View) (g : Gauge) : View := { v with gauge := addTo v.gauge g 1 }

def sub (v : View) (g : Gauge) : View := { v with gauge := subFrom v.gauge g 1 }

def setEntry (v : View) (fd : ℤ) (type : Option ℤ) : View :=
  { v with entry := Function.update v.entry fd type }

variable (v : View) (g : Gauge)

@[simp] theorem add_gauge : (v.add g).gauge = addTo v.gauge g 1 := rfl

@[simp] theorem add_entry : (v.add g).entry = v.entry := rfl

@[simp] theorem sub_gauge : (v.sub g).gauge = subFrom v.gauge g 1 := rfl

@[simp] theorem setEntry_entry (fd : ℤ) (type : Option ℤ) :
    (v.setEntry fd type).entry = update v.entry fd type := rfl

def addPort (v : View) (fd : ℤ) : View := if (v.entry fd).isSome then v.add .port else v

def addConnection (v : View) (fd : ℤ) : View :=
  match v.entry fd with
  | some type => v.add (Gauge.ofType type)
  | none => v

def close (v : View) (fd : ℤ) : View :=
  match v.entry fd with
  | some type => ((v.sub .port).sub (Gauge.ofType type)).setEntry fd none
  | none => v

end View

variable {cfg : Config} {s : State} {fd : ℤ} {now : UInt64}

theorem ctr_injective : Injective Gauge.ctr := by
  intro g g' h
  cases g <;> cases g' <;> first | rfl | cases h

theorem ofType_ctr (net : NetInfo) : (Gauge.ofType net.type).ctr = connectionsCtr net := by
  unfold Gauge.ofType connectionsCtr
  split_ifs <;> rfl

theorem view_entry_isSome : ((view s).entry fd).isSome = hasNetEntry s fd := by
  rw [view, hasNetEntry]
  dsimp only [entryType]
  split_ifs with h <;> simp [h]

theorem view_entry_of_has (h : hasNetEntry s fd = true) :
    (view s).entry fd = some (s.netinfo fd).type := if_pos h

theorem view_entry_of_not (h : ¬ hasNetEntry s fd = true) : (view s).entry fd = none := if_neg h

/-! ### Parts of the state that the view does not have -/

@[simp] theorem view_setFs (fs : FsInfo) : view (s.setFs fd fs) = view s := rfl

@[simp] theorem view_fsCtr (f : (FsCtr → CountersElement) → FsCtr → CountersElement) :
    view (s.fsCtr fd f) = view s := rfl

variable (type : MetricT)

@[simp] theorem view_postFSState (fs : Option FsInfo) (funcop pathname : Option String) :
    view (postFSState cfg s fd type fs funcop pathname).2 = view s := by
  unfold postFSState
  dsimp only
  split_ifs <;> rfl

@[simp] theorem view_postNetState (net : NetInfo) :
    view (postNetState cfg s fd type net).2 = view s := by
  unfold postNetState
  dsimp only
  split_ifs <;> rfl

theorem view_setNet (net : NetInfo) :
    view (s.setNet fd net) = (view s).setEntry fd (entryType fd net) := by
  refine View.ext rfl (funext fun fd' => ?_)
  rw [view, State.setNet, View.setEntry]
  dsimp only
  by_cases hfd : fd' = fd
  · rw [hfd, update_self, update_self]
  · rw [update_of_ne hfd, update_of_ne hfd]
    rfl

theorem view_setNet_same {net : NetInfo} (hactive : net.active = (s.netinfo fd).active)
    (htype : net.type = (s.netinfo fd).type) : view (s.setNet fd net) = view s := by
  have hentry : entryType fd net = (view s).entry fd := by
    rw [entryType, hactive, htype]
    rfl
  rw [view_setNet, hentry, View.setEntry, update_eq_self]

@[simp] theorem view_netCtr (f : (NetCtr → CountersElement) → NetCtr → CountersElement) :
    view (s.netCtr fd f) = view s := view_setNet_same rfl rfl

@[simp] theorem view_netCounters (f : MetricCounters → MetricCounters) :
    view (s.netCounters fd f) = view s := view_setNet_same rfl rfl

/-! ### Updates -/

theorem view_update {type : MetricT} (h : ∀ g : Gauge, touched type g.ctr = false) (size : ℤ)
    (funcop pathname : Option String) :
    view (doUpdateState cfg s type fd size funcop pathname now) = view s := by
  have hrule : UpdateRule cfg type fun s s' => view s' = view s := by
    constructor
    case refl => exact fun _ => rfl
    case trans => exact fun h h' => h'.trans h
    case globals => exact fun s f hf => View.ext (funext fun g => hf _ _ (h g)) rfl
    case start => exact fun s fd t => view_setNet_same rfl rfl
    all_goals intros; simp
  exact hrule.doUpdateState fd size funcop pathname now

theorem ungauged (h : type ∈ [MetricT.fsOpen, .fsClose, .connectionOpen,
    .connectionClose, .connectionDuration]) (g : Gauge) : touched type g.ctr = false := by
  simp only [List.mem_cons, List.not_mem_nil, or_false] at h
  rcases h with rfl | rfl | rfl | rfl | rfl <;> cases g <;> rfl

variable (g : Gauge)

theorem view_globals_add : view (s.globals fun c => addTo c g.ctr 1) = (view s).add g := by
  exact View.ext (update_comp_eq_of_injective s.ctrs ctr_injective g _) rfl

theorem view_globals_sub : view (s.globals fun c => subFrom c g.ctr 1) = (view s).sub g := by
  exact View.ext (update_comp_eq_of_injective s.ctrs ctr_injective g _) rfl

theorem view_start (start : UInt64) :
    view (s.setNet fd { s.netinfo fd with startTime := start }) = view s :=
  view_setNet_same rfl rfl

theorem view_http (s : State) (http : HttpDirection → HttpState) :
    view (s.setNet fd { s.netinfo fd with http := http }) = view s :=
  view_setNet_same rfl rfl

theorem view_updateGauge_add : view (updateGauge cfg s fd type g.ctr 1 now) = (view s).add g := by
  have h1 : u64 1 = 1 := rfl
  rw [← view_globals_add]
  unfold updateGauge
  simp only [Int.reduceLT, if_false, gt_iff_lt, Int.zero_lt_one, if_true, h1, view_postNetState]
  split_ifs
  · exact view_start now
  · rfl

theorem view_updateGauge_sub :
    view (updateGauge cfg s fd type g.ctr (-1) now) = (view s).sub g := by
  rw [← view_globals_sub]
  unfold updateGauge
  simp only [Int.reduceLT, Int.reduceNeg, if_true, view_postNetState]
  split_ifs
  · exact view_start now
  · rfl

theorem view_openPorts_add (funcop pathname : Option String) :
    view (doUpdateState cfg s .openPorts fd 1 funcop pathname now) = (view s).addPort fd := by
  rw [View.addPort, view_entry_isSome, doUpdateState]
  split_ifs
  · exact view_updateGauge_add _ .port
  · rfl

theorem view_netConnections_add (funcop pathname : Option String) :
    view (doUpdateState cfg s .netConnections fd 1 funcop pathname now) =
      (view s).addConnection fd := by
  rw [View.addConnection, doUpdateState]
  split_ifs with h
  · rw [view_entry_of_has h, ← ofType_ctr]
    exact view_updateGauge_add _ _
  · rw [view_entry_of_not h]

variable (size : ℤ)

/-! ### Closing -/

theorem view_openEntry (path func : String) : view (openEntry cfg s fd path func now) = view s := by
  rw [openEntry, view_update (ungauged .fsOpen (by simp)), view_setFs]

@[simp] theorem view_getFSEntry : view (getFSEntry cfg s fd now).2 = view s := by
  unfold getFSEntry
  split_ifs <;> first | rfl | exact view_openEntry ..

variable {type : ℤ}

section

variable (h : (view s).entry fd = some type)

include h

theorem view_entry_eq_some :
    hasNetEntry s fd = true ∧ (s.netinfo fd).type = type := by
  have hentry : hasNetEntry s fd = true := by
    rw [← view_entry_isSome, h]
    rfl
  rw [view_entry_of_has hentry] at h
  exact ⟨hentry, Option.some.inj h⟩

theorem view_openPorts_sub (funcop pathname : Option String) :
    view (doUpdateState cfg s .openPorts fd (-1) funcop pathname now) = (view s).sub .port := by
  rw [doUpdateState, if_pos (view_entry_eq_some h).1]
  exact view_updateGauge_sub _ .port

theorem view_netConnections_sub (funcop pathname : Option String) :
    view (doUpdateState cfg s .netConnections fd (-1) funcop pathname now) =
      (view s).sub (Gauge.ofType type) := by
  obtain ⟨hentry, rfl⟩ := view_entry_eq_some h
  rw [doUpdateState, if_pos hentry, ← ofType_ctr]
  exact view_updateGauge_sub _ _

theorem view_closeSock (func : String) :
    view (closeSock cfg s fd func now) = ((view s).sub .port).sub (Gauge.ofType type) := by
  have hports : view (doUpdateState cfg s .openPorts fd (-1) (some func) none now) =
      (view s).sub .port := view_openPorts_sub h _ _
  have hentry : (view (doUpdateState cfg s .openPorts fd (-1) (some func) none now)).entry fd =
      some type := by
    rw [hports]
    exact h
  refine (view_http _ _).trans ?_
  rw [view_update (ungauged .connectionDuration (by simp)),
    view_update (ungauged .connectionClose (by simp)), view_netConnections_sub hentry, hports]

end

/-- **A descriptor is closed**: one open port and one connection less, whether it had one or
not. -/
theorem view_doClose (func : String) : view (doClose cfg s fd func now) = (view s).close fd := by
  rw [View.close]
  by_cases h : hasNetEntry s fd = true
  · have hentry := view_entry_of_has h
    have hclosed : view (closeSock cfg s fd func now) =
        ((view s).sub .port).sub (Gauge.ofType (s.netinfo fd).type) := view_closeSock hentry func
    simp only [doClose, closeRest, h, if_true, hentry]
    split_ifs
    · rw [view_setFs, view_setNet, view_update (ungauged .fsClose (by simp)), view_getFSEntry,
        hclosed]
      simp [entryType]
    · rw [view_setNet, view_getFSEntry, hclosed]
      simp [entryType]
  · have hnone : hasNetEntry s fd = false := by simpa using h
    simp only [doClose, closeRest, hnone, Bool.false_eq_true, if_false, view_entry_of_not h]
    split_ifs
    · rw [view_setFs, view_update (ungauged .fsClose (by simp)), view_getFSEntry]
    · rw [view_getFSEntry]

/-! ### New sockets -/

def plainType (type : ℤ) : ℤ :=
  (BitVec.ofInt 32 type &&& ~~~sockCloexec &&& ~~~sockNonblock).toInt

theorem view_addSock {family : UInt16} (h : (view s).entry fd = none) :
    view (addSock cfg s fd type family now) =
      if checkNetEntry fd then (view s).setEntry fd (some (plainType type)) else view s := by
  rw [addSock]
  by_cases hcheck : checkNetEntry fd = true
  · have hactive : (s.netinfo fd).active = false := by
      rw [view] at h
      simpa [entryType, hcheck] using h
    simp only [hcheck, hactive, Bool.false_eq_true, if_true, if_false]
    rw [view_setNet, entryType, hcheck]
    rfl
  · rw [if_neg hcheck, if_neg hcheck]

theorem view_doSetConnection (addr : SockaddrStorage) (isLocal : Bool) :
    view (doSetConnection cfg s fd addr isLocal now) = view s := by
  have hset : view (s.setNet fd (setAddr (s.netinfo fd) addr isLocal)) = view s := by
    cases isLocal <;> exact view_setNet_same rfl rfl
  unfold doSetConnection
  dsimp only
  split_ifs
  · rw [view_update (ungauged .connectionOpen (by simp)), hset]
  · exact hset
  · rfl

theorem view_setConnection (addr : Option SockaddrStorage) (isLocal : Bool) :
    view (setConnection cfg s fd addr isLocal now) = view s := by
  cases addr with
  | none => rfl
  | some addr => exact view_doSetConnection addr isLocal

theorem view_doDupSock {newfd : ℤ} (h : (view s).entry fd = some type) :
    view (doDupSock cfg s fd newfd now) =
      if checkNetEntry newfd then (view s).setEntry newfd (some type) else view s := by
  obtain ⟨hentry, rfl⟩ := view_entry_eq_some h
  have hcheck : checkNetEntry fd = true := by
    rw [hasNetEntry, Bool.and_eq_true] at hentry
    exact hentry.1
  rw [doDupSock, hcheck, Bool.and_true]
  split_ifs with hnew
  · rw [view_update (ungauged .connectionOpen (by simp)), view_setNet, entryType, hnew]
    rfl
  · rfl

/-! ### The calls -/

theorem gauge_doAddNewSock (info : SockInfo) (h : (view s).entry fd = none) :
    (view (doAddNewSock cfg s fd info now)).gauge = (view s).gauge := by
  have hadd : ∀ type family, (view (addSock cfg s fd type family now)).gauge = (view s).gauge := by
    intro type family
    rw [view_addSock h]
    split_ifs <;> rfl
  rw [doAddNewSock, view_setConnection]
  rcases info.name with _ | addr
  · exact hadd ..
  · rw [view_doSetConnection]
    rcases info.type with _ | type
    · split_ifs
      · rfl
      · exact hadd ..
    · split_ifs
      · exact hadd ..
      · exact hadd ..

theorem view_socket {family : UInt16} (h : (view s).entry fd = none)
    (hfamily : family = afInet ∨ family = afInet6) : view (socket cfg s fd type family now) =
      if checkNetEntry fd then ((view s).setEntry fd (some (plainType type))).add .port
      else view s := by
  rw [socket, if_pos (by simpa using hfamily), view_openPorts_add, view_addSock h, View.addPort]
  split_ifs with hcheck hentry hentry
  · rfl
  · simp [View.setEntry] at hentry
  · simp [h] at hentry
  · rfl

theorem view_listen : view (listen cfg s fd now) = ((view s).addPort fd).addConnection fd := by
  rw [listen, view_netConnections_add, view_openPorts_add]

theorem view_connect (addr : SockaddrStorage) :
    view (connect cfg s fd addr now) = (view s).addConnection fd := by
  rw [connect, view_netConnections_add, view_doSetConnection]

theorem view_doAccept {newsd : ℤ} (h : (view s).entry fd = some type)
    (hnew : (view s).entry newsd = none) (addr : Option SockaddrStorage) (info : SockInfo) :
    view (doAccept cfg s fd newsd addr info now) =
      if checkNetEntry newsd then
        (((view s).setEntry newsd (some type)).add .port).add (Gauge.ofType type)
      else view s := by
  have hdup : view (doDupSock cfg s fd newsd now) =
      if checkNetEntry newsd then (view s).setEntry newsd (some type) else view s :=
    view_doDupSock h
  rw [doAccept, if_pos (view_entry_eq_some h).1]
  rw [← view_entry_isSome, hdup]
  by_cases hcheck : checkNetEntry newsd = true
  · have hentry : ((view s).setEntry newsd (some type)).entry newsd = some type :=
      update_self ..
    rw [if_pos hcheck] at hdup
    rw [if_pos hcheck, hentry, if_pos (Option.isSome_some ..), view_netConnections_add,
      view_openPorts_add, view_setConnection, hdup, if_pos hcheck, View.addPort, hentry,
      if_pos (Option.isSome_some ..), View.addConnection]
    simp [View.setEntry, View.add]
  · rw [if_neg hcheck] at hdup
    rw [if_neg hcheck, hnew, if_neg (by simp), if_neg hcheck, hdup]

end AppView.Metrics
