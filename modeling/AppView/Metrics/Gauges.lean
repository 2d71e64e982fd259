import AppView.Metrics.Sockets

/-!
# The gauges of open ports and connections

What the gauges should show is counted on a list of open sockets with their descriptors, which
knows nothing of the counters (`Call.effect`). `listen` counts the port a second time, a
connect each time it is called; a close takes back a connection that the socket may not have
had; duplicates are not counted but their closes are; and a shut down socket is taken for a
closed one. **`socket_gauges`**: the gauges are right after every call of a run exactly if no
call of it does any of this (`Right`).
-/

namespace AppView.Metrics

open AppView.Framework List
open Function (update_of_ne update_self)

/-! ## Open sockets -/

inductive SockKind where
  | stream
  | dgram
  deriving DecidableEq

def SockKind.number : SockKind → ℤ
  | .stream => sockStream
  | .dgram => sockDgram

def SockKind.gauge : SockKind → Gauge
  | .stream => .tcp
  | .dgram => .udp

structure Socket where
  kind : SockKind
  connected : Bool
  fds : List ℤ
  deriving DecidableEq

namespace Sockets

def descriptors (socks : List Socket) : List ℤ := socks.flatMap Socket.fds

def connections (kind : SockKind) (socks : List Socket) : ℕ :=
  socks.countP fun x => x.kind = kind && x.connected

def update (socks : List Socket) (fd : ℤ) (f : Socket → Socket) : List Socket :=
  socks.map fun x => if fd ∈ x.fds then f x else x

def close (socks : List Socket) (fd : ℤ) : List Socket :=
  (socks.map fun x => { x with fds := x.fds.filter (· ≠ fd) }).filter (·.fds ≠ [])

def dup (socks : List Socket) (fd newfd : ℤ) : List Socket :=
  update socks fd fun x => { x with fds := newfd :: x.fds }

end Sockets

def afUnspec : UInt16 := 0

/-! ## Calls -/

inductive Call where
  | socket (sd : ℤ) (kind : SockKind) (cloexec nonblock inet6 : Bool)
  | bind (sockfd : ℤ) (addr : SockaddrStorage)
  | listen (sockfd : ℤ)
  | connect (sockfd : ℤ) (addr : SockaddrStorage)
  | accept (sockfd sd : ℤ) (addr : Option SockaddrStorage) (info : SockInfo)
  /-- `dup`, or `fcntl` without `copyNet` -/
  | dup (fd rc : ℤ) (copyNet : Bool) (info : SockInfo)
  | dup2 (oldfd newfd : ℤ)
  /-- Whether the connection has ended with it is up to the kernel. -/
  | shutdown (sockfd : ℤ) (ends : Bool)
  | close (fd : ℤ)

def sockType (kind : SockKind) (cloexec nonblock : Bool) : ℤ :=
  (BitVec.ofInt 32 kind.number ||| (if cloexec then sockCloexec else 0) |||
    (if nonblock then sockNonblock else 0)).toInt

def perform (cfg : Config) (s : State) (call : Call × UInt64) : State :=
  match call.1 with
  | .socket sd kind cloexec nonblock inet6 =>
    socket cfg s sd (sockType kind cloexec nonblock) (if inet6 then afInet6 else afInet) call.2
  | .bind sockfd addr => doSetConnection cfg s sockfd addr true call.2
  | .listen sockfd => listen cfg s sockfd call.2
  | .connect sockfd addr => connect cfg s sockfd addr call.2
  | .accept sockfd sd addr info => doAccept cfg s sockfd sd addr info call.2
  | .dup fd rc copyNet info => doDup cfg s fd rc "dup" copyNet info call.2
  | .dup2 oldfd newfd => doDup2 cfg s oldfd newfd "dup2" call.2
  | .shutdown sockfd _ => doClose cfg s sockfd "shutdown" call.2
  | .close fd => doClose cfg s fd "close" call.2

def Call.effect (socks : List Socket) : Call → List Socket
  | .socket sd kind .. => ⟨kind, false, [sd]⟩ :: socks
  | .bind _ _ | .listen _ => socks
  | .connect fd addr =>
    Sockets.update socks fd fun x => { x with connected := addr.ssFamily ≠ afUnspec }
  | .accept fd sd _ _ =>
    match socks.find? (fd ∈ ·.fds) with
    | some x => ⟨x.kind, true, [sd]⟩ :: socks
    | none => socks
  | .dup fd rc _ _ => Sockets.dup socks fd rc
  | .dup2 oldfd newfd =>
    if oldfd = newfd then socks else Sockets.dup (Sockets.close socks newfd) oldfd newfd
  | .shutdown fd ends =>
    Sockets.update socks fd fun x => { x with connected := x.connected && !ends }
  | .close fd => Sockets.close socks fd

def Call.Possible (socks : List Socket) : Call → Prop
  | .socket sd .. => sd ∉ Sockets.descriptors socks
  | .bind fd _ | .listen fd | .connect fd _ | .shutdown fd _ | .close fd | .dup2 fd _ =>
    fd ∈ Sockets.descriptors socks
  | .accept fd new _ _ | .dup fd new _ _ =>
    fd ∈ Sockets.descriptors socks ∧ new ∉ Sockets.descriptors socks

def Call.Right (socks : List Socket) : Call → Prop
  | .socket sd .. | .accept _ sd _ _ => checkNetEntry sd
  | .bind _ _ => True
  | .listen _ | .dup .. | .shutdown _ _ => False
  | .connect fd addr =>
    addr.ssFamily ≠ afUnspec ∧ ∀ x ∈ socks, fd ∈ x.fds → x.connected = false
  | .dup2 oldfd newfd => oldfd = newfd
  | .close fd =>
    ∀ x ∈ socks, fd ∈ x.fds → x.connected = true ∨ Sockets.connections x.kind socks = 0

/-! ## What the gauges show -/

def Shows (value : CountersElement) (n : ℕ) : Prop :=
  value.mtc.toNat = n ∧ value.evt.toNat = n

structure Show (v : View) (ports : ℕ) (conns : SockKind → ℕ) : Prop where
  port : Shows (v.gauge .port) ports
  conns : ∀ kind : SockKind, Shows (v.gauge kind.gauge) (conns kind)

/-- **The gauges are right.** -/
def Agrees (v : View) (socks : List Socket) : Prop :=
  Show v (Sockets.descriptors socks).length fun kind => Sockets.connections kind socks

variable {value : CountersElement} {n : ℕ}

theorem Shows.add (h : Shows value n) (hn : n < 2 ^ 64 - 1) :
    Shows (addToInterfaceCounts value 1) (n + 1) := by
  have h1 : (1 : UInt64).toNat = 1 := rfl
  obtain ⟨hmtc, hevt⟩ := h
  constructor
  · rw [addToInterfaceCounts, atomicAddU64_toNat, hmtc, h1]
    omega
  · rw [addToInterfaceCounts, atomicAddU64_toNat, hevt, h1]
    omega

theorem Shows.sub (h : Shows value n) : Shows (subFromInterfaceCounts value 1) (n - 1) := by
  obtain ⟨hmtc, hevt⟩ := h
  constructor
  · rw [subFromInterfaceCounts, atomicSubU64_toNat, hmtc]
    rfl
  · rw [subFromInterfaceCounts, atomicSubU64_toNat, hevt]
    rfl

theorem Shows.unique {m : ℕ} (h : Shows value n) (h' : Shows value m) : n = m := h.1.symm.trans h'.1

theorem gauge_injective : Function.Injective SockKind.gauge := by
  intro kind kind' h
  cases kind <;> cases kind' <;> first | rfl | cases h

variable (kind : SockKind)

theorem gauge_ne_port : kind.gauge ≠ .port := by
  cases kind <;> decide

theorem ofType_number : Gauge.ofType kind.number = kind.gauge := by
  cases kind <;> rfl

theorem plainType_sockType (cloexec nonblock : Bool) :
    plainType (sockType kind cloexec nonblock) = kind.number := by
  cases kind <;> cases cloexec <;> cases nonblock <;> decide

namespace Show

variable {v : View} {ports ports' : ℕ} {conns conns' : SockKind → ℕ}

theorem addPort (h : Show v ports conns) (hn : ports < 2 ^ 64 - 1) :
    Show (v.add .port) (ports + 1) conns where
  port := by
    rw [View.add_gauge, addTo_same]
    exact h.port.add hn
  conns kind := by
    rw [View.add_gauge, addTo_ne _ _ (gauge_ne_port kind)]
    exact h.conns kind

theorem subPort (h : Show v ports conns) : Show (v.sub .port) (ports - 1) conns where
  port := by
    rw [View.sub_gauge, subFrom_same]
    exact h.port.sub
  conns kind := by
    rw [View.sub_gauge, subFrom_ne _ _ (gauge_ne_port kind)]
    exact h.conns kind

variable {kind : SockKind}

theorem addConnection (h : Show v ports conns) (hn : conns kind < 2 ^ 64 - 1) :
    Show (v.add kind.gauge) ports (Function.update conns kind (conns kind + 1)) where
  port := by
    rw [View.add_gauge, addTo_ne _ _ (gauge_ne_port kind).symm]
    exact h.port
  conns kind' := by
    rw [View.add_gauge]
    by_cases hkind : kind' = kind
    · rw [hkind, addTo_same, update_self]
      exact (h.conns kind).add hn
    · rw [addTo_ne _ _ (gauge_injective.ne hkind), update_of_ne hkind]
      exact h.conns kind'

theorem subConnection (h : Show v ports conns) :
    Show (v.sub kind.gauge) ports (Function.update conns kind (conns kind - 1)) where
  port := by
    rw [View.sub_gauge, subFrom_ne _ _ (gauge_ne_port kind).symm]
    exact h.port
  conns kind' := by
    rw [View.sub_gauge]
    by_cases hkind : kind' = kind
    · rw [hkind, subFrom_same, update_self]
      exact (h.conns kind).sub
    · rw [subFrom_ne _ _ (gauge_injective.ne hkind), update_of_ne hkind]
      exact h.conns kind'

theorem of_eq (h : Show v ports conns) (hports : ports = ports')
    (hconns : ∀ kind, conns kind = conns' kind) : Show v ports' conns' := by
  obtain rfl := hports
  obtain rfl := funext hconns
  exact h

theorem setEntry (h : Show v ports conns) (fd : ℤ) (type : Option ℤ) :
    Show (v.setEntry fd type) ports conns := ⟨h.port, h.conns⟩

end Show

/-! ## Sockets with one descriptor each -/

namespace Sockets

variable {fd : ℤ} {x : Socket} {before after : List Socket}

theorem length_descriptors_middle : (descriptors (before ++ x :: after)).length =
      x.fds.length + (descriptors (before ++ after)).length := by
  simp only [descriptors, flatMap_append, flatMap_cons, length_append]
  omega

def connection (kind : SockKind) (x : Socket) : ℕ :=
  if x.kind = kind ∧ x.connected = true then 1 else 0

theorem connection_of_closed (h : x.connected = false) (kind : SockKind) :
    connection kind x = 0 := by
  simp [connection, h]

theorem connection_other {kind : SockKind} (h : kind ≠ x.kind) : connection kind x = 0 := by
  simp [connection, h.symm]

theorem connection_self (h : x.connected = true) : connection x.kind x = 1 := by
  simp [connection, h]

theorem connections_middle (kind : SockKind) : connections kind (before ++ x :: after) =
      connection kind x + connections kind (before ++ after) := by
  simp only [connections, connection, countP_append, countP_cons, Bool.and_eq_true,
    decide_eq_true_eq]
  omega

theorem eq_of_fd {y : Socket} (hothers : ∀ y ∈ before ++ after, fd ∉ y.fds)
    (hy : y ∈ before ++ x :: after) (hyfd : fd ∈ y.fds) : y = x := by
  rcases mem_append.1 hy with hy | hy
  · exact absurd hyfd (hothers y (mem_append_left _ hy))
  · rcases mem_cons.1 hy with rfl | hy
    · rfl
    · exact absurd hyfd (hothers y (mem_append_right _ hy))

theorem update_others {socks : List Socket} (h : ∀ y ∈ socks, fd ∉ y.fds)
    (f : Socket → Socket) : update socks fd f = socks := by
  rw [update]
  exact (map_congr_left (g := id) fun y hy => if_neg (h y hy)).trans (map_id _)

theorem update_middle (hx : fd ∈ x.fds) (hothers : ∀ y ∈ before ++ after, fd ∉ y.fds)
    (f : Socket → Socket) : update (before ++ x :: after) fd f = before ++ f x :: after := by
  have hbefore : update before fd f = before :=
    update_others (fun y hy => hothers y (mem_append_left _ hy)) f
  have hafter : update after fd f = after :=
    update_others (fun y hy => hothers y (mem_append_right _ hy)) f
  rw [update] at hbefore hafter ⊢
  rw [map_append, map_cons, hbefore, hafter, if_pos hx]

theorem close_others {socks : List Socket} (h : ∀ y ∈ socks, fd ∉ y.fds ∧ y.fds ≠ []) :
    close socks fd = socks := by
  have hmap : (socks.map fun y : Socket => { y with fds := y.fds.filter (· ≠ fd) }) = socks := by
    refine (map_congr_left (g := id) fun y hy => ?_).trans (map_id _)
    have hfilter : y.fds.filter (· ≠ fd) = y.fds := by
      refine filter_eq_self.2 fun fd' hfd' => decide_eq_true ?_
      rintro rfl
      exact (h y hy).1 hfd'
    rw [hfilter]
    rfl
  rw [close, hmap]
  exact filter_eq_self.2 fun y hy => decide_eq_true (h y hy).2

structure Single (socks : List Socket) : Prop where
  one : ∀ x ∈ socks, ∃ fd, x.fds = [fd]
  nodup : (descriptors socks).Nodup

namespace Single

variable {socks : List Socket}

theorem split (h : Single socks) (hfd : fd ∈ descriptors socks) :
    ∃ before x after, socks = before ++ x :: after ∧ x.fds = [fd] ∧
      ∀ y ∈ before ++ after, fd ∉ y.fds := by
  obtain ⟨x, hx, hmem⟩ := mem_flatMap.1 hfd
  obtain ⟨fd', hfds⟩ := h.one x hx
  obtain rfl : fd = fd' := by simpa [hfds] using hmem
  obtain ⟨before, after, rfl⟩ := append_of_mem hx
  refine ⟨before, x, after, rfl, hfds, ?_⟩
  have hperm : (descriptors (before ++ x :: after)).Perm (fd :: descriptors (before ++ after)) := by
    simp [descriptors, hfds]
  have hnot : fd ∉ descriptors (before ++ after) :=
    (nodup_cons.1 (hperm.nodup_iff.1 h.nodup)).1
  intro y hy hyfd
  exact hnot (mem_flatMap.2 ⟨y, hy, hyfd⟩)

theorem ne_nil (h : Single socks) (hx : x ∈ socks) : x.fds ≠ [] := by
  obtain ⟨fd, hfd⟩ := h.one x hx
  rw [hfd]
  exact cons_ne_nil _ _

theorem remove (h : Single (before ++ x :: after)) : Single (before ++ after) := by
  have hsub : (before ++ after).Sublist (before ++ x :: after) :=
    (sublist_cons_self x after).append_left before
  refine ⟨fun y hy => h.one y (hsub.subset hy), h.nodup.sublist ?_⟩
  exact hsub.flatMap _

theorem close_eq (h : Single (before ++ x :: after)) (hx : x.fds = [fd])
    (hothers : ∀ y ∈ before ++ after, fd ∉ y.fds) :
    close (before ++ x :: after) fd = before ++ after := by
  have hbefore : close before fd = before := close_others fun y hy =>
    ⟨hothers y (mem_append_left _ hy), h.remove.ne_nil (mem_append_left _ hy)⟩
  have hafter : close after fd = after := close_others fun y hy =>
    ⟨hothers y (mem_append_right _ hy), h.remove.ne_nil (mem_append_right _ hy)⟩
  rw [close] at hbefore hafter ⊢
  rw [map_append, map_cons, filter_append, filter_cons_of_neg (by simp [hx]), hbefore, hafter]

theorem length_eq (h : Single socks) : (descriptors socks).length = socks.length := by
  have hone : ∀ x ∈ socks, x.fds.length = 1 := by
    intro x hx
    obtain ⟨fd, hfd⟩ := h.one x hx
    rw [hfd, length_singleton]
  rw [descriptors, length_flatMap, map_congr_left hone, map_const']
  simp

theorem cons (h : Single socks) (hx : x.fds = [fd]) (hfd : fd ∉ descriptors socks) :
    Single (x :: socks) where
  one y hy := by
    rcases mem_cons.1 hy with rfl | hy
    · exact ⟨fd, hx⟩
    · exact h.one y hy
  nodup := by
    rw [descriptors, flatMap_cons, hx]
    exact nodup_cons.2 ⟨hfd, h.nodup⟩

end Single

end Sockets

open Sockets (descriptors)

/-! ## The gauges along a run -/

structure Tracks (v : View) (socks : List Socket) : Prop where
  single : Sockets.Single socks
  entry : ∀ x ∈ socks, ∀ fd ∈ x.fds, checkNetEntry fd = true ∧ v.entry fd = some x.kind.number
  free : ∀ fd, fd ∉ descriptors socks → v.entry fd = none
  agrees : Agrees v socks

namespace Tracks

variable {v v' : View} {socks : List Socket} {fd : ℤ} {x : Socket}

section

variable (h : Tracks v socks)

include h

theorem length_le : (descriptors socks).length ≤ netEntries := by
  have hsub : descriptors socks ⊆ (range netEntries).map Int.ofNat := by
    intro fd hfd
    obtain ⟨x, hx, hmem⟩ := mem_flatMap.1 hfd
    have hcheck := (h.entry x hx fd hmem).1
    rw [checkNetEntry, decide_eq_true_eq] at hcheck
    obtain ⟨n, rfl⟩ := Int.eq_ofNat_of_zero_le hcheck.1
    exact mem_map.2 ⟨n, mem_range.2 (Int.ofNat_lt.1 hcheck.2), rfl⟩
  have hle := (h.single.nodup.subperm hsub).length_le
  rwa [length_map, length_range] at hle

theorem ports_lt : (descriptors socks).length < 2 ^ 64 - 1 :=
  h.length_le.trans_lt (by decide)

theorem connections_lt (kind : SockKind) :
    Sockets.connections kind socks < 2 ^ 64 - 1 := by
  have hle : Sockets.connections kind socks ≤ socks.length := countP_le_length
  rw [← h.single.length_eq] at hle
  exact hle.trans_lt h.ports_lt

theorem cons (hx : x.fds = [fd]) (hfd : fd ∉ descriptors socks)
    (hcheck : checkNetEntry fd = true)
    (hentry : v'.entry = Function.update v.entry fd (some x.kind.number))
    (hagrees : Agrees v' (x :: socks)) : Tracks v' (x :: socks) where
  single := h.single.cons hx hfd
  entry y hy fd' hfd' := by
    rcases mem_cons.1 hy with rfl | hy
    · obtain rfl : fd' = fd := by simpa [hx] using hfd'
      exact ⟨hcheck, by rw [hentry, update_self]⟩
    · have hne : fd' ≠ fd := by
        rintro rfl
        exact hfd (mem_flatMap.2 ⟨y, hy, hfd'⟩)
      rw [hentry, update_of_ne hne]
      exact h.entry y hy fd' hfd'
  free fd' hfd' := by
    rw [descriptors, flatMap_cons, hx, mem_append, mem_singleton] at hfd'
    rw [hentry, update_of_ne fun heq => hfd' (.inl heq)]
    exact h.free fd' fun hmem => hfd' (.inr hmem)
  agrees := hagrees

theorem split (hfd : fd ∈ descriptors socks) :
    ∃ before x after, socks = before ++ x :: after ∧ x.fds = [fd] ∧
      (∀ y ∈ before ++ after, fd ∉ y.fds) ∧ v.entry fd = some x.kind.number := by
  obtain ⟨before, x, after, rfl, hx, hothers⟩ := h.single.split hfd
  have hmem : x ∈ before ++ x :: after := mem_append_right _ (mem_cons_self ..)
  exact ⟨before, x, after, rfl, hx, hothers, (h.entry x hmem fd (by simp [hx])).2⟩

theorem find? (hfd : fd ∈ descriptors socks) :
    ∃ x, socks.find? (fd ∈ ·.fds) = some x ∧ v.entry fd = some x.kind.number := by
  obtain ⟨before, x, after, rfl, hx, hothers, hentry⟩ := h.split hfd
  have hbefore : before.find? (fd ∈ ·.fds) = none :=
    find?_eq_none.2 fun y hy => by simpa using hothers y (mem_append_left _ hy)
  refine ⟨x, ?_, hentry⟩
  rw [find?_append, hbefore, Option.none_or, find?_cons_of_pos (by simp [hx])]

end

variable {before after : List Socket}

theorem replace {x' : Socket} (h : Tracks v (before ++ x :: after)) (hfds : x'.fds = x.fds)
    (hkind : x'.kind = x.kind) (hentry : v'.entry = v.entry)
    (hagrees : Agrees v' (before ++ x' :: after)) : Tracks v' (before ++ x' :: after) := by
  have hdescriptors : descriptors (before ++ x' :: after) = descriptors (before ++ x :: after) := by
    simp [descriptors, hfds]
  have hmem : ∀ y ∈ before ++ x' :: after, ∃ z ∈ before ++ x :: after,
      y.fds = z.fds ∧ y.kind = z.kind := by
    intro y hy
    rcases mem_append.1 hy with hy | hy
    · exact ⟨y, mem_append_left _ hy, rfl, rfl⟩
    · rcases mem_cons.1 hy with rfl | hy
      · exact ⟨x, mem_append_right _ (mem_cons_self ..), hfds, hkind⟩
      · exact ⟨y, mem_append_right _ (mem_cons_of_mem _ hy), rfl, rfl⟩
  refine ⟨⟨?_, ?_⟩, ?_, ?_, hagrees⟩
  · intro y hy
    obtain ⟨z, hz, hyz, -⟩ := hmem y hy
    rw [hyz]
    exact h.single.one z hz
  · rw [hdescriptors]
    exact h.single.nodup
  · intro y hy fd hfd
    obtain ⟨z, hz, hyz, hyzkind⟩ := hmem y hy
    rw [hentry, hyzkind]
    exact h.entry z hz fd (hyz ▸ hfd)
  · rw [hentry, hdescriptors]
    exact h.free

theorem remove (h : Tracks v (before ++ x :: after)) (hx : x.fds = [fd])
    (hothers : ∀ y ∈ before ++ after, fd ∉ y.fds)
    (hentry : v'.entry = Function.update v.entry fd none)
    (hagrees : Agrees v' (before ++ after)) : Tracks v' (before ++ after) where
  single := h.single.remove
  entry y hy fd' hfd' := by
    have hne : fd' ≠ fd := by
      rintro rfl
      exact hothers y hy hfd'
    have hy' : y ∈ before ++ x :: after :=
      ((sublist_cons_self x after).append_left before).subset hy
    rw [hentry, update_of_ne hne]
    exact h.entry y hy' fd' hfd'
  free fd' hfd' := by
    rw [hentry]
    by_cases hne : fd' = fd
    · rw [hne, update_self]
    · rw [update_of_ne hne]
      refine h.free fd' fun hmem => hfd' ?_
      simpa [descriptors, hx, hne] using hmem
  agrees := hagrees

end Tracks

/-! ### Each call -/

section Calls

open Sockets

variable {cfg : Config} {s : State} {now : UInt64} {socks : List Socket} {fd : ℤ}

theorem agrees_port {v : View} {ports : ℕ} {conns : SockKind → ℕ} (h : Agrees v socks)
    (hshow : Show v ports conns) : ports = (descriptors socks).length :=
  hshow.port.unique h.port

theorem agrees_connections {v : View} {ports : ℕ} {conns : SockKind → ℕ} (h : Agrees v socks)
    (hshow : Show v ports conns) (kind : SockKind) : conns kind = connections kind socks :=
  (hshow.conns kind).unique (h.conns kind)

section

variable (h : Tracks (view s) socks)

include h

section

variable (hsd : fd ∉ descriptors socks) (kind : SockKind) (cloexec nonblock inet6 : Bool)

include hsd

theorem perform_socket :
    view (perform cfg s (.socket fd kind cloexec nonblock inet6, now)) =
      if checkNetEntry fd then ((view s).setEntry fd (some kind.number)).add .port
      else view s := by
  have hfamily : (if inet6 then afInet6 else afInet) = afInet ∨
      (if inet6 then afInet6 else afInet) = afInet6 := by
    cases inet6
    · exact .inl rfl
    · exact .inr rfl
  rw [perform, view_socket (h.free fd hsd) hfamily, plainType_sockType]

theorem keep_socket (hcheck : checkNetEntry fd = true) :
    Tracks (view (perform cfg s (.socket fd kind cloexec nonblock inet6, now)))
      (⟨kind, false, [fd]⟩ :: socks) := by
  rw [perform_socket h hsd, if_pos hcheck]
  refine h.cons rfl hsd hcheck rfl ?_
  refine ((h.agrees.setEntry fd _).addPort h.ports_lt).of_eq ?_ fun kind' => ?_
  · simp [descriptors]
  · simp [connections]

theorem wrong_socket (hcheck : ¬ checkNetEntry fd = true) :
    ¬ Agrees (view (perform cfg s (.socket fd kind cloexec nonblock inet6, now)))
      (⟨kind, false, [fd]⟩ :: socks) := by
  rw [perform_socket h hsd, if_neg hcheck]
  intro hagrees
  have hports := agrees_port hagrees h.agrees
  simp [descriptors] at hports

end

theorem wrong_listen (hfd : fd ∈ descriptors socks) :
    ¬ Agrees (view (listen cfg s fd now)) socks := by
  obtain ⟨before, x, after, rfl, hx, hothers, hentry⟩ := h.split hfd
  have hview : view (listen cfg s fd now) = ((view s).add .port).add x.kind.gauge := by
    rw [view_listen, View.addPort, hentry, if_pos (Option.isSome_some ..), View.addConnection,
      View.add_entry, hentry, ← ofType_number]
  intro hagrees
  rw [hview] at hagrees
  have hshow := (h.agrees.addPort h.ports_lt).addConnection (h.connections_lt x.kind)
  have hports := agrees_port hagrees hshow
  omega

end

variable {kind : SockKind} {addr : SockaddrStorage} {sd newfd : ℤ}

theorem perform_connect (h : (view s).entry fd = some kind.number) (addr : SockaddrStorage) :
    view (connect cfg s fd addr now) = (view s).add kind.gauge := by
  rw [view_connect, View.addConnection, h, ← ofType_number]

section

variable (h : Tracks (view s) socks)

include h

section

variable (hfd : fd ∈ descriptors socks)

include hfd

theorem keep_connect
    (haddr : addr.ssFamily ≠ afUnspec) (hfree : ∀ x ∈ socks, fd ∈ x.fds → x.connected = false) :
    Tracks (view (connect cfg s fd addr now))
      (update socks fd fun x => { x with connected := addr.ssFamily ≠ afUnspec }) := by
  obtain ⟨before, x, after, rfl, hx, hothers, hentry⟩ := h.split hfd
  have hmem : fd ∈ x.fds := by simp [hx]
  have hconn : x.connected = false :=
    hfree x (mem_append_right _ (mem_cons_self ..)) hmem
  rw [perform_connect hentry, update_middle hmem hothers]
  refine h.replace rfl rfl rfl ?_
  refine (h.agrees.addConnection (h.connections_lt x.kind)).of_eq ?_ fun kind => ?_
  · simp [length_descriptors_middle]
  · simp only [connections_middle, connection_of_closed hconn]
    by_cases hkind : kind = x.kind
    · simp [hkind, connection, haddr, Nat.add_comm]
    · simp [connection, hkind, Ne.symm hkind]

theorem wrong_connect
    (hwrong : ¬ (addr.ssFamily ≠ afUnspec ∧ ∀ x ∈ socks, fd ∈ x.fds → x.connected = false)) :
    ¬ Agrees (view (connect cfg s fd addr now))
      (update socks fd fun x => { x with connected := addr.ssFamily ≠ afUnspec }) := by
  obtain ⟨before, x, after, rfl, hx, hothers, hentry⟩ := h.split hfd
  have hmem : fd ∈ x.fds := by simp [hx]
  have hconn : addr.ssFamily ≠ afUnspec → x.connected = true := by
    intro haddr
    by_contra hconn
    refine hwrong ⟨haddr, fun y hy hyfd => ?_⟩
    rw [eq_of_fd hothers hy hyfd]
    exact Bool.not_eq_true _ ▸ hconn
  rw [perform_connect hentry, update_middle hmem hothers]
  intro hagrees
  have hshow := h.agrees.addConnection (h.connections_lt x.kind)
  have hconns := agrees_connections hagrees hshow x.kind
  rw [update_self, connections_middle, connections_middle] at hconns
  by_cases haddr : addr.ssFamily = afUnspec
  · simp [connection, haddr] at hconns
    omega
  · simp [connection, haddr, hconn haddr] at hconns

theorem keep_accept (hsd : sd ∉ descriptors socks) (hcheck : checkNetEntry sd = true)
    (addr : Option SockaddrStorage) (info : SockInfo) :
    Tracks (view (doAccept cfg s fd sd addr info now))
      ((Call.accept fd sd addr info).effect socks) := by
  obtain ⟨x, hfind, hentry⟩ := h.find? hfd
  rw [view_doAccept hentry (h.free sd hsd), if_pos hcheck, ofType_number, Call.effect, hfind]
  refine h.cons rfl hsd hcheck rfl ?_
  have hshow := ((h.agrees.setEntry sd (some x.kind.number)).addPort h.ports_lt).addConnection
    (h.connections_lt x.kind)
  refine hshow.of_eq ?_ fun kind => ?_
  · simp [descriptors]
  · by_cases hkind : kind = x.kind
    · simp [hkind, connections]
    · simp [hkind, Ne.symm hkind, connections]

theorem wrong_accept (hsd : sd ∉ descriptors socks) (hcheck : ¬ checkNetEntry sd = true)
    (addr : Option SockaddrStorage) (info : SockInfo) :
    ¬ Agrees (view (doAccept cfg s fd sd addr info now))
      ((Call.accept fd sd addr info).effect socks) := by
  obtain ⟨x, hfind, hentry⟩ := h.find? hfd
  rw [view_doAccept hentry (h.free sd hsd), if_neg hcheck, Call.effect, hfind]
  intro hagrees
  have hports := agrees_port hagrees h.agrees
  simp [descriptors] at hports

end

end

/-! ### Duplicates -/

theorem length_descriptors_dup (h : Single socks) (hfd : fd ∈ descriptors socks) (newfd : ℤ) :
    (descriptors (dup socks fd newfd)).length = (descriptors socks).length + 1 := by
  obtain ⟨before, x, after, rfl, hx, hothers⟩ := h.split hfd
  rw [dup, update_middle (by simp [hx]) hothers, length_descriptors_middle,
    length_descriptors_middle, length_cons]
  omega

theorem wrong_dup (h : Tracks (view s) socks) (hfd : fd ∈ descriptors socks) {rc : ℤ}
    (hrc : rc ∉ descriptors socks) (func : String) (copyNet : Bool) (info : SockInfo) :
    ¬ Agrees (view (doDup cfg s fd rc func copyNet info now)) (dup socks fd rc) := by
  obtain ⟨x, -, hentry⟩ := h.find? hfd
  set v := view (doDup cfg s fd rc func copyNet info now) with hv
  have hgauge : v.gauge = (view s).gauge := by
    have hget : view (getFSEntry cfg s fd now).2 = view s := view_getFSEntry
    have hhas : hasNetEntry (getFSEntry cfg s fd now).2 fd = true := by
      rw [← view_entry_isSome, hget, hentry]
      rfl
    rw [hv, doDup]
    dsimp only
    rw [if_pos hhas]
    cases copyNet with
    | true =>
      rw [if_pos rfl, view_doDupSock (by rw [hget, hentry]), hget]
      split_ifs <;> rfl
    | false =>
      rw [if_neg Bool.false_ne_true, gauge_doAddNewSock info (by rw [hget, h.free rc hrc]), hget]
  have hshow : Show v (descriptors socks).length fun kind => connections kind socks := by
    refine ⟨?_, fun kind => ?_⟩
    · rw [hgauge]
      exact h.agrees.port
    · rw [hgauge]
      exact h.agrees.conns kind
  intro hagrees
  have hports := agrees_port hagrees hshow
  rw [length_descriptors_dup h.single hfd] at hports
  omega

/-! ### Closing -/

section

variable (h : Tracks (view s) socks)

include h

theorem show_close (hentry : (view s).entry fd = some kind.number) :
    Show ((view s).close fd) ((descriptors socks).length - 1)
      (Function.update (connections · socks) kind (connections kind socks - 1)) := by
  rw [View.close, hentry]
  dsimp only
  rw [ofType_number]
  exact h.agrees.subPort.subConnection.setEntry fd none

theorem keep_close (hfd : fd ∈ descriptors socks)
    (hright : ∀ x ∈ socks, fd ∈ x.fds → x.connected = true ∨ connections x.kind socks = 0)
    (func : String) : Tracks (view (doClose cfg s fd func now)) (Sockets.close socks fd) := by
  obtain ⟨before, x, after, rfl, hx, hothers, hentry⟩ := h.split hfd
  have hconn := hright x (mem_append_right _ (mem_cons_self ..)) (by simp [hx])
  have hclosed : ((view s).close fd).entry = Function.update (view s).entry fd none := by
    rw [View.close, hentry]
    rfl
  rw [view_doClose, h.single.close_eq hx hothers]
  refine h.remove hx hothers hclosed ((show_close h hentry).of_eq ?_ fun kind => ?_)
  · rw [length_descriptors_middle, hx, length_singleton, Nat.add_sub_cancel_left]
  · by_cases hkind : kind = x.kind
    · rw [hkind, update_self]
      rw [connections_middle] at hconn ⊢
      rcases hconn with hconn | hzero
      · rw [connection_self hconn, Nat.add_sub_cancel_left]
      · omega
    · rw [update_of_ne hkind, connections_middle, connection_other hkind, Nat.zero_add]

theorem wrong_close (hfd : fd ∈ descriptors socks)
    (hwrong : ¬ ∀ x ∈ socks, fd ∈ x.fds → x.connected = true ∨ connections x.kind socks = 0)
    (func : String) : ¬ Agrees (view (doClose cfg s fd func now)) (Sockets.close socks fd) := by
  obtain ⟨before, x, after, rfl, hx, hothers, hentry⟩ := h.split hfd
  have hconn : ¬ (x.connected = true ∨ connections x.kind (before ++ x :: after) = 0) := by
    refine fun hright => hwrong fun y hy hyfd => ?_
    rw [eq_of_fd hothers hy hyfd]
    exact hright
  rw [view_doClose, h.single.close_eq hx hothers]
  intro hagrees
  have hconns := agrees_connections hagrees (show_close h hentry) x.kind
  rw [update_self] at hconns
  have hclosed : connection x.kind x = 0 :=
    connection_of_closed (Bool.not_eq_true _ ▸ fun hc => hconn (.inl hc)) x.kind
  have hpos : connections x.kind (before ++ x :: after) ≠ 0 := fun hc => hconn (.inr hc)
  rw [connections_middle, hclosed] at hconns hpos
  omega

theorem wrong_shutdown (hfd : fd ∈ descriptors socks)
    (f : Socket → Socket) (hf : ∀ x, (f x).fds = x.fds) (func : String) :
    ¬ Agrees (view (doClose cfg s fd func now)) (update socks fd f) := by
  obtain ⟨before, x, after, rfl, hx, hothers, hentry⟩ := h.split hfd
  rw [view_doClose, update_middle (by simp [hx]) hothers]
  intro hagrees
  have hports := agrees_port hagrees (show_close h hentry)
  rw [length_descriptors_middle, length_descriptors_middle, hf, hx, length_singleton] at hports
  omega

end

theorem close_of_free (h : Single socks) (hfd : fd ∉ descriptors socks) : close socks fd = socks :=
  close_others fun y hy =>
    ⟨fun hmem => hfd (mem_flatMap.2 ⟨y, hy, hmem⟩), h.ne_nil hy⟩

theorem gauge_doDup2 {type : ℤ} (hentry : (view s).entry fd = some type) (hne : fd ≠ newfd)
    (func : String) :
    (view (doDup2 cfg s fd newfd func now)).gauge = ((view s).close newfd).gauge := by
  have hget : view (getFSEntry cfg s fd now).2 = view s := view_getFSEntry
  have hhas : hasNetEntry (getFSEntry cfg s fd now).2 fd = true := by
    rw [← view_entry_isSome, hget, hentry]
    rfl
  rw [doDup2]
  dsimp only
  rw [if_pos hne, if_pos hhas]
  generalize (getFSEntry cfg s fd now).2 = t at hget hhas ⊢
  rw [← hget] at hentry ⊢
  have hclosed : view (if hasNetEntry t newfd then doClose cfg t newfd func now else t) =
      (view t).close newfd := by
    split_ifs with hnew
    · exact view_doClose func
    · rw [View.close, view_entry_of_not hnew]
  have hkept : ((view t).close newfd).entry fd = some type := by
    rw [View.close]
    split
    · rw [View.setEntry_entry, update_of_ne hne]
      exact hentry
    · exact hentry
  rw [view_doDupSock (by rw [hclosed, hkept]), hclosed]
  split_ifs <;> rfl

theorem wrong_dup2 (h : Tracks (view s) socks) (hfd : fd ∈ descriptors socks)
    (hne : fd ≠ newfd) (func : String) : ¬ Agrees (view (doDup2 cfg s fd newfd func now))
      (dup (Sockets.close socks newfd) fd newfd) := by
  obtain ⟨x, -, hentry⟩ := h.find? hfd
  intro hagrees
  have hport := hagrees.port
  rw [gauge_doDup2 hentry hne] at hport
  by_cases hnew : newfd ∈ descriptors socks
  · obtain ⟨before, y, after, rfl, hy, hothers, hynew⟩ := h.split hnew
    have hfd' : fd ∈ descriptors (before ++ after) := by
      simpa [descriptors, hy, hne] using hfd
    rw [h.single.close_eq hy hothers, length_descriptors_dup h.single.remove hfd'] at hport
    have hports := (show_close h hynew).port.unique hport
    rw [length_descriptors_middle, hy, length_singleton] at hports
    omega
  · rw [close_of_free h.single hnew, length_descriptors_dup h.single hfd, View.close,
      h.free newfd hnew] at hport
    have hports := h.agrees.port.unique hport
    omega

/-! ### Whole runs -/

theorem keep_perform (h : Tracks (view s) socks) (call : Call × UInt64)
    (hpossible : call.1.Possible socks) (hright : call.1.Right socks) :
    Tracks (view (perform cfg s call)) (call.1.effect socks) := by
  obtain ⟨call, now⟩ := call
  cases call with
  | socket sd kind cloexec nonblock inet6 => exact keep_socket h hpossible _ _ _ _ hright
  | bind fd addr =>
    have hview : view (perform cfg s (.bind fd addr, now)) = view s := view_doSetConnection ..
    rw [hview]
    exact h
  | connect fd addr => exact keep_connect h hpossible hright.1 hright.2
  | accept fd sd addr info => exact keep_accept h hpossible.1 hpossible.2 hright ..
  | dup2 oldfd newfd =>
    obtain rfl : oldfd = newfd := hright
    have hview : view (perform cfg s (.dup2 oldfd oldfd, now)) = view s := by
      show view (doDup2 cfg s oldfd oldfd "dup2" now) = view s
      rw [doDup2]
      dsimp only
      rw [if_neg (not_not_intro rfl)]
      exact view_getFSEntry
    rw [hview, Call.effect, if_pos rfl]
    exact h
  | close fd => exact keep_close h hpossible hright "close"
  | listen fd | dup fd rc copyNet info | shutdown fd ends => exact hright.elim

theorem wrong_perform (h : Tracks (view s) socks) (call : Call × UInt64)
    (hpossible : call.1.Possible socks) (hwrong : ¬ call.1.Right socks) :
    ¬ Agrees (view (perform cfg s call)) (call.1.effect socks) := by
  obtain ⟨call, now⟩ := call
  cases call with
  | socket sd kind cloexec nonblock inet6 =>
    exact wrong_socket h hpossible _ _ _ _ hwrong
  | bind fd addr => exact absurd trivial hwrong
  | listen fd => exact wrong_listen h hpossible
  | connect fd addr => exact wrong_connect h hpossible hwrong
  | accept fd sd addr info => exact wrong_accept h hpossible.1 hpossible.2 hwrong addr info
  | dup fd rc copyNet info => exact wrong_dup h hpossible.1 hpossible.2 "dup" copyNet info
  | dup2 oldfd newfd =>
    have hne : oldfd ≠ newfd := hwrong
    rw [Call.effect, if_neg hne]
    exact wrong_dup2 h hpossible hne "dup2"
  | shutdown fd ends =>
    refine wrong_shutdown h hpossible (fun x => { x with connected := x.connected && !ends }) ?_ _
    exact fun _ => rfl
  | close fd => exact wrong_close h hpossible hwrong "close"

theorem tracks_init (verbosity : ℕ) : Tracks (view (init verbosity)) [] where
  single := ⟨fun x hx => absurd hx not_mem_nil, nodup_nil⟩
  entry x hx := absurd hx not_mem_nil
  free fd _ := by simp [view, init, entryType]
  agrees := ⟨⟨rfl, rfl⟩, fun kind => ⟨by cases kind <;> rfl, by cases kind <;> rfl⟩⟩

def openSockets (calls : List (Call × UInt64)) : List Socket :=
  calls.foldl (fun socks call => call.1.effect socks) []

def EachCall (P : List Socket → Call → Prop) (calls : List (Call × UInt64)) : Prop :=
  Along (fun socks call => (call.1.effect socks, ())) (fun socks call => P socks call.1) [] calls

/-- **The gauges are right all along a run exactly if each call of it is counted as it should
be.** -/
theorem socket_gauges (cfg : Config) (verbosity : ℕ) (calls : List (Call × UInt64))
    (hcalls : EachCall Call.Possible calls) : (∀ before, before <+: calls →
      Agrees (view (before.foldl (perform cfg) (init verbosity))) (openSockets before)) ↔
      EachCall Call.Right calls :=
  prefixes_iff (fun s socks (h : Tracks (view s) socks) => h.agrees)
    (fun _ _ call h hpossible hright => keep_perform h call hpossible hright)
    (fun _ _ call h hpossible hwrong => wrong_perform h call hpossible hwrong)
    (tracks_init verbosity) hcalls

def connectedRun : List (Call × UInt64) :=
  [(.socket 3 .stream true false false, 10), (.bind 3 { ssFamily := afInet }, 11),
    (.socket 4 .stream false false false, 12), (.connect 4 { ssFamily := afInet }, 13),
    (.close 4, 14), (.close 3, 15)]

theorem socket_gauges_connected :
    EachCall Call.Possible connectedRun ∧ EachCall Call.Right connectedRun ∧
      ∀ before, before <+: connectedRun →
        Agrees (view (before.foldl (perform allOn) (init 4))) (openSockets before) := by
  have hpossible : EachCall Call.Possible connectedRun := by
    simp [EachCall, connectedRun, Along, Call.Possible, Call.effect, descriptors, update,
      Sockets.close]
  have hright : EachCall Call.Right connectedRun := by
    simp [EachCall, connectedRun, Along, Call.Right, Call.effect, connections, update,
      close, checkNetEntry, netEntries, afInet, afUnspec]
  exact ⟨hpossible, hright, (socket_gauges allOn 4 connectedRun hpossible).2 hright⟩

def listenerRun : List (Call × UInt64) :=
  [(.socket 3 .stream false false false, 10), (.bind 3 { ssFamily := afInet }, 11),
    (.listen 3, 12)]

def closedListenerRun : List (Call × UInt64) := listenerRun ++ [(.close 3, 13)]

/-- One socket shows as two open ports, and as one when it is closed. -/
theorem socket_gauges_listener : EachCall Call.Possible closedListenerRun ∧
      openSockets listenerRun = [⟨.stream, false, [3]⟩] ∧
      ((view (listenerRun.foldl (perform allOn) (init 4))).gauge .port).mtc = 2 ∧
      openSockets closedListenerRun = [] ∧
      ((view (closedListenerRun.foldl (perform allOn) (init 4))).gauge .port).mtc = 1 := by
  refine ⟨?_, by decide +kernel, by decide +kernel, by decide +kernel, by decide +kernel⟩
  simp [EachCall, closedListenerRun, listenerRun, Along, Call.Possible, Call.effect, descriptors]

end Calls

end AppView.Metrics
