import AppView.Framework.Ledger
import AppView.Metrics.Pipeline
import AppView.Metrics.Updates

/-!
# The accounts of a counted quantity

Six quantities are counted per descriptor and process-wide, and reported from either count: the
bytes read, written, received and sent, and the opens and closes of connections. **`Effect`**
says that a piece of the pipeline does to the books what some acts of the ledger do.
-/

namespace AppView.Metrics

open AppView.Framework

instance : Fintype Ctr :=
  Fintype.ofList
    (([.openPorts, .netConnectionsUdp, .netConnectionsTcp, .netConnectionsOther,
      .readBytes, .writeBytes, .numSeek, .numStat, .numOpen, .numClose, .numDNS,
      .fsDurationNum, .fsDurationTotal, .connDurationNum, .connDurationTotal,
      .dnsDurationNum, .dnsDurationTotal, .netConnOpen, .netConnClose,
      .netConnectErrors, .netTxRxErrors, .netDNSErrors, .fsOpenCloseErrors,
      .fsRdWrErrors, .fsStatErrors] : List Ctr) ++
      allBuckets.map .netrxBytes ++ allBuckets.map .nettxBytes)
    (by rintro (_ | _ | _ | _ | b | b | _) <;> first | decide | cases b <;> decide)

inductive Kind : Type where
  | read | write | rx | tx | opened | closed
deriving DecidableEq, Repr

namespace Kind

def metric : Kind → String
  | read => "fs.read"
  | write => "fs.write"
  | rx => "net.rx"
  | tx => "net.tx"
  | opened => "net.open"
  | closed => "net.close"

def type : Kind → MetricT
  | read => .fsRead
  | write => .fsWrite
  | rx => .netrx
  | tx => .nettx
  | opened => .connectionOpen
  | closed => .connectionClose

def isBytes : Kind → Bool
  | opened | closed => false
  | _ => true

def counts : Kind → Ctr → Bool
  | read, .readBytes => true
  | write, .writeBytes => true
  | rx, .netrxBytes _ => true
  | tx, .nettxBytes _ => true
  | opened, .netConnOpen => true
  | closed, .netConnClose => true
  | _, _ => false

def fsCtr : Kind → Option FsCtr
  | read => some .readBytes
  | write => some .writeBytes
  | _ => none

def fsTotal : Kind → Option Ctr
  | read => some .readBytes
  | write => some .writeBytes
  | _ => none

def netTotal (net : NetInfo) : Kind → Option Ctr
  | rx => some (.netrxBytes (getNetRxTxBucket net))
  | tx => some (.nettxBytes (getNetRxTxBucket net))
  | opened => some .netConnOpen
  | closed => some .netConnClose
  | _ => none

def fsEntry (k : Kind) (fs : FsInfo) : ℕ :=
  match k.fsCtr with
  | some c => (fs.ctr c).mtc.toNat
  | none => 0

def netEntry (net : NetInfo) : Kind → ℕ
  | rx => (net.ctr .rxBytes).mtc.toNat
  | tx => (net.ctr .txBytes).mtc.toNat
  | opened => (net.counters .netConnOpen).mtc.toNat
  | closed => (net.counters .netConnClose).mtc.toNat
  | _ => 0

def posted (k : Kind) : Msg → Option (ℤ × Ctr × ℕ)
  | .fs fs =>
    if fs.dataType = k.type then
      k.fsTotal.map fun c => (fs.fd, c, k.fsEntry fs)
    else none
  | .net net =>
    if net.dataType = k.type then
      (netTotal net k).map fun c => (net.fd, c, netEntry net k)
    else none

def total (k : Kind) (ctrs : MetricCounters) (c : Ctr) : ℕ :=
  if k.counts c then (ctrs c).mtc.toNat else 0

def books (k : Kind) (s : State) : Ledger.Books ℤ Ctr where
  entry fd := k.fsEntry (s.fsinfo fd) + netEntry (s.netinfo fd) k
  total := k.total s.ctrs
  queued := s.queue.filterMap k.posted

def values (k : Kind) (sent : List Sent) : List (Option ℤ × ℤ) :=
  (sent.filter fun e => e.toMtc && e.name = k.metric && e.type = .delta).map
    fun e => (e.fd, e.value)

@[simp] theorem values_nil (k : Kind) : k.values [] = [] := rfl

@[simp] theorem values_append (k : Kind) (sent sent' : List Sent) :
    k.values (sent ++ sent') = k.values sent ++ k.values sent' := by
  simp [values]

@[simp] theorem values_cmdSendEvent (k : Kind) (e : Sent) : k.values (cmdSendEvent e) = [] := by
  simp [values, cmdSendEvent]

/-! ## What leaves the books alone -/

variable {k : Kind} {s : State} {f : MetricCounters → MetricCounters}

theorem books_globals (h : ∀ c, k.counts c = true → (f s.ctrs c).mtc = (s.ctrs c).mtc) :
    k.books (s.globals f) = k.books s := by
  ext : 1
  · rfl
  · funext c
    by_cases hc : k.counts c = true
    · simp only [books, total, if_pos hc]
      exact congrArg UInt64.toNat (h c hc)
    · simp [books, total, if_neg hc]
  · rfl

theorem books_setFs (fd : ℤ) (fs : FsInfo) : k.books (s.setFs fd fs) =
      { k.books s with
        entry := Function.update (k.books s).entry fd
          (k.fsEntry fs + netEntry (s.netinfo fd) k) } := by
  ext : 1
  · funext fd'
    by_cases h : fd' = fd
    · subst h
      simp [books, State.setFs]
    · simp [books, State.setFs, h]
  · rfl
  · rfl

theorem books_setNet (fd : ℤ) (net : NetInfo) : k.books (s.setNet fd net) =
      { k.books s with
        entry := Function.update (k.books s).entry fd
          (k.fsEntry (s.fsinfo fd) + netEntry net k) } := by
  ext : 1
  · funext fd'
    by_cases h : fd' = fd
    · subst h
      simp [books, State.setNet]
    · simp [books, State.setNet, h]
  · rfl
  · rfl

variable {fd : ℤ} {cfg : Config} {type : MetricT}

theorem books_setFs_same {fs : FsInfo} (h : k.fsEntry fs = k.fsEntry (s.fsinfo fd)) :
    k.books (s.setFs fd fs) = k.books s := by
  rw [books_setFs, h]
  exact Ledger.Books.ext (Function.update_eq_self fd _) rfl rfl

theorem books_setNet_same {net : NetInfo} (h : netEntry net k = netEntry (s.netinfo fd) k) :
    k.books (s.setNet fd net) = k.books s := by
  rw [books_setNet, h]
  exact Ledger.Books.ext (Function.update_eq_self fd _) rfl rfl

theorem books_fsCtr {f : (FsCtr → CountersElement) → FsCtr → CountersElement}
    (h : ∀ c, k.fsCtr = some c → (f (s.fsinfo fd).ctr c).mtc = ((s.fsinfo fd).ctr c).mtc) :
    k.books (s.fsCtr fd f) = k.books s := by
  apply books_setFs_same
  unfold fsEntry
  cases hc : k.fsCtr with
  | none => rfl
  | some c => exact congrArg UInt64.toNat (h c hc)

theorem books_post_fs (h : type ≠ k.type) (fs : Option FsInfo) (funcop pathname : Option String) :
    k.books (postFSState cfg s fd type fs funcop pathname).2 = k.books s := by
  unfold postFSState
  dsimp only
  split
  · simp [books, posted, h]
  · rfl

theorem books_post_net (h : type ≠ k.type) (net : NetInfo) :
    k.books (postNetState cfg s fd type net).2 = k.books s := by
  unfold postNetState
  dsimp only
  split
  · simp [books, posted, h]
  · rfl

theorem books_netCtr {f : (NetCtr → CountersElement) → NetCtr → CountersElement}
    (hrx : k = rx → (f (s.netinfo fd).ctr .rxBytes).mtc = ((s.netinfo fd).ctr .rxBytes).mtc)
    (htx : k = tx → (f (s.netinfo fd).ctr .txBytes).mtc = ((s.netinfo fd).ctr .txBytes).mtc) :
    k.books (s.netCtr fd f) = k.books s := by
  apply books_setNet_same
  cases k with
  | rx => exact congrArg UInt64.toNat (hrx rfl)
  | tx => exact congrArg UInt64.toNat (htx rfl)
  | read | write | opened | closed => rfl

theorem books_netCounters (ho : k = opened → (f (s.netinfo fd).counters .netConnOpen).mtc =
      ((s.netinfo fd).counters .netConnOpen).mtc)
    (hc : k = closed → (f (s.netinfo fd).counters .netConnClose).mtc =
      ((s.netinfo fd).counters .netConnClose).mtc) :
    k.books (s.netCounters fd f) = k.books s := by
  apply books_setNet_same
  cases k with
  | opened => exact congrArg UInt64.toNat (ho rfl)
  | closed => exact congrArg UInt64.toNat (hc rfl)
  | read | write | rx | tx => rfl

theorem fsTouched_other {c : FsCtr} (ht : type ≠ k.type) (hc : k.fsCtr = some c) :
    fsTouched type c = false := by
  cases k <;> cases hc <;> cases type <;> first | rfl | exact absurd rfl ht

theorem touched_other {c : Ctr} (ht : type ≠ k.type) (hc : k.counts c = true) :
    touched type c = false := by
  cases k <;> cases c <;>
    first | (cases hc; done) | (cases type <;> first | rfl | exact absurd rfl ht)

theorem books_rule (ht : type ≠ k.type) :
    UpdateRule cfg type fun s s' => k.books s' = k.books s where
  refl _ := rfl
  trans h h' := h'.trans h
  fsCtr s fd f hf := books_fsCtr fun c hc => by rw [hf _ c (fsTouched_other ht hc)]
  netCtr s fd f hf := by
    refine books_netCtr (fun hk => ?_) (fun hk => ?_)
    all_goals
      subst hk
      rw [hf]
      cases type <;> first | rfl | exact absurd rfl ht
  netCounters s fd f hf := by
    refine books_netCounters (fun hk => ?_) (fun hk => ?_)
    · rw [hf _ _ (touched_other ht (by rw [hk]; rfl))]
    · rw [hf _ _ (touched_other ht (by rw [hk]; rfl))]
  globals s f hf := books_globals fun c hc => by rw [hf _ c (touched_other ht hc)]
  start s fd t := books_setNet_same (by cases k <;> rfl)
  postFs s fd fs funcop pathname := books_post_fs ht fs funcop pathname
  postNet s fd net := books_post_net ht net

/-- **An update of another type leaves the books as they are.** -/
theorem books_update_other (ht : type ≠ k.type) (fd size : ℤ) (funcop pathname : Option String)
    (now : UInt64) : k.books (doUpdateState cfg s type fd size funcop pathname now) = k.books s :=
  (books_rule ht).doUpdateState fd size funcop pathname now

end Kind

end AppView.Metrics
