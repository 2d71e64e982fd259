import AppView.Metrics.Simulation

/-!
# Timed operations and connections

The time that operations on files take, and the time that connections last, are
counted alike: how many and how long, once in the entry of the descriptor and once
process-wide. **`Untouched`** says that a piece of the pipeline records no time of
one kind; it may forget an entry, but only together with its times.

**`process_observed`** gives what a run of application threads leaves behind for the
reporting thread: the process-wide counts, and the messages in the queue.
-/

namespace AppView.Metrics

open AppView.Framework List State

inductive Timed : Type where
  | file | conn
deriving DecidableEq, Repr

namespace Timed

def metric : Timed → String
  | file => "fs.duration"
  | conn => "net.duration"

def type : Timed → MetricT
  | file => .fsDuration
  | conn => .connectionDuration

def num : Timed → Ctr
  | file => .fsDurationNum
  | conn => .connDurationNum

def total : Timed → Ctr
  | file => .fsDurationTotal
  | conn => .connDurationTotal

def factor : Timed → ℕ
  | file => 1000
  | conn => 1000000

def summarized (summary : Summary) : Timed → Bool
  | file => summary.fsReadWrite
  | conn => summary.netOpenClose

def totalled (summary : Summary) : Timed → Bool
  | file => summary.fsOpenClose
  | conn => summary.netOpenClose

def fsTimes (fs : FsInfo) : UInt64 × UInt64 :=
  ((fs.ctr .numDuration).mtc, (fs.ctr .totalDuration).mtc)

def netTimes (net : NetInfo) : UInt64 × UInt64 :=
  ((net.ctr .numDuration).mtc, (net.ctr .totalDuration).mtc)

def entry (d : Timed) (s : State) (fd : ℤ) : UInt64 × UInt64 :=
  match d with
  | file => fsTimes (s.fsinfo fd)
  | conn => netTimes (s.netinfo fd)

def live (d : Timed) (s : State) (fd : ℤ) : Bool :=
  match d with
  | file => true
  | conn => (s.netinfo fd).active

def posted (d : Timed) : Msg → Option (UInt64 × UInt64)
  | .fs fs => if d = file ∧ fs.dataType = .fsDuration then some (fsTimes fs) else none
  | .net net =>
    if d = conn ∧ net.dataType = .connectionDuration then some (netTimes net) else none

/-! ## What records no time -/

structure Untouched (d : Timed) (s s' : State) : Prop where
  summary : s'.summary = s.summary
  num : (s'.ctrs d.num).mtc = (s.ctrs d.num).mtc
  total : (s'.ctrs d.total).mtc = (s.ctrs d.total).mtc
  entry : ∀ fd, d.entry s' fd = (0, 0) ∨
    (d.entry s' fd = d.entry s fd ∧ (d.live s' fd = true → d.live s fd = true))
  queue : s'.queue.filterMap d.posted = s.queue.filterMap d.posted

namespace Untouched

variable {cfg : Config} {d : Timed} {s s' s'' : State}

theorem refl (d : Timed) (s : State) : Untouched d s s :=
  ⟨rfl, rfl, rfl, fun _ => .inr ⟨rfl, id⟩, rfl⟩

theorem trans (h : Untouched d s s') (h' : Untouched d s' s'') : Untouched d s s'' where
  summary := h'.summary.trans h.summary
  num := h'.num.trans h.num
  total := h'.total.trans h.total
  queue := h'.queue.trans h.queue
  entry fd := by
    rcases h'.entry fd with h0 | ⟨heq, hlive⟩
    · exact .inl h0
    · rcases h.entry fd with h0 | ⟨heq', hlive'⟩
      · exact .inl (heq.trans h0)
      · exact .inr ⟨heq.trans heq', fun hl => hlive' (hlive hl)⟩

theorem ite {p : Prop} [Decidable p] (h : Untouched d s s') (h' : Untouched d s s'') :
    Untouched d s (if p then s' else s'') := by
  split
  · exact h
  · exact h'

theorem globals {f : MetricCounters → MetricCounters}
    (hn : (f s.ctrs d.num).mtc = (s.ctrs d.num).mtc)
    (ht : (f s.ctrs d.total).mtc = (s.ctrs d.total).mtc) : Untouched d s (s.globals f) :=
  ⟨rfl, hn, ht, fun _ => by cases d <;> exact .inr ⟨rfl, id⟩, rfl⟩

variable {fd : ℤ}

theorem setFs {fs : FsInfo}
    (h : d = file → fsTimes fs = (0, 0) ∨ fsTimes fs = fsTimes (s.fsinfo fd)) :
    Untouched d s (s.setFs fd fs) := by
  refine ⟨rfl, rfl, rfl, fun fd' => ?_, rfl⟩
  cases d with
  | conn => exact .inr ⟨rfl, id⟩
  | file =>
    by_cases hfd : fd' = fd
    · subst hfd
      simpa [Timed.entry, live, setFs] using h rfl
    · exact .inr ⟨by simp [Timed.entry, setFs, hfd], id⟩

theorem setNet {net : NetInfo}
    (h : d = conn → netTimes net = (0, 0) ∨ (netTimes net = netTimes (s.netinfo fd) ∧
      (net.active = true → (s.netinfo fd).active = true))) : Untouched d s (s.setNet fd net) := by
  refine ⟨rfl, rfl, rfl, fun fd' => ?_, rfl⟩
  cases d with
  | file => exact .inr ⟨rfl, id⟩
  | conn =>
    by_cases hfd : fd' = fd
    · subst hfd
      simpa [Timed.entry, live, setNet] using h rfl
    · exact .inr (by simp [Timed.entry, live, setNet, hfd])

theorem fsCtr {f : (FsCtr → CountersElement) → FsCtr → CountersElement}
    (hn : d = file → (f (s.fsinfo fd).ctr .numDuration).mtc = ((s.fsinfo fd).ctr .numDuration).mtc)
    (ht : d = file → (f (s.fsinfo fd).ctr .totalDuration).mtc =
      ((s.fsinfo fd).ctr .totalDuration).mtc) : Untouched d s (s.fsCtr fd f) :=
  setFs fun h => .inr (Prod.ext (hn h) (ht h))

theorem netCtr {f : (NetCtr → CountersElement) → NetCtr → CountersElement}
    (hn : d = conn → (f (s.netinfo fd).ctr .numDuration).mtc =
      ((s.netinfo fd).ctr .numDuration).mtc)
    (ht : d = conn → (f (s.netinfo fd).ctr .totalDuration).mtc =
      ((s.netinfo fd).ctr .totalDuration).mtc) : Untouched d s (s.netCtr fd f) :=
  setNet fun h => .inr ⟨Prod.ext (hn h) (ht h), id⟩

theorem netCounters (fd : ℤ) (f : MetricCounters → MetricCounters) :
    Untouched d s (s.netCounters fd f) :=
  setNet fun _ => .inr ⟨rfl, id⟩

variable {type : MetricT}

theorem post_fs (h : type ≠ d.type) (fs : Option FsInfo) (funcop pathname : Option String) :
    Untouched d s (postFSState cfg s fd type fs funcop pathname).2 := by
  unfold postFSState
  dsimp only
  split
  · have hno : ¬ (d = file ∧ type = .fsDuration) := by
      rintro ⟨rfl, rfl⟩
      exact h rfl
    refine ⟨rfl, rfl, rfl, fun _ => ?_, by simp [posted, hno]⟩
    cases d <;> exact .inr ⟨rfl, id⟩
  · exact refl d s

theorem post_net (h : type ≠ d.type) (net : NetInfo) :
    Untouched d s (postNetState cfg s fd type net).2 := by
  unfold postNetState
  dsimp only
  split
  · have hno : ¬ (d = conn ∧ type = .connectionDuration) := by
      rintro ⟨rfl, rfl⟩
      exact h rfl
    refine ⟨rfl, rfl, rfl, fun _ => ?_, by simp [posted, hno]⟩
    cases d <;> exact .inr ⟨rfl, id⟩
  · exact refl d s

theorem rule (ht : type ≠ d.type) : UpdateRule cfg type (Untouched d) where
  refl := refl d
  trans := trans
  fsCtr s fd f hf := by
    have hno : d = file →
        fsTouched type .numDuration = false ∧ fsTouched type .totalDuration = false := by
      rintro rfl
      cases type <;> first | exact ⟨rfl, rfl⟩ | exact absurd rfl ht
    exact fsCtr (fun hd => by rw [hf _ _ (hno hd).1]) (fun hd => by rw [hf _ _ (hno hd).2])
  netCtr s fd f hf := by
    have hno : d = conn →
        netTouched type .numDuration = false ∧ netTouched type .totalDuration = false := by
      rintro rfl
      cases type <;> first | exact ⟨rfl, rfl⟩ | exact absurd rfl ht
    exact netCtr (fun hd => by rw [hf _ _ (hno hd).1]) (fun hd => by rw [hf _ _ (hno hd).2])
  netCounters s fd f _ := netCounters fd f
  globals s f hf := by
    have hno : touched type d.num = false ∧ touched type d.total = false := by
      cases d <;> cases type <;> first | exact ⟨rfl, rfl⟩ | exact absurd rfl ht
    exact globals (by rw [hf _ _ hno.1]) (by rw [hf _ _ hno.2])
  start s fd t := setNet fun _ => .inr ⟨rfl, id⟩
  postFs s fd fs funcop pathname := post_fs ht fs funcop pathname
  postNet s fd net := post_net ht net

/-- **An update of another type records no time.** -/
theorem doUpdateState (ht : type ≠ d.type) (fd size : ℤ) (funcop pathname : Option String)
    (now : UInt64) : Untouched d s (doUpdateState cfg s type fd size funcop pathname now) :=
  (rule ht).doUpdateState fd size funcop pathname now

end Untouched

/-! ## What is observed -/

variable {cfg : Config} {d : Timed} {s s' : State}

def connTime (net : NetInfo) (now : UInt64) : UInt64 :=
  if net.startTime ≠ 0 then now - net.startTime else 0

def observed (d : Timed) (s : State) (op : Op) : List (UInt64 × Bool) :=
  match d, op with
  | file, .update .fsDuration fd size _ _ _ =>
    if checkFSEntry fd then [(u64 size, true)] else []
  | conn, .doClose fd _ now | conn, .addSock fd _ _ now =>
    if hasNetEntry s fd then [(connTime (s.netinfo fd) now, carriedData (s.netinfo fd))]
    else []
  | conn, .doOpen fd _ _ now =>
    if checkFSEntry fd && (s.fsinfo fd).active && hasNetEntry s fd then
      [(connTime (s.netinfo fd) now, carriedData (s.netinfo fd))]
    else []
  | _, _ => []

def observations (cfg : Config) (d : Timed) (s : State) (ops : List Op) : List (UInt64 × Bool) :=
  gather (step cfg) d.observed s ops

def fromApplication (d : Timed) : Op → Bool
  | .update type _ _ _ _ _ => d = file || type ≠ .connectionDuration
  | .drain | .doTotal _ | .doTotalDuration _ | .reportFD _ _ | .setVerbosity _ => false
  | _ => true

/-- **What observations leave behind**: the process-wide counts; and, if the kind is not
summarised, one message for each that is posted, and nothing in the entries, except for
the connection that is being closed. -/
structure Observed (d : Timed) (closing : Option ℤ) (s : State)
    (obs : List (UInt64 × Bool)) : Prop where
  num : (s.ctrs d.num).mtc.toNat = min obs.length cap
  total : (s.ctrs d.total).mtc.toNat = min (obs.map fun o => o.1.toNat).sum cap
  clean : d.summarized s.summary = false → ∀ fd, closing ≠ some fd →
    d.live s fd = true → d.entry s fd = (0, 0)
  queue : d.summarized s.summary = false →
    s.queue.filterMap d.posted = (obs.filter fun o => o.2).map fun o => (1, o.1)

variable {obs : List (UInt64 × Bool)} {closing : Option ℤ} {op : Op}

theorem Observed.untouched (h : Observed d closing s obs) (hu : Untouched d s s') :
    Observed d closing s' obs where
  num := by rw [hu.num, h.num]
  total := by rw [hu.total, h.total]
  clean := by
    rw [hu.summary]
    intro hsum fd hfd hlive
    rcases hu.entry fd with h0 | ⟨heq, hold⟩
    · exact h0
    · rw [heq]
      exact h.clean hsum fd hfd (hold hlive)
  queue := by
    rw [hu.summary, hu.queue]
    exact h.queue

theorem Observed.silent (h : Observed d none s obs) (hnone : d.observed s op = [])
    (hu : Untouched d s s') : Observed d none s' (obs ++ d.observed s op) := by
  rw [hnone, append_nil]
  exact h.untouched hu

theorem Observed.observe {x : UInt64} {b : Bool} (h : Observed d none s obs)
    (hnum : (s'.ctrs d.num).mtc = atomicAddU64 (s.ctrs d.num).mtc 1)
    (htotal : (s'.ctrs d.total).mtc = atomicAddU64 (s.ctrs d.total).mtc x)
    (hsummary : s'.summary = s.summary)
    (hrest : d.summarized s.summary = false →
      (∀ fd, closing ≠ some fd → d.live s' fd = true → d.entry s' fd = (0, 0)) ∧
      s'.queue.filterMap d.posted = s.queue.filterMap d.posted ++ if b then [(1, x)] else []) :
    Observed d closing s' (obs ++ [(x, b)]) := by
  have h1 : (1 : UInt64).toNat = 1 := rfl
  rw [← hsummary] at hrest
  refine ⟨?_, ?_, fun hsum => (hrest hsum).1, fun hsum => ?_⟩
  · rw [hnum, atomicAddU64_toNat, h.num, h1, length_append, length_singleton, cap]
    omega
  · rw [htotal, atomicAddU64_toNat, h.total, map_append, sum_append, map_singleton, sum_singleton,
      cap]
    dsimp only
    omega
  · rw [(hrest hsum).2, h.queue (hsummary ▸ hsum), filter_append, map_append]
    cases b <;> rfl

theorem atomicAddU64_zero (x : UInt64) : atomicAddU64 0 x = x := by
  apply UInt64.toNat_inj.mp
  rw [atomicAddU64_toNat]
  have := x.toNat_lt
  have h0 : (0 : UInt64).toNat = 0 := rfl
  omega

/-! ## Posting a time -/

theorem postFSState_state (cfg : Config) (s : State) (fd : ℤ) (type : MetricT)
    (fs : Option FsInfo) (funcop pathname : Option String) :
    (postFSState cfg s fd type fs funcop pathname).2 =
      { s with queue := (postFSState cfg s fd type fs funcop pathname).2.queue } := by
  unfold postFSState
  dsimp only
  split <;> rfl

theorem postNetState_state (cfg : Config) (s : State) (fd : ℤ) (type : MetricT) (net : NetInfo) :
    (postNetState cfg s fd type net).2 =
      { s with queue := (postNetState cfg s fd type net).2.queue } := by
  unfold postNetState
  dsimp only
  split <;> rfl

section

variable (hmtc : cfg.mtcEnabled = true)

include hmtc

theorem postFSState_unsummarized (h : file.summarized s.summary = false) (fd : ℤ) (fs : FsInfo)
    (funcop pathname : Option String) :
    let r := postFSState cfg s fd .fsDuration (some fs) funcop pathname
    r.1 = true ∧
      r.2.queue.filterMap file.posted = s.queue.filterMap file.posted ++ [fsTimes fs] := by
  have hsum : s.summary.fsReadWrite = false := h
  simp [postFSState, fsSummarize, hsum, hmtc, posted, fsTimes]

theorem postNetState_unsummarized (h : conn.summarized s.summary = false) (fd : ℤ) (net : NetInfo) :
    let r := postNetState cfg s fd .connectionDuration net
    r.1 = true ∧
      r.2.queue.filterMap conn.posted = s.queue.filterMap conn.posted ++ [netTimes net] := by
  have hsum : s.summary.netOpenClose = false := h
  simp [postNetState, netSummarize, hsum, hmtc, posted, netTimes]

theorem fsDuration_observed (h : Observed file none s obs)
    (fd size : ℤ) (funcop pathname : Option String) : Observed file none
      (updateFs cfg s fd .fsDuration [(.numDuration, 1), (.totalDuration, u64 size)]
        [(.fsDurationNum, 1), (.fsDurationTotal, u64 size)] funcop pathname)
      (obs ++ [(u64 size, true)]) := by
  -- the state with the time counted in the entry and in the process-wide counters
  set t : State := (s.fsCtr fd fun c =>
    addTo (addTo c .numDuration 1) .totalDuration (u64 size)).globals fun c =>
    addTo (addTo c .fsDurationNum 1) .fsDurationTotal (u64 size) with ht
  set r := postFSState cfg t fd .fsDuration (some (t.fsinfo fd)) funcop pathname with hr
  have hstate : r.2 = { t with queue := r.2.queue } :=
    postFSState_state cfg t fd .fsDuration _ funcop pathname
  set u := updateFs cfg s fd .fsDuration [(.numDuration, 1), (.totalDuration, u64 size)]
    [(.fsDurationNum, 1), (.fsDurationTotal, u64 size)] funcop pathname
  have hupdate : u =
      if r.1 then r.2.fsCtr fd fun c => swapMtc (swapMtc c .numDuration) .totalDuration
      else r.2 := rfl
  have hkept : u.ctrs = t.ctrs ∧ u.summary = t.summary := by
    rw [hupdate, hstate]
    split <;> exact ⟨rfl, rfl⟩
  refine h.observe ?_ ?_ hkept.2 fun hsum => ?_
  · simp [hkept, ht, Timed.num, globals, fsCtr, setFs, addToInterfaceCounts]
  · simp [hkept, ht, Timed.total, globals, fsCtr, setFs, addToInterfaceCounts]
  have hclean : ∀ fd, fsTimes (s.fsinfo fd) = (0, 0) := fun fd => h.clean hsum fd (by simp) rfl
  obtain ⟨hyes, hqueue⟩ := postFSState_unsummarized (s := t) hmtc hsum fd (t.fsinfo fd)
    funcop pathname
  rw [hupdate, if_pos hyes]
  constructor
  · intro fd' _ _
    rw [hstate]
    by_cases hfd : fd' = fd
    · subst hfd
      simp [entry, fsTimes, fsCtr, setFs]
    · simpa [entry, fsCtr, setFs, hfd, ht, globals] using hclean fd'
  · have h0 := hclean fd
    simp only [fsTimes, Prod.mk.injEq] at h0
    have htimes : fsTimes (t.fsinfo fd) = (1, u64 size) := by
      simp [ht, fsTimes, globals, fsCtr, setFs, addToInterfaceCounts, h0, atomicAddU64_zero]
    exact htimes ▸ hqueue

theorem connDuration_observed (h : Observed conn none s obs)
    {fd : ℤ} {now : UInt64} (hactive : (s.netinfo fd).active = true)
    (hne : connTime (s.netinfo fd) now ≠ 0) :
    Observed conn (some fd) (updateConnectionDuration cfg s fd now)
      (obs ++ [(connTime (s.netinfo fd) now, carriedData (s.netinfo fd))]) := by
  set x := connTime (s.netinfo fd) now with hx
  -- the state with the time counted in the entry and in the process-wide counters
  set t : State := ((s.setNet fd { s.netinfo fd with startTime := 0 }).netCtr fd fun c =>
    addTo (addTo c .numDuration 1) .totalDuration x).globals fun c =>
    addTo (addTo c .connDurationNum 1) .connDurationTotal x with ht
  have hcarried : carriedData (t.netinfo fd) = carriedData (s.netinfo fd) := by
    simp [ht, carriedData, globals, netCtr, setNet]
  set r := postNetState cfg t fd .connectionDuration (t.netinfo fd) with hr
  have hstate : r.2 = { t with queue := r.2.queue } :=
    postNetState_state cfg t fd .connectionDuration _
  set u : State := if carriedData (s.netinfo fd) then
      if r.1 then r.2.netCtr fd fun c => swapMtc (swapMtc c .numDuration) .totalDuration
      else r.2
    else t with hu
  have hupdate : updateConnectionDuration cfg s fd now =
      u.netCtr fd fun c => swapEvt (swapEvt c .numDuration) .totalDuration := by
    unfold updateConnectionDuration
    have hdur : (if (s.netinfo fd).startTime ≠ 0 then now - (s.netinfo fd).startTime
      else 0) = x := rfl
    simp only [hdur, if_pos hne]
    rw [hu, hr, ← hcarried]
  have hkept : u.ctrs = t.ctrs ∧ u.summary = t.summary := by
    rw [hu, hstate]
    split_ifs <;> exact ⟨rfl, rfl⟩
  rw [hupdate]
  refine Observed.untouched (h.observe ?_ ?_ hkept.2 fun hsum => ?_)
    (.netCtr (fun _ => by simp) (fun _ => by simp))
  · simp [hkept, ht, Timed.num, globals, netCtr, setNet, addToInterfaceCounts]
  · simp [hkept, ht, Timed.total, globals, netCtr, setNet, addToInterfaceCounts]
  have hclean := h.clean hsum
  have hothers : ∀ fd', some fd ≠ some fd' → conn.live t fd' = true →
      conn.entry t fd' = (0, 0) := by
    intro fd' hfd hlive
    have hfd : fd' ≠ fd := fun he => hfd (by rw [he])
    have hother : t.netinfo fd' = s.netinfo fd' := by simp [ht, globals, netCtr, setNet, hfd]
    simp only [entry, live, hother] at hlive ⊢
    exact hclean fd' (by simp) hlive
  obtain ⟨hyes, hqueue⟩ := postNetState_unsummarized (s := t) hmtc hsum fd (t.netinfo fd)
  rw [hu]
  cases hc : carriedData (s.netinfo fd) with
  | true =>
    rw [if_pos rfl, if_pos hyes]
    constructor
    · intro fd' hfd hlive
      rw [hstate] at hlive ⊢
      have hne : fd' ≠ fd := fun he => hfd (by rw [he])
      simp only [entry, live, netCtr, setNet, Function.update_of_ne hne] at hlive ⊢
      exact hothers fd' hfd hlive
    · have h0 : netTimes (s.netinfo fd) = (0, 0) := hclean fd (by simp) hactive
      simp only [netTimes, Prod.mk.injEq] at h0
      have htimes : netTimes (t.netinfo fd) = (1, x) := by
        simp [ht, netTimes, globals, netCtr, setNet, addToInterfaceCounts, h0, atomicAddU64_zero]
      exact htimes ▸ hqueue
  | false =>
    rw [if_neg Bool.false_ne_true]
    exact ⟨hothers, (append_nil _).symm⟩

end

/-! ## Closing -/

structure SameConn (fd : ℤ) (now : UInt64) (s s' : State) : Prop where
  ctr : (s'.netinfo fd).ctr = (s.netinfo fd).ctr
  active : (s'.netinfo fd).active = (s.netinfo fd).active
  startTime : (s'.netinfo fd).startTime = (s.netinfo fd).startTime ∨
    ((s.netinfo fd).startTime = 0 ∧ (s'.netinfo fd).startTime = now)

namespace SameConn

variable {fd : ℤ} {now : UInt64} {s'' : State}

theorem of_eq (h : s'.netinfo = s.netinfo) : SameConn fd now s s' :=
  ⟨by rw [h], by rw [h], .inl (by rw [h])⟩

theorem trans (h : SameConn fd now s s') (h' : SameConn fd now s' s'') : SameConn fd now s s'' := by
  refine ⟨h'.ctr.trans h.ctr, h'.active.trans h.active, ?_⟩
  rcases h'.startTime with heq | ⟨h0, hnow⟩
  · rw [heq]
    exact h.startTime
  · rcases h.startTime with heq' | ⟨h0', -⟩
    · exact .inr ⟨heq'.symm.trans h0, hnow⟩
    · exact .inr ⟨h0', hnow⟩

theorem ite {p : Prop} [Decidable p] (h : SameConn fd now s s')
    (h' : SameConn fd now s s'') : SameConn fd now s (if p then s' else s'') := by
  split
  · exact h
  · exact h'

theorem carriedData (h : SameConn fd now s s') :
    carriedData (s'.netinfo fd) = carriedData (s.netinfo fd) := by
  simp [Metrics.carriedData, h.ctr]

theorem connTime (h : SameConn fd now s s') :
    connTime (s'.netinfo fd) now = connTime (s.netinfo fd) now := by
  rcases h.startTime with heq | ⟨h0, hnow⟩
  · simp [Timed.connTime, heq]
  · simp [Timed.connTime, h0, hnow]

theorem hasNetEntry (h : SameConn fd now s s') : hasNetEntry s' fd = hasNetEntry s fd := by
  simp [Metrics.hasNetEntry, h.active]

theorem updateGauge (type : MetricT) (ctr : Ctr) (size : ℤ) :
    SameConn fd now s (updateGauge cfg s fd type ctr size now) := by
  unfold Metrics.updateGauge
  generalize hu : (if size < 0 then s.globals fun c => subFrom c ctr (u64 (-size))
    else if size > 0 then s.globals fun c => addTo c ctr (u64 size) else s) = u
  have hnet : u.netinfo = s.netinfo := by
    rw [← hu]
    split_ifs <;> rfl
  refine trans ?_ (of_eq (Kind.postNetState_netinfo cfg _ fd type _))
  split
  · rename_i h
    refine (of_eq hnet).trans ⟨?_, ?_, .inr ⟨h.2, ?_⟩⟩ <;> simp [setNet]
  · exact of_eq hnet

theorem updateConnection (type : MetricT) (ctr : Ctr) :
    SameConn fd now s (updateConnection cfg s fd type ctr) := by
  have counters : ∀ (t : State) (f : MetricCounters → MetricCounters),
      SameConn fd now t (t.netCounters fd f) := by
    intro t f
    refine ⟨?_, ?_, .inl ?_⟩ <;> simp [netCounters, setNet]
  unfold Metrics.updateConnection
  dsimp only
  refine trans ?_ (counters _ _)
  split
  · have hpost : ∀ t : State, SameConn fd now t
        (postNetState cfg t fd type (t.netinfo fd)).2 := fun t =>
      of_eq (Kind.postNetState_netinfo cfg t fd type _)
    have hglobals : ∀ t : State, SameConn fd now t (t.globals fun c => addTo c ctr 1) :=
      fun _ => of_eq rfl
    have hcount := (counters s fun c => addTo c ctr 1).trans (hglobals _)
    split
    · exact (hcount.trans (hpost _)).trans (counters _ _)
    · exact hcount.trans (hpost _)
  · exact of_eq rfl

end SameConn

theorem closeSock_observed (hmtc : cfg.mtcEnabled = true) (h : Observed conn none s obs)
    {fd : ℤ} (func : String) {now : UInt64} (hfd : hasNetEntry s fd = true)
    (hne : connTime (s.netinfo fd) now ≠ 0) : Observed conn (some fd) (closeSock cfg s fd func now)
      (obs ++ [(connTime (s.netinfo fd) now, carriedData (s.netinfo fd))]) := by
  unfold closeSock
  dsimp only
  set s₁ := doUpdateState cfg s .openPorts fd (-1) (some func) none now
  set s₂ := doUpdateState cfg s₁ .netConnections fd (-1) (some func) none now
  set s₃ := doUpdateState cfg s₂ .connectionClose fd (-1) (some func) none now
  have same : SameConn fd now s s₃ := by
    have h₁ : SameConn fd now s s₁ := .ite (.updateGauge _ _ _) (.of_eq rfl)
    have h₂ : SameConn fd now s₁ s₂ := .ite (.updateGauge _ _ _) (.of_eq rfl)
    have h₃ : SameConn fd now s₂ s₃ := .ite (.updateConnection _ _) (.of_eq rfl)
    exact (h₁.trans h₂).trans h₃
  have h₃ : Observed conn none s₃ obs :=
    ((h.untouched (.doUpdateState (by decide) ..)).untouched
      (.doUpdateState (by decide) ..)).untouched
      (.doUpdateState (by decide) ..)
  have hactive : (s₃.netinfo fd).active = true := by
    rw [same.active]
    exact (Bool.and_eq_true_iff.mp hfd).2
  rw [← same.connTime] at hne ⊢
  rw [← same.carriedData]
  have hduration : doUpdateState cfg s₃ .connectionDuration fd (-1) (some func) none now =
      updateConnectionDuration cfg s₃ fd now := by
    simp [doUpdateState, same.hasNetEntry, hfd]
  rw [hduration]
  refine (connDuration_observed hmtc h₃ hactive hne).untouched (.setNet fun _ => ?_)
  exact .inr ⟨rfl, id⟩

/-! ## One operation -/

namespace Untouched

theorem openEntry (fd : ℤ) (path func : String) (now : UInt64) :
    Untouched d s (openEntry cfg s fd path func now) :=
  (setFs fun _ => .inl rfl).trans
    (doUpdateState (by cases d <;> decide) fd 0 (some func) (some path) now)

theorem closeRule (cfg : Config) (fd : ℤ) (now : UInt64) : CloseRule cfg fd now (Untouched d) where
  refl := refl d
  trans := trans
  opened _ path func := openEntry fd path func now
  closed _ func := doUpdateState (by cases d <;> decide) fd 0 (some func) none now
  inactive _ := setNet fun _ => .inr ⟨rfl, by simp⟩
  cleared _ := setFs fun _ => .inl rfl

theorem getFSEntry (cfg : Config) (fd : ℤ) (now : UInt64) :
    Untouched d s (getFSEntry cfg s fd now).2 :=
  (closeRule cfg fd now).getFSEntry s

theorem closeSock (fd : ℤ) (func : String) (now : UInt64) :
    Untouched file s (closeSock cfg s fd func now) :=
  ((((doUpdateState (by decide) ..).trans (doUpdateState (by decide) ..)).trans
    (doUpdateState (by decide) ..)).trans (doUpdateState (by decide) ..)).trans (setNet (by simp))

end Untouched

theorem closeRest_untouched (fd : ℤ) (func : String) (now : UInt64) (ninfo : Bool) :
    Untouched d s (closeRest cfg s fd func now ninfo) :=
  (Untouched.closeRule cfg fd now).closeRest s func ninfo

theorem closeRest_inactive (fd : ℤ) (func : String) (now : UInt64) :
    ((closeRest cfg s fd func now true).netinfo fd).active = false := by
  unfold closeRest
  dsimp only
  split <;> simp [setFs, setNet]

theorem Observed.closed {fd : ℤ} (h : Observed d (some fd) s obs) (hlive : d.live s fd = false) :
    Observed d none s obs := by
  refine ⟨h.num, h.total, fun hsum fd' _ hlive' => h.clean hsum fd' ?_ hlive', h.queue⟩
  rintro ⟨⟩
  rw [hlive] at hlive'
  cases hlive'

theorem doClose_observed (hmtc : cfg.mtcEnabled = true) (h : Observed d none s obs) (fd : ℤ)
    (func : String) (now : UInt64) (hne : ∀ o ∈ d.observed s (.doClose fd func now), o.1 ≠ 0) :
    Observed d none (doClose cfg s fd func now) (obs ++ d.observed s (.doClose fd func now)) := by
  rw [doClose_eq]
  cases d with
  | file =>
    exact h.silent rfl ((Untouched.ite (.closeSock fd func now) (.refl file s)).trans
      (closeRest_untouched fd func now _))
  | conn =>
    cases hfd : hasNetEntry s fd with
    | true =>
      simp only [observed, hfd, if_true, mem_singleton, forall_eq] at hne ⊢
      exact ((closeSock_observed hmtc h func hfd hne).untouched
        (closeRest_untouched fd func now true)).closed (closeRest_inactive fd func now)
    | false =>
      exact h.silent (by simp [observed, hfd]) (closeRest_untouched fd func now false)

/-- **One operation of an application thread.** -/
theorem step_observed (hmtc : cfg.mtcEnabled = true) (h : Observed d none s obs)
    (hop : d.fromApplication op = true) (hne : ∀ o ∈ d.observed s op, o.1 ≠ 0) :
    Observed d none (step cfg s op).1 (obs ++ d.observed s op) := by
  cases op with
  | update type fd size funcop pathname now =>
    by_cases ht : type = d.type
    · subst ht
      cases d with
      | file =>
        simp only [step, type, doUpdateState, observed]
        split
        · exact fsDuration_observed hmtc h fd size funcop pathname
        · rwa [append_nil]
      | conn => simp [fromApplication, type] at hop
    · have hnone : d.observed s (.update type fd size funcop pathname now) = [] := by
        cases d with
        | file => cases type <;> first | rfl | exact absurd rfl ht
        | conn => rfl
      exact h.silent hnone (.doUpdateState ht fd size funcop pathname now)
  | doClose fd func now => exact doClose_observed hmtc h fd func now hne
  | doOpen fd path func now =>
    simp only [step, doOpen]
    split_ifs with hfd hactive
    · have hsame : d.observed s (.doOpen fd path func now) =
          d.observed s (.doClose fd func now) := by
        cases d <;> simp [observed, hfd, hactive]
      rw [hsame] at hne ⊢
      exact (doClose_observed hmtc h fd func now hne).untouched (.openEntry fd path func now)
    · exact h.silent (by cases d <;> simp [observed, hactive]) (.openEntry fd path func now)
    · exact h.silent (by cases d <;> simp [observed, hfd]) (.refl d s)
  | addSock fd type family now =>
    have hfresh : ∀ (t : State) (net : NetInfo), net.ctr = (fun _ => {}) →
        Untouched d t (t.setNet fd net) := by
      intro t net hnet
      exact .setNet fun _ => .inl (by simp [netTimes, hnet])
    simp only [step, addSock]
    split_ifs with hfd hactive
    · have hsame : d.observed s (.addSock fd type family now) =
          d.observed s (.doClose fd "close: DuplicateSocket" now) := by
        cases d <;> rfl
      rw [hsame] at hne ⊢
      exact (doClose_observed hmtc h fd _ now hne).untouched (hfresh _ _ rfl)
    · exact h.silent (by cases d <;> simp [observed, hasNetEntry, hactive]) (hfresh _ _ rfl)
    · exact h.silent (by cases d <;> simp [observed, hasNetEntry, hfd]) (.refl d s)
  | doSetConnection sd addr isLocal now =>
    have haddr : Untouched d s (s.setNet sd (setAddr (s.netinfo sd) addr isLocal)) := by
      refine .setNet fun _ => .inr ?_
      cases isLocal <;> exact ⟨rfl, id⟩
    refine h.silent (by cases d <;> rfl) (.ite (.ite (haddr.trans ?_) haddr) (.refl d s))
    exact .doUpdateState (by cases d <;> decide) sd 1 none none now
  | doDupSock oldfd newfd now =>
    have hdup : Untouched d s (s.setNet newfd (dupEntry (s.netinfo oldfd) now)) :=
      .setNet fun _ => .inl rfl
    refine h.silent (by cases d <;> rfl) (.ite (hdup.trans ?_) (.refl d s))
    exact .doUpdateState (by cases d <;> decide) newfd 1 (some "dup") none now
  | drain | doTotal type | doTotalDuration type | reportFD fd now | setVerbosity v =>
    simp [fromApplication] at hop

/-- **A run of application threads**: what it observes is counted process-wide, and
posted if times are not summarised. -/
theorem process_observed (hmtc : cfg.mtcEnabled = true) (h : Observed d none s obs)
    {ops : List Op} (hops : ∀ op ∈ ops, d.fromApplication op = true)
    (hne : ∀ o ∈ observations cfg d s ops, o.1 ≠ 0) :
    Observed d none (process cfg s ops).1 (obs ++ observations cfg d s ops) := by
  induction ops generalizing s obs with
  | nil =>
    rw [show observations cfg d s [] = [] from rfl, append_nil]
    exact h
  | cons op ops ih =>
    obtain ⟨hop, hrest⟩ := forall_mem_cons.mp hops
    obtain ⟨hfirst, hlater⟩ := forall_mem_append.mp hne
    have hstep := ih (step_observed hmtc h hop hfirst) hrest hlater
    rwa [append_assoc] at hstep

theorem observed_init (d : Timed) (verbosity : ℕ) : Observed d none (init verbosity) [] := by
  cases d <;> exact ⟨rfl, rfl, fun _ _ _ _ => rfl, fun _ => rfl⟩

end Timed

end AppView.Metrics
