import AppView.Metrics.Timed

/-!
# Durations are reported

The time of an operation on a file is suppressed for single descriptors while `fs.read_write`
is summarised, but the total is reported only while `fs.open_close` is: at the verbosities
between the two, `fs.duration` is not reported at all.
-/

namespace AppView.Metrics

open AppView.Framework List

namespace Timed

variable {cfg : Config} {d : Timed} {s s' : State}

/-! ## Metrics of this name -/

def reports (d : Timed) (sent : List Sent) : Bool :=
  sent.any fun e => e.toMtc && e.name = d.metric

@[simp] theorem reports_nil (d : Timed) : d.reports [] = false := rfl

@[simp] theorem reports_append (d : Timed) (sent sent' : List Sent) :
    d.reports (sent ++ sent') = (d.reports sent || d.reports sent') :=
  any_append

@[simp] theorem reports_cmdSendEvent (d : Timed) (e : Sent) :
    d.reports (cmdSendEvent e) = false := by
  simp [reports, cmdSendEvent]

theorem reports_cmdSendMetric (d : Timed) (cfg : Config) (e : Sent) :
    d.reports (cmdSendMetric cfg e) = (cfg.mtcEnabled && e.name = d.metric) := by
  unfold cmdSendMetric
  cases cfg.mtcEnabled <;> simp [reports]

def Named (name : String) (sent : List Sent) : Prop :=
  ∀ e ∈ sent, e.toMtc = true → e.name = name

variable (name : String)

@[simp] theorem named_nil : Named name [] := by simp [Named]

@[simp] theorem named_append (sent sent' : List Sent) :
    Named name (sent ++ sent') ↔ Named name sent ∧ Named name sent' :=
  forall_mem_append

@[simp] theorem named_cmdSendEvent (e : Sent) : Named name (cmdSendEvent e) := by
  simp [Named, cmdSendEvent]

@[simp] theorem named_cmdSendMetric (cfg : Config) {e : Sent} (h : e.name = name) :
    Named name (cmdSendMetric cfg e) := by
  unfold cmdSendMetric
  split <;> simp [Named, h]

theorem reports_of_named {name : String} {sent : List Sent} (h : Named name sent)
    (hne : name ≠ d.metric) : d.reports sent = false := by
  refine any_eq_false.mpr fun e he => ?_
  simp only [Bool.and_eq_true, decide_eq_true_eq, not_and]
  intro hm
  rw [h e he hm]
  exact hne

def sendsTimes (cfg : Config) (summary : Summary) (d : Timed) (source : ControlType)
    (times : UInt64 × UInt64) : Bool :=
  match d with
  | file =>
    cfg.mtcEnabled && !notReported summary.fsReadWrite cfg.watchFs source &&
      meanDuration 1000 times.2 times.1 ≠ 0
  | conn =>
    cfg.mtcEnabled && cfg.srcNet && !notReported summary.netOpenClose cfg.watchNet source &&
      meanDuration 1000000 times.2 times.1 ≠ 0

theorem sendsTimes_zero (cfg : Config) (summary : Summary) (d : Timed)
    (source : ControlType) : d.sendsTimes cfg summary source (0, 0) = false := by
  have hzero : ∀ f, meanDuration f 0 0 = 0 := fun _ => rfl
  cases d <;> simp [sendsTimes, hzero]

/-! ## Files and sockets -/

section Functions

variable (cfg : Config) (summary : Summary) (ctrs : MetricCounters) (source : ControlType)

theorem named_doFSReadWrite (metric : String) (numops sizebytes : FsCtr) (c : Ctr)
    (fs : FsInfo) (op : String) :
    Named metric (doFSReadWrite cfg summary ctrs metric numops sizebytes c fs source op).sent := by
  unfold doFSReadWrite
  dsimp only
  split_ifs <;> simp

theorem named_doFSCount (summarize : Bool) {metric : String} (numops : FsCtr) (c : Ctr)
    {event : List Sent} (h : Named metric event) (fs : FsInfo) (op : String) :
    Named metric (doFSCount cfg summarize ctrs metric numops c event fs source op).sent := by
  unfold doFSCount
  dsimp only
  split_ifs <;> simp [h]

theorem reports_doFSDuration (fs : FsInfo) (op : String) :
    file.reports (doFSDuration cfg summary ctrs fs source op).sent =
      file.sendsTimes cfg summary source (fsTimes fs) := by
  unfold doFSDuration sendsTimes
  dsimp only [fsTimes]
  generalize meanDuration 1000 _ (fs.ctr .numDuration).evt = dur
  split_ifs <;> simp_all [reports_cmdSendMetric, Timed.metric]

theorem named_doFSDuration (fs : FsInfo) (op : String) :
    Named "fs.duration" (doFSDuration cfg summary ctrs fs source op).sent := by
  unfold doFSDuration
  dsimp only
  generalize meanDuration 1000 _ (fs.ctr .numDuration).evt = dur
  split_ifs <;> simp

theorem reports_doFSMetric (d : Timed) (type : MetricT) (fs : FsInfo) (op pathname : String) :
    d.reports (doFSMetric cfg summary ctrs type fs source op pathname).sent =
      (d = file && type = .fsDuration && file.sendsTimes cfg summary source (fsTimes fs)) := by
  cases type with
  | fsDuration =>
    cases d with
    | file =>
      rw [doFSMetric, reports_doFSDuration]
      simp
    | conn =>
      exact reports_of_named (named_doFSDuration cfg summary ctrs source fs op) (by decide)
  | fsRead | fsWrite =>
    rw [doFSMetric, reports_of_named (named_doFSReadWrite cfg summary ctrs source _ _ _ _ fs op)
      (by cases d <;> decide)]
    simp
  | fsOpen | fsClose =>
    have hevent : ∀ metric numops, Named metric (doFSOpenCloseEvent metric numops fs op) := by
      intro metric numops
      unfold doFSOpenCloseEvent
      split <;> simp
    rw [doFSMetric, reports_of_named
      (named_doFSCount cfg ctrs source _ _ _ (hevent _ _) fs op) (by cases d <;> decide)]
    simp
  | fsSeek =>
    rw [doFSMetric, reports_of_named
      (named_doFSCount cfg ctrs source _ _ _ (named_cmdSendEvent _ _) fs op)
      (by cases d <;> decide)]
    simp
  | _ => simp [doFSMetric]

theorem named_doNetGauge (metric units : String) (value : CountersElement) (net : NetInfo) :
    Named metric (doNetGauge cfg summary ctrs metric units value net source).sent := by
  unfold doNetGauge
  split <;> simp

theorem named_doNetOpenClose {metric : String} (ctr : Ctr) {events : List Sent}
    (h : Named metric events) (net : NetInfo) :
    Named metric (doNetOpenClose cfg summary ctrs metric ctr events net source).sent := by
  unfold doNetOpenClose
  split <;> simp [h]

theorem named_doNetOpenCloseEvent (name metric : String) (net : NetInfo) :
    Named name (doNetOpenCloseEvent metric ctrs net) := by
  unfold doNetOpenCloseEvent
  split <;> simp

variable (net : NetInfo)

theorem named_doNetRX : Named "net.rx" (doNetRX cfg summary ctrs net source).sent := by
  unfold doNetRX
  dsimp only
  split_ifs <;> simp [sendNetBytes, netBytesEvent]

theorem named_doNetTX : Named "net.tx" (doNetTX cfg summary ctrs net source).sent := by
  unfold doNetTX
  dsimp only
  split_ifs <;> simp [sendNetBytes, netBytesEvent]

theorem named_doNetDuration :
    Named "net.duration" (doNetDuration cfg summary ctrs net source).sent := by
  unfold doNetDuration
  dsimp only
  split_ifs <;> simp [named_doNetOpenCloseEvent]

theorem reports_doNetDuration : conn.reports (doNetDuration cfg summary ctrs net source).sent =
      conn.sendsTimes cfg summary source (netTimes net) := by
  have hevent : ∀ net : NetInfo,
      conn.reports (doNetOpenCloseEvent "net.close" ctrs net) = false := fun net =>
    reports_of_named (named_doNetOpenCloseEvent ctrs "net.close" _ net) (by decide)
  unfold doNetDuration sendsTimes
  dsimp only [netTimes]
  split_ifs <;> simp_all [reports_cmdSendMetric, Timed.metric]

theorem reports_doNetMetric (d : Timed) (type : MetricT) (net : NetInfo) :
    d.reports (doNetMetric cfg summary ctrs type net source).sent =
      (d = conn && type = .connectionDuration &&
        conn.sendsTimes cfg summary source (netTimes net)) := by
  cases type with
  | connectionDuration =>
    cases d with
    | conn =>
      rw [doNetMetric, reports_doNetDuration]
      simp
    | file =>
      exact reports_of_named (named_doNetDuration cfg summary ctrs source net) (by decide)
  | openPorts =>
    rw [doNetMetric, reports_of_named (named_doNetGauge cfg summary ctrs source _ _ _ net)
      (by cases d <;> decide)]
    simp
  | netConnections =>
    rw [doNetMetric, reports_of_named (named_doNetGauge cfg summary ctrs source _ _ _ net)]
    · simp
    · unfold connectionsMetric
      cases d <;> split_ifs <;> decide
  | connectionOpen =>
    rw [doNetMetric, reports_of_named (named_doNetOpenClose cfg summary ctrs source _
      (named_doNetOpenCloseEvent ctrs _ _ net) net) (by cases d <;> decide)]
    simp
  | connectionClose =>
    rw [doNetMetric, reports_of_named (named_doNetOpenClose cfg summary ctrs source _
      (named_nil _) net) (by cases d <;> decide)]
    simp
  | netrx =>
    rw [doNetMetric, reports_of_named (named_doNetRX cfg summary ctrs source net)
      (by cases d <;> decide)]
    simp
  | nettx =>
    rw [doNetMetric, reports_of_named (named_doNetTX cfg summary ctrs source net)
      (by cases d <;> decide)]
    simp
  | _ => simp [doNetMetric]

def KeepsCounts (d : Timed) (ctrs ctrs' : MetricCounters) : Prop :=
  (ctrs' d.num).mtc = (ctrs d.num).mtc ∧ (ctrs' d.total).mtc = (ctrs d.total).mtc

theorem keepsCounts_subFrom {c : Ctr} (hn : d.num ≠ c) (ht : d.total ≠ c) (x : UInt64) :
    KeepsCounts d ctrs (subFrom ctrs c x) :=
  ⟨by rw [subFrom_ne _ _ hn], by rw [subFrom_ne _ _ ht]⟩

theorem doFSMetric_keeps (d : Timed) (type : MetricT) (fs : FsInfo) (op pathname : String) :
    let r := doFSMetric cfg summary ctrs type fs source op pathname
    KeepsCounts d ctrs r.ctrs ∧ (fsTimes r.info = (0, 0) ∨ fsTimes r.info = fsTimes fs) := by
  have same : KeepsCounts d ctrs ctrs := ⟨rfl, rfl⟩
  cases type with
  | fsDuration =>
    simp only [doFSMetric, doFSDuration]
    split_ifs
    all_goals exact ⟨same, by simp [fsTimes]⟩
  | fsRead | fsWrite =>
    simp only [doFSMetric, doFSReadWrite]
    split_ifs
    all_goals first
      | exact ⟨same, .inr rfl⟩
      | exact ⟨keepsCounts_subFrom _ (by cases d <;> decide) (by cases d <;> decide) _,
          .inr (by simp [fsTimes])⟩
  | fsOpen | fsClose | fsSeek =>
    simp only [doFSMetric, doFSCount]
    split_ifs
    all_goals first
      | exact ⟨same, by simp [fsTimes]⟩
      | exact ⟨keepsCounts_subFrom _ (by cases d <;> decide) (by cases d <;> decide) _,
          by simp [fsTimes]⟩
  | _ => exact ⟨same, .inr rfl⟩

theorem doNetMetric_keeps (d : Timed) (type : MetricT) (net : NetInfo) :
    let r := doNetMetric cfg summary ctrs type net source
    KeepsCounts d ctrs r.ctrs ∧ r.info.active = net.active ∧
      (netTimes r.info = (0, 0) ∨ netTimes r.info = netTimes net) := by
  have same : KeepsCounts d ctrs ctrs := ⟨rfl, rfl⟩
  cases type with
  | openPorts | netConnections =>
    simp only [doNetMetric, doNetGauge]
    split <;> exact ⟨same, rfl, .inr rfl⟩
  | connectionOpen | connectionClose =>
    simp only [doNetMetric, doNetOpenClose]
    split
    · exact ⟨same, rfl, .inr rfl⟩
    · exact ⟨keepsCounts_subFrom _ (by cases d <;> decide) (by cases d <;> decide) _, rfl, .inr rfl⟩
  | connectionDuration =>
    simp only [doNetMetric, doNetDuration]
    split_ifs
    all_goals exact ⟨same, rfl, by simp [netTimes]⟩
  | netrx | nettx =>
    have hbucket : ∀ b, (d.num ≠ .netrxBytes b ∧ d.total ≠ .netrxBytes b) ∧
        d.num ≠ .nettxBytes b ∧ d.total ≠ .nettxBytes b := by
      intro b
      cases d <;> simp [Timed.num, Timed.total]
    simp only [doNetMetric, doNetRX, doNetTX, sendNetBytes]
    split_ifs
    all_goals first
      | exact ⟨same, rfl, .inr rfl⟩
      | exact ⟨keepsCounts_subFrom _ (hbucket _).1.1 (hbucket _).1.2 _, rfl,
          .inr (by simp [netTimes])⟩
      | exact ⟨keepsCounts_subFrom _ (hbucket _).2.1 (hbucket _).2.2 _, rfl,
          .inr (by simp [netTimes])⟩
  | _ => exact ⟨same, rfl, .inr rfl⟩

end Functions

/-! ## The reporting thread -/

def totalOps : List Op :=
  [MetricT.totRead, .totWrite, .totRx, .totTx, .totSeek, .totOpen, .totClose, .totPorts,
    .totTcpConn, .totUdpConn, .totOtherConn, .totNetOpen, .totNetClose].map .doTotal

def totalDurationOps : List Op :=
  [MetricT.totFsDuration, .totNetDuration].map .doTotalDuration

def reportAllFds (now : UInt64) : List Op :=
  (List.range fsEntries).map fun fd => .reportFD fd now

def reportPeriodicStuff (queued : ℕ) (now : UInt64) : List Op :=
  List.replicate queued .drain ++ totalOps ++ totalDurationOps ++ reportAllFds now

theorem process_append (cfg : Config) (s : State) (ops ops' : List Op) :
    process cfg s (ops ++ ops') = ((process cfg (process cfg s ops).1 ops').1,
        (process cfg s ops).2 ++ (process cfg (process cfg s ops).1 ops').2) := by
  simp [process, run_append]

theorem process_cons (cfg : Config) (s : State) (op : Op) (ops : List Op) :
    process cfg s (op :: ops) = ((process cfg (step cfg s op).1 ops).1,
        (step cfg s op).2 ++ (process cfg (step cfg s op).1 ops).2) :=
  rfl

theorem drain_times (cfg : Config) (d : Timed) {msg : Msg} {queue : List Msg}
    (hq : s.queue = msg :: queue) : d.reports (drain cfg s).2 =
      (d.posted msg).any (d.sendsTimes cfg s.summary .eventBased) ∧
    (drain cfg s).1 = { s with queue := queue, ctrs := (drain cfg s).1.ctrs } ∧
    KeepsCounts d s.ctrs (drain cfg s).1.ctrs := by
  unfold drain
  rw [hq]
  refine ⟨?_, by rw [Kind.handleMsg_state], ?_⟩
  · cases msg with
    | fs fs =>
      cases d <;> by_cases ht : fs.dataType = .fsDuration <;>
        simp [handleMsg, reports_doFSMetric, posted, ht]
    | net net =>
      cases d <;> by_cases ht : net.dataType = .connectionDuration <;>
        simp [handleMsg, reports_doNetMetric, posted, ht]
  · cases msg with
    | fs fs => exact (doFSMetric_keeps cfg _ _ _ d _ fs _ _).1
    | net net => exact (doNetMetric_keeps cfg _ _ _ d _ net).1

/-- **Emptying the queue**: the messages that carry a time are those that may be
reported. -/
theorem drains_times (cfg : Config) (d : Timed) (s : State) :
    let r := process cfg s (replicate s.queue.length .drain)
    d.reports r.2 = (s.queue.filterMap d.posted).any (d.sendsTimes cfg s.summary .eventBased) ∧
    r.1 = { s with queue := [], ctrs := r.1.ctrs } ∧ KeepsCounts d s.ctrs r.1.ctrs := by
  obtain ⟨queue, hq⟩ : ∃ queue, s.queue = queue := ⟨_, rfl⟩
  rw [hq]
  induction queue generalizing s with
  | nil =>
    obtain ⟨_, _, _, _, _⟩ := s
    cases hq
    exact ⟨rfl, rfl, rfl, rfl⟩
  | cons msg queue ih =>
    obtain ⟨hreports, hstate, hkeeps⟩ := drain_times cfg d hq
    obtain ⟨hrest, hstate', hkeeps'⟩ := ih (drain cfg s).1 (by rw [hstate])
    have hsummary : (drain cfg s).1.summary = s.summary := by rw [hstate]
    simp only [length_cons, replicate_succ, process_cons, reports_append]
    refine ⟨?_, ?_, ?_⟩
    · rw [show step cfg s .drain = drain cfg s from rfl, hreports, hrest, hsummary, filterMap_cons]
      cases d.posted msg with
      | none => rfl
      | some times => rw [any_cons, Option.any_some]
    · rw [show step cfg s .drain = drain cfg s from rfl, hstate', hstate]
    · exact ⟨hkeeps'.1.trans hkeeps.1, hkeeps'.2.trans hkeeps.2⟩

def Silent (cfg : Config) (d : Timed) (s : State) (op : Op) : Prop :=
  Untouched d s (step cfg s op).1 ∧ d.reports (step cfg s op).2 = false

theorem untouched_ctrs {ctrs : MetricCounters}
    (h : KeepsCounts d s.ctrs ctrs) : Untouched d s { s with ctrs := ctrs } :=
  .globals (f := fun _ => ctrs) h.1 h.2

theorem reportTotal_silent (cfg : Config) {metric : String} {c : Ctr}
    (hm : metric ≠ d.metric) (hn : d.num ≠ c) (ht : d.total ≠ c)
    (ctrs : MetricCounters) (units : String) (agg : DataType) (bucket : Option String) :
    let r := reportTotal cfg ctrs metric units c agg bucket
    KeepsCounts d ctrs r.1 ∧ d.reports r.2 = false := by
  unfold reportTotal
  split
  · exact ⟨⟨rfl, rfl⟩, rfl⟩
  · refine ⟨?_, reports_of_named (named_cmdSendMetric metric cfg rfl) hm⟩
    split
    · exact ⟨congrArg _ (swapMtc_ne ctrs hn), congrArg _ (swapMtc_ne ctrs ht)⟩
    · exact ⟨rfl, rfl⟩

theorem doTotal_silent (cfg : Config) (d : Timed) (s : State) (type : MetricT) :
    Silent cfg d s (.doTotal type) := by
  have quiet : KeepsCounts d s.ctrs (doTotal cfg s.summary s.ctrs type).1 ∧
      d.reports (doTotal cfg s.summary s.ctrs type).2 = false := by
    have gated : ∀ (p : Prop) [Decidable p] (r : MetricCounters × List Sent),
        KeepsCounts d s.ctrs r.1 ∧ d.reports r.2 = false →
        KeepsCounts d s.ctrs (if p then (s.ctrs, []) else r).1 ∧
          d.reports (if p then (s.ctrs, []) else r).2 = false := by
      intro p _ r h
      split
      · exact ⟨⟨rfl, rfl⟩, rfl⟩
      · exact h
    have buckets : ∀ (metric : String) (value : SockSummaryBucket → Ctr),
        metric ≠ d.metric → (∀ b, d.num ≠ value b ∧ d.total ≠ value b) →
        KeepsCounts d s.ctrs (doTotalNetRxTx cfg s.summary s.ctrs metric value).1 ∧
          d.reports (doTotalNetRxTx cfg s.summary s.ctrs metric value).2 = false := by
      intro metric value hm hc
      refine foldlRecOn allBuckets _ (motive := fun r : MetricCounters × List Sent =>
        KeepsCounts d s.ctrs r.1 ∧ d.reports r.2 = false) ⟨⟨rfl, rfl⟩, rfl⟩ ?_
      rintro r ⟨hkeeps, hreports⟩ b -
      obtain ⟨hk, hr⟩ := reportTotal_silent cfg hm (hc b).1 (hc b).2 r.1 "byte" .delta
        (some (bucketName b))
      refine ⟨⟨hk.1.trans hkeeps.1, hk.2.trans hkeeps.2⟩, ?_⟩
      rw [reports_append, hreports, Bool.false_or]
      split
      · exact hr
      · rfl
    cases type with
    | totRx | totTx =>
      apply gated
      apply buckets
      · cases d <;> decide
      · intro b
        cases d <;> simp [Timed.num, Timed.total]
    | totRead | totWrite | totSeek | totOpen | totClose | totPorts | totTcpConn
    | totUdpConn | totOtherConn | totNetOpen | totNetClose =>
      apply gated
      apply reportTotal_silent <;> cases d <;> decide
    | _ => exact ⟨⟨rfl, rfl⟩, rfl⟩
  exact ⟨untouched_ctrs quiet.1, quiet.2⟩

def totType : Timed → MetricT
  | file => .totFsDuration
  | conn => .totNetDuration

def totalMean (d : Timed) (ctrs : MetricCounters) : UInt64 :=
  if cInt (ctrs d.num).mtc.toNat ≥ 1 then
    (ctrs d.total).mtc / (UInt64.ofNat d.factor * u64 (cInt (ctrs d.num).mtc.toNat))
  else 0

def watched (cfg : Config) : Timed → Bool
  | file => cfg.watchFs
  | conn => cfg.watchNet

theorem doTotalDuration_reports (cfg : Config) (d : Timed) (s : State) :
    d.reports (step cfg s (.doTotalDuration d.totType)).2 =
      (cfg.mtcEnabled && d.totalled s.summary && d.watched cfg && d.totalMean s.ctrs ≠ 0) := by
  have report : ∀ (units : String) (agg : DataType) (factor : UInt64),
      UInt64.ofNat d.factor = factor →
      d.reports (reportTotalDuration cfg s.ctrs d.metric units d.total d.num agg factor).2 =
        (cfg.mtcEnabled && d.totalMean s.ctrs ≠ 0) := by
    rintro units agg factor rfl
    unfold reportTotalDuration
    dsimp only
    rw [show (if cInt (s.ctrs d.num).mtc.toNat ≥ 1 then
      (s.ctrs d.total).mtc / (UInt64.ofNat d.factor * u64 (cInt (s.ctrs d.num).mtc.toNat))
      else 0) = d.totalMean s.ctrs from rfl]
    split
    · rename_i h
      simp [h]
    · rename_i h
      simp [reports_cmdSendMetric, h]
  cases d with
  | file =>
    simp only [step, totType, doTotalDuration, totalled, watched]
    split
    · rename_i h
      cases ho : s.summary.fsOpenClose <;> cases hw : cfg.watchFs <;> simp [ho, hw] at h ⊢
    · rename_i h
      have h' : s.summary.fsOpenClose = true ∧ cfg.watchFs = true := by simpa using h
      rw [h'.1, h'.2, Bool.and_true, Bool.and_true]
      exact report _ _ _ rfl
  | conn =>
    simp only [step, totType, doTotalDuration, totalled, watched]
    split
    · rename_i h
      cases ho : s.summary.netOpenClose <;> cases hw : cfg.watchNet <;>
        simp [ho, hw] at h ⊢
    · rename_i h
      have h' : s.summary.netOpenClose = true ∧ cfg.watchNet = true := by simpa using h
      rw [h'.1, h'.2, Bool.and_true, Bool.and_true]
      exact report _ _ _ rfl

theorem doTotalDuration_silent (cfg : Config) (s : State) {type : MetricT}
    (h : type ≠ d.totType) : Silent cfg d s (.doTotalDuration type) := by
  have quiet : ∀ (metric units : String) (c c' : Ctr) (agg : DataType) (factor : UInt64),
      metric ≠ d.metric → (d.num ≠ c ∧ d.total ≠ c) → (d.num ≠ c' ∧ d.total ≠ c') →
      let r := reportTotalDuration cfg s.ctrs metric units c c' agg factor
      Untouched d s { s with ctrs := r.1 } ∧ d.reports r.2 = false := by
    intro metric units c c' agg factor hm hc hc'
    unfold reportTotalDuration
    dsimp only
    generalize (if cInt (s.ctrs c').mtc.toNat ≥ 1 then
      (s.ctrs c).mtc / (factor * u64 (cInt (s.ctrs c').mtc.toNat)) else 0) = dur
    split
    · exact ⟨.refl d s, rfl⟩
    · refine ⟨untouched_ctrs ⟨?_, ?_⟩, reports_of_named (named_cmdSendMetric metric cfg rfl) hm⟩
      · dsimp only
        rw [swapMtc_ne _ hc'.1, swapMtc_ne _ hc.1]
      · dsimp only
        rw [swapMtc_ne _ hc'.2, swapMtc_ne _ hc.2]
  unfold Silent
  cases type with
  | totFsDuration | totNetDuration =>
    simp only [step, doTotalDuration]
    split
    · exact ⟨.refl d s, rfl⟩
    · apply quiet <;> cases d <;> first | exact absurd rfl h | decide
  | _ => exact ⟨.refl d s, rfl⟩

/-! ## Single descriptors -/

def Idle (d : Timed) (s : State) : Prop :=
  d.summarized s.summary = false → ∀ fd, d.live s fd = true → d.entry s fd = (0, 0)

theorem Idle.untouched (h : Idle d s) (hu : Untouched d s s') : Idle d s' := by
  unfold Idle
  rw [hu.summary]
  intro hsum fd hlive
  rcases hu.entry fd with h0 | ⟨heq, hold⟩
  · exact h0
  · rw [heq]
    exact h hsum fd (hold hlive)

theorem run_silent {τ : Type} {report : State → τ → State × List Sent} {as : List τ}
    (keep : ∀ t, Untouched d s t → ∀ a ∈ as,
      Untouched d t (report t a).1 ∧ d.reports (report t a).2 = false) : ∀ t, Untouched d s t →
      Untouched d s (run report t as).1 ∧ d.reports (run report t as).2.flatten = false := by
  induction as with
  | nil => exact fun t ht => ⟨ht, rfl⟩
  | cons a as ih =>
    intro t ht
    obtain ⟨hu, hr⟩ := keep t ht a mem_cons_self
    obtain ⟨hu', hr'⟩ := ih (fun t ht a ha => keep t ht a (mem_cons_of_mem _ ha)) _
      (ht.trans hu)
    refine ⟨hu', ?_⟩
    rw [run_cons, flatten_cons, reports_append, hr, hr']
    rfl

theorem process_silent {ops : List Op}
    (keep : ∀ t, Untouched d s t → ∀ op ∈ ops, Silent cfg d t op) :
    Untouched d s (process cfg s ops).1 ∧ d.reports (process cfg s ops).2 = false :=
  run_silent keep s (.refl d s)

theorem reportNet_untouched (cfg : Config) (fd : ℤ) (s : State) (type : MetricT) :
    Untouched d s (reportNet cfg fd s type).1 := by
  obtain ⟨hkeeps, hactive, htimes⟩ :=
    doNetMetric_keeps cfg s.summary s.ctrs .periodic d type (s.netinfo fd)
  refine (untouched_ctrs hkeeps).trans (.setNet fun _ => ?_)
  rcases htimes with h0 | hsame
  · exact .inl h0
  · exact .inr ⟨hsame, fun h => by rwa [← hactive]⟩

theorem reportFs_untouched (cfg : Config) (fd : ℤ) (s : State) (x : MetricT × String) :
    Untouched d s (reportFs cfg fd s x).1 := by
  obtain ⟨hkeeps, htimes⟩ :=
    doFSMetric_keeps cfg s.summary s.ctrs .periodic d x.1 (s.fsinfo fd) x.2 ""
  exact (untouched_ctrs hkeeps).trans (.setFs fun _ => htimes)

theorem reportSocket_silent (cfg : Config) (h : Idle d s) (fd : ℤ) :
    Untouched d s (reportSocket cfg s fd).1 ∧
    d.reports (reportSocket cfg s fd).2.flatten = false := by
  rw [reportSocket]
  split
  case isFalse => exact ⟨.refl d s, rfl⟩
  rename_i hfd
  refine run_silent (fun t ht type hmem => ⟨reportNet_untouched cfg fd t type, ?_⟩) _
    (.setNet fun _ => .inr ⟨rfl, id⟩)
  simp only [reportNet, reports_doNetMetric]
  cases d with
  | file => rfl
  | conn =>
    by_cases htype : type = .connectionDuration
    · subst htype
      have hsum : s.summary.netOpenClose = false := by
        by_contra hs
        simp [netReports, hs] at hmem
      have hactive : (s.netinfo fd).active = true := (Bool.and_eq_true_iff.mp hfd).2
      have h0 : netTimes (t.netinfo fd) = (0, 0) := by
        rcases ht.entry fd with h0 | ⟨heq, -⟩
        · exact h0
        · exact heq.trans (h hsum fd hactive)
      rw [h0, sendsTimes_zero]
      rfl
    · simp [htype]

theorem reportFile_silent (cfg : Config) {found : Bool × State} (h : Idle d found.2) (fd : ℤ) :
    Untouched d found.2 (reportFile cfg fd found).1 ∧
    d.reports (reportFile cfg fd found).2.flatten = false := by
  rw [reportFile]
  split
  case isFalse => exact ⟨.refl d _, rfl⟩
  refine run_silent (fun t ht x hmem => ⟨reportFs_untouched cfg fd t x, ?_⟩) _
    (.setFs fun _ => .inr rfl)
  simp only [reportFs, reports_doFSMetric]
  cases d with
  | conn => rfl
  | file =>
    by_cases htype : x.1 = .fsDuration
    · have hsum : found.2.summary.fsReadWrite = false := by
        by_contra hs
        simp only [Bool.not_eq_false] at hs
        simp only [fsReports, hs, if_true, nil_append] at hmem
        split at hmem
        · simp at hmem
        · rw [mem_singleton.mp hmem] at htype
          cases htype
      have h0 : fsTimes (t.fsinfo fd) = (0, 0) := by
        rcases ht.entry fd with h0 | ⟨heq, -⟩
        · exact h0
        · exact heq.trans (h hsum fd rfl)
      rw [h0, sendsTimes_zero]
      simp
    · simp [htype]

/-- **A report of a descriptor** reports no time, if the entries hold none. -/
theorem reportFD_silent (h : Idle d s) (fd : ℤ) (now : UInt64) :
    Silent cfg d s (.reportFD fd now) := by
  obtain ⟨hu, hr⟩ := reportSocket_silent cfg h fd
  have hopen := hu.trans (Untouched.getFSEntry cfg fd now)
  obtain ⟨hu', hr'⟩ := reportFile_silent cfg (h.untouched hopen) fd
  simp only [Silent, step, reportFD_eq]
  refine ⟨hopen.trans hu', ?_⟩
  rw [reports_append, hr, hr']
  rfl

/-! ## A periodic report -/

theorem Idle.of_ctrs {ctrs : MetricCounters} {queue : List Msg} (h : Idle d s) :
    Idle d { s with ctrs := ctrs, queue := queue } := by
  cases d <;> exact h

theorem totalDurations_reports (cfg : Config) (d : Timed) (s : State) :
    let r := process cfg s totalDurationOps
    d.reports r.2 =
      (cfg.mtcEnabled && d.totalled s.summary && d.watched cfg && d.totalMean s.ctrs ≠ 0) ∧
    r.1 = { s with ctrs := r.1.ctrs } := by
  refine ⟨?_, rfl⟩
  simp only [totalDurationOps, map_cons, map_nil, process_cons, reports_append]
  set s₁ := (step cfg s (.doTotalDuration .totFsDuration)).1
  rw [show (process cfg (step cfg s₁ (.doTotalDuration .totNetDuration)).1 []).2 = [] from rfl,
    reports_nil, Bool.or_false]
  cases d with
  | file =>
    rw [(doTotalDuration_silent cfg s₁ (d := file) (by decide)).2, Bool.or_false]
    exact doTotalDuration_reports cfg file s
  | conn =>
    obtain ⟨hu, hr⟩ : Silent cfg conn s (.doTotalDuration .totFsDuration) :=
      doTotalDuration_silent cfg s (by decide)
    rw [hr, Bool.false_or]
    have hmean : conn.totalMean s₁.ctrs = conn.totalMean s.ctrs := by
      unfold totalMean
      rw [hu.num, hu.total]
    rw [← hmean]
    exact doTotalDuration_reports cfg conn s₁

/-- **A periodic report** reports a time for a message in the queue, or in the total. -/
theorem reportPeriodicStuff_reports (h : Idle d s) (now : UInt64) :
    d.reports (process cfg s (reportPeriodicStuff s.queue.length now)).2 =
      ((s.queue.filterMap d.posted).any (d.sendsTimes cfg s.summary .eventBased) ||
        (cfg.mtcEnabled && d.totalled s.summary && d.watched cfg && d.totalMean s.ctrs ≠ 0)) := by
  obtain ⟨hdrain, hstate, hkeeps⟩ := drains_times cfg d s
  unfold reportPeriodicStuff
  rw [process_append, process_append, process_append]
  simp only [reports_append]
  rw [hdrain]
  generalize process cfg s (replicate s.queue.length .drain) = r₁ at hstate hkeeps ⊢
  have hidle₁ : Idle d r₁.1 := by
    rw [hstate]
    exact h.of_ctrs
  have hsummary₁ : r₁.1.summary = s.summary := by rw [hstate]
  obtain ⟨hu, hr⟩ : Untouched d r₁.1 (process cfg r₁.1 totalOps).1 ∧
      d.reports (process cfg r₁.1 totalOps).2 = false := by
    refine process_silent fun t _ op hop => ?_
    obtain ⟨type, -, rfl⟩ := mem_map.mp hop
    exact doTotal_silent cfg d t type
  rw [hr, Bool.or_false]
  generalize process cfg r₁.1 totalOps = r₂ at hu ⊢
  obtain ⟨htotal, hstate'⟩ := totalDurations_reports cfg d r₂.1
  have hmean : d.totalMean r₂.1.ctrs = d.totalMean s.ctrs := by
    unfold totalMean
    rw [hu.num, hu.total, hkeeps.1, hkeeps.2]
  rw [htotal, hu.summary, hsummary₁, hmean]
  generalize process cfg r₂.1 totalDurationOps = r₃ at hstate' ⊢
  have hidle₃ : Idle d r₃.1 := by
    rw [hstate']
    exact (hidle₁.untouched hu).of_ctrs
  have hfds : d.reports (process cfg r₃.1 (reportAllFds now)).2 = false := by
    refine (process_silent fun t ht op hop => ?_).2
    obtain ⟨fd, -, rfl⟩ := mem_map.mp hop
    exact reportFD_silent (hidle₃.untouched ht) fd now
  rw [hfds, Bool.or_false]

/-! ## When times are reported -/

theorem div_ne_zero {x y : UInt64} (hy : y ≠ 0) (h : y.toNat ≤ x.toNat) : x / y ≠ 0 := by
  intro h0
  have hdiv : x.toNat / y.toNat = 0 := by
    rw [← UInt64.toNat_div, h0]
    rfl
  have hpos : 0 < y.toNat := Nat.pos_of_ne_zero (mt Kind.toNat_eq_zero.mp hy)
  exact absurd (Nat.div_pos h hpos) (by omega)

theorem sendsTimes_one (hmtc : cfg.mtcEnabled = true) (hwatch : d.watched cfg = true)
    (summary : Summary) {x : UInt64} (h : d.factor ≤ x.toNat) :
    d.sendsTimes cfg summary .eventBased (1, x) =
      (!d.summarized summary && (d = file || cfg.srcNet)) := by
  cases d with
  | file =>
    have hmean : meanDuration 1000 x 1 ≠ 0 := div_ne_zero (y := 1000) (by decide) h
    have hw : cfg.watchFs = true := hwatch
    simp [sendsTimes, notReported, hmtc, hw, hmean, summarized]
  | conn =>
    have hmean : meanDuration 1000000 x 1 ≠ 0 := div_ne_zero (y := 1000000) (by decide) h
    have hw : cfg.watchNet = true := hwatch
    simp [sendsTimes, notReported, hmtc, hw, hmean, summarized, Bool.and_comm]

theorem sendsTimes_summarized {summary : Summary} (h : d.summarized summary = true)
    (times : UInt64 × UInt64) : d.sendsTimes cfg summary .eventBased times = false := by
  cases d with
  | file =>
    have hs : summary.fsReadWrite = true := h
    simp [sendsTimes, notReported, hs]
  | conn =>
    have hs : summary.netOpenClose = true := h
    simp [sendsTimes, notReported, hs]

theorem totalMean_ne_zero {obs : List (UInt64 × Bool)} {closing : Option ℤ}
    (h : Observed d closing s obs) (hlong : ∀ o ∈ obs, d.factor ≤ o.1.toNat) :
    d.totalMean s.ctrs ≠ 0 ↔ 1 ≤ cInt (min obs.length cap) := by
  unfold totalMean
  rw [h.num]
  split
  · rename_i hn
    refine iff_of_true ?_ hn
    have hle := cInt_le (min obs.length cap)
    have hlt := cInt_lt (min obs.length cap)
    generalize cInt (min obs.length cap) = n at hn hle hlt
    have hfactor : 1 ≤ d.factor ∧ d.factor ≤ 1000000 := by cases d <;> decide
    have hsum : obs.length * d.factor ≤ (obs.map fun o => o.1.toNat).sum := by
      have := card_nsmul_le_sum (obs.map fun o => o.1.toNat) d.factor fun n hn => by
        obtain ⟨o, ho, rfl⟩ := mem_map.mp hn
        exact hlong o ho
      simpa using this
    -- the divisor does not wrap, and the sum is at least the divisor
    have hdivisor : (UInt64.ofNat d.factor * u64 n).toNat = d.factor * n.toNat := by
      rw [UInt64.toNat_mul, u64_toNat (by omega) (by omega), UInt64.toNat_ofNat',
        Nat.mod_eq_of_lt (a := d.factor) (by omega)]
      refine Nat.mod_eq_of_lt ?_
      calc d.factor * n.toNat ≤ 1000000 * n.toNat := Nat.mul_le_mul_right _ hfactor.2
        _ < 2 ^ 64 := by omega
    have hbound : d.factor * n.toNat ≤ min (obs.map fun o => o.1.toNat).sum cap := by
      refine le_min ?_ ?_
      · calc d.factor * n.toNat ≤ d.factor * obs.length :=
              Nat.mul_le_mul_left _ (by omega)
          _ = obs.length * d.factor := Nat.mul_comm _ _
          _ ≤ _ := hsum
      · calc d.factor * n.toNat ≤ 1000000 * n.toNat := Nat.mul_le_mul_right _ hfactor.2
          _ ≤ cap := by unfold cap; omega
    refine div_ne_zero ?_ ?_
    · intro h0
      rw [h0] at hdivisor
      have hpos : 0 < d.factor * n.toNat := Nat.mul_pos (by omega) (by omega)
      exact absurd hdivisor (by simpa using hpos.ne)
    · rw [hdivisor, h.total]
      exact hbound
  · rename_i hn
    simp [hn]

/-- **When a periodic report reports a time**, after any run of application threads whose
times are all at least one unit. -/
theorem periodic_reports_iff (hmtc : cfg.mtcEnabled = true) (hwatch : d.watched cfg = true)
    (hs : Observed d none s []) {ops : List Op} (hops : ∀ op ∈ ops, d.fromApplication op = true)
    (hlong : ∀ o ∈ observations cfg d s ops, d.factor ≤ o.1.toNat) (now : UInt64) :
    let r := (process cfg s ops).1
    d.reports (process cfg r (reportPeriodicStuff r.queue.length now)).2 = true ↔
      (d.summarized r.summary = false ∧ (d = file ∨ cfg.srcNet = true) ∧
        ∃ o ∈ observations cfg d s ops, o.2 = true) ∨
      (d.totalled r.summary = true ∧ 1 ≤ cInt (min (observations cfg d s ops).length cap)) := by
  intro r
  have hne : ∀ o ∈ observations cfg d s ops, o.1 ≠ 0 := by
    intro o ho h0
    have := hlong o ho
    rw [h0] at this
    cases d <;> exact absurd this (by decide)
  have h := process_observed hmtc hs hops hne
  rw [nil_append] at h
  have hidle : Idle d r := fun hsum fd => h.clean hsum fd (by simp)
  rw [reportPeriodicStuff_reports hidle, Bool.or_eq_true]
  refine or_congr ?_ ?_
  · cases hsum : d.summarized r.summary with
    | true =>
      refine iff_of_false ?_ (by simp)
      rw [Bool.not_eq_true, any_eq_false]
      intro times _
      simp [sendsTimes_summarized hsum]
    | false =>
      rw [h.queue hsum, any_map, any_filter, any_eq_true]
      constructor
      · rintro ⟨o, ho, hsent⟩
        rw [Bool.and_eq_true, Function.comp_apply,
          sendsTimes_one hmtc hwatch _ (hlong o ho)] at hsent
        simp only [hsum, Bool.not_false, Bool.true_and, Bool.or_eq_true, decide_eq_true_eq] at hsent
        exact ⟨rfl, hsent.2, o, ho, hsent.1⟩
      · rintro ⟨-, hsrc, o, ho, hposted⟩
        refine ⟨o, ho, ?_⟩
        rw [Bool.and_eq_true, Function.comp_apply, sendsTimes_one hmtc hwatch _ (hlong o ho)]
        simp only [hsum, Bool.not_false, Bool.true_and, Bool.or_eq_true, decide_eq_true_eq]
        exact ⟨hposted, hsrc⟩
  · simp only [hmtc, hwatch, Bool.true_and, Bool.and_true, Bool.and_eq_true, decide_eq_true_eq]
    exact and_congr_right fun _ => totalMean_ne_zero h hlong

theorem observations_file (cfg : Config) (s : State) (ops : List Op) :
    ∀ o ∈ observations cfg file s ops, o.2 = true := by
  induction ops generalizing s with
  | nil => exact fun o ho => absurd ho (by simp [observations, gather])
  | cons op ops ih =>
    refine forall_mem_append.mpr ⟨fun o ho => ?_, ih _⟩
    unfold observed at ho
    split at ho
    · split at ho
      · rw [mem_singleton.mp ho]
      · cases ho
    all_goals contradiction

theorem keepsVerbosity_of_application {op : Op} (h : d.fromApplication op = true) :
    op.keepsVerbosity = true := by
  cases op with
  | setVerbosity v => cases h
  | _ => rfl

end Timed

open Timed in
/-- **Durations are reported** by a periodic report after any run of application threads,
at the verbosities and under the conditions given here and at no others. -/
theorem durations_reported (cfg : Config) (hmtc : cfg.mtcEnabled = true)
    (hfs : cfg.watchFs = true) (hnet : cfg.watchNet = true) (verbosity : ℕ) (s : State)
    (hverbosity : s.summary = setVerbosity verbosity) (ops : List Op) (now : UInt64) :
    let r := (process cfg s ops).1
    let sent := (process cfg r (reportPeriodicStuff r.queue.length now)).2
    (Observed file none s [] → (∀ op ∈ ops, file.fromApplication op = true) →
      observations cfg file s ops ≠ [] →
      (∀ o ∈ observations cfg file s ops, 1000 ≤ o.1.toNat) →
      (file.reports sent = true ↔ 9 ≤ verbosity ∨ (verbosity < 6 ∧
        1 ≤ cInt (min (observations cfg file s ops).length cap)))) ∧
    (Observed conn none s [] → (∀ op ∈ ops, conn.fromApplication op = true) →
      (∀ o ∈ observations cfg conn s ops, 1000000 ≤ o.1.toNat) →
      (conn.reports sent = true ↔
        (verbosity < 7 ∧ 1 ≤ cInt (min (observations cfg conn s ops).length cap)) ∨
        (7 ≤ verbosity ∧ cfg.srcNet = true ∧ ∃ o ∈ observations cfg conn s ops, o.2 = true))) := by
  intro r sent
  have hsummary : ∀ d : Timed, (∀ op ∈ ops, d.fromApplication op = true) →
      r.summary = setVerbosity verbosity := by
    intro d hops
    rw [← hverbosity]
    exact process_summary fun op hop => keepsVerbosity_of_application (hops op hop)
  constructor
  · intro hs hops hne hlong
    have hposted : ∃ o ∈ observations cfg file s ops, o.2 = true := by
      obtain ⟨o, ho⟩ := exists_mem_of_ne_nil _ hne
      exact ⟨o, ho, observations_file cfg s ops o ho⟩
    refine (periodic_reports_iff (d := file) hmtc hfs hs hops hlong now).trans ?_
    rw [hsummary file hops]
    simp [summarized, totalled, setVerbosity, hposted]
  · intro hs hops hlong
    refine (periodic_reports_iff (d := conn) hmtc hnet hs hops hlong now).trans ?_
    rw [hsummary conn hops, or_comm]
    simp [summarized, totalled, setVerbosity]

def timedRead : Op := .update .fsDuration 3 5000 (some "read") none 1

def timedConn : List Op :=
  [.addSock 4 sockDgram afInet 1, .update .openPorts 4 1 none none 1,
    .update .netrx 4 10 none none 2, .doClose 4 "close" 3000001]

open Timed in
theorem durations_reported_verbose :
    let r := (process allOn (init 9) (timedRead :: timedConn)).1
    let sent := (process allOn r (reportPeriodicStuff r.queue.length 4000000)).2
    file.reports sent = true ∧ conn.reports sent = true := by
  have h := durations_reported allOn rfl rfl rfl 9 (init 9) rfl (timedRead :: timedConn) 4000000
  have hfile : observations allOn file (init 9) (timedRead :: timedConn) = [(5000, true)] := by
    decide
  have hconn : observations allOn conn (init 9) (timedRead :: timedConn) = [(3000000, true)] := by
    decide
  constructor
  · exact (h.1 (observed_init file 9) (by decide) (by rw [hfile]; simp)
      (by rw [hfile]; simp)).mpr (by decide)
  · exact (h.2 (observed_init conn 9) (by decide) (by rw [hconn]; simp)).mpr (by decide)

open Timed in
/-- At verbosity 6 the time of a read is reported for no descriptor and in no total; and
without events of the network the time of a connection is not reported at verbosity 9. -/
theorem durations_reported_not : (let r := (process allOn (init 6) [timedRead]).1
     file.reports (process allOn r (reportPeriodicStuff r.queue.length 2)).2 = false) ∧
    (let cfg := { allOn with srcNet := false }
     let r := (process cfg (init 9) timedConn).1
     conn.reports (process cfg r (reportPeriodicStuff r.queue.length 4000000)).2 = false) := by
  constructor
  · refine Bool.eq_false_iff.mpr fun h => ?_
    have hobs : observations allOn file (init 6) [timedRead] = [(5000, true)] := by decide
    have hiff := @periodic_reports_iff allOn file (init 6) rfl rfl (observed_init file 6)
      [timedRead] (by decide) (by rw [hobs]; simp [factor]) 2
    exact absurd (hiff.mp h) (by decide)
  · refine Bool.eq_false_iff.mpr fun h => ?_
    have hobs : observations { allOn with srcNet := false } conn (init 9) timedConn
        = [(3000000, true)] := by
      decide
    have hiff := @periodic_reports_iff { allOn with srcNet := false } conn (init 9) rfl rfl
      (observed_init conn 9) timedConn (by decide) (by rw [hobs]; simp [factor]) 4000000
    exact absurd (hiff.mp h) (by decide)

end AppView.Metrics
