import AppView.Framework.Ledger
import AppView.Metrics.Report

/-!
# `doTotal` among other threads

`doTotal` and `doTotalNetRxTx` read a counter twice, once to test it and once into
the metric, then send the metric, and then swap the counter with zero; what the swap
returns is thrown away. Here these are four steps, any number of threads take them in
any order, and the additions of the application threads come in between.
**`doTotal_alone`** says that without anything in between the steps are the `doTotal`
of `report.c`.

An amount that is added after the counter was read into the metric and before the
swap is in no metric and in no counter. **`totals_lose_no_update`**: in every run in
which each swap finds the value that was read, every amount is reported once or still
counted.
-/

namespace AppView.Metrics

open AppView.Framework List Function

/-! ## The steps -/

structure TotalJob where
  metric : String
  units : String
  value : Ctr
  /-- `aggregation_type` is `DELTA`, or `CURRENT` for a gauge. -/
  isGauge : Bool := false
  bucket : Option String := none
deriving DecidableEq, Repr

def TotalJob.aggregationType (job : TotalJob) : DataType :=
  if job.isGauge then .current else .delta

def TotalJob.evt (job : TotalJob) (v : UInt64) : Sent :=
  { name := job.metric, value := longLong v, type := job.aggregationType,
    unit := job.units, bucket := job.bucket, summary := true }

def totalJobs (cfg : Config) (summary : Summary) (type : MetricT) : List TotalJob :=
  let gated (summarize watch : Bool) (jobs : List TotalJob) :=
    if !summarize || !watch then [] else jobs
  let total (metric units : String) (value : Ctr) : List TotalJob :=
    [{ metric := metric, units := units, value := value }]
  let gauge (metric units : String) (value : Ctr) : List TotalJob :=
    [{ metric := metric, units := units, value := value, isGauge := true }]
  let buckets (metric : String) (value : SockSummaryBucket → Ctr) : List TotalJob :=
    allBuckets.map fun b =>
      { metric := metric, units := "byte", value := value b, bucket := some (bucketName b) }
  match type with
  | .totRead => gated summary.fsReadWrite cfg.watchFs (total "fs.read" "byte" .readBytes)
  | .totWrite => gated summary.fsReadWrite cfg.watchFs (total "fs.write" "byte" .writeBytes)
  | .totRx => gated summary.netRxTx cfg.watchNet (buckets "net.rx" .netrxBytes)
  | .totTx => gated summary.netRxTx cfg.watchNet (buckets "net.tx" .nettxBytes)
  | .totSeek => gated summary.fsSeek cfg.watchFs (total "fs.seek" "operation" .numSeek)
  | .totOpen => gated summary.fsOpenClose cfg.watchFs (total "fs.open" "operation" .numOpen)
  | .totClose =>
    gated summary.fsOpenClose cfg.watchFs (total "fs.close" "operation" .numClose)
  | .totPorts =>
    gated summary.netOpenClose cfg.watchNet (gauge "net.port" "instance" .openPorts)
  | .totTcpConn =>
    gated summary.netOpenClose cfg.watchNet
      (gauge "net.tcp" "connection" .netConnectionsTcp)
  | .totUdpConn =>
    gated summary.netOpenClose cfg.watchNet
      (gauge "net.udp" "connection" .netConnectionsUdp)
  | .totOtherConn =>
    gated summary.netOpenClose cfg.watchNet
      (gauge "net.other" "connection" .netConnectionsOther)
  | .totNetOpen =>
    gated summary.netOpenClose cfg.watchNet (total "net.open" "connection" .netConnOpen)
  | .totNetClose =>
    gated summary.netOpenClose cfg.watchNet (total "net.close" "connection" .netConnClose)
  | _ => []

inductive Pc : Type where
  /-- Before the test of the next counter, or outside if there is none. -/
  | test (jobs : List TotalJob)
  /-- The counter was not zero. -/
  | read (job : TotalJob) (rest : List TotalJob)
  /-- The counter was read into the event. -/
  | send (job : TotalJob) (v : UInt64) (rest : List TotalJob)
  /-- The event was sent. -/
  | swap (job : TotalJob) (v : UInt64) (rest : List TotalJob)
deriving DecidableEq, Repr

@[ext]
structure Threads (τ : Type) where
  ctrs : MetricCounters
  pc : τ → Pc

inductive ThreadAct (τ : Type) : Type where
  /-- `atomicAddU64` on the metric copy of a counter, by any thread. -/
  | add (c : Ctr) (x : UInt64)
  /-- A thread that is not in `doTotal` calls it. -/
  | doTotal (t : τ) (type : MetricT)
  /-- A thread takes its next step in `doTotal`. -/
  | advance (t : τ)

def addMtc (ctrs : MetricCounters) (c : Ctr) (x : UInt64) : MetricCounters :=
  update ctrs c { ctrs c with mtc := atomicAddU64 (ctrs c).mtc x }

section Step

variable {τ : Type} [DecidableEq τ]

def threadStep (cfg : Config) (summary : Summary) (s : Threads τ) :
    ThreadAct τ → Threads τ × List (Ctr × Sent)
  | .add c x => ({ s with ctrs := addMtc s.ctrs c x }, [])
  | .doTotal t type =>
    match s.pc t with
    | .test [] =>
      ({ s with pc := update s.pc t (.test (totalJobs cfg summary type)) }, [])
    | _ => (s, [])
  | .advance t =>
    let goto (pc : Pc) : Threads τ := { s with pc := update s.pc t pc }
    match s.pc t with
    | .test [] => (s, [])
    | .test (job :: rest) =>
      -- "Don't report zeros."
      if (s.ctrs job.value).mtc = 0 then (goto (.test rest), [])
      else (goto (.read job rest), [])
    | .read job rest => (goto (.send job (s.ctrs job.value).mtc rest), [])
    | .send job v rest => (goto (.swap job v rest), [(job.value, job.evt v)])
    | .swap job _ rest =>
      -- "Reset the info we tried to report (if it's not a gauge)"
      ({ goto (.test rest) with
          ctrs := if job.aggregationType ≠ .current then swapMtc s.ctrs job.value
            else s.ctrs }, [])

def Threads.init : Threads τ := ⟨fun _ => {}, fun _ => .test []⟩

/-! ## A thread alone -/

variable (cfg : Config) (summary : Summary)

def TotalJob.report (r : MetricCounters × List Sent) (job : TotalJob) :
    MetricCounters × List Sent :=
  let t := reportTotal cfg r.1 job.metric job.units job.value job.aggregationType job.bucket
  (t.1, r.2 ++ t.2)

open TotalJob (aggregationType report evt)

variable (x : UInt64) (c : Ctr) (ctrs : MetricCounters) (job : TotalJob) (v : UInt64)
    (rest : List TotalJob)

theorem doTotal_eq_jobs (type : MetricT) : doTotal cfg summary ctrs type =
      (totalJobs cfg summary type).foldl (report cfg) (ctrs, []) := by
  cases type with
  | totRx | totTx =>
    simp only [doTotal, totalJobs]
    split_ifs with h
    · rfl
    · obtain ⟨hsum, -⟩ : summary.netRxTx = true ∧ cfg.watchNet = true := by simpa using h
      rw [foldl_map]
      simp only [doTotalNetRxTx, hsum, if_true]
      rfl
  | totRead | totWrite | totSeek | totOpen | totClose | totPorts | totTcpConn
  | totUdpConn | totOtherConn | totNetOpen | totNetClose =>
    simp only [doTotal, totalJobs]
    split <;> rfl
  | _ => rfl

def sentBy (out : List (Ctr × Sent)) : List Sent :=
  out.flatMap fun e => cmdSendMetric cfg e.2

variable {t : τ} {s : Threads τ}

theorem job_alone (s : Threads τ) {job : TotalJob} {rest : List TotalJob}
    (h : s.pc t = .test (job :: rest)) (sent : List Sent) :
    ∃ n, let r := run (threadStep cfg summary) s (replicate n (.advance t))
      r.1.pc = update s.pc t (.test rest) ∧
      (r.1.ctrs, sent ++ sentBy cfg r.2.flatten) = job.report cfg (s.ctrs, sent) := by
  by_cases h0 : (s.ctrs job.value).mtc = 0
  · refine ⟨1, ?_, ?_⟩
    · simp [run, threadStep, h, h0]
    · simp [run, threadStep, h, h0, report, reportTotal, sentBy]
  · refine ⟨4, ?_, ?_⟩
    · simp [replicate, run, threadStep, h, h0]
    · simp [replicate, run, threadStep, h, h0, report, reportTotal, sentBy, evt]

theorem jobs_alone (s : Threads τ) {jobs : List TotalJob} (h : s.pc t = .test jobs)
    (sent : List Sent) :
    ∃ n, let r := run (threadStep cfg summary) s (replicate n (.advance t))
      r.1.pc = update s.pc t (.test []) ∧
      (r.1.ctrs, sent ++ sentBy cfg r.2.flatten) = jobs.foldl (report cfg) (s.ctrs, sent) := by
  induction jobs generalizing s sent with
  | nil => exact ⟨0, by simp [← h], by simp [sentBy]⟩
  | cons job jobs ih =>
    obtain ⟨n, hpc, hreport⟩ := job_alone cfg summary s h sent
    set r := run (threadStep cfg summary) s (replicate n (.advance t))
    obtain ⟨m, hpc', hrest⟩ := ih r.1 (by rw [hpc]; simp) (sent ++ sentBy cfg r.2.flatten)
    refine ⟨n + m, ?_⟩
    rw [replicate_add, run_append]
    refine ⟨by rw [hpc', hpc, update_idem], ?_⟩
    rw [foldl_cons, ← hreport, ← hrest]
    simp [sentBy, r]

def emittedOf (c : Ctr) (out : List (Ctr × Sent)) : ℤ :=
  ((out.filter fun e => e.1 = c ∧ e.2.type = .delta).map fun e => e.2.value).sum

def ThreadAct.added (c : Ctr) : ThreadAct τ → ℕ
  | .add d x => if d = c then x.toNat else 0
  | _ => 0

def ThreadAct.gained (c : Ctr) (s : Threads τ) : ThreadAct τ → ℕ
  | .add d x =>
    if d = c then (atomicAddU64 (s.ctrs c).mtc x).toNat - (s.ctrs c).mtc.toNat else 0
  | _ => 0

def Pc.unswapped (c : Ctr) : Pc → ℕ
  | .swap job v _ => if job.value = c ∧ job.isGauge = false then v.toNat else 0
  | _ => 0

def Pc.Unchanged (ctrs : MetricCounters) : Pc → Prop
  | .swap job v _ => job.isGauge = false → (ctrs job.value).mtc = v
  | _ => True

def Undisturbed (s : Threads τ) : ThreadAct τ → Prop
  | .advance t => (s.pc t).Unchanged s.ctrs
  | _ => True

def Fits (s : Threads τ) : ThreadAct τ → Prop
  | .add c x => (s.ctrs c).mtc.toNat + x.toNat < 2 ^ 64
  | _ => True

instance (ctrs : MetricCounters) : ∀ pc : Pc, Decidable (pc.Unchanged ctrs)
  | .swap .. => inferInstanceAs (Decidable (_ → _))
  | .test _ | .read .. | .send .. => inferInstanceAs (Decidable True)

instance (s : Threads τ) : ∀ a, Decidable (Undisturbed s a)
  | .advance t => inferInstanceAs (Decidable ((s.pc t).Unchanged s.ctrs))
  | .add _ _ | .doTotal _ _ => inferInstanceAs (Decidable True)

instance (s : Threads τ) : ∀ a, Decidable (Fits s a)
  | .add .. => inferInstanceAs (Decidable (_ < _))
  | .doTotal _ _ | .advance _ => inferInstanceAs (Decidable True)

theorem longLong_modEq : longLong x ≡ x.toNat [ZMOD 2 ^ 64] := by
  unfold longLong
  split
  · exact Int.ModEq.refl _
  · exact Int.modEq_iff_dvd.mpr ⟨1, by omega⟩

theorem emittedOf_append (out out' : List (Ctr × Sent)) :
    emittedOf c (out ++ out') = emittedOf c out + emittedOf c out' := by
  simp [emittedOf]

theorem emittedOf_evt :
    emittedOf c [(job.value, job.evt v)] ≡ (Pc.swap job v rest).unswapped c [ZMOD 2 ^ 64] := by
  by_cases h : job.value = c ∧ job.isGauge = false
  · have hout : emittedOf c [(job.value, job.evt v)] = longLong v := by
      simp [emittedOf, evt, aggregationType, h]
    rw [hout, Pc.unswapped, if_pos h]
    exact longLong_modEq v
  · have hout : emittedOf c [(job.value, job.evt v)] = 0 := by
      have hno : ¬ (job.value = c ∧ job.aggregationType = .delta) := by
        simpa [aggregationType] using h
      simp [emittedOf, evt, hno]
    rw [hout, Pc.unswapped, if_neg h]
    rfl

theorem swapped_mtc (h : job.isGauge = false → (ctrs job.value).mtc = v) :
    ((if job.aggregationType ≠ .current then swapMtc ctrs job.value else ctrs) c).mtc.toNat +
      (Pc.swap job v rest).unswapped c = (ctrs c).mtc.toNat := by
  cases hg : job.isGauge with
  | true => simp [aggregationType, Pc.unswapped, hg]
  | false =>
    rw [if_pos (by simp [aggregationType, hg])]
    by_cases hc : job.value = c
    · subst hc
      simp [Pc.unswapped, hg, h hg]
    · simp [Pc.unswapped, hc, Ne.symm hc]

variable [Fintype τ]

def Threads.unswapped (c : Ctr) (s : Threads τ) : ℕ := ∑ t, (s.pc t).unswapped c

theorem goto_conserved {c : Ctr} {pc : Pc} {ctrs : MetricCounters} {out : List (Ctr × Sent)}
    (h : emittedOf c out + (ctrs c).mtc.toNat + (s.pc t).unswapped c ≡
      (s.ctrs c).mtc.toNat + pc.unswapped c [ZMOD 2 ^ 64]) :
    emittedOf c out + (ctrs c).mtc.toNat + s.unswapped c ≡
      (s.ctrs c).mtc.toNat + Threads.unswapped c ⟨ctrs, update s.pc t pc⟩
      [ZMOD 2 ^ 64] := by
  have hgoto : Threads.unswapped c ⟨ctrs, update s.pc t pc⟩ + _ = s.unswapped c + _ :=
    sum_update (Finset.mem_univ t) (Pc.unswapped c) s.pc pc
  unfold Int.ModEq at h ⊢
  omega

variable {a : ThreadAct τ} {as : List (ThreadAct τ)} {cfg summary c} in
/-- A step that only moves a thread on. -/
theorem move_conserved (t : τ) (pc : Pc)
    (hstep : threadStep cfg summary s a = (⟨s.ctrs, update s.pc t pc⟩, []))
    (hpc : (s.pc t).unswapped c = pc.unswapped c) :
    emittedOf c (threadStep cfg summary s a).2 +
        ((threadStep cfg summary s a).1.ctrs c).mtc.toNat + s.unswapped c ≡
      (s.ctrs c).mtc.toNat + (threadStep cfg summary s a).1.unswapped c [ZMOD 2 ^ 64] := by
  rw [hstep]
  exact goto_conserved (by simp [hpc, emittedOf])

/-- **One step**: what is sent and counted after it is what was counted and is gained,
up to what is sent and not swapped yet. -/
theorem step_conserved (h : Undisturbed s a) : emittedOf c (threadStep cfg summary s a).2 +
        ((threadStep cfg summary s a).1.ctrs c).mtc.toNat + s.unswapped c ≡
      (s.ctrs c).mtc.toNat + a.gained c s + (threadStep cfg summary s a).1.unswapped c
      [ZMOD 2 ^ 64] := by
  cases a with
  | add d x =>
    have hctr : ((addMtc s.ctrs d x) c).mtc.toNat =
        (s.ctrs c).mtc.toNat + (ThreadAct.add (τ := τ) d x).gained c s := by
      by_cases hd : d = c
      · subst hd
        have := atomicAddU64_toNat (s.ctrs d).mtc x
        have := (s.ctrs d).mtc.toNat_lt
        simp only [addMtc, update_self, ThreadAct.gained, if_true]
        omega
      · simp [addMtc, ThreadAct.gained, hd, Ne.symm hd]
    simp only [threadStep, hctr]
    rw [Nat.cast_add, show emittedOf c [] = 0 from rfl, zero_add]
    rfl
  | doTotal t type =>
    simp only [ThreadAct.gained, Nat.cast_zero, add_zero]
    by_cases hpc : s.pc t = .test []
    · exact move_conserved t (.test (totalJobs cfg summary type)) (by simp [threadStep, hpc])
        (by rw [hpc]; rfl)
    · have hstep : threadStep cfg summary s (.doTotal t type) = (s, []) := by
        simp [threadStep]
      simp [hstep, emittedOf]
  | advance t =>
    simp only [ThreadAct.gained, Nat.cast_zero, add_zero]
    cases hpc : s.pc t with
    | test jobs =>
      cases jobs with
      | nil => simp [threadStep, hpc, emittedOf]
      | cons job rest =>
        by_cases h0 : (s.ctrs job.value).mtc = 0
        · exact move_conserved t (.test rest) (by simp [threadStep, hpc, h0]) (by rw [hpc]; rfl)
        · exact move_conserved t (.read job rest) (by simp [threadStep, hpc, h0]) (by rw [hpc]; rfl)
    | read job rest =>
      exact move_conserved t (.send job (s.ctrs job.value).mtc rest) (by simp [threadStep, hpc])
        (by rw [hpc]; rfl)
    | send job v rest =>
      have hstep : threadStep cfg summary s (.advance t) =
          (⟨s.ctrs, update s.pc t (.swap job v rest)⟩, [(job.value, job.evt v)]) := by
        simp [threadStep, hpc]
      rw [hstep]
      refine goto_conserved ?_
      have hnone : (s.pc t).unswapped c = 0 := by rw [hpc]; rfl
      rw [hnone, Nat.cast_zero, add_zero, add_comm]
      exact (emittedOf_evt c job v rest).add_left _
    | swap job v rest =>
      have hread : (s.pc t).Unchanged s.ctrs := h
      rw [hpc] at hread
      have hswap := swapped_mtc c s.ctrs job v rest hread
      have hstep : threadStep cfg summary s (.advance t) =
          (⟨if job.aggregationType ≠ .current then swapMtc s.ctrs job.value else s.ctrs,
            update s.pc t (.test rest)⟩, []) := by
        simp [threadStep, hpc]
      rw [hstep]
      refine goto_conserved ?_
      rw [hpc, ← hswap]
      simp [emittedOf, Pc.unswapped]

/-- **A run**: what is sent and counted is what was gained, up to what is sent and not
swapped yet. -/
theorem run_conserved (h : Along (threadStep cfg summary) Undisturbed s as) :
    let r := run (threadStep cfg summary) s as
    emittedOf c r.2.flatten + (r.1.ctrs c).mtc.toNat + s.unswapped c ≡ (s.ctrs c).mtc.toNat +
        sumAlong (threadStep cfg summary) (fun s a => a.gained c s) s as + r.1.unswapped c
      [ZMOD 2 ^ 64] := by
  induction as generalizing s with
  | nil => simp [emittedOf]
  | cons a as ih =>
    have hstep := step_conserved cfg summary c h.1
    have hrest := ih h.2
    simp only [run_cons, sumAlong_cons, flatten_cons, emittedOf_append] at hrest ⊢
    unfold Int.ModEq at hstep hrest ⊢
    omega

omit [DecidableEq τ] [Fintype τ] in
theorem gained_of_fits (h : Fits s a) : a.gained c s = a.added c := by
  cases a with
  | add d x =>
    simp only [ThreadAct.gained, ThreadAct.added]
    split
    · rename_i hd
      subst hd
      have hfits : (s.ctrs d).mtc.toNat + x.toNat < 2 ^ 64 := h
      have := atomicAddU64_toNat (s.ctrs d).mtc x
      omega
    · rfl
  | doTotal t type | advance t => rfl

omit [Fintype τ] in
theorem gainedIn_of_fits (h : Along (threadStep cfg summary) Fits s as) :
    sumAlong (threadStep cfg summary) (fun s a => a.gained c s) s as =
      (as.map (ThreadAct.added c)).sum := by
  induction as generalizing s with
  | nil => rfl
  | cons a as ih =>
    rw [sumAlong_cons, map_cons, sum_cons, gained_of_fits c h.1, ih h.2]

def Threads.Swapped (c : Ctr) (s : Threads τ) : Prop := ∀ t, (s.pc t).unswapped c = 0

instance (c : Ctr) (s : Threads τ) : Decidable (s.Swapped c) :=
  inferInstanceAs (Decidable (∀ t, (s.pc t).unswapped c = 0))

end Step

/-- **Totals lose no update**, for any number of threads and in any order of their steps,
if each swap finds the value that was read: what is sent and what is still counted is what
was added, as far as the counter can hold it. -/
theorem totals_lose_no_update {τ : Type} [DecidableEq τ] [Fintype τ] (cfg : Config)
    (summary : Summary) {as : List (ThreadAct τ)}
    (h : Along (threadStep cfg summary) Undisturbed Threads.init as) (c : Ctr) :
    let r := run (threadStep cfg summary) Threads.init as
    r.1.Swapped c →
    emittedOf c r.2.flatten + (r.1.ctrs c).mtc.toNat ≡
      sumAlong (threadStep cfg summary) (fun s a => a.gained c s) Threads.init as
      [ZMOD 2 ^ 64] ∧
    (Along (threadStep cfg summary) Fits Threads.init as →
      emittedOf c r.2.flatten + (r.1.ctrs c).mtc.toNat ≡
        (as.map (ThreadAct.added c)).sum [ZMOD 2 ^ 64]) := by
  intro r hswapped
  have hrun : _ ≡ _ [ZMOD 2 ^ 64] := run_conserved cfg summary c h
  have hend : r.1.unswapped c = 0 := Finset.sum_eq_zero fun t _ => hswapped t
  have hstart : (Threads.init : Threads τ).unswapped c = 0 :=
    Finset.sum_eq_zero fun t _ => rfl
  have hzero : (((Threads.init : Threads τ).ctrs c).mtc.toNat : ℤ) = 0 := rfl
  rw [hend, hstart, hzero, Nat.cast_zero, add_zero, add_zero, zero_add] at hrun
  refine ⟨hrun, fun hfits => ?_⟩
  rw [← gainedIn_of_fits cfg summary c hfits]
  exact hrun

def undisturbed : List (ThreadAct (Fin 2)) :=
  [.add .readBytes 10, .doTotal 0 .totRead, .advance 0, .add .readBytes 5, .advance 0,
    .advance 0, .doTotal 1 .totRx, .add (.netrxBytes .inetTcp) 7, .advance 0, .advance 1]

theorem totals_lose_no_update_undisturbed :
    let r := run (threadStep allOn (setVerbosity 4)) Threads.init undisturbed
    emittedOf .readBytes r.2.flatten + (r.1.ctrs .readBytes).mtc.toNat ≡
      (undisturbed.map (ThreadAct.added .readBytes)).sum [ZMOD 2 ^ 64] :=
  (totals_lose_no_update allOn (setVerbosity 4) (by decide) .readBytes (by decide)).2 (by decide)

/-- Five bytes are read after the counter was read into the metric and before it is
swapped with zero. -/
theorem totals_lose_no_update_lost : let as : List (ThreadAct (Fin 1)) :=
      [.add .readBytes 10, .doTotal 0 .totRead, .advance 0, .advance 0, .add .readBytes 5,
        .advance 0, .advance 0]
    let r := run (threadStep allOn (setVerbosity 4)) Threads.init as
    r.1.Swapped .readBytes ∧ emittedOf .readBytes r.2.flatten = 10 ∧
      (r.1.ctrs .readBytes).mtc = 0 ∧ (as.map (ThreadAct.added .readBytes)).sum = 15 := by
  decide

end AppView.Metrics
